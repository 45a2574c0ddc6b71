import Workbench.Workspaces
import Workbench.Records
import Workbench.Json

/-!
# Reviewer decisions

A decision is a chain of revisions. The current one carries the authority: a
link or an accepted record reserves its records by claims, a rejected
candidate reserves nothing. Commands run under a lock of their book, compare
its resolution generation with the one the reviewer saw, and raise it.
-/

set_option autoImplicit false

namespace Workbench.Decisions
open Workbench.Listing Workbench.Tables Workbench.Calendar Workbench.Workspaces Workbench.Records
open Workbench.Json
open Workbench.Raising (demand fetch)

/-- The canonical text of a UUID: hexadecimal digits and dashes. -/
structure Uuid where
  text : String
  text_nonblank : nonblank text = true
  text_plain : NulFree text

theorem Uuid.text_injective : Function.Injective Uuid.text := by
  intro a b h
  cases a
  cases b
  simp only at h
  subst h
  rfl

instance uuid_decidableEq : DecidableEq Uuid := fun a b =>
  decidable_of_iff (a.text = b.text) ⟨fun h => Uuid.text_injective h, fun h => h ▸ rfl⟩

inductive DecisionAction where
  | link
  | acceptUnmatched
  | rejectCandidate
  | reaffirm
  | revoke
  | replace
deriving DecidableEq, Repr

structure Endpoints where
  left : Uuid
  right : Uuid
  distinct : left ≠ right
deriving DecidableEq

inductive DecisionAuthority where
  | link (pair : Endpoints)
  | acceptUnmatched (record : Uuid) (side : RecordSide)
  | rejectCandidate (pair : Endpoints)
deriving DecidableEq

def DecisionAuthority.endpointIds : DecisionAuthority → List Uuid
  | .link pair => [pair.left, pair.right]
  | .acceptUnmatched record _ => [record]
  | .rejectCandidate pair => [pair.left, pair.right]

def DecisionAuthority.reservesEndpoints : DecisionAuthority → Bool
  | .rejectCandidate _ => false
  | _ => true

def DecisionAuthority.action : DecisionAuthority → DecisionAction
  | .link _ => .link
  | .acceptUnmatched _ _ => .acceptUnmatched
  | .rejectCandidate _ => .rejectCandidate

theorem endpointIds_nodup (a : DecisionAuthority) : a.endpointIds.Nodup := by
  cases a with
  | link pair => simp [DecisionAuthority.endpointIds, pair.distinct]
  | acceptUnmatched record side => simp [DecisionAuthority.endpointIds]
  | rejectCandidate pair => simp [DecisionAuthority.endpointIds, pair.distinct]

structure ExpectedDecisionRevision where
  decisionId : Uuid
  revisionId : Uuid
deriving DecidableEq

def ExpectedDecisionRevision.order (e : ExpectedDecisionRevision) : String ×ₗ String :=
  toLex (e.decisionId.text, e.revisionId.text)

/-- What a command asks for, with what its action requires. -/
inductive Request where
  | initial (authority : DecisionAuthority)
  | reaffirm (target : ExpectedDecisionRevision)
  | revoke (target : ExpectedDecisionRevision)
  | replace (target : ExpectedDecisionRevision) (authority : DecisionAuthority)
      (approvedConflicts : List ExpectedDecisionRevision)
deriving DecidableEq

def Request.action : Request → DecisionAction
  | .initial authority => authority.action
  | .reaffirm _ => .reaffirm
  | .revoke _ => .revoke
  | .replace .. => .replace

def Request.Reviewed : Request → ℕ → Prop
  | .initial authority, n => n = authority.endpointIds.length
  | .reaffirm _, n => 1 ≤ n ∧ n ≤ 2
  | .revoke _, n => n = 0
  | .replace _ authority _, n => n = authority.endpointIds.length

/-- The conflicts a replacement approves name each decision once and not the
target. -/
def Request.Conflicts : Request → Prop
  | .replace target _ conflicts => (conflicts.map (·.decisionId)).Nodup ∧
      target.decisionId ∉ conflicts.map (·.decisionId)
  | _ => True

structure DecisionCommand where
  request : Request
  reason : String
  actor : String
  expectedResolutionGeneration : ℕ
  reviewedObservationIds : List Uuid
  reason_text : nonblank reason = true
  actor_text : nonblank actor = true
  reviewed_distinct : reviewedObservationIds.Nodup
  reviewed_length : request.Reviewed reviewedObservationIds.length
  conflicts_valid : request.Conflicts

inductive ReviewConflictCode where
  | staleGeneration
  | staleRevision
  | endpointClaimed
  | conflictSetChanged
deriving DecidableEq, Repr

inductive DecisionFailure where
  | mutationUnavailable
  | initialActionRequired
  | conflict (code : ReviewConflictCode) (affected : List ExpectedDecisionRevision)
  | integrity
deriving DecidableEq

structure Book where
  id : ℕ
  workspace : ℕ
  resolutionGeneration : ℕ
deriving DecidableEq

structure Scope where
  id : ℕ
  workspace : ℕ
  book : ℕ
  isDirty : Bool
  generation : ℕ
deriving DecidableEq

/-- A logical transaction with the book and the role of its book source. -/
structure LogicalTransaction where
  id : Uuid
  workspace : ℕ
  book : ℕ
  role : RecordSide
deriving DecidableEq

structure TransactionObservation where
  id : Uuid
  workspace : ℕ
  logicalTransaction : Uuid
  fingerprint : String
deriving DecidableEq

structure Decision where
  id : Uuid
  workspace : ℕ
  book : ℕ
  currentRevision : Uuid
  createdAt : Instant
deriving DecidableEq

structure DecisionRevision where
  id : Uuid
  workspace : ℕ
  decision : Uuid
  predecessor : Option Uuid
  revision : ℕ
  action : DecisionAction
  authority : Option DecisionAuthority
  reason : String
  actor : String
  reviewedObservationIds : List Uuid
  reviewedEvidenceDigest : Option String
  createdAt : Instant
deriving DecidableEq

structure DecisionSupersession where
  workspace : ℕ
  replacement : Uuid
  superseded : Uuid
  createdAt : Instant
deriving DecidableEq

structure ActiveDecisionClaim where
  workspace : ℕ
  book : ℕ
  logicalTransaction : Uuid
  decisionRevision : Uuid
deriving DecidableEq

structure Store where
  workspaces : List Workspace
  books : List Book
  scopes : List Scope
  logicals : List LogicalTransaction
  observations : List TransactionObservation
  decisions : List Decision
  revisions : List DecisionRevision
  supersessions : List DecisionSupersession
  claims : List ActiveDecisionClaim

def Store.empty : Store := ⟨[], [], [], [], [], [], [], [], []⟩

def requireActiveWorkspace (workspace : ℕ) (now : Instant) (s : Store) :
    Except DecisionFailure Unit := do
  let w ← fetch .mutationUnavailable (lookup Workspace.id s.workspaces workspace)
  demand (w.accessAllowed now) .mutationUnavailable

def lockedBook (workspace book : ℕ) (s : Store) : Except DecisionFailure Book :=
  fetch .mutationUnavailable (s.books.find? fun b => b.id = book && b.workspace = workspace)

def requireGeneration (b : Book) (command : DecisionCommand) : Except DecisionFailure Unit :=
  demand (b.resolutionGeneration = command.expectedResolutionGeneration)
    (.conflict .staleGeneration [])

def logicalOf (workspace : ℕ) (s : Store) (id : Uuid) : Option LogicalTransaction :=
  s.logicals.find? fun l => l.id = id && l.workspace = workspace

def expectedRoles : DecisionAuthority → List RecordSide
  | .acceptUnmatched _ side => [side]
  | _ => [.left, .right]

/-- `_resolve_authority`. -/
def resolveAuthority (workspace book : ℕ) (authority : DecisionAuthority) (s : Store) :
    Except DecisionFailure (List LogicalTransaction) := do
  let logicals ← authority.endpointIds.mapM fun id =>
    fetch .mutationUnavailable (logicalOf workspace s id)
  demand (logicals.all fun l => l.book = book) .mutationUnavailable
  demand (logicals.map (·.role) = expectedRoles authority) .mutationUnavailable
  .ok logicals

/-- `_resolve_reviewed_observations`: each reviewed observation is one of the
records of the authority, and every record is reviewed. -/
def resolveReviewed (workspace : ℕ) (command : DecisionCommand)
    (logicals : List LogicalTransaction) (s : Store) :
    Except DecisionFailure (List TransactionObservation) := do
  let observations := sortOn (·.id.text) (s.observations.filter fun o =>
    o.id ∈ command.reviewedObservationIds && o.workspace = workspace)
  demand (observations.length = command.reviewedObservationIds.length) .mutationUnavailable
  demand (observations.all fun o => o.logicalTransaction ∈ logicals.map (·.id))
    .mutationUnavailable
  demand (logicals.all fun l => l.id ∈ observations.map (·.logicalTransaction))
    .mutationUnavailable
  .ok observations

def revisionOf (s : Store) (id : Uuid) : Option DecisionRevision :=
  lookup DecisionRevision.id s.revisions id

def superseded (s : Store) (revision : Uuid) : Bool :=
  s.supersessions.any fun p => p.superseded = revision

def live (s : Store) (r : DecisionRevision) : Bool :=
  r.action ≠ .revoke && !superseded s r.id

/-- `_current_revision`. -/
def currentRevision (workspace book : ℕ) (target : ExpectedDecisionRevision) (s : Store) :
    Except DecisionFailure DecisionRevision := do
  let decision ← fetch .mutationUnavailable (s.decisions.find? fun d =>
    d.id = target.decisionId && d.workspace = workspace && d.book = book)
  let current ← fetch .mutationUnavailable (revisionOf s decision.currentRevision)
  demand (current.id = target.revisionId)
    (.conflict .staleRevision [⟨decision.id, current.id⟩])
  demand (live s current = true) (.conflict .staleRevision [])
  .ok current

structure DecisionConflict where
  decisionId : Uuid
  revisionId : Uuid
  claimedRecordIds : List Uuid
deriving DecidableEq

def DecisionConflict.expected (c : DecisionConflict) : ExpectedDecisionRevision :=
  ⟨c.decisionId, c.revisionId⟩

/-- `_claim_conflicts`: the revisions of other decisions that claim one of the
records, each with all it claims. -/
def claimConflicts (workspace book : ℕ) (authority : DecisionAuthority)
    (excluding : Option Uuid) (s : Store) : List DecisionConflict :=
  if authority.reservesEndpoints then
    let own := s.claims.filter fun c => c.workspace = workspace && c.book = book
    let overlapping := (own.filter fun c => c.logicalTransaction ∈ authority.endpointIds).map
      (·.decisionRevision)
    let revisions := overlapping.dedup.filterMap (revisionOf s)
    sortOn (·.expected.order) ((revisions.filter fun r => excluding ≠ some r.decision).map
      fun r => ⟨r.decision, r.id, sortOn Uuid.text
        ((own.filter fun c => c.decisionRevision = r.id).map (·.logicalTransaction))⟩)
  else []

/-- `_reviewed_evidence_digest`. -/
def reviewedEvidenceDigest (digest : Digest) (observations : List TransactionObservation) :
    String :=
  digest.hexdigest (dumps (.object [
    ("observations", .array ((sortOn (·.id.text) observations).map fun o => .object [
      ("fingerprint", .text o.fingerprint),
      ("logical_transaction_id", .text o.logicalTransaction.text),
      ("observation_id", .text o.id.text)])),
    ("version", .text "reviewed-evidence-v1")]))

def addRevision (r : DecisionRevision) (s : Store) : Except DecisionFailure Store := do
  demand (r.id ∉ s.revisions.map (·.id)) .integrity
  demand (∀ old ∈ s.revisions, old.decision = r.decision → old.revision ≠ r.revision) .integrity
  demand (r.predecessor = none ∨ r.predecessor ∉ s.revisions.map (·.predecessor)) .integrity
  .ok { s with revisions := s.revisions ++ [r] }

def claimsOf (workspace book : ℕ) (authority : DecisionAuthority) (revision : Uuid) :
    List ActiveDecisionClaim :=
  if authority.reservesEndpoints then
    authority.endpointIds.map fun id => ⟨workspace, book, id, revision⟩
  else []

def addClaims (workspace book : ℕ) (authority : DecisionAuthority) (revision : Uuid)
    (s : Store) : Except DecisionFailure Store := do
  let claims := claimsOf workspace book authority revision
  demand (∀ c ∈ claims, ∀ old ∈ s.claims,
    ¬(old.book = c.book ∧ old.logicalTransaction = c.logicalTransaction))
    (.conflict .endpointClaimed [])
  .ok { s with claims := s.claims ++ claims }

def setCurrent (decision revision : Uuid) (s : Store) : Store :=
  { s with decisions :=
      revise Decision.id decision (fun d => { d with currentRevision := revision }) s.decisions }

def bump (workspace book : ℕ) (s : Store) : Store :=
  { s with
    books := revise Book.id book
      (fun b => { b with resolutionGeneration := b.resolutionGeneration+1 }) s.books
    scopes := s.scopes.map fun p =>
      if p.workspace = workspace ∧ p.book = book then
        { p with isDirty := true, generation := p.generation+1 }
      else p }

def dropClaims (workspace book : ℕ) (revisions : List Uuid) (s : Store) : Store :=
  { s with claims := s.claims.filter fun c =>
      !(c.workspace = workspace && c.book = book && c.decisionRevision ∈ revisions) }

def moveClaims (workspace book : ℕ) (old new : Uuid) (s : Store) : Store :=
  { s with claims := s.claims.map fun c =>
      if c.workspace = workspace ∧ c.book = book ∧ c.decisionRevision = old then
        { c with decisionRevision := new }
      else c }

def supersede (workspace : ℕ) (replacement : Uuid) (revisions : List Uuid) (now : Instant)
    (s : Store) : Except DecisionFailure Store := do
  demand (revisions.Nodup ∧ replacement ∉ revisions) .integrity
  .ok { s with supersessions :=
      s.supersessions ++ revisions.map fun r => ⟨workspace, replacement, r, now⟩ }

/-- `commit_initial`; the ids are those drawn for the new rows. -/
def commitInitial (digest : Digest) (workspace book : ℕ) (command : DecisionCommand)
    (now : Instant) (decisionId revisionId : Uuid) (s : Store) :
    Except DecisionFailure Store :=
  match command.request with
  | .initial authority => do
    requireActiveWorkspace workspace now s
    let b ← lockedBook workspace book s
    requireGeneration b command
    let logicals ← resolveAuthority workspace book authority s
    let observations ← resolveReviewed workspace command logicals s
    let conflicts := claimConflicts workspace book authority none s
    demand (conflicts = []) (.conflict .endpointClaimed (conflicts.map (·.expected)))
    demand (decisionId ∉ s.decisions.map (·.id)) .integrity
    let s ← addRevision ⟨revisionId, workspace, decisionId, none, 1, authority.action,
      some authority, strip command.reason, strip command.actor, observations.map (·.id),
      some (reviewedEvidenceDigest digest observations), now⟩
      { s with decisions := s.decisions ++ [⟨decisionId, workspace, book, revisionId, now⟩] }
    let s ← addClaims workspace book authority revisionId s
    .ok (bump workspace book s)
  | _ => .error .initialActionRequired

/-- The next revision of a decision, as `_create_lifecycle_revision` builds it. -/
def lifecycleRevision (digest : Digest) (workspace : ℕ) (current : DecisionRevision)
    (command : DecisionCommand) (authority : Option DecisionAuthority)
    (observations : List TransactionObservation) (now : Instant) (revisionId : Uuid) :
    DecisionRevision :=
  ⟨revisionId, workspace, current.decision, some current.id, current.revision+1,
    command.request.action, authority, strip command.reason, strip command.actor,
    observations.map (·.id),
    if observations = [] then none else some (reviewedEvidenceDigest digest observations), now⟩

/-- `commit_change`. -/
def commitChange (digest : Digest) (workspace book : ℕ) (command : DecisionCommand)
    (now : Instant) (revisionId : Uuid) (s : Store) : Except DecisionFailure Store := do
  let target ← fetch .initialActionRequired (match command.request with
    | .initial _ => none
    | .reaffirm target => some target
    | .revoke target => some target
    | .replace target _ _ => some target)
  requireActiveWorkspace workspace now s
  let b ← lockedBook workspace book s
  requireGeneration b command
  let current ← currentRevision workspace book target s
  let inherited ← fetch .integrity current.authority
  match command.request with
  | .initial _ => .error .initialActionRequired
  | .reaffirm _ => do
    let logicals ← resolveAuthority workspace book inherited s
    let observations ← resolveReviewed workspace command logicals s
    let s ← addRevision (lifecycleRevision digest workspace current command (some inherited)
      observations now revisionId) s
    .ok (bump workspace book (setCurrent current.decision revisionId
      (moveClaims workspace book current.id revisionId s)))
  | .revoke _ => do
    let s ← addRevision (lifecycleRevision digest workspace current command none [] now
      revisionId) s
    .ok (bump workspace book (setCurrent current.decision revisionId
      (dropClaims workspace book [current.id] s)))
  | .replace _ authority approvedConflicts => do
    let logicals ← resolveAuthority workspace book authority s
    let observations ← resolveReviewed workspace command logicals s
    let conflicts := claimConflicts workspace book authority (some current.decision) s
    let actual := conflicts.map (·.expected)
    demand (actual = sortOn (·.order) approvedConflicts) (.conflict .conflictSetChanged actual)
    let s ← addRevision (lifecycleRevision digest workspace current command (some authority)
      observations now revisionId) s
    let gone := current.id :: conflicts.map (·.revisionId)
    let s ← supersede workspace revisionId gone now s
    let s ← addClaims workspace book authority revisionId (dropClaims workspace book gone s)
    .ok (bump workspace book (setCurrent current.decision revisionId s))

/-- A decision command, or anything the other services do to the tables that
decisions refer to. -/
inductive Command where
  | initial (workspace book : ℕ) (command : DecisionCommand) (now : Instant)
      (decisionId revisionId : Uuid)
  | change (workspace book : ℕ) (command : DecisionCommand) (now : Instant) (revisionId : Uuid)
  | elsewhere (workspaces : List Workspace) (books : List Book) (scopes : List Scope)
      (logicals : List LogicalTransaction) (observations : List TransactionObservation)

def perform (digest : Digest) (s : Store) : Command → Except DecisionFailure Store
  | .initial workspace book command now decisionId revisionId =>
    commitInitial digest workspace book command now decisionId revisionId s
  | .change workspace book command now revisionId =>
    commitChange digest workspace book command now revisionId s
  | .elsewhere workspaces books scopes logicals observations =>
    .ok { s with
      workspaces := workspaces
      books := books
      scopes := scopes
      logicals := logicals
      observations := observations }

def call (digest : Digest) (s : Store) (c : Command) : Store := settle s (perform digest s c)

def reached (digest : Digest) (cs : List Command) : Store :=
  cs.foldl (call digest) Store.empty

end Workbench.Decisions
