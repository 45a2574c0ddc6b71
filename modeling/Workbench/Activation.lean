import Workbench.Observations
import Workbench.Dictionaries
import Workbench.Fingerprints

/-!
# Previews and activations

A preview freezes the head of its dataset as the base it expects. Activation
resolves the members of the next state from the base and the rows of the
preview, compares their hash with the states the dataset has had, and makes a
revision with its memberships, or none. It moves the head and marks the scopes
of the dataset in the same transaction.
-/

set_option autoImplicit false

namespace Workbench.Activation
open Workbench.Listing Workbench.Tables Workbench.Calendar Workbench.Dictionaries
open Workbench.Workspaces Workbench.Records Workbench.Ingestion Workbench.Interpretation
open Workbench.Observations Workbench.Fingerprints
open Workbench.Raising (demand fetch)

inductive AttemptState where
  | received
  | parsing
  | ready
  | rejected
  | activated
  | noChange
  | replayed
deriving DecidableEq, Repr

structure Book where
  id : ℕ
  workspace : ℕ
  generation : ℕ
deriving DecidableEq

structure Scope where
  id : ℕ
  workspace : ℕ
  leftDataset : ℕ
  rightDataset : ℕ
  generation : ℕ
  isDirty : Bool
deriving DecidableEq

structure BookSource where
  id : ℕ
  book : ℕ
  source : ℕ
deriving DecidableEq

structure Dataset where
  id : ℕ
  workspace : ℕ
  bookSource : BookSource
  current : Option ℕ
deriving DecidableEq

structure ContractRevision where
  source : ℕ
  contract : SourceContract
  digest : String

structure FileArtifact where
  header : List String
  lines : List (List String)

structure Attempt where
  id : ℕ
  workspace : ℕ
  dataset : ℕ
  artifact : FileArtifact
  contractRevision : ContractRevision
  expectedBase : Option ℕ
  state : AttemptState
  rowCount : ℕ
  errorCount : ℕ
  validation : List RowIssue
  activationReason : Option String

structure RawRow where
  attempt : ℕ
  rowNumber : ℕ
  preview : Option Preview
  validation : List RowIssue

structure LogicalTransaction where
  id : ℕ
  workspace : ℕ
  bookSource : ℕ
  sourceRecordKey : String
deriving DecidableEq

structure TransactionObservation where
  id : ℕ
  logical : ℕ
  attempt : ℕ
  rowNumber : ℕ
  row : StoredRow
  fingerprint : String
deriving DecidableEq

/-- A revision and its memberships belong to the workspace of the dataset. -/
structure DatasetRevision where
  id : ℕ
  dataset : ℕ
  parent : Option ℕ
  attempt : ℕ
  stateHash : String
deriving DecidableEq

structure DatasetMembership where
  revision : ℕ
  logical : ℕ
  observation : ℕ
deriving DecidableEq

/-- What a service has read and not yet acted on: the head of a dataset, or the
state of an attempt. -/
inductive Reading where
  | head (dataset : ℕ) (base : Option ℕ)
  | attempt (id : ℕ) (state : AttemptState)
deriving DecidableEq

structure Store where
  workspaces : List Workspace
  books : List Book
  scopes : List Scope
  datasets : List Dataset
  attempts : List Attempt
  rawRows : List RawRow
  logicals : List LogicalTransaction
  observations : List TransactionObservation
  revisions : List DatasetRevision
  memberships : List DatasetMembership
  readings : List Reading

inductive ActivationFailure where
  | refused (refusal : Refusal)
  | workspaceUnavailable
  | resourceUnavailable
  | scopeUnavailable
  | attemptNotReady
  | stalePreview
  | invalidPreviewEvidence
  | invalidRestoreReason
  | importStateConflict
  | domainValidation
  | integrity
deriving DecidableEq

structure Observed where
  rowNumber : ℕ
  canonical : CanonicalRow
  fingerprint : String

def Observed.key (o : Observed) : String := o.canonical.sourceRecordKey

/-- A member of the state to come: the stored pair when there is one already,
and the fingerprint of its observation. -/
structure Member where
  key : String
  stored : Option (ℕ × ℕ)
  fingerprint : String
deriving DecidableEq

inductive Evidence where
  | retracted (key : String)
  | observed (o : Observed)

def Evidence.key : Evidence → String
  | .retracted key => key
  | .observed o => o.key

def Evidence.observed? : Evidence → Option Observed
  | .retracted _ => none
  | .observed o => some o

def Evidence.update : Evidence → Update Member.key
  | .retracted key => .unset key
  | .observed o => .set ⟨o.key, none, o.fingerprint⟩

def previewOperation : Preview → Option (String × IngestionOperation)
  | .complete payload => some (payload.sourceRecordKey, payload.operation)
  | .retraction _ key _ => some (key, .retract)
  | .incomplete _ _ => none

def readEvidence (sha : Sha256) (mode : DatasetMode) (digest : String) (raw : RawRow) :
    Except ActivationFailure Evidence := do
  demand (raw.validation = []) .invalidPreviewEvidence
  let preview ← fetch .invalidPreviewEvidence raw.preview
  let named ← fetch .invalidPreviewEvidence (previewOperation preview)
  demand (nonblank named.1 = true) .invalidPreviewEvidence
  demand (preview.rowNumber = raw.rowNumber) .invalidPreviewEvidence
  demand (mode = .fullSnapshot ↔ named.2 = .snapshot) .invalidPreviewEvidence
  match preview with
  | .complete payload =>
    if payload.operation = .retract then .ok (.retracted named.1)
    else do
      let canonical ← fetch .invalidPreviewEvidence (canonicalFromPayload payload)
      let fingerprint ← fetch .domainValidation (observationFingerprint sha digest canonical)
      .ok (.observed ⟨raw.rowNumber, canonical, fingerprint⟩)
  | _ => .ok (.retracted named.1)

def rowsOf (s : Store) (attempt : ℕ) : List RawRow :=
  sortOn (·.rowNumber) (s.rawRows.filter fun r => r.attempt = attempt)

def gather (sha : Sha256) (s : Store) (a : Attempt) : Except ActivationFailure (List Evidence) := do
  let rows := rowsOf s a.id
  demand (rows.length = a.rowCount ∧ a.errorCount = 0 ∧ a.validation = []) .invalidPreviewEvidence
  let evidence ← rows.mapM
    (readEvidence sha a.contractRevision.contract.mode a.contractRevision.digest)
  demand (evidence.map Evidence.key).Nodup .invalidPreviewEvidence
  .ok evidence

def memberOf (s : Store) (m : DatasetMembership) : Option Member := do
  let logical ← lookup LogicalTransaction.id s.logicals m.logical
  let observation ← lookup TransactionObservation.id s.observations m.observation
  some ⟨logical.sourceRecordKey, some (logical.id, observation.id), observation.fingerprint⟩

def membersOf (s : Store) (revision : ℕ) : List Member :=
  (s.memberships.filter fun m => m.revision = revision).filterMap (memberOf s)

def baseMembers (s : Store) (a : Attempt) : List Member :=
  match a.contractRevision.contract.mode, a.expectedBase with
  | .delta, some base => sortOn Member.key (membersOf s base)
  | _, _ => []

def resolve (base : List Member) (evidence : List Evidence) : List Member :=
  applyAll base (evidence.map Evidence.update)

def hashed (members : List Member) : List (String × String) :=
  members.map fun m => (m.key, m.fingerprint)

def logicalOf (logicals : List LogicalTransaction) (bookSource : ℕ) (key : String) :
    Option LogicalTransaction :=
  logicals.find? fun l => l.bookSource = bookSource ∧ l.sourceRecordKey = key

/-- The logical transactions after those missing of the given keys are made, in
the order of their keys. -/
def materialize (workspace bookSource : ℕ) (logicals : List LogicalTransaction)
    (keys : List String) : Except ActivationFailure (List LogicalTransaction) := do
  let missing := (sortedSet keys).filter fun key => logicalOf logicals bookSource key = none
  demand (∀ key ∈ missing, storedText 240 key = some key) .integrity
  .ok (logicals ++ missing.zipIdx.map fun k =>
    ⟨logicals.length+k.2, workspace, bookSource, k.1⟩)

def observe (logicals : List LogicalTransaction) (bookSource attempt : ℕ) (id : ℕ) (o : Observed) :
    Except ActivationFailure TransactionObservation := do
  let logical ← fetch .invalidPreviewEvidence (logicalOf logicals bookSource o.key)
  let row ← fetch .integrity (storeRow o.canonical)
  .ok ⟨id, logical.id, attempt, o.rowNumber, row, o.fingerprint⟩

/-- `create_revision` of the repository. -/
def createRevision (s : Store) (dataset : Dataset) (a : Attempt) (stateHash : String) :
    Except ActivationFailure DatasetRevision := do
  demand (a.dataset = dataset.id) .resourceUnavailable
  match a.expectedBase with
  | none => .ok ()
  | some base => do
    let parent ← fetch .resourceUnavailable (lookup DatasetRevision.id s.revisions base)
    demand (parent.dataset = dataset.id) .resourceUnavailable
  demand (∀ r ∈ s.revisions, r.attempt ≠ a.id) .integrity
  .ok ⟨s.revisions.length, dataset.id, a.expectedBase, a.id, stateHash⟩

/-- `create_memberships`: the stored members become the rows of the revision. -/
def createMemberships (s : Store) (dataset : Dataset) (revision : ℕ) (members : List Member) :
    Except ActivationFailure (List DatasetMembership) := do
  let pairs := members.filterMap Member.stored
  demand (∀ p ∈ pairs, ∃ l ∈ s.logicals, l.id = p.1 ∧ l.bookSource = dataset.bookSource.id ∧
    ∃ o ∈ s.observations, o.id = p.2 ∧ o.logical = l.id) .resourceUnavailable
  demand (pairs.map Prod.fst).Nodup .integrity
  .ok (pairs.map fun p => ⟨revision, p.1, p.2⟩)

/-- `mark_dataset_activation`. -/
def markDatasetActivation (workspace book dataset : ℕ) (s : Store) :
    Except ActivationFailure Store := do
  demand (∃ b ∈ s.books, b.id = book ∧ b.workspace = workspace) .scopeUnavailable
  .ok { s with
    books := s.books.map fun b =>
      if b.id = book ∧ b.workspace = workspace then { b with generation := b.generation+1 } else b
    scopes := s.scopes.map fun c =>
      if c.workspace = workspace ∧ (c.leftDataset = dataset ∨ c.rightDataset = dataset) then
        { c with generation := c.generation+1, isDirty := true } else c }

/-- The evidence of an attempt, the members it resolves to and their hash. -/
structure Proposal where
  evidence : List Evidence
  members : List Member
  stateHash : String

def propose (sha : Sha256) (s : Store) (a : Attempt) : Except ActivationFailure Proposal := do
  let evidence ← gather sha s a
  let members := resolve (baseMembers s a) evidence
  let stateHash ← fetch .domainValidation (resolvedStateHash sha (hashed members))
  .ok ⟨evidence, members, stateHash⟩

def finishWithoutRevision (attempt : ℕ) (state : AttemptState) (s : Store) : Store :=
  { s with attempts := revise Attempt.id attempt (fun a => { a with state := state }) s.attempts }

def newlyObserved (observed : List Observed) (observations : List TransactionObservation) :
    List (Update Member.key) :=
  (observed.zip observations).map fun p =>
    .set ⟨p.1.key, some (p.2.logical, p.2.id), p.2.fingerprint⟩

/-- The part of `activate` after the replay checks. -/
def commit (s : Store) (dataset : Dataset) (a : Attempt) (reason : Option String)
    (p : Proposal) : Except ActivationFailure (Store × DatasetRevision) := do
  let observed := p.evidence.filterMap Evidence.observed?
  let logicals ← materialize dataset.workspace dataset.bookSource.id s.logicals
    (observed.map Observed.key)
  let observations ← observed.zipIdx.mapM fun o =>
    observe logicals dataset.bookSource.id a.id (s.observations.length+o.2) o.1
  let observing : Store :=
    { s with logicals := logicals, observations := s.observations ++ observations }
  let members := applyAll p.members (newlyObserved observed observations)
  let revision ← createRevision observing dataset a p.stateHash
  let memberships ← createMemberships observing dataset revision.id members
  let revised : Store :=
    { observing with
      revisions := s.revisions ++ [revision]
      memberships := s.memberships ++ memberships
      attempts := revise Attempt.id a.id
        (fun a => { a with state := .activated, activationReason := reason }) s.attempts
      datasets := revise Dataset.id dataset.id
        (fun d => { d with current := some revision.id }) s.datasets }
  let marked ← markDatasetActivation dataset.workspace dataset.bookSource.book dataset.id revised
  .ok (marked, revision)

def restoreReason : Option String → Except ActivationFailure (Option String)
  | none => .ok none
  | some value => do
    let normalized := strip value
    demand (normalized ≠ "" ∧ normalized.toList.length ≤ 1000) .invalidRestoreReason
    .ok (some normalized)

/-- `activate`, from the locks of its transaction on. The check of the
workspace before the transaction is the same one. -/
def activate (sha : Sha256) (s : Store) (workspace attempt : ℕ) (reason : Option String)
    (now : Instant) : Except ActivationFailure (Store × Option DatasetRevision) := do
  let reason ← restoreReason reason
  let w ← fetch .workspaceUnavailable (lookup Workspace.id s.workspaces workspace)
  demand (w.accessAllowed now) .workspaceUnavailable
  let a ← fetch .resourceUnavailable (lookup Attempt.id s.attempts attempt)
  demand (a.workspace = workspace) .resourceUnavailable
  demand (a.state = .ready) .attemptNotReady
  let dataset ← fetch .resourceUnavailable (lookup Dataset.id s.datasets a.dataset)
  demand (dataset.workspace = workspace) .resourceUnavailable
  demand (dataset.current = a.expectedBase) .stalePreview
  let p ← propose sha s a
  let head := dataset.current.bind (lookup DatasetRevision.id s.revisions)
  if head.map DatasetRevision.stateHash = some p.stateHash then
    .ok (finishWithoutRevision a.id .noChange s, none)
  else if (∃ r ∈ s.revisions, r.dataset = dataset.id ∧ r.stateHash = p.stateHash) ∧
      reason = none then
    .ok (finishWithoutRevision a.id .replayed s, none)
  else do
    let created ← commit s dataset a reason p
    .ok (created.1, some created.2)

/-- `create_shell` with the head it has read. -/
def createShell (s : Store) (workspace dataset : ℕ) (base : Option ℕ) (artifact : FileArtifact)
    (contract : ContractRevision) (now : Instant) : Except ActivationFailure Store := do
  let w ← fetch .workspaceUnavailable (lookup Workspace.id s.workspaces workspace)
  demand (w.accessAllowed now) .workspaceUnavailable
  let d ← fetch .resourceUnavailable (lookup Dataset.id s.datasets dataset)
  demand (d.workspace = workspace) .resourceUnavailable
  demand (.head dataset base ∈ s.readings) .resourceUnavailable
  demand (d.bookSource.source = contract.source) .resourceUnavailable
  demand (∀ b ∈ base, ∃ r ∈ s.revisions, r.id = b ∧ r.dataset = dataset) .resourceUnavailable
  .ok { s with attempts := s.attempts ++ [⟨s.attempts.length, workspace, dataset, artifact,
    contract, base, .received, 0, 0, [], none⟩] }

/-- `complete` with the state of the attempt it has read. -/
def complete (reader : DatetimeReader) (s : Store) (workspace attempt : ℕ) (read : AttemptState)
    (now : Instant) : Except ActivationFailure Store := do
  let a ← fetch .resourceUnavailable (lookup Attempt.id s.attempts attempt)
  demand (a.workspace = workspace) .resourceUnavailable
  demand (.attempt attempt read ∈ s.readings) .resourceUnavailable
  let interpreted ← fetch .domainValidation
    (interpretCsv reader a.contractRevision.contract a.artifact.header a.artifact.lines).toOption
  let w ← fetch .workspaceUnavailable (lookup Workspace.id s.workspaces workspace)
  demand (w.accessAllowed now) .workspaceUnavailable
  demand (read = .received) .importStateConflict
  let rows : List RawRow := interpreted.rows.map fun r => ⟨a.id, r.rowNumber, r.preview, r.issues⟩
  demand (∀ r ∈ rows, ∀ old ∈ s.rawRows, ¬(old.attempt = r.attempt ∧ old.rowNumber = r.rowNumber))
    .integrity
  .ok { s with
    attempts := revise Attempt.id a.id (fun a => { a with
      state := if interpreted.errorCount = 0 then .ready else .rejected
      rowCount := interpreted.rows.length
      errorCount := interpreted.errorCount
      validation := interpreted.issues }) s.attempts
    rawRows := s.rawRows ++ rows }

/-- The commands of concurrent services. Other services change workspaces,
books and scopes at will and add datasets. -/
inductive Command where
  | readHead (dataset : ℕ)
  | readAttempt (attempt : ℕ)
  | createShell (workspace dataset : ℕ) (base : Option ℕ) (artifact : FileArtifact)
      (contract : ContractRevision) (now : Instant)
  | complete (workspace attempt : ℕ) (read : AttemptState) (now : Instant)
  | activate (workspace attempt : ℕ) (reason : Option String) (now : Instant)
  | createDataset (workspace : ℕ) (bookSource : BookSource)
  | elsewhere (workspaces : List Workspace) (books : List Book) (scopes : List Scope)

def read (s : Store) (reading : Option Reading) : Store :=
  { s with readings := s.readings ++ reading.toList }

def step (sha : Sha256) (reader : DatetimeReader) (s : Store) : Command → Store
  | .readHead dataset => read s <| (lookup Dataset.id s.datasets dataset).map fun d =>
      .head d.id d.current
  | .readAttempt attempt => read s <| (lookup Attempt.id s.attempts attempt).map fun a =>
      .attempt a.id a.state
  | .createShell workspace dataset base artifact contract now =>
    settle s (createShell s workspace dataset base artifact contract now)
  | .complete workspace attempt read now => settle s (complete reader s workspace attempt read now)
  | .activate workspace attempt reason now =>
    settle s (Prod.fst <$> activate sha s workspace attempt reason now)
  | .createDataset workspace bookSource =>
    { s with datasets := s.datasets ++ [⟨s.datasets.length, workspace, bookSource, none⟩] }
  | .elsewhere workspaces books scopes =>
    { s with workspaces := workspaces, books := books, scopes := scopes }

def empty : Store := ⟨[], [], [], [], [], [], [], [], [], [], []⟩

def run (sha : Sha256) (reader : DatetimeReader) (cs : List Command) : Store :=
  cs.foldl (step sha reader) empty

end Workbench.Activation
