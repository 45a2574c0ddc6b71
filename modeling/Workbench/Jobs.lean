import Workbench.Workspaces

/-!
# Leased background work

Work items are claimed under a lease and a fresh token; every claim leaves an
attempt row. A completion call names the token: under the item's current token
it ends the lease, under any other it only closes the attempt as expired.
Every service is one transaction, so a raise leaves the tables as they were.
-/

set_option autoImplicit false

namespace Workbench.Jobs
open Workbench.Listing Workbench.Tables Workbench.Calendar Workbench.Workspaces
open Workbench.Raising (demand fetch)

inductive JobKind where
  | importValidation
  | reconciliationRun
  | workspaceCleanup
deriving DecidableEq, Repr

inductive JobState where
  | ready
  | leased
  | succeeded
  | failed
deriving DecidableEq, Repr

inductive FailureCategory where
  | transient
  | permanent
deriving DecidableEq, Repr

inductive Constraint where
  | attemptLeaseAfterGrant
  | attemptOutcomeShape
  | itemTargetShape
  | itemMaxAttempts
deriving DecidableEq, Repr

inductive JobFailure where
  | workItemUnavailable
  | doesNotExist
  | refused (reason : Refusal)
  | cleanupStateConflict
  | overflow
  | domainValidation (message : String)
  | integrity (constraint : Constraint)
deriving DecidableEq

inductive RetryOutcome where
  | ready (availableAt : Instant)
  | failed
deriving DecidableEq

def RetryOutcome.state : RetryOutcome → JobState
  | .ready _ => .ready
  | .failed => .failed

structure RetryPolicy where
  maxAttempts : ℕ
  backoff : ℤ
  maxAttempts_positive : 1 ≤ maxAttempts
  backoff_positive : 0 < backoff

def RetryPolicy.decide (policy : RetryPolicy) (attemptCount : ℕ) (category : FailureCategory)
    (now : Instant) : Except JobFailure RetryOutcome := do
  demand (1 ≤ attemptCount) (.domainValidation "attempt_count must be a positive integer")
  if category = .permanent then .ok .failed
  else if policy.maxAttempts ≤ attemptCount then .ok .failed
  else do
    let availableAt ← fetch .overflow (shift now (policy.backoff*2^(attemptCount-1)))
    .ok (.ready availableAt)

inductive Target where
  | importAttempt (id : ℕ)
  | reconciliationRun (id : ℕ)
  | cleanupRequest (workspace : ℕ)
deriving DecidableEq

def Target.kind : Target → JobKind
  | .importAttempt _ => .importValidation
  | .reconciliationRun _ => .reconciliationRun
  | .cleanupRequest _ => .workspaceCleanup

structure WorkItem where
  id : ℕ
  workspace : ℕ
  kind : JobKind
  state : JobState
  target : Target
  availableAt : Instant
  leaseUntil : Option Instant
  currentToken : Option ℕ
  attemptCount : ℕ
  maxAttempts : ℕ
  createdAt : Instant
  updatedAt : Instant
deriving DecidableEq

/-- `work_item_lease_shape_valid`. -/
def WorkItem.LeaseShape (item : WorkItem) : Prop :=
  if item.state = .leased then item.leaseUntil.isSome ∧ item.currentToken.isSome
  else item.leaseUntil = none ∧ item.currentToken = none

inductive JobAttemptOutcome where
  | succeeded
  | failed
  | expired
deriving DecidableEq, Repr

structure JobAttempt where
  workspace : ℕ
  workItem : ℕ
  token : ℕ
  leasedAt : Instant
  leaseUntil : Instant
  completedAt : Option Instant
  outcome : Option JobAttemptOutcome
  failureCategory : Option FailureCategory
deriving DecidableEq

/-- `job_attempt_outcome_shape_valid`. -/
def JobAttempt.OutcomeShape (a : JobAttempt) : Prop :=
  match a.outcome with
  | none => a.completedAt = none ∧ a.failureCategory = none
  | some .failed => a.completedAt.isSome ∧ a.failureCategory.isSome
  | some _ => a.completedAt.isSome ∧ a.failureCategory = none

instance (a : JobAttempt) : Decidable a.OutcomeShape := by
  unfold JobAttempt.OutcomeShape
  split <;> infer_instance

inductive CleanupReason where
  | expired
  | deleted
deriving DecidableEq

structure CleanupRequest where
  workspace : ℕ
  reason : CleanupReason
  requestedAt : Instant
deriving DecidableEq

/-- The tables, and the next unused identity: tokens and item ids are drawn at
random from ranges too large to repeat. -/
structure Database where
  workspaces : List Workspace
  cleanups : List CleanupRequest
  items : List WorkItem
  attempts : List JobAttempt
  serial : ℕ
deriving DecidableEq

def Database.empty : Database := ⟨[], [], [], [], 0⟩

structure ClaimedWork where
  workItem : WorkItem
  token : ℕ
deriving DecidableEq

/-- `_claimable`: the attempts an item has left are not asked for. -/
def Claimable (now : Instant) (item : WorkItem) : Prop :=
  item.state = .ready ∧ item.availableAt ≤ now ∨
    item.state = .leased ∧ ∃ until_ ∈ item.leaseUntil, until_ < now

instance (now : Instant) (item : WorkItem) : Decidable (Claimable now item) :=
  match h : item.leaseUntil with
  | none => decidable_of_iff (item.state = .ready ∧ item.availableAt ≤ now) (by
      simp [Claimable, h])
  | some until_ => decidable_of_iff (item.state = .ready ∧ item.availableAt ≤ now ∨
      item.state = .leased ∧ until_ < now) (by simp [Claimable, h])

def WorkItem.lease (item : WorkItem) (now leaseUntil : Instant) (token : ℕ) : WorkItem :=
  { item with
    state := .leased
    leaseUntil := some leaseUntil
    currentToken := some token
    attemptCount := item.attemptCount+1
    updatedAt := now }

def Database.grant (db : Database) (item : WorkItem) (now leaseUntil : Instant) : Database :=
  { db with
    items := revise WorkItem.id item.id (·.lease now leaseUntil db.serial) db.items
    attempts := db.attempts ++
      [⟨item.workspace, item.id, db.serial, now, leaseUntil, none, none, none⟩]
    serial := db.serial+1 }

/-- `_claim_row`. -/
def claimRow (now : Instant) (leaseDuration : ℤ) (item : WorkItem) (db : Database) :
    Except JobFailure (ClaimedWork × Database) := do
  let leaseUntil ← fetch .overflow (shift now leaseDuration)
  demand (now < leaseUntil) (.integrity .attemptLeaseAfterGrant)
  let row ← fetch .doesNotExist
    (lookup WorkItem.id (db.grant item now leaseUntil).items item.id)
  .ok (⟨row, db.serial⟩, db.grant item now leaseUntil)

def claimRows (now : Instant) (leaseDuration : ℤ) :
    List WorkItem → Database → Except JobFailure (List ClaimedWork × Database)
  | [], db => .ok ([], db)
  | item :: rest, db => do
    let (work, db) ← claimRow now leaseDuration item db
    let (works, db) ← claimRows now leaseDuration rest db
    .ok (work :: works, db)

/-- A claim takes the earliest claimable items of a kind, or one item by id.
Rows locked by another transaction are skipped. -/
inductive Request where
  | batch (kind : JobKind) (batchSize : ℕ)
  | one (workItem : ℕ)
deriving DecidableEq

def candidates (request : Request) (now : Instant) (locked : ℕ → Bool) (db : Database) :
    List WorkItem :=
  match request with
  | .batch kind batchSize =>
    (sortOn WorkItem.availableAt (db.items.filter fun item =>
      !locked item.id && item.kind = kind && Claimable now item)).take batchSize
  | .one workItem =>
    (db.items.filter fun item =>
      !locked item.id && item.id = workItem && Claimable now item).take 1

/-- `claim_batch` and `claim_one`. -/
def claim (request : Request) (now : Instant) (leaseDuration : ℤ) (locked : ℕ → Bool)
    (db : Database) : Except JobFailure (List ClaimedWork × Database) :=
  claimRows now leaseDuration (candidates request now locked db) db

def oneActiveJob : QuotaAmounts := ⟨0, 0, 1⟩

def JobAttempt.complete (a : JobAttempt) (outcome : JobAttemptOutcome) (now : Instant)
    (category : Option FailureCategory) : JobAttempt :=
  { a with
    outcome := some outcome
    completedAt := some now
    failureCategory := category.orElse fun _ => a.failureCategory }

/-- The update of the attempt's row. A category is written only for a failure;
the other outcomes leave the column as it is. -/
def completeAttempt (token : ℕ) (outcome : JobAttemptOutcome) (now : Instant)
    (category : Option FailureCategory) (db : Database) : Except JobFailure Database := do
  let attempts := revise JobAttempt.token token (·.complete outcome now category) db.attempts
  demand (attempts.all fun a => a.token ≠ token || a.OutcomeShape)
    (.integrity .attemptOutcomeShape)
  .ok { db with attempts := attempts }

def WorkItem.close (item : WorkItem) (state : JobState) (availableAt now : Instant) : WorkItem :=
  { item with
    state := state
    availableAt := availableAt
    leaseUntil := none
    currentToken := none
    updatedAt := now }

def Database.closeItem (db : Database) (id : ℕ) (state : JobState) (availableAt now : Instant) :
    Database :=
  { db with items := revise WorkItem.id id (·.close state availableAt now) db.items }

def withWorkspaces (db : Database) :
    Except Refusal (List Workspace) → Except JobFailure Database
  | .error reason => .error (.refused reason)
  | .ok workspaces => .ok { db with workspaces := workspaces }

def releaseJob (workspace : ℕ) (clock : Instant) (db : Database) : Except JobFailure Database :=
  withWorkspaces db (release workspace oneActiveJob clock db.workspaces)

def attemptAndItem (token : ℕ) (db : Database) : Except JobFailure (JobAttempt × WorkItem) := do
  let attempt ← fetch .workItemUnavailable (lookup JobAttempt.token db.attempts token)
  let item ← fetch .doesNotExist (lookup WorkItem.id db.items attempt.workItem)
  .ok (attempt, item)

/-- `mark_succeeded`; `clock` is what `timezone.now()` reads in the release. -/
def markSucceeded (token : ℕ) (now clock : Instant) (db : Database) :
    Except JobFailure (Bool × Database) := do
  let (_, item) ← attemptAndItem token db
  if item.currentToken ≠ some token then do
    let db ← completeAttempt token .expired now none db
    .ok (false, db)
  else do
    let db := db.closeItem item.id .succeeded item.availableAt now
    let db ← completeAttempt token .succeeded now none db
    let db ← releaseJob item.workspace clock db
    .ok (true, db)

/-- `mark_failed`. -/
def markFailed (token : ℕ) (outcome : RetryOutcome) (category : FailureCategory)
    (now clock : Instant) (db : Database) : Except JobFailure (Bool × Database) := do
  let (_, item) ← attemptAndItem token db
  if item.currentToken ≠ some token then do
    let db ← completeAttempt token .expired now none db
    .ok (false, db)
  else do
    let availableAt := match outcome with
      | .ready availableAt => availableAt
      | .failed => item.availableAt
    let db := db.closeItem item.id outcome.state availableAt now
    let db ← completeAttempt token .failed now (some category) db
    if outcome = .failed then do
      let db ← releaseJob item.workspace clock db
      .ok (true, db)
    else .ok (true, db)

def addItem (item : WorkItem) (db : Database) : Except JobFailure Database := do
  demand (item.target.kind = item.kind) (.integrity .itemTargetShape)
  demand (1 ≤ item.maxAttempts) (.integrity .itemMaxAttempts)
  .ok { db with items := db.items ++ [item], serial := db.serial+1 }

/-- `enqueue`: the one item of a target is reused. -/
def enqueue (limits : QuotaAmounts) (workspace : ℕ) (kind : JobKind) (target : Target)
    (maxAttempts : ℕ) (now clock : Instant) (db : Database) : Except JobFailure Database :=
  match db.items.find? (·.target = target) with
  | some _ => .ok db
  | none => do
    let db ← withWorkspaces db (reserve limits workspace oneActiveJob clock db.workspaces)
    addItem ⟨db.serial, workspace, kind, .ready, target, now, none, none, 0, maxAttempts, now,
      now⟩ db

/-- `_revoke`: the cleanup item is created without reserving quota. -/
def revokeWorkspace (cleanupMaxAttempts : ℕ) (id : ℕ) (final : WorkspaceState)
    (reason : CleanupReason) (now : Instant) (db : Database) : Except JobFailure Database := do
  let _ ← fetch (.refused .workspaceUnavailable) (lookup Workspace.id db.workspaces id)
  let workspaces := revise Workspace.id id (·.revoke final now) db.workspaces
  let cleanups := match lookup CleanupRequest.workspace db.cleanups id with
    | none => db.cleanups ++ [⟨id, reason, now⟩]
    | some _ =>
      if reason = .deleted then
        revise CleanupRequest.workspace id (fun c => { c with reason := reason }) db.cleanups
      else db.cleanups
  let db := { db with workspaces := workspaces, cleanups := cleanups }
  match db.items.find? (·.target = .cleanupRequest id) with
  | some _ => .ok db
  | none =>
    addItem ⟨db.serial, id, .workspaceCleanup, .ready, .cleanupRequest id, now, none, none, 0,
      cleanupMaxAttempts, now, now⟩ db

def Database.purged (db : Database) (id : ℕ) : Database :=
  { db with
    workspaces := db.workspaces.filter (·.id ≠ id)
    cleanups := db.cleanups.filter (·.workspace ≠ id)
    items := db.items.filter (·.workspace ≠ id)
    attempts := db.attempts.filter (·.workspace ≠ id) }

/-- `purge_workspace`: the deletion cascades to the rows of the workspace. -/
def purgeWorkspace (id : ℕ) (attemptToken : Option ℕ) (db : Database) :
    Except JobFailure Database :=
  match lookup Workspace.id db.workspaces id with
  | none => .ok db
  | some workspace => do
    demand (workspace.state ≠ .active) .cleanupStateConflict
    match attemptToken with
    | none => pure ()
    | some token =>
      let item ← fetch .doesNotExist (db.items.find? (·.target = .cleanupRequest id))
      demand (item.currentToken = some token) .cleanupStateConflict
    .ok (db.purged id)

/-- `expire` and `delete` of `WorkspaceLifecycleService`. -/
def expireWorkspace (cleanupMaxAttempts id : ℕ) (now : Instant) (db : Database) :
    Except JobFailure Database :=
  revokeWorkspace cleanupMaxAttempts id .revoked .expired now db

def deleteWorkspace (cleanupMaxAttempts id : ℕ) (now : Instant) (db : Database) :
    Except JobFailure Database :=
  revokeWorkspace cleanupMaxAttempts id .deleted .deleted now db

structure Settings where
  limits : QuotaAmounts
  cleanupMaxAttempts : ℕ

/-- One call of a service by any party. -/
inductive Command where
  | createWorkspace (expiresAt : Instant)
  | reserve (workspace : ℕ) (requested : QuotaAmounts) (clock : Instant)
  | release (workspace : ℕ) (released : QuotaAmounts) (clock : Instant)
  | enqueue (workspace : ℕ) (kind : JobKind) (target : Target) (maxAttempts : ℕ)
      (now clock : Instant)
  | claim (request : Request) (now : Instant) (leaseDuration : ℤ) (locked : List ℕ)
  | markSucceeded (token : ℕ) (now clock : Instant)
  | markFailed (token : ℕ) (outcome : RetryOutcome) (category : FailureCategory)
      (now clock : Instant)
  | expire (workspace : ℕ) (now : Instant)
  | delete (workspace : ℕ) (now : Instant)
  | purge (workspace : ℕ) (attemptToken : Option ℕ)
deriving DecidableEq

def Command.completion : Command → Option (ℕ × Instant)
  | .markSucceeded token now _ => some (token, now)
  | .markFailed token _ _ now _ => some (token, now)
  | _ => none

def Command.ofAttempts : Command → Bool
  | .claim .. => true
  | .markSucceeded .. => true
  | .markFailed .. => true
  | _ => false

def perform (settings : Settings) (db : Database) : Command → Except JobFailure Database
  | .createWorkspace expiresAt => .ok { db with
      workspaces := db.workspaces ++ [⟨db.serial, .active, expiresAt, none, none, ⟨0, 0, 0⟩⟩]
      serial := db.serial+1 }
  | .reserve workspace requested clock =>
    withWorkspaces db (reserve settings.limits workspace requested clock db.workspaces)
  | .release workspace released clock =>
    withWorkspaces db (release workspace released clock db.workspaces)
  | .enqueue workspace kind target maxAttempts now clock =>
    enqueue settings.limits workspace kind target maxAttempts now clock db
  | .claim request now leaseDuration locked =>
    (·.2) <$> claim request now leaseDuration (fun id => locked.contains id) db
  | .markSucceeded token now clock => (·.2) <$> markSucceeded token now clock db
  | .markFailed token outcome category now clock =>
    (·.2) <$> markFailed token outcome category now clock db
  | .expire workspace now => expireWorkspace settings.cleanupMaxAttempts workspace now db
  | .delete workspace now => deleteWorkspace settings.cleanupMaxAttempts workspace now db
  | .purge workspace attemptToken => purgeWorkspace workspace attemptToken db

def call (settings : Settings) (db : Database) (c : Command) : Database :=
  settle db (perform settings db c)

inductive Ending where
  | succeeded
  | transientFailure
  | otherException
deriving DecidableEq, Repr

/-- A finished executor: how it ended, which services were called by any party
while it ran, and the time its outcome is recorded at. -/
structure Ran where
  ending : Ending
  meanwhile : List Command
  clock : Instant

abbrev Executor := WorkItem → ℕ → Database → Ran

structure ExecutionRecord where
  workItem : WorkItem
  succeeded : Bool
deriving DecidableEq

/-- The recording of an executor's outcome in `claim_and_execute`. -/
def recordOutcome (policy : RetryPolicy) (now : Instant) (work : ClaimedWork) (ending : Ending)
    (clock : Instant) (db : Database) : Except JobFailure (ExecutionRecord × Database) :=
  match ending with
  | .succeeded =>
    match markSucceeded work.token now clock db with
    | .ok (_, db) => .ok (⟨work.workItem, true⟩, db)
    | .error .workItemUnavailable => .ok (⟨work.workItem, true⟩, db)
    | .error failure => .error failure
  | .transientFailure => do
    let outcome ← policy.decide work.workItem.attemptCount .transient now
    let (_, db) ← markFailed work.token outcome .transient now clock db
    .ok (⟨work.workItem, false⟩, db)
  | .otherException => do
    let outcome ← policy.decide work.workItem.attemptCount .permanent now
    let (_, db) ← markFailed work.token outcome .permanent now clock db
    .ok (⟨work.workItem, false⟩, db)

/-- A claimed item whose executor was run, with the tables its outcome was
recorded in and the tables after that. -/
structure Attempted where
  work : ClaimedWork
  found : Database
  left : Database

structure Cycle where
  records : Except JobFailure (List ExecutionRecord)
  attempted : List Attempted
  db : Database

/-- The loop of `claim_and_execute`: a raise in the recording ends it. -/
def executeClaimed (settings : Settings) (policy : RetryPolicy) (now : Instant)
    (executor : Executor) : List ClaimedWork → Database → Cycle
  | [], db => ⟨.ok [], [], db⟩
  | work :: rest, db =>
    let ran := executor work.workItem work.token db
    let found := ran.meanwhile.foldl (call settings) db
    match recordOutcome policy now work ran.ending ran.clock found with
    | .error failure => ⟨.error failure, [⟨work, found, found⟩], found⟩
    | .ok (record, left) =>
      let cycle := executeClaimed settings policy now executor rest left
      ⟨(record :: ·) <$> cycle.records, ⟨work, found, left⟩ :: cycle.attempted, cycle.db⟩

def claimAndExecute (settings : Settings) (policy : RetryPolicy) (executor : Executor)
    (request : Request) (now : Instant) (leaseDuration : ℤ) (locked : ℕ → Bool)
    (db : Database) : Cycle :=
  match claim request now leaseDuration locked db with
  | .error failure => ⟨.error failure, [], db⟩
  | .ok (works, db) => executeClaimed settings policy now executor works db

end Workbench.Jobs
