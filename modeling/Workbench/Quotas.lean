import Workbench.JobRuns

/-!
# Reservations and what they are for

An enqueue reserves a job in one transaction and inserts the work item in
another, unless its caller runs both in its own. Books are counted in the same
transaction that writes them. Deleting a book cascades to the work items of its
imports and runs.
-/

set_option autoImplicit false

namespace Workbench.Quotas
open Workbench.Listing Workbench.Tables Workbench.Calendar Workbench.Workspaces Workbench.Jobs
open Workbench.Raising (demand fetch)

structure Book where
  id : ℕ
  workspace : ℕ
deriving DecidableEq

structure Resource where
  target : Target
  book : ℕ
  workspace : ℕ
deriving DecidableEq

/-- A call of `enqueue` that found no work item for its target. -/
structure Call where
  caller : ℕ
  workspace : ℕ
  target : Target
  maxAttempts : ℕ
  reserved : Bool
deriving DecidableEq

/-- The tables, the books that a protecting key keeps from being deleted, and the
enqueues that are between their transactions. -/
structure System where
  db : Database
  books : List Book
  resources : List Resource
  held : List ℕ
  calls : List Call

def start : System := ⟨Database.empty, [], [], [], []⟩

inductive Failure where
  | job (failure : JobFailure)
  | bookUnavailable
  | protectedError
  | integrityError
deriving DecidableEq

def liftJob {α : Type} : Except JobFailure α → Except Failure α
  | .ok a => .ok a
  | .error failure => .error (.job failure)

def oneBook : QuotaAmounts := ⟨0, 1, 0⟩

def System.reserveQuota (settings : Settings) (workspace : ℕ) (requested : QuotaAmounts)
    (clock : Instant) (s : System) : Except Failure System := do
  let db ← liftJob (withWorkspaces s.db
    (reserve settings.limits workspace requested clock s.db.workspaces))
  .ok { s with db := db }

def System.releaseQuota (workspace : ℕ) (released : QuotaAmounts) (clock : Instant) (s : System) :
    Except Failure System := do
  let db ← liftJob (withWorkspaces s.db (release workspace released clock s.db.workspaces))
  .ok { s with db := db }

/-- `WorkspaceBookRepository._create`. -/
def createBook (settings : Settings) (workspace : ℕ) (clock : Instant) (s : System) :
    Except Failure System := do
  let s ← s.reserveQuota settings workspace oneBook clock
  .ok { s with
    books := s.books ++ [⟨s.db.serial, workspace⟩]
    db := { s.db with serial := s.db.serial+1 } }

def System.targetsOf (s : System) (book : ℕ) : List Target :=
  (s.resources.filter fun r => r.book = book).map Resource.target

def System.without (s : System) (book : ℕ) : System :=
  { s with
    books := s.books.filter fun b => b.id ≠ book
    resources := s.resources.filter fun r => r.book ≠ book
    db := { s.db with
      items := s.db.items.filter fun item => item.target ∉ s.targetsOf book
      attempts := s.db.attempts.filter fun a =>
        ∀ item ∈ s.db.items, item.id = a.workItem → item.target ∉ s.targetsOf book } }

/-- `WorkspaceBookRepository.delete`. -/
def deleteBook (workspace book : ℕ) (clock : Instant) (s : System) : Except Failure System := do
  let _ ← fetch .bookUnavailable (s.books.find? fun b => b.id = book ∧ b.workspace = workspace)
  let s ← s.releaseQuota workspace oneBook clock
  demand (book ∉ s.held) .protectedError
  .ok (s.without book)

/-- `WorkItem.objects.create` for an import or a run: the target exists, belongs
to the workspace and has no work item yet. -/
def insertItem (workspace : ℕ) (target : Target) (maxAttempts : ℕ) (now : Instant) (s : System) :
    Except Failure System := do
  demand (∃ r ∈ s.resources, r.target = target ∧ r.workspace = workspace) .integrityError
  demand (∀ item ∈ s.db.items, item.target ≠ target) .integrityError
  let db ← liftJob (addItem ⟨s.db.serial, workspace, target.kind, .ready, target, now, none, none,
    0, maxAttempts, now, now⟩ s.db)
  .ok { s with db := db }

/-- `enqueue` inside the caller's transaction, as `create_run_manifest` calls it. -/
def enqueueWithin (settings : Settings) (workspace : ℕ) (target : Target) (maxAttempts : ℕ)
    (now clock : Instant) (s : System) : Except Failure System :=
  if ∃ item ∈ s.db.items, item.target = target then .ok s
  else do
    let s ← s.reserveQuota settings workspace oneActiveJob clock
    insertItem workspace target maxAttempts now s

def System.purged (s : System) (workspace : ℕ) (db : Database) : System :=
  { s with
    db := db
    books := s.books.filter fun b => b.workspace ≠ workspace
    resources := s.resources.filter fun r => r.workspace ≠ workspace }

inductive JobCall where
  | createWorkspace (expiresAt : Instant)
  | reserveBytes (workspace bytes : ℕ) (clock : Instant)
  | claim (request : Request) (now : Instant) (leaseDuration : ℤ) (locked : List ℕ)
  | markSucceeded (token : ℕ) (now clock : Instant)
  | markFailed (token : ℕ) (outcome : RetryOutcome) (category : FailureCategory)
      (now clock : Instant)
  | expire (workspace : ℕ) (now : Instant)
  | delete (workspace : ℕ) (now : Instant)

def JobCall.command : JobCall → Command
  | .createWorkspace expiresAt => .createWorkspace expiresAt
  | .reserveBytes workspace bytes clock => .reserve workspace ⟨bytes, 0, 0⟩ clock
  | .claim request now leaseDuration locked => .claim request now leaseDuration locked
  | .markSucceeded token now clock => .markSucceeded token now clock
  | .markFailed token outcome category now clock => .markFailed token outcome category now clock
  | .expire workspace now => .expire workspace now
  | .delete workspace now => .delete workspace now

inductive Event where
  | job (c : JobCall)
  | purge (workspace : ℕ) (attemptToken : Option ℕ)
  | createBook (workspace : ℕ) (clock : Instant)
  | deleteBook (workspace book : ℕ) (clock : Instant)
  | addResource (target : Target) (book : ℕ)
  | hold (book : ℕ)
  | find (caller workspace : ℕ) (target : Target) (maxAttempts : ℕ)
  | reserve (caller : ℕ) (clock : Instant)
  | insert (caller : ℕ) (now : Instant)
  | crash (caller : ℕ)
  | enqueueWithin (workspace : ℕ) (target : Target) (maxAttempts : ℕ) (now clock : Instant)

def System.endCall (s : System) (caller : ℕ) : System :=
  { s with calls := s.calls.filter fun c => c.caller ≠ caller }

def Call.reserve (c : Call) : Call := { c with reserved := true }

def step (settings : Settings) (s : System) : Event → System
  | .job c => { s with db := call settings s.db c.command }
  | .purge workspace attemptToken =>
    match purgeWorkspace workspace attemptToken s.db with
    | .ok db => s.purged workspace db
    | .error _ => s
  | .createBook workspace clock => settle s (createBook settings workspace clock s)
  | .deleteBook workspace book clock => settle s (deleteBook workspace book clock s)
  | .addResource target book =>
    match s.books.find? (·.id = book) with
    | some b =>
      if target.kind = .workspaceCleanup ∨ target ∈ s.resources.map Resource.target then s
      else { s with resources := s.resources ++ [⟨target, book, b.workspace⟩] }
    | none => s
  | .hold book => { s with held := book :: s.held }
  | .find caller workspace target maxAttempts =>
    if (∃ item ∈ s.db.items, item.target = target) ∨ caller ∈ s.calls.map Call.caller then s
    else { s with calls := s.calls ++ [⟨caller, workspace, target, maxAttempts, false⟩] }
  | .reserve caller clock =>
    match lookup Call.caller s.calls caller with
    | some c =>
      if c.reserved then s
      else match s.reserveQuota settings c.workspace oneActiveJob clock with
        | .ok t => { t with calls := revise Call.caller caller Call.reserve t.calls }
        | .error _ => s.endCall caller
    | none => s
  | .insert caller now =>
    match lookup Call.caller s.calls caller with
    | some c =>
      if c.reserved then
        match insertItem c.workspace c.target c.maxAttempts now s with
        | .ok t => t.endCall caller
        | .error _ => s.endCall caller
      else s
    | none => s
  | .crash caller => s.endCall caller
  | .enqueueWithin workspace target maxAttempts now clock =>
    settle s (enqueueWithin settings workspace target maxAttempts now clock s)

def reached (settings : Settings) (events : List Event) : System :=
  events.foldl (step settings) start

def Open (workspace : ℕ) (item : WorkItem) : Prop :=
  item.workspace = workspace ∧ item.kind ≠ .workspaceCleanup ∧
    (item.state = .ready ∨ item.state = .leased)

instance open_decidable (workspace : ℕ) (item : WorkItem) : Decidable (Open workspace item) :=
  inferInstanceAs (Decidable (_ ∧ _ ∧ _))

def openItems (items : List WorkItem) (workspace : ℕ) : ℕ := items.countP fun i => Open workspace i

def pending (calls : List Call) (workspace : ℕ) : ℕ :=
  calls.countP fun c => c.workspace = workspace ∧ c.reserved

def bookCount (books : List Book) (workspace : ℕ) : ℕ :=
  books.countP fun b => b.workspace = workspace

/-- The counters of an active workspace are what they count; a reservation whose
item is about to be inserted counts as that item. -/
def Balanced (s : System) : Prop :=
  ∀ w ∈ s.db.workspaces, w.state = .active →
    w.usage.activeJobs = openItems s.db.items w.id + pending s.calls w.id ∧
      w.usage.books = bookCount s.books w.id

def Active (rows : List Workspace) (workspace : ℕ) : Prop :=
  ∃ w ∈ rows, w.id = workspace ∧ w.state = .active

def Insertable (s : System) (c : Call) : Prop :=
  (∃ r ∈ s.resources, r.target = c.target ∧ r.workspace = c.workspace) ∧
    (∀ item ∈ s.db.items, item.target ≠ c.target) ∧ 1 ≤ c.maxAttempts

/-- A reservation is left without an item: its call crashes, its insert fails, or
a deletion cascades to the item. -/
def Leaks (s : System) : Event → Prop
  | .insert caller _ => ∃ c, lookup Call.caller s.calls caller = some c ∧ c.reserved = true ∧
      Active s.db.workspaces c.workspace ∧ ¬Insertable s c
  | .crash caller => ∃ c, lookup Call.caller s.calls caller = some c ∧ c.reserved = true ∧
      Active s.db.workspaces c.workspace
  | .deleteBook workspace book clock =>
    (∃ b ∈ s.books, b.id = book ∧ b.workspace = workspace) ∧ book ∉ s.held ∧
      Releasable workspace oneBook clock s.db.workspaces ∧
        ∃ item ∈ s.db.items, item.target ∈ s.targetsOf book ∧
          ∃ w, Active s.db.workspaces w ∧ Open w item
  | _ => False

end Workbench.Quotas
