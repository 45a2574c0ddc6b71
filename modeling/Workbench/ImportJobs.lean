import Workbench.Claims
import Workbench.ItemFates
import Workbench.ActivationLaws

/-!
# Imports and their jobs

An upload makes the shell of an attempt and enqueues its item in two
transactions. A worker that has claimed the item reads the attempt, parses its
file and commits the evidence under its token; what becomes of the item is
recorded in a transaction of its own.
-/

set_option autoImplicit false

namespace Workbench.ImportJobs
open Workbench.Listing Workbench.Tables Workbench.Calendar Workbench.Workspaces Workbench.Jobs
open Workbench.JobRuns Workbench.Claims Workbench.ItemFates
open Workbench.Ingestion Workbench.Interpretation Workbench.Activation Workbench.ActivationLaws
open Workbench.Accounts (Waiting mem_setUsage reserve_spec release_spec revoked_row
  completeAttempt_items releaseJob_items)
open Workbench.Raising (demand fetch)

structure Settings where
  jobs : Jobs.Settings
  policy : JobKind → RetryPolicy

/-- `semantic_input_hash` on the digest of a contract, the header of a file and
its rows. -/
abbrev SemanticHash := String → List String → InterpretedPreview → Option String

inductive Phase where
  | claimed
  | read (state : AttemptState)
  | ended (ending : Ending)
deriving DecidableEq

structure Delivery where
  work : ClaimedWork
  now : Instant
  phase : Phase

def Delivery.token (d : Delivery) : ℕ := d.work.token

def Delivery.target (d : Delivery) : Target := d.work.workItem.target

/-- The tables of the attempts and of the jobs, the semantic hashes of attempts,
the shells of the uploads in progress and the deliveries. -/
structure State where
  sources : Store
  hashes : List (ℕ × String)
  requests : List ℕ
  deliveries : List Delivery
  jobs : Database

def State.empty : State := ⟨Activation.empty, [], [], [], Database.empty⟩

def State.sync (st : State) : State :=
  { st with sources := { st.sources with workspaces := st.jobs.workspaces } }

def State.setPhase (st : State) (token : ℕ) (phase : Phase) : State :=
  { st with deliveries :=
      revise Delivery.token token (fun d => { d with phase := phase }) st.deliveries }

def State.dropDelivery (st : State) (token : ℕ) : State :=
  { st with deliveries := st.deliveries.filter fun d => d.token ≠ token }

def State.endRequest (st : State) (attempt : ℕ) : State :=
  { st with requests := st.requests.filter (· ≠ attempt) }

def createShell (st : State) (workspace dataset : ℕ) (base : Option ℕ) (artifact : FileArtifact)
    (contract : ContractRevision) (now : Instant) : Except ActivationFailure State := do
  let sources ← Activation.createShell st.sources workspace dataset base artifact contract now
  .ok { st with sources := sources, requests := st.requests ++ [st.sources.attempts.length] }

def enqueueImport (settings : Settings) (st : State) (attempt : ℕ) (now clock : Instant) : State :=
  match lookup Attempt.id st.sources.attempts attempt with
  | none => st
  | some a =>
    if attempt ∈ st.requests then
      let jobs := settle st.jobs (enqueue settings.jobs.limits a.workspace .importValidation
        (.importAttempt attempt) (settings.policy .importValidation).maxAttempts now clock st.jobs)
      State.endRequest (State.sync { st with jobs := jobs }) attempt
    else st

def claimWork (st : State) (request : Jobs.Request) (now : Instant) (leaseDuration : ℤ)
    (locked : List ℕ) : State :=
  match Jobs.claim request now leaseDuration (fun id => locked.contains id) st.jobs with
  | .error _ => st
  | .ok (works, jobs) => { st with
      deliveries := st.deliveries ++ works.map fun work => ⟨work, now, .claimed⟩
      jobs := jobs }

/-- The read at the start of `complete`. -/
def readAttempt (st : State) (d : Delivery) : State :=
  match d.target with
  | .importAttempt attempt =>
    match lookup Attempt.id st.sources.attempts attempt with
    | none => st.setPhase d.token (.ended .otherException)
    | some a =>
      if a.workspace = d.work.workItem.workspace then
        State.setPhase { st with
          sources := Activation.read st.sources (some (.attempt a.id a.state)) }
          d.token (.read a.state)
      else st.setPhase d.token (.ended .otherException)
  | _ => st

/-- The rest of `complete`: the file is parsed before the transaction, whose
first checks are those of the workspace and of the token. -/
def completeClaimed (reader : DatetimeReader) (semanticHash : SemanticHash) (st : State)
    (d : Delivery) (attempt : ℕ) (read : AttemptState) (now : Instant) :
    Except ActivationFailure State := do
  let a ← fetch .resourceUnavailable (lookup Attempt.id st.sources.attempts attempt)
  let interpreted ← fetch .domainValidation
    (interpretCsv reader a.contractRevision.contract a.artifact.header a.artifact.lines).toOption
  let hash ← fetch .domainValidation
    (semanticHash a.contractRevision.digest a.artifact.header interpreted)
  let w ← fetch .workspaceUnavailable
    (lookup Workspace.id st.sources.workspaces d.work.workItem.workspace)
  demand (w.accessAllowed now) .workspaceUnavailable
  let item ← fetch .resourceUnavailable
    (st.jobs.items.find? (·.target = .importAttempt attempt))
  demand (item.currentToken = some d.token) .importStateConflict
  let sources ←
    Activation.complete reader st.sources d.work.workItem.workspace attempt read now
  .ok { st with sources := sources, hashes := st.hashes ++ [(attempt, hash)] }

/-- `execute_claimed_import`: a conflict is a transient failure. -/
def executeClaimedImport (reader : DatetimeReader) (semanticHash : SemanticHash) (st : State)
    (d : Delivery) (attempt : ℕ) (read : AttemptState) (now : Instant) : State :=
  match completeClaimed reader semanticHash st d attempt read now with
  | .ok after => after.setPhase d.token (.ended .succeeded)
  | .error .importStateConflict => st.setPhase d.token (.ended .transientFailure)
  | .error _ => st.setPhase d.token (.ended .otherException)

def recordDelivery (settings : Settings) (st : State) (d : Delivery) (ending : Ending)
    (clock : Instant) : State :=
  let recorded := recordOutcome (settings.policy d.work.workItem.kind) d.now d.work ending clock
    st.jobs
  State.dropDelivery (State.sync { st with jobs := settle st.jobs (Prod.snd <$> recorded) }) d.token

def Aside : Activation.Command → Bool
  | .createShell .. => false
  | .complete .. => false
  | _ => true

def Outside : Jobs.Command → Bool
  | .enqueue _ _ (.importAttempt _) _ _ _ => false
  | c => !c.ofAttempts

/-- One transaction, or an end without one: a request is abandoned between its
transactions, a worker crashes. Shells are made by uploads and completed by
deliveries, and items are claimed for deliveries; every other service may be
called by any party at any time. -/
inductive Command where
  | createShell (workspace dataset : ℕ) (base : Option ℕ) (artifact : FileArtifact)
      (contract : ContractRevision) (now : Instant)
  | enqueue (attempt : ℕ) (now clock : Instant)
  | abandon (attempt : ℕ)
  | claim (request : Jobs.Request) (now : Instant) (leaseDuration : ℤ) (locked : List ℕ)
  | readAttempt (token : ℕ)
  | complete (token : ℕ) (now : Instant)
  | executeOther (token : ℕ) (ending : Ending)
  | record (token : ℕ) (clock : Instant)
  | crash (token : ℕ)
  | sources (c : Activation.Command) (aside : Aside c = true)
  | jobs (c : Jobs.Command) (outside : Outside c = true)

def deliveryOf (st : State) (token : ℕ) : Option Delivery :=
  lookup Delivery.token st.deliveries token

section Steps
variable (sha : Sha256) (reader : DatetimeReader) (semanticHash : SemanticHash)
  (settings : Settings)

def call (st : State) : Command → State
  | .createShell workspace dataset base artifact contract now =>
    settle st (createShell st workspace dataset base artifact contract now)
  | .enqueue attempt now clock => enqueueImport settings st attempt now clock
  | .abandon attempt => st.endRequest attempt
  | .claim request now leaseDuration locked => claimWork st request now leaseDuration locked
  | .readAttempt token =>
    match deliveryOf st token with
    | some d => if d.phase = .claimed then readAttempt st d else st
    | none => st
  | .complete token now =>
    match deliveryOf st token with
    | some d =>
      match d.phase, d.target with
      | .read state, .importAttempt attempt =>
        executeClaimedImport reader semanticHash st d attempt state now
      | _, _ => st
    | none => st
  | .executeOther token ending =>
    match deliveryOf st token with
    | some d =>
      match d.target with
      | .importAttempt _ => st
      | _ => st.setPhase token (.ended ending)
    | none => st
  | .record token clock =>
    match deliveryOf st token with
    | some d =>
      match d.phase with
      | .ended ending => recordDelivery settings st d ending clock
      | _ => st
    | none => st
  | .crash token => st.dropDelivery token
  | .sources c _ => State.sync { st with sources := Activation.step sha reader st.sources c }
  | .jobs c _ => State.sync { st with jobs := Jobs.call settings.jobs st.jobs c }

def reached (cs : List Command) : State := cs.foldl (call sha reader semanticHash settings) .empty

end Steps

def Active (db : Database) (workspace : ℕ) : Prop :=
  ∃ w ∈ db.workspaces, w.id = workspace ∧ w.state = .active

/-- No active upload is without work to do, and no committed one has failed work. -/
structure Agreeing (st : State) : Prop where
  waiting : ∀ a ∈ st.sources.attempts, a.state = .received → Active st.jobs a.workspace →
    a.id ∉ st.requests → ∃ i ∈ st.jobs.items, i.target = .importAttempt a.id ∧ Waiting i
  unfailed : ∀ a ∈ st.sources.attempts, a.state ≠ .received →
    ∀ i ∈ st.jobs.items, i.target = .importAttempt a.id → i.state ≠ .failed

structure Written where
  rejected : Bool
  rowCount : ℕ
  errorCount : ℕ
  validation : List RowIssue
  rawRows : List RawRow
  hashes : List (ℕ × String)

def writtenOf (st : State) (a : Attempt) : Written :=
  ⟨a.state = .rejected, a.rowCount, a.errorCount, a.validation, rawOf st.sources a.id,
    st.hashes.filter fun h => h.1 = a.id⟩

/-- Evidence is written to shells only, and stays. -/
structure WrittenOnce (st later : State) : Prop where
  blank : ∀ a ∈ st.sources.attempts, a.state = .received →
    writtenOf st a = ⟨false, 0, 0, [], [], []⟩
  kept : ∀ a ∈ st.sources.attempts, a.state ≠ .received → ∃ b ∈ later.sources.attempts,
    b.id = a.id ∧ b.state ≠ .received ∧ writtenOf later b = writtenOf st a

def HasRoom (settings : Settings) (db : Database) (workspace : ℕ) (clock : Instant) : Prop :=
  ∃ w, lookup Workspace.id db.workspaces workspace = some w ∧ w.accessAllowed clock ∧
    settings.jobs.limits.covers (w.usage.plus oneActiveJob)

def Readable (reader : DatetimeReader) (semanticHash : SemanticHash) (a : Attempt) : Prop :=
  ∃ interpreted hash, interpretCsv reader a.contractRevision.contract a.artifact.header
      a.artifact.lines = .ok interpreted ∧
    semanticHash a.contractRevision.digest a.artifact.header interpreted = some hash

def Open (db : Database) (workspace : ℕ) (now : Instant) : Prop :=
  ∃ w, lookup Workspace.id db.workspaces workspace = some w ∧ w.accessAllowed now

def Current (st : State) (token : ℕ) : Prop :=
  ∃ i ∈ st.jobs.items, i.currentToken = some token

/-- A delivery can do its work, and one that comes after the evidence leaves
another one to come. -/
structure Deliverable (reader : DatetimeReader) (semanticHash : SemanticHash)
    (settings : Settings) (st : State) (d : Delivery) (a : Attempt) (now : Instant) : Prop where
  readable : Readable reader semanticHash a
  accessible : Open st.jobs d.work.workItem.workspace now
  again : a.state ≠ .received →
    d.work.workItem.attemptCount < (settings.policy d.work.workItem.kind).maxAttempts

/-- An upload of an active workspace is not abandoned between its transactions
and has room for its job. The delivery of a current token can do its work,
unless nothing is written and the workspace is active no more. -/
def Unbroken (reader : DatetimeReader) (semanticHash : SemanticHash) (settings : Settings)
    (st : State) : Command → Prop
  | .enqueue attempt _ clock => attempt ∈ st.requests → ∀ a ∈ st.sources.attempts,
      a.id = attempt → Active st.jobs a.workspace → HasRoom settings st.jobs a.workspace clock
  | .abandon attempt => attempt ∈ st.requests → ∀ a ∈ st.sources.attempts,
      a.id = attempt → ¬Active st.jobs a.workspace
  | .complete token now => ∀ d, deliveryOf st token = some d → Current st token →
      ∀ a ∈ st.sources.attempts, d.target = .importAttempt a.id →
        (a.state = .received → Active st.jobs a.workspace) →
          Deliverable reader semanticHash settings st d a now
  | _ => True

end Workbench.ImportJobs
