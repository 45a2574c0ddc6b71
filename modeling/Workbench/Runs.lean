import Workbench.Evidence
import Workbench.FrozenDecisions
import Workbench.Review
import Workbench.Upserts

/-!
# Runs

A run freezes the inputs of a scope in its manifest, and a manifest has one run.
An attempt claims a run before it computes and publishes it; the checks of the
table stand behind every update of its row.
-/

set_option autoImplicit false

namespace Workbench.Runs
open Workbench.Listing Workbench.Tables Workbench.Calendar Workbench.Workspaces Workbench.Records
open Workbench.Evidence Workbench.Json Workbench.Ingestion Workbench.Decisions
open Workbench.FrozenDecisions Workbench.Review Workbench.Upserts
open Workbench.Raising (demand fetch)

/-- A member of a dataset revision, with what a run reads of its observation. -/
structure Member where
  logicalTransaction : Uuid
  observation : Uuid
  fingerprint : String
  businessReference : Option String
  referenceSemantics : ReferenceSemantics
deriving DecidableEq

structure DatasetRevision where
  id : ℕ
  dataset : ℕ
  members : List Member

structure Dataset where
  id : ℕ
  workspace : ℕ
  book : ℕ
  currentRevision : Option ℕ

structure PolicyRevision where
  id : ℕ
  workspace : ℕ
  book : ℕ
  revision : ℕ
  digest : String
  engineVersion : String
  solverVersion : String
  referenceContract : ReferenceContract

/-- The columns of a book and of a scope that no decision command touches; the
others are in the tables of the decisions. -/
structure BookData where
  id : ℕ
  generation : ℕ

structure ScopeData where
  id : ℕ
  leftDataset : ℕ
  rightDataset : ℕ
  currentRun : Option ℕ

structure RunInput extends Member where
  side : RecordSide
deriving DecidableEq

inductive RunLifecycle where
  | frozen
  | running
  | completed
  | failed
deriving DecidableEq, Repr

inductive RunFreshness where
  | pending
  | current
  | stale
deriving DecidableEq, Repr

/-- What a run is computed from, with its decisions in the order of their
revisions. -/
structure Manifest where
  leftRevision : ℕ
  rightRevision : ℕ
  policyRevision : ℕ
  policyDigest : String
  dataGeneration : ℕ
  resolutionGeneration : ℕ
  scopeGeneration : ℕ
  engineVersion : String
  solverVersion : String
  inputs : List RunInput
  decisions : List DecisionRevision
deriving DecidableEq

structure Run where
  id : ℕ
  workspace : ℕ
  book : ℕ
  scope : ℕ
  manifest : Manifest
  lifecycle : RunLifecycle
  freshness : RunFreshness
  resultDigest : Option String
  resultCounts : Option (List ℕ)
  failureCode : Option String
  currentAttemptToken : Option ℕ
  completedAt : Option Instant
deriving DecidableEq

structure RunPair where
  id : ℕ
  run : ℕ
  leftLogical : Uuid
  rightLogical : Uuid
  decisionRevision : Option Uuid
  outcome : PairOutcome
deriving DecidableEq

structure RunUnpaired where
  id : ℕ
  run : ℕ
  logicalTransaction : Uuid
  outcome : UnpairedOutcome
deriving DecidableEq

structure AssignmentComponent where
  id : ℕ
  run : ℕ
  evidence : AssignmentComponentEvidence
deriving DecidableEq

structure DecisionHealthSnapshot where
  id : ℕ
  run : ℕ
  decision : Uuid
  decisionRevision : Uuid
  projection : DecisionHealthProjection
  currentObservationIds : List String
  currentEvidenceDigest : Option String
deriving DecidableEq

structure CurrentDecisionHealth where
  scope : ℕ
  decision : Uuid
  decisionRevision : Uuid
  run : ℕ
  snapshot : ℕ
  projection : DecisionHealthProjection
  appliedDataGeneration : ℕ
  appliedResolutionGeneration : ℕ
deriving DecidableEq

inductive CaseIdentity where
  | pair (left right : Uuid)
  | unpaired (record : Uuid) (side : RecordSide)
  | ambiguity (scope : ℕ) (policyDigest : String) (left right : List String)
deriving DecidableEq

def CaseIdentity.members : CaseIdentity → List String
  | .pair left right => [left.text, right.text]
  | .unpaired record _ => [record.text]
  | .ambiguity _ _ left right => left ++ right

structure InvestigationCase where
  id : ℕ
  workspace : ℕ
  book : ℕ
  key : CaseKey
  identity : CaseIdentity
deriving DecidableEq

inductive CaseResult where
  | pair (id : ℕ)
  | unpaired (id : ℕ)
  | component (id : ℕ)
deriving DecidableEq

structure CaseOccurrence where
  id : ℕ
  case : ℕ
  run : ℕ
  result : CaseResult
deriving DecidableEq

structure CaseScopeProjection where
  case : ℕ
  scope : ℕ
  currentOccurrence : ℕ
  run : ℕ
  review : Option DecisionHealthProjection
  appliedDataGeneration : ℕ
  appliedResolutionGeneration : ℕ
deriving DecidableEq

structure CaseLineage where
  scope : ℕ
  predecessor : ℕ
  successor : ℕ
  causedByRun : ℕ
deriving DecidableEq

/-- The tables; `review` holds the workspaces, the decisions and the columns of
books and scopes that decision commands write. -/
structure Store where
  review : Decisions.Store
  books : List BookData
  scopes : List ScopeData
  datasets : List Dataset
  revisions : List DatasetRevision
  policies : List PolicyRevision
  runs : List Run
  pairs : List RunPair
  unpaired : List RunUnpaired
  components : List AssignmentComponent
  candidates : List (ℕ × CandidateEvidence)
  diagnostics : List (ℕ × DecisionHealthDiagnostic)
  snapshots : List DecisionHealthSnapshot
  health : List CurrentDecisionHealth
  cases : List InvestigationCase
  occurrences : List CaseOccurrence
  projections : List CaseScopeProjection
  lineage : List CaseLineage

def Store.empty : Store :=
  ⟨Decisions.Store.empty, [], [], [], [], [], [], [], [], [], [], [], [], [], [], [], [], []⟩

inductive RunFailure where
  | runUnavailable
  | stateConflict
  | resultMismatch
  | integrity
  | validation
  | keyError
  | interrupted
deriving DecidableEq

structure LockedScope where
  book : Decisions.Book
  bookData : BookData
  scope : Decisions.Scope
  scopeData : ScopeData

def lockScope (workspace scope : ℕ) (s : Store) : Except RunFailure LockedScope := do
  let row ← fetch .runUnavailable
    (s.review.scopes.find? fun c => c.id = scope && c.workspace = workspace)
  let data ← fetch .runUnavailable (lookup ScopeData.id s.scopes scope)
  let book ← fetch .runUnavailable
    (s.review.books.find? fun b => b.id = row.book && b.workspace = workspace)
  let bookData ← fetch .runUnavailable (lookup BookData.id s.books row.book)
  .ok ⟨book, bookData, row, data⟩

def requireActiveWorkspace (workspace : ℕ) (now : Instant) (s : Store) :
    Except RunFailure Unit := do
  let w ← fetch .runUnavailable (lookup Workspace.id s.review.workspaces workspace)
  demand (w.accessAllowed now) .runUnavailable

def latestPolicy (workspace book : ℕ) (s : Store) : Option PolicyRevision :=
  (s.policies.filter fun p => p.workspace = workspace && p.book = book).argmax fun p =>
    toLex (p.revision, p.id)

def currentRevision (dataset : ℕ) (s : Store) : Option ℕ :=
  (lookup Dataset.id s.datasets dataset).bind Dataset.currentRevision

def membersOf (revision : ℕ) (s : Store) : List Member :=
  ((lookup DatasetRevision.id s.revisions revision).map DatasetRevision.members).getD []

def inputsOf (left right : ℕ) (s : Store) : List RunInput :=
  (membersOf left s).map (⟨·, .left⟩) ++ (membersOf right s).map (⟨·, .right⟩)

def manifestOf (workspace : ℕ) (locked : LockedScope) (s : Store) :
    Except RunFailure Manifest := do
  let left ← fetch .runUnavailable (currentRevision locked.scopeData.leftDataset s)
  let right ← fetch .runUnavailable (currentRevision locked.scopeData.rightDataset s)
  let policy ← fetch .runUnavailable (latestPolicy workspace locked.book.id s)
  .ok ⟨left, right, policy.id, policy.digest, locked.bookData.generation,
    locked.book.resolutionGeneration, locked.scope.generation, policy.engineVersion,
    policy.solverVersion, inputsOf left right s, activeDecisions workspace locked.book.id s.review⟩

/-- `create_run_manifest` up to its work item: the run of a manifest is reused.
A manifest stands for its hash; the rows of inputs and decisions are unique. -/
def createRunManifest (workspace scope : ℕ) (now : Instant) (s : Store) :
    Except RunFailure (Store × Run) := do
  requireActiveWorkspace workspace now s
  let locked ← lockScope workspace scope s
  let manifest ← manifestOf workspace locked s
  match s.runs.find? fun r => r.workspace = workspace && r.scope = scope && r.manifest = manifest with
  | some existing => .ok (s, existing)
  | none => do
    demand (manifest.leftRevision ≠ manifest.rightRevision) .integrity
    demand (manifest.inputs.map fun i => i.logicalTransaction).Nodup .integrity
    demand (manifest.inputs.map fun i => i.observation).Nodup .integrity
    demand (manifest.decisions.map (·.id)).Nodup .integrity
    let run : Run := ⟨s.runs.length, workspace, locked.book.id, scope, manifest, .frozen, .pending,
      none, none, none, none, none⟩
    .ok ({ s with runs := s.runs ++ [run] }, run)

/-- `run_state_shape_valid` and `run_attempt_token_only_while_running`. -/
def Run.Shape (r : Run) : Prop :=
  (match r.lifecycle with
    | .completed => r.freshness ≠ .pending ∧ r.resultDigest.isSome ∧ r.resultCounts.isSome ∧
        r.completedAt.isSome ∧ r.failureCode = none
    | .frozen => r.freshness = .pending ∧ r.resultDigest = none ∧ r.resultCounts = none ∧
        r.completedAt = none ∧ r.failureCode = none
    | .running => r.freshness = .pending ∧ r.resultDigest = none ∧ r.resultCounts = none ∧
        r.completedAt = none ∧ r.failureCode = none
    | .failed => r.freshness = .pending ∧ r.resultDigest = none ∧ r.resultCounts = none ∧
        r.completedAt = none ∧ r.failureCode.isSome) ∧
    (r.lifecycle = .running ∨ r.currentAttemptToken = none)

instance runShape_decidable (r : Run) : Decidable r.Shape := by
  unfold Run.Shape
  cases r.lifecycle <;> exact instDecidableAnd

def updateRun (run : ℕ) (f : Run → Run) (s : Store) : Except RunFailure Store := do
  let runs := revise Run.id run f s.runs
  demand (∀ r ∈ runs, r.id = run → r.Shape) .integrity
  .ok { s with runs := runs }

def runOf (workspace run : ℕ) (s : Store) : Option Run :=
  s.runs.find? fun r => r.id = run && r.workspace = workspace

def Run.claimed (token : Option ℕ) (r : Run) : Run :=
  { r with
    lifecycle := .running
    freshness := .pending
    completedAt := none
    failureCode := none
    currentAttemptToken := token }

/-- The claiming update of `execute_and_publish_run`: without a token it filters
on the lifecycle, with one only on the run. -/
def claimRun (workspace run : ℕ) (token : Option ℕ) (s : Store) : Except RunFailure Store := do
  let r ← fetch .stateConflict (runOf workspace run s)
  demand (token = none → r.lifecycle = .frozen ∨ r.lifecycle = .failed) .stateConflict
  updateRun run (Run.claimed token) s

def Run.failedWith (code : String) (r : Run) : Run :=
  { r with lifecycle := .failed, failureCode := some code, currentAttemptToken := none }

def failRun (workspace run : ℕ) (token : Option ℕ) (code : String) (s : Store) :
    Except RunFailure Store :=
  match runOf workspace run s with
  | some r =>
    if r.lifecycle = .running ∧ r.currentAttemptToken = token then
      updateRun run (Run.failedWith code) s
    else .ok s
  | none => .ok s

end Workbench.Runs
