import Workbench.Collector
import Workbench.Workspaces

/-!
# Purging a workspace

Every table has a cascading key to the workspace, so the collector reaches each
of its rows at once. Many tables also have protecting keys to one another, and
one of these that is set refuses the whole purge.
-/

set_option autoImplicit false

namespace Workbench.Cleanup
open Workbench.Listing Workbench.Tables Workbench.Calendar Workbench.Workspaces
open Workbench.Collector
open Workbench.Raising (demand fetch)

inductive Table where
  | workspace
  | cleanupRequest
  | sourceSystem
  | bookSource
  | mappingRevision
  | sourceContractRevision
  | reconciliationBook
  | reconciliationScope
  | policyRevision
  | dataset
  | fileArtifact
  | ingestionAttempt
  | rawRow
  | logicalTransaction
  | transactionObservation
  | datasetRevision
  | datasetMembership
  | decision
  | decisionRevision
  | decisionSupersession
  | activeDecisionClaim
  | reconciliationRun
  | runInput
  | runDecisionInput
  | assignmentComponent
  | candidateEvidence
  | runPair
  | fieldComparison
  | runUnpaired
  | runDiagnostic
  | decisionHealthSnapshot
  | currentDecisionHealth
  | investigationCase
  | caseOccurrence
  | caseScopeProjection
  | caseLineage
  | workItem
  | jobAttempt
deriving DecidableEq, Repr

def cascade (column : String) (target : Table) : ForeignKey Table := ⟨column, target, .cascade⟩

def protect (column : String) (target : Table) : ForeignKey Table := ⟨column, target, .protect⟩

def setNull (column : String) (target : Table) : ForeignKey Table := ⟨column, target, .setNull⟩

def ownReferences : Table → List (ForeignKey Table)
  | .workspace => []
  | .cleanupRequest => []
  | .sourceSystem => []
  | .bookSource => [cascade "book" .reconciliationBook, protect "source" .sourceSystem]
  | .mappingRevision => [protect "source" .sourceSystem]
  | .sourceContractRevision => [protect "source" .sourceSystem,
      protect "mapping_revision" .mappingRevision]
  | .reconciliationBook => []
  | .reconciliationScope => [cascade "book" .reconciliationBook, protect "left_dataset" .dataset,
      protect "right_dataset" .dataset, setNull "current_run" .reconciliationRun]
  | .policyRevision => [cascade "book" .reconciliationBook]
  | .dataset => [cascade "book_source" .bookSource, protect "current_revision" .datasetRevision]
  | .fileArtifact => []
  | .ingestionAttempt => [protect "artifact" .fileArtifact, cascade "dataset" .dataset,
      protect "contract_revision" .sourceContractRevision,
      protect "expected_base" .datasetRevision]
  | .rawRow => [cascade "attempt" .ingestionAttempt]
  | .logicalTransaction => [protect "book_source" .bookSource]
  | .transactionObservation => [protect "logical_transaction" .logicalTransaction,
      protect "raw_row" .rawRow]
  | .datasetRevision => [cascade "dataset" .dataset, protect "parent_revision" .datasetRevision,
      protect "attempt" .ingestionAttempt]
  | .datasetMembership => [cascade "dataset_revision" .datasetRevision,
      protect "logical_transaction" .logicalTransaction,
      protect "observation" .transactionObservation]
  | .decision => [cascade "book" .reconciliationBook,
      protect "current_revision" .decisionRevision]
  | .decisionRevision => [cascade "decision" .decision, protect "predecessor" .decisionRevision,
      protect "left_logical" .logicalTransaction, protect "right_logical" .logicalTransaction,
      protect "record_logical" .logicalTransaction]
  | .decisionSupersession => [cascade "replacement_revision" .decisionRevision,
      protect "superseded_revision" .decisionRevision]
  | .activeDecisionClaim => [cascade "book" .reconciliationBook,
      protect "logical_transaction" .logicalTransaction,
      cascade "decision_revision" .decisionRevision]
  | .reconciliationRun => [cascade "scope" .reconciliationScope,
      protect "left_revision" .datasetRevision, protect "right_revision" .datasetRevision,
      protect "policy_revision" .policyRevision]
  | .runInput => [cascade "run" .reconciliationRun,
      protect "logical_transaction" .logicalTransaction,
      protect "observation" .transactionObservation]
  | .runDecisionInput => [cascade "run" .reconciliationRun,
      protect "decision_revision" .decisionRevision]
  | .assignmentComponent => [cascade "run" .reconciliationRun]
  | .candidateEvidence => [cascade "run" .reconciliationRun,
      protect "left_observation" .transactionObservation,
      protect "right_observation" .transactionObservation,
      protect "component" .assignmentComponent]
  | .runPair => [cascade "run" .reconciliationRun,
      protect "left_observation" .transactionObservation,
      protect "right_observation" .transactionObservation,
      protect "left_logical" .logicalTransaction, protect "right_logical" .logicalTransaction,
      protect "decision_revision" .decisionRevision]
  | .fieldComparison => [cascade "pair" .runPair]
  | .runUnpaired => [cascade "run" .reconciliationRun,
      protect "observation" .transactionObservation,
      protect "logical_transaction" .logicalTransaction]
  | .runDiagnostic => [cascade "run" .reconciliationRun,
      protect "decision_revision" .decisionRevision,
      protect "record_observation" .transactionObservation,
      protect "candidate_observation" .transactionObservation]
  | .decisionHealthSnapshot => [cascade "run" .reconciliationRun, protect "decision" .decision,
      protect "decision_revision" .decisionRevision]
  | .currentDecisionHealth => [cascade "scope" .reconciliationScope,
      cascade "decision" .decision, protect "decision_revision" .decisionRevision,
      protect "run" .reconciliationRun, protect "snapshot" .decisionHealthSnapshot]
  | .investigationCase => [cascade "book" .reconciliationBook,
      protect "left_logical" .logicalTransaction, protect "right_logical" .logicalTransaction,
      protect "record_logical" .logicalTransaction,
      cascade "ambiguity_scope" .reconciliationScope]
  | .caseOccurrence => [cascade "case" .investigationCase, cascade "run" .reconciliationRun,
      cascade "pair" .runPair, cascade "unpaired" .runUnpaired,
      cascade "component" .assignmentComponent]
  | .caseScopeProjection => [cascade "case" .investigationCase,
      cascade "scope" .reconciliationScope, cascade "current_occurrence" .caseOccurrence,
      cascade "run" .reconciliationRun]
  | .caseLineage => [cascade "scope" .reconciliationScope,
      cascade "predecessor" .investigationCase, cascade "successor" .investigationCase,
      cascade "caused_by_run" .reconciliationRun]
  | .workItem => [cascade "import_attempt" .ingestionAttempt,
      cascade "reconciliation_run" .reconciliationRun,
      cascade "cleanup_request" .cleanupRequest]
  | .jobAttempt => [cascade "work_item" .workItem]

def references (table : Table) : List (ForeignKey Table) :=
  cascade "workspace" .workspace :: ownReferences table

theorem ownReferences_target (table : Table) : ∀ fk ∈ ownReferences table,
    fk.target ≠ .workspace ∧ fk.column ≠ "workspace" := by
  cases table <;> decide

abbrev Record := Row Table

def owner (r : Record) : Option ℕ := (lookup Prod.fst r.columns "workspace").map Prod.snd

def text (r : Record) (column : String) : Option String :=
  (lookup Prod.fst r.texts column).map Prod.snd

def storageKey (r : Record) : Option String :=
  if r.table = .fileArtifact then text r "storage_key" else none

structure Store where
  workspaces : List Workspace
  rows : List Record
  published : List String

inductive PurgeFailure where
  | cleanupStateConflict
  | doesNotExist
  | protectedError (rows : List Record)
deriving DecidableEq

/-- The artifacts of a workspace as `purge_workspace` lists them. -/
def storageKeys (s : Store) (workspace : ℕ) : List String :=
  (s.rows.filter fun r => owner r = some workspace).filterMap storageKey

def fence (s : Store) (workspace : ℕ) : Option String → Except PurgeFailure Unit
  | none => .ok ()
  | some token => do
    let item ← fetch .doesNotExist (s.rows.find? fun r =>
      r.table = .workItem ∧
        r.reference (cascade "cleanup_request" .cleanupRequest) = some (.cleanupRequest, workspace))
    demand (text item "current_token" = some token) .cleanupStateConflict

/-- `purge_workspace`. -/
def purgeWorkspace (s : Store) (workspace : ℕ) (attemptToken : Option String) :
    Except PurgeFailure (Store × Bool) :=
  match lookup Workspace.id s.workspaces workspace with
  | none => .ok (s, false)
  | some w => do
    demand (w.state ≠ .active) .cleanupStateConflict
    fence s workspace attemptToken
    let rows ← (delete references s.rows [(.workspace, workspace)]).mapError .protectedError
    .ok (⟨s.workspaces.filter fun x => x.id ≠ workspace, rows,
      s.published.filter fun key => key ∉ storageKeys s workspace⟩, true)

/-- What the services look up before they write a row: every row it refers to
belongs to its workspace. -/
def Inside (rows : List Record) (r : Record) : Prop :=
  ∀ fk ∈ ownReferences r.table, ∀ k ∈ r.reference fk, ∃ x ∈ rows, x.key = k ∧ owner x = owner r

instance inside_decidable (rows : List Record) (r : Record) : Decidable (Inside rows r) :=
  inferInstanceAs (Decidable (∀ fk ∈ ownReferences r.table, _))

/-- A row that can be inserted: of a new key, with one value a column, of a
workspace that exists, and with a storage key of its own. -/
structure Insertable (s : Store) (r : Record) : Prop where
  table : r.table ≠ .workspace
  fresh : r.key ∉ s.rows.map Row.key
  columns : (r.columns.map Prod.fst).Nodup
  owned : ∃ w ∈ s.workspaces, owner r = some w.id
  inside : Inside s.rows r
  storage : ∀ key ∈ storageKey r, key ∉ s.rows.filterMap storageKey

instance insertable_decidable (s : Store) (r : Record) : Decidable (Insertable s r) :=
  decidable_of_iff (r.table ≠ .workspace ∧ r.key ∉ s.rows.map Row.key ∧
    (r.columns.map Prod.fst).Nodup ∧ (∃ w ∈ s.workspaces, owner r = some w.id) ∧
    Inside s.rows r ∧ ∀ key ∈ storageKey r, key ∉ s.rows.filterMap storageKey)
    ⟨fun ⟨a, b, c, d, e, f⟩ => ⟨a, b, c, d, e, f⟩, fun ⟨a, b, c, d, e, f⟩ => ⟨a, b, c, d, e, f⟩⟩

def Row.refer (column : String) (value : Option ℕ) (r : Record) : Record :=
  { r with columns := r.columns.filter (fun c => c.1 ≠ column) ++
      (value.map fun v => (column, v)).toList }

def Row.write (column : String) (value : String) (r : Record) : Record :=
  { r with texts := (column, value) :: r.texts.filter fun c => c.1 ≠ column }

/-- The statements of the services. A deletion never names a workspace. -/
inductive Command where
  | createWorkspace (w : Workspace)
  | revoke (workspace : ℕ) (final : WorkspaceState) (now : Instant)
  | insert (r : Record) (bytes : Bool)
  | refer (row : Table × ℕ) (column : String) (value : Option ℕ)
  | write (row : Table × ℕ) (column : String) (value : String)
  | delete (rows : List (Table × ℕ))
  | purge (workspace : ℕ) (attemptToken : Option String)

def step (s : Store) : Command → Store
  | .createWorkspace w =>
    if w.id ∈ s.workspaces.map Workspace.id then s
    else { s with workspaces := s.workspaces ++ [w] }
  | .revoke workspace final now =>
    { s with workspaces := revise Workspace.id workspace (Workspace.revoke final now) s.workspaces }
  | .insert r bytes =>
    if Insertable s r then
      { s with
        rows := s.rows ++ [r]
        published := s.published ++ if bytes then (storageKey r).toList else [] }
    else s
  | .refer row column value =>
    if column ≠ "workspace" ∧
        ∀ r ∈ s.rows, r.key = row → Inside s.rows (Row.refer column value r) then
      { s with rows := revise Row.key row (Row.refer column value) s.rows }
    else s
  | .write row column value =>
    if column ≠ "storage_key" then
      { s with rows := revise Row.key row (Row.write column value) s.rows }
    else s
  | .delete rows =>
    if ∀ k ∈ rows, k.1 ≠ .workspace then
      match delete references s.rows rows with
      | .ok after => { s with rows := after }
      | .error _ => s
    else s
  | .purge workspace attemptToken =>
    settle s (Prod.fst <$> purgeWorkspace s workspace attemptToken)

def run (cs : List Command) : Store := cs.foldl step ⟨[], [], []⟩

end Workbench.Cleanup
