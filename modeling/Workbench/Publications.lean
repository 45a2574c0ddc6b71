import Workbench.Runs

/-!
# Publication

A run is published in one transaction: its facts, the health of its decisions
and the cases its results make. A run that is still current when it is
published also replaces what its scope shows.
-/

set_option autoImplicit false

namespace Workbench.Publications
open Workbench.Listing Workbench.Tables Workbench.Calendar Workbench.Workspaces Workbench.Records
open Workbench.Evidence Workbench.Json Workbench.Ingestion
open Workbench.Decisions hiding Store currentRevision requireActiveWorkspace
open Workbench.Review Workbench.Upserts Workbench.Runs
open Workbench.Raising (demand fetch)

def insertEach {α : Type} (insert : α → Store → Except RunFailure Store) :
    List α → Store → Except RunFailure Store
  | [], s => .ok s
  | a :: rest, s => do
    let s ← insert a s
    insertEach insert rest s

def inputOf (inputs : List RunInput) (observation : String) : Option RunInput :=
  lookup (fun i => i.observation.text) inputs observation

/-- `manual_by_edge`. -/
def manualDecision (m : Manifest) (left right : RunInput) : Option Uuid :=
  (m.decisions.find? fun d => match d.authority with
    | some (.link pair) => pair.left = left.logicalTransaction && pair.right = right.logicalTransaction
    | _ => false).map (·.id)

/-- `run_pair_left_unique` and `run_pair_right_unique`. -/
def insertPair (r : Run) (outcome : PairOutcome) (s : Store) : Except RunFailure Store := do
  let left ← fetch .keyError (inputOf r.manifest.inputs outcome.leftId)
  let right ← fetch .keyError (inputOf r.manifest.inputs outcome.rightId)
  let decision := if outcome.origin = .manual then manualDecision r.manifest left right else none
  demand (∀ p ∈ s.pairs, p.run = r.id → p.outcome.leftId ≠ outcome.leftId ∧
    p.outcome.rightId ≠ outcome.rightId) .integrity
  .ok { s with pairs := s.pairs ++ [⟨s.pairs.length, r.id, left.logicalTransaction,
    right.logicalTransaction, decision, outcome⟩] }

/-- `run_unpaired_observation_unique`. -/
def insertUnpaired (r : Run) (outcome : UnpairedOutcome) (s : Store) : Except RunFailure Store := do
  let input ← fetch .keyError (inputOf r.manifest.inputs outcome.recordId)
  demand (∀ u ∈ s.unpaired, u.run = r.id → u.outcome.recordId ≠ outcome.recordId) .integrity
  .ok { s with unpaired := s.unpaired ++
    [⟨s.unpaired.length, r.id, input.logicalTransaction, outcome⟩] }

/-- `run_component_key_unique`. -/
def insertComponent (r : Run) (evidence : AssignmentComponentEvidence) (s : Store) :
    Except RunFailure Store := do
  demand (∀ c ∈ s.components, c.run = r.id → c.evidence.componentId ≠ evidence.componentId)
    .integrity
  .ok { s with components := s.components ++ [⟨s.components.length, r.id, evidence⟩] }

/-- `_persist_result`; the edges of a run's candidates are unique, and so are
its diagnostics. -/
def persistResult (r : Run) (result : EngineResult) (s : Store) : Except RunFailure Store := do
  let s ← insertEach (insertComponent r) result.components s
  demand (result.candidates.map (·.edge)).Nodup .integrity
  let s := { s with candidates := s.candidates ++ result.candidates.map ((r.id, ·)) }
  let s ← insertEach (insertPair r) result.pairs s
  let s ← insertEach (insertUnpaired r) result.unpaired s
  .ok { s with diagnostics := s.diagnostics ++ result.diagnostics.map ((r.id, ·)) }

def RunInput.row (workspace : ℕ) (i : RunInput) : TransactionObservation :=
  ⟨i.observation, workspace, i.logicalTransaction, i.fingerprint⟩

def sharedAlias (i : RunInput) : Option String :=
  if i.referenceSemantics = .trustedShared then i.businessReference else none

/-- `_authoritative_reference_conflict` of two inputs. -/
def referenceConflict (contract : ReferenceContract) : List RunInput → Bool
  | [left, right] => match contract with
    | .sharedMustAgree =>
      left.businessReference.isSome && left.businessReference = right.businessReference
    | .sourceLocalOrAlias => (sharedAlias left).isSome && sharedAlias left = sharedAlias right
  | _ => false

def heldInputs (m : Manifest) (authority : DecisionAuthority) : List RunInput :=
  authority.endpointIds.filterMap (lookup (fun i => i.logicalTransaction) m.inputs)

def currentDigest (digest : Digest) (workspace : ℕ) (held : List RunInput) : Option String :=
  if held = [] then none else some (reviewedEvidenceDigest digest (held.map (RunInput.row workspace)))

def endpointsAvailable (m : Manifest) (authority : DecisionAuthority) : Bool :=
  (heldInputs m authority).length = authority.endpointIds.length

def evidenceChanged (digest : Digest) (workspace : ℕ) (m : Manifest) (row : DecisionRevision)
    (authority : DecisionAuthority) : Bool :=
  endpointsAvailable m authority &&
    currentDigest digest workspace (heldInputs m authority) ≠ row.reviewedEvidenceDigest

def diagnosticsOf (held : List RunInput) (diagnostics : List DecisionHealthDiagnostic) :
    List DecisionHealthDiagnostic :=
  match held with
  | [] => []
  | i :: _ => diagnostics.filter (·.recordId = i.observation.text)

def healthEvidence (digest : Digest) (workspace : ℕ) (contract : ReferenceContract) (m : Manifest)
    (diagnostics : List DecisionHealthDiagnostic) (row : DecisionRevision)
    (authority : DecisionAuthority) : DecisionHealthEvidence :=
  let held := heldInputs m authority
  let changed := evidenceChanged digest workspace m row authority
  let noted := diagnosticsOf held diagnostics
  match authority with
  | .link _ => ⟨.link, endpointsAvailable m authority, changed, false, true,
      endpointsAvailable m authority && changed, false, fun _ => ⟨rfl, rfl⟩,
      fun h => (h rfl).elim, fun _ => rfl⟩
  | .acceptUnmatched _ _ => ⟨.acceptUnmatched, endpointsAvailable m authority, changed,
      noted.any fun d => d.kind = .acceptedUnmatchedCandidate,
      !noted.any fun d => d.kind = .incompleteSearch || !d.complete, false, false,
      fun h => (h rfl).elim, fun _ => rfl, fun _ => rfl⟩
  | .rejectCandidate _ => ⟨.rejectCandidate, endpointsAvailable m authority, changed, false, true,
      false, endpointsAvailable m authority && referenceConflict contract held,
      fun _ => ⟨rfl, rfl⟩, fun _ => rfl, fun h => (h rfl).elim⟩

def snapshotOf (digest : Digest) (contract : ReferenceContract) (r : Run)
    (diagnostics : List DecisionHealthDiagnostic) (index : ℕ) (row : DecisionRevision)
    (authority : DecisionAuthority) : DecisionHealthSnapshot :=
  let held := heldInputs r.manifest authority
  ⟨index, r.id, row.decision, row.id, projectDecisionHealth
    (healthEvidence digest r.workspace contract r.manifest diagnostics row authority),
    sortOn id (held.map fun i => i.observation.text),
    currentDigest digest r.workspace held⟩

/-- `run_decision_health_unique`. -/
def insertSnapshot (digest : Digest) (contract : ReferenceContract) (r : Run)
    (diagnostics : List DecisionHealthDiagnostic) (row : DecisionRevision) (s : Store) :
    Except RunFailure Store := do
  let authority ← fetch .validation row.authority
  demand (∀ h ∈ s.snapshots, h.run = r.id → h.decisionRevision ≠ row.id) .integrity
  .ok { s with snapshots := s.snapshots ++
    [snapshotOf digest contract r diagnostics s.snapshots.length row authority] }

def snapshotsOf (s : Store) (run : ℕ) : List DecisionHealthSnapshot :=
  s.snapshots.filter (·.run = run)

def currentHealth (r : Run) (h : DecisionHealthSnapshot) : CurrentDecisionHealth :=
  ⟨r.scope, h.decision, h.decisionRevision, r.id, h.id, h.projection, r.manifest.dataGeneration,
    r.manifest.resolutionGeneration⟩

def CurrentDecisionHealth.key (h : CurrentDecisionHealth) : ℕ × Uuid := (h.scope, h.decision)

def showHealth (r : Run) (s : Store) : Store :=
  let news := (snapshotsOf s r.id).map (currentHealth r)
  { s with health := replaceGroup (·.scope) CurrentDecisionHealth.key r.scope news s.health }

/-- `_persist_decision_health`. -/
def persistDecisionHealth (digest : Digest) (contract : ReferenceContract) (r : Run)
    (diagnostics : List DecisionHealthDiagnostic) (isCurrent : Bool) (s : Store) :
    Except RunFailure Store := do
  let s ← insertEach (insertSnapshot digest contract r diagnostics) r.manifest.decisions s
  if isCurrent then .ok (showHealth r s) else .ok s

def openCase (r : Run) (key : CaseKey) (identity : CaseIdentity) (s : Store) :
    Store × InvestigationCase :=
  match s.cases.find? fun c => c.workspace = r.workspace && c.book = r.book && c.key = key with
  | some existing => (s, existing)
  | none =>
    let case : InvestigationCase := ⟨s.cases.length, r.workspace, r.book, key, identity⟩
    ({ s with cases := s.cases ++ [case] }, case)

structure Finding where
  key : CaseKey
  identity : CaseIdentity
  result : CaseResult

/-- `case_run_occurrence_unique`. -/
def recordFinding (r : Run) (f : Finding) (s : Store) : Except RunFailure Store := do
  let (s, case) := openCase r f.key f.identity s
  demand (∀ o ∈ s.occurrences, o.run = r.id → o.case ≠ case.id) .integrity
  .ok { s with occurrences := s.occurrences ++ [⟨s.occurrences.length, case.id, r.id, f.result⟩] }

def idText (id : ℕ) : String := toString id

def pairFinding (sha : Sha256) (r : Run) (p : RunPair) : Option Finding :=
  (pairCaseKey sha (idText r.book) p.leftLogical.text p.rightLogical.text).toOption.map
    (⟨·, .pair p.leftLogical p.rightLogical, .pair p.id⟩)

def unpairedFinding (sha : Sha256) (r : Run) (u : RunUnpaired) : Option Finding :=
  (unpairedCaseKey sha (idText r.book) u.outcome.side u.logicalTransaction.text).toOption.map
    (⟨·, .unpaired u.logicalTransaction u.outcome.side, .unpaired u.id⟩)

def logicalText (m : Manifest) (observation : String) : Option String :=
  (inputOf m.inputs observation).map fun i => i.logicalTransaction.text

def componentFinding (sha : Sha256) (r : Run) (c : AssignmentComponent) : Option Finding := do
  let left ← c.evidence.leftIds.mapM (logicalText r.manifest)
  let right ← c.evidence.rightIds.mapM (logicalText r.manifest)
  let key ← (ambiguityCaseKey sha (idText r.book) (idText r.scope) r.manifest.policyDigest left
    right).toOption
  some ⟨key, .ambiguity r.scope r.manifest.policyDigest left right, .component c.id⟩

def pairsOf (s : Store) (run : ℕ) : List RunPair := s.pairs.filter (·.run = run)

def unpairedOf (s : Store) (run : ℕ) : List RunUnpaired := s.unpaired.filter (·.run = run)

def ambiguousIds (s : Store) (run : ℕ) : List String :=
  ((unpairedOf s run).filter fun u =>
    u.outcome.reason = .ambiguous || u.outcome.reason = .computationLimited).map (·.outcome.recordId)

def ambiguousComponents (s : Store) (run : ℕ) : List AssignmentComponent :=
  (sortOn (·.evidence.componentId) (s.components.filter (·.run = run))).filter fun c =>
    (c.evidence.leftIds ++ c.evidence.rightIds).any (· ∈ ambiguousIds s run)

def findingsOf (sha : Sha256) (r : Run) (s : Store) : Option (List Finding) := do
  let pairs ← (pairsOf s r.id).mapM (pairFinding sha r)
  let unpaired ← (unpairedOf s r.id).mapM (unpairedFinding sha r)
  let components ← (ambiguousComponents s r.id).mapM (componentFinding sha r)
  some (pairs ++ unpaired ++ components)

def occurrencesOf (s : Store) (run : ℕ) : List CaseOccurrence := s.occurrences.filter (·.run = run)

def caseOf (s : Store) (id : ℕ) : Option InvestigationCase := lookup InvestigationCase.id s.cases id

def transitionNode (c : InvestigationCase) : Option CaseTransitionNode :=
  CaseTransitionNode.create c.key c.identity.members

/-- `health_by_observation`: of the snapshots that name a record, the last one
read. -/
def healthByObservation (read : List DecisionHealthSnapshot) (observation : String) :
    Option DecisionHealthSnapshot :=
  read.reverse.find? fun h => observation ∈ h.currentObservationIds

def healthByRevision (read : List DecisionHealthSnapshot) (revision : Uuid) :
    Option DecisionHealthSnapshot :=
  read.reverse.find? fun h => h.decisionRevision = revision

/-- `_health`. -/
def reviewHealth (s : Store) (read : List DecisionHealthSnapshot) :
    CaseResult → Option DecisionHealthSnapshot
  | .pair id => (lookup RunPair.id s.pairs id).bind fun p =>
      p.decisionRevision.bind (healthByRevision read)
  | .unpaired id => (lookup RunUnpaired.id s.unpaired id).bind fun u =>
      healthByObservation read u.outcome.recordId
  | .component _ => none

def projectionOf (r : Run) (s : Store) (read : List DecisionHealthSnapshot) (o : CaseOccurrence) :
    CaseScopeProjection :=
  ⟨o.case, r.scope, o.id, r.id, (reviewHealth s read o.result).map (·.projection),
    r.manifest.dataGeneration, r.manifest.resolutionGeneration⟩

def CaseScopeProjection.key (p : CaseScopeProjection) : ℕ × ℕ := (p.scope, p.case)

def lineageRow (r : Run) (cases : List InvestigationCase) (e : CaseLineageEdge) :
    Option CaseLineage := do
  let predecessor ← lookup InvestigationCase.key cases e.predecessor
  let successor ← lookup InvestigationCase.key cases e.successor
  some ⟨r.scope, predecessor.id, successor.id, r.id⟩

def shownCases (scope : ℕ) (s : Store) : List InvestigationCase :=
  (s.projections.filter (·.scope = scope)).filterMap fun p => caseOf s p.case

def casesOf (s : Store) (run : ℕ) : List InvestigationCase :=
  (occurrencesOf s run).filterMap fun o => caseOf s o.case

def recordLineage (r : Run) (previous current : List InvestigationCase) (s : Store) :
    Except RunFailure Store := do
  let before ← fetch .validation (previous.mapM transitionNode)
  let after ← fetch .validation (current.mapM transitionNode)
  let plan ← fetch .validation (planCaseTransitions before after)
  let rows ← fetch .keyError (plan.mapM (lineageRow r (previous ++ current)))
  .ok { s with lineage := s.lineage ++ rows }

/-- The part of `materialize_run_cases` for a run that is current. -/
def showCases (r : Run) (read : List DecisionHealthSnapshot) (previous : List InvestigationCase)
    (s : Store) : Except RunFailure Store := do
  let s ← recordLineage r previous (casesOf s r.id) s
  let news := (occurrencesOf s r.id).map (projectionOf r s read)
  .ok { s with projections :=
    replaceGroup (·.scope) CaseScopeProjection.key r.scope news s.projections }

/-- `materialize_run_cases`; the snapshots of the run are read in any order. -/
def materializeRunCases (sha : Sha256) (r : Run) (read : List DecisionHealthSnapshot)
    (isCurrent : Bool) (s : Store) : Except RunFailure Store := do
  let previous := shownCases r.scope s
  let findings ← fetch .validation (findingsOf sha r s)
  let s ← insertEach (recordFinding r) findings s
  if isCurrent then showCases r read previous s else .ok s

/-- The comparison with the frozen manifest in `publish_run`. -/
def isFresh (locked : LockedScope) (r : Run) (s : Store) : Bool :=
  currentRevision locked.scopeData.leftDataset s = some r.manifest.leftRevision &&
    currentRevision locked.scopeData.rightDataset s = some r.manifest.rightRevision &&
    (latestPolicy r.workspace locked.book.id s).map (·.id) = some r.manifest.policyRevision &&
    locked.bookData.generation = r.manifest.dataGeneration &&
    locked.book.resolutionGeneration = r.manifest.resolutionGeneration &&
    locked.scope.generation = r.manifest.scopeGeneration

def sideIds (m : Manifest) (side : RecordSide) : List String :=
  sortOn id ((m.inputs.filter (·.side = side)).map fun i => i.observation.text)

/-- `_validate_result`. -/
def validResult (r : Run) (result : EngineResult) : Bool :=
  result.leftRevisionId = idText r.manifest.leftRevision &&
    result.rightRevisionId = idText r.manifest.rightRevision &&
    result.inputLeftIds = sideIds r.manifest .left &&
    result.inputRightIds = sideIds r.manifest .right &&
    result.engineVersion = r.manifest.engineVersion &&
    result.solverVersion = r.manifest.solverVersion

def countsOf (result : EngineResult) : List ℕ :=
  [result.inputLeftIds.length + result.inputRightIds.length, result.pairs.length,
    result.unpaired.length, result.candidates.length, result.components.length,
    result.diagnostics.length]

def Run.completedWith (fresh : Bool) (resultDigest : String) (result : EngineResult)
    (completedAt : Instant) (r : Run) : Run :=
  { r with
    lifecycle := .completed
    freshness := if fresh then .current else .stale
    resultDigest := some resultDigest
    resultCounts := some (countsOf result)
    completedAt := some completedAt
    failureCode := none
    currentAttemptToken := none }

def pointScope (r : Run) (s : Store) : Store :=
  { s with
    scopes := revise ScopeData.id r.scope (fun c => { c with currentRun := some r.id }) s.scopes
    review := { s.review with
      scopes := revise Decisions.Scope.id r.scope (fun c => { c with isDirty := false })
        s.review.scopes } }

/-- What a publication is called with: the result and its digest, the token of
the attempt, the clock, the order the snapshots are read in and whether a
statement of the transaction is interrupted. -/
structure Publication where
  result : EngineResult
  resultDigest : String
  attemptToken : Option ℕ
  clock : Instant
  arrange : List DecisionHealthSnapshot → List DecisionHealthSnapshot
  arrange_perm : ∀ l, (arrange l).Perm l
  interrupted : Bool

/-- `publish_run`. -/
def publishRun (sha : Sha256) (digest : Digest) (workspace run : ℕ) (p : Publication) (s : Store) :
    Except RunFailure Store := do
  requireActiveWorkspace workspace p.clock s
  let r ← fetch .runUnavailable (runOf workspace run s)
  let locked ← lockScope workspace r.scope s
  demand (r.lifecycle = .running) .stateConflict
  demand (∀ token ∈ p.attemptToken, r.currentAttemptToken = some token) .stateConflict
  demand (validResult r p.result = true) .resultMismatch
  let policy ← fetch .runUnavailable (lookup PolicyRevision.id s.policies r.manifest.policyRevision)
  let fresh := isFresh locked r s
  let s ← persistResult r p.result s
  let s ← persistDecisionHealth digest policy.referenceContract r p.result.diagnostics fresh s
  let s ← materializeRunCases sha r (p.arrange (snapshotsOf s r.id)) fresh s
  let s ← updateRun r.id (Run.completedWith fresh p.resultDigest p.result p.clock) s
  demand (p.interrupted = false) .interrupted
  .ok (if fresh then pointScope r s else s)

end Workbench.Publications
