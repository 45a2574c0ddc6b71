import Workbench.Candidates
import Workbench.Flood
import Workbench.PaddedAssignment

/-!
# Global assignment

The candidates above the assignment floor form a graph. Each of its connected
components is either too large or incomplete, and then nothing is selected in
it, or it is solved as a row assignment in which every record may stay
unmatched.
-/

set_option autoImplicit false

namespace Workbench.Assignment
open Workbench.Listing Workbench.Raising Workbench.Records Workbench.Evidence
open Workbench.Candidates Workbench.Json Workbench.PaddedAssignment

inductive AssignmentLimitReason where
  | incompleteCandidateGraph
  | componentNodeLimit
  | componentEdgeLimit
deriving DecidableEq

def AssignmentLimitReason.value : AssignmentLimitReason → String
  | .incompleteCandidateGraph => "INCOMPLETE_CANDIDATE_GRAPH"
  | .componentNodeLimit => "COMPONENT_NODE_LIMIT"
  | .componentEdgeLimit => "COMPONENT_EDGE_LIMIT"

structure AssignmentSolver where
  version : String
  minimize : List (List ℤ) → Selection

structure SelectedAssignmentEdge where
  leftId : String
  rightId : String
  scoreBp : ℕ
  utilityBp : ℕ
deriving DecidableEq

def SelectedAssignmentEdge.edge (s : SelectedAssignmentEdge) : Edge := (s.leftId, s.rightId)

def SelectedAssignmentEdge.create (leftId rightId : String) (score utility : ℤ) :
    Outcome SelectedAssignmentEdge := do
  require (nonblank leftId = true) "selected assignment left_id must be nonblank text"
  require (nonblank rightId = true) "selected assignment right_id must be nonblank text"
  require (0 < score) "selected assignment score_bp must be a positive integer"
  require (0 < utility) "selected assignment utility_bp must be a positive integer"
  require (score ≤ scoreScaleBp ∧ utility ≤ score)
    "selected assignment score or utility is outside its integer scale"
  return ⟨leftId, rightId, score.toNat, utility.toNat⟩

structure SolvedAssignmentComponent where
  componentId : String
  graphDigest : String
  solverVersion : String
  leftIds : List String
  rightIds : List String
  candidateCount : ℕ
  optimalUtilityBp : ℕ
  complete : Bool
  limitReason : Option AssignmentLimitReason
  selectedEdges : List SelectedAssignmentEdge
deriving DecidableEq, Inhabited

def SolvedAssignmentComponent.members (c : SolvedAssignmentComponent) : List String :=
  c.leftIds ++ c.rightIds

def SolvedAssignmentComponent.create (c : SolvedAssignmentComponent) :
    Outcome SolvedAssignmentComponent := do
  require (nonblank c.componentId = true) "assignment component component_id must be nonblank text"
  require (nonblank c.graphDigest = true) "assignment component graph_digest must be nonblank text"
  require (nonblank c.solverVersion = true)
    "assignment component solver_version must be nonblank text"
  require (c.leftIds ≠ [] ∧ c.rightIds ≠ []) "assignment component requires records on both sides"
  require (c.leftIds.Nodup ∧ c.rightIds.Nodup) "assignment component identities must be unique"
  require (0 < c.candidateCount) "assignment candidate_count must be positive"
  require (¬(c.complete = true ∧ c.limitReason ≠ none))
    "a complete assignment component cannot have a limit reason"
  require (¬(c.complete = false ∧ c.limitReason = none))
    "an incomplete assignment component requires a limit reason"
  require ((c.selectedEdges.map (·.leftId)).Nodup ∧ (c.selectedEdges.map (·.rightId)).Nodup)
    "selected assignment edges must be one-to-one"
  require (c.selectedEdges.map (·.leftId) ⊆ c.leftIds ∧
      c.selectedEdges.map (·.rightId) ⊆ c.rightIds)
    "selected assignment edge must belong to its component"
  require (¬(c.complete = false ∧ c.selectedEdges ≠ []))
    "an incomplete assignment component cannot select edges"
  require (c.optimalUtilityBp = (c.selectedEdges.map (·.utilityBp)).sum)
    "component objective must equal selected edge utilities"
  return { c with
    leftIds := sortOn id c.leftIds
    rightIds := sortOn id c.rightIds
    selectedEdges := sortOn (fun s => edgeOrder s.edge) c.selectedEdges }

structure AssignmentSolveResult where
  components : List SolvedAssignmentComponent
  selectedEdges : List SelectedAssignmentEdge
  sourceLimitedRecordIds : List String
  limitedRecordIds : List String
deriving DecidableEq

def incompleteMembers (components : List SolvedAssignmentComponent) : List String :=
  (components.filter (!·.complete)).flatMap (·.members)

def AssignmentSolveResult.create (r : AssignmentSolveResult) : Outcome AssignmentSolveResult := do
  require (r.components.map (·.componentId)).Nodup "assignment component identities must be unique"
  require (sortOn (fun s => edgeOrder s.edge) r.selectedEdges =
      sortOn (fun s => edgeOrder s.edge)
        ((sortOn (·.componentId) r.components).flatMap (·.selectedEdges)))
    "assignment selected edges must equal component selections"
  require ((r.selectedEdges.map (·.leftId)).Nodup ∧ (r.selectedEdges.map (·.rightId)).Nodup)
    "assignment result selections must be globally one-to-one"
  require r.sourceLimitedRecordIds.Nodup "source limited record identities must be unique"
  require (SameMembers r.limitedRecordIds
      (r.sourceLimitedRecordIds ++ incompleteMembers r.components))
    "assignment limited identities must equal source and incomplete component members"
  return {
    components := sortOn (·.componentId) r.components
    selectedEdges := sortOn (fun s => edgeOrder s.edge) r.selectedEdges
    sourceLimitedRecordIds := sortOn id r.sourceLimitedRecordIds
    limitedRecordIds := sortOn id r.limitedRecordIds }

def edgeTable (candidates : List CandidateEvidence) (e : Edge) : Option CandidateEvidence :=
  lookup (·.edge) candidates.reverse e

def costCell (candidates : List CandidateEvidence) (floorBp : ℕ) (forbidden : List Edge)
    (forbiddenCost : ℤ) (leftId rightId : String) : ℤ :=
  match edgeTable candidates (leftId, rightId) with
  | some c => if (leftId, rightId) ∈ forbidden then forbiddenCost else -(c.scoreBp-floorBp)
  | none => forbiddenCost

def validateSolverSelection (selections : Selection) (rowCount columnCount : ℕ) :
    Outcome Unit := do
  require (selections.length = rowCount)
    "assignment solver must select exactly one column per row"
  require (SameMembers (selections.map Prod.fst) (List.range rowCount) ∧
      (selections.map Prod.snd).Nodup)
    "assignment solver returned duplicate or missing row/column selections"
  require (∀ c ∈ selections.map Prod.snd, c < columnCount)
    "assignment solver returned an out-of-range column"

def selectEdge (leftIds rightIds : List String) (candidates : List CandidateEvidence)
    (floorBp : ℕ) (forbidden : List Edge) (p : ℕ × ℕ) : Outcome SelectedAssignmentEdge :=
  match pairAt leftIds rightIds p with
  | some e =>
    match if e ∈ forbidden then none else edgeTable candidates e with
    | some c =>
      if (c.scoreBp : ℤ)-floorBp ≤ 0 then
        .error (.domainValidation "assignment solver selected a nonpositive real edge")
      else SelectedAssignmentEdge.create e.1 e.2 c.scoreBp (c.scoreBp-floorBp)
    | none => .error (.domainValidation "assignment solver selected a forbidden relationship")
  | none => .error .missingKey

def solveComponent (leftIds rightIds : List String) (candidates : List CandidateEvidence)
    (floorBp : ℕ) (solver : AssignmentSolver) (forbidden : List Edge) :
    Outcome (List SelectedAssignmentEdge) := do
  require (forbidden ⊆ candidates.map (·.edge))
    "counterfactual forbidden edges must belong to the component"
  let forbiddenCost : ℤ := leftIds.length*10001+1
  let selections := solver.minimize
    (padded leftIds rightIds (costCell candidates floorBp forbidden forbiddenCost))
  validateSolverSelection selections leftIds.length (rightIds.length+leftIds.length)
  let selected ← (selections.filter (·.2 < rightIds.length)).mapM
    (selectEdge leftIds rightIds candidates floorBp forbidden)
  return sortOn (fun s => edgeOrder s.edge) selected

def sharing (candidates : List CandidateEvidence) (f : CandidateEvidence → String) (i : ℕ) :
    List ℕ :=
  (List.range candidates.length).filter fun j =>
    candidates[i]?.map f = candidates[j]?.map f

def adjacent (candidates : List CandidateEvidence) (i : ℕ) : List ℕ :=
  sharing candidates (·.leftId) i ++ sharing candidates (·.rightId) i

def edgeAt (candidates : List CandidateEvidence) (i : ℕ) : WithBot (String ×ₗ String) :=
  candidates[i]?.map fun c => edgeOrder c.edge

def firstUnvisited (candidates : List CandidateEvidence) (unvisited : List ℕ) : Option ℕ :=
  (sortOn (edgeAt candidates) unvisited).head?

def componentOf (candidates : List CandidateEvidence) (indices : List ℕ) :
    List CandidateEvidence :=
  (sortOn id indices).filterMap (candidates[·]?)

def leastEdge (component : List CandidateEvidence) : WithBot (String ×ₗ String) :=
  (sortOn id (component.map fun c => edgeOrder c.edge)).head?

def connectedComponents (candidates : List CandidateEvidence) : List (List CandidateEvidence) :=
  sortOn leastEdge ((Flood.classes (adjacent candidates) (List.range candidates.length)
    (firstUnvisited candidates) candidates.length
    (List.range candidates.length)).map (componentOf candidates))

def componentPayload (leftIds rightIds : List String) : String :=
  dumps (.object [("left", .array (leftIds.map .text)), ("right", .array (rightIds.map .text))])

def componentId (digest : Digest) (leftIds rightIds : List String) : String :=
  "component-" ++ digest.short (componentPayload leftIds rightIds)

def edgeValue (c : CandidateEvidence) : Value :=
  .object [("complete", .bool c.completeComputation), ("left_id", .text c.leftId),
    ("right_id", .text c.rightId), ("score_bp", .number c.scoreBp)]

def assignmentGraphDigest (digest : Digest) (componentId : String) (floorBp : ℕ)
    (edges : List CandidateEvidence) : String :=
  digest.hexdigest (dumps (.object [("assignment_floor_bp", .number floorBp),
    ("component_id", .text componentId),
    ("edges", .array ((sortOn (fun c => edgeOrder c.edge) edges).map edgeValue))]))

def limitReason (limited leftIds rightIds : List String) (limits : CapacityLimits)
    (edges : List CandidateEvidence) : Option AssignmentLimitReason :=
  if (∃ i ∈ leftIds ++ rightIds, i ∈ limited) ∨ ∃ c ∈ edges, c.completeComputation = false then
    some .incompleteCandidateGraph
  else if limits.maxComponentNodes < leftIds.length+rightIds.length then
    some .componentNodeLimit
  else if limits.maxComponentEdges < edges.length then some .componentEdgeLimit
  else none

def lefts (edges : List CandidateEvidence) : List String := sortedSet (edges.map (·.leftId))

def rights (edges : List CandidateEvidence) : List String := sortedSet (edges.map (·.rightId))

def solveConnected (digest : Digest) (limited : List String) (policy : MatchingPolicy)
    (solver : AssignmentSolver) (edges : List CandidateEvidence) :
    Outcome SolvedAssignmentComponent := do
  let leftIds := lefts edges
  let rightIds := rights edges
  let id := componentId digest leftIds rightIds
  let graphDigest := assignmentGraphDigest digest id policy.assignmentFloorBp edges
  match limitReason limited leftIds rightIds policy.limits edges with
  | some reason =>
    SolvedAssignmentComponent.create ⟨id, graphDigest, solver.version, leftIds, rightIds,
      edges.length, 0, false, some reason, []⟩
  | none => do
    let selected ← solveComponent leftIds rightIds edges policy.assignmentFloorBp solver []
    SolvedAssignmentComponent.create ⟨id, graphDigest, solver.version, leftIds, rightIds,
      edges.length, (selected.map (·.utilityBp)).sum, true, none, selected⟩

def eligible (candidates : List CandidateEvidence) (floorBp : ℕ) : List CandidateEvidence :=
  sortOn (fun c => edgeOrder c.edge) (candidates.filter (floorBp < ·.scoreBp))

def solveAssignment (digest : Digest) (candidates : List CandidateEvidence)
    (generated : CandidateGenerationResult) (policy : MatchingPolicy)
    (solver : AssignmentSolver) : Outcome AssignmentSolveResult := do
  require (solver.version = policy.solverVersion)
    "assignment solver version must match the matching policy"
  require (candidates.map (·.edge)).Nodup "scored assignment candidates must be unique"
  require (SameMembers (candidates.map (·.edge)) (generated.candidates.map (·.edge)))
    "scored candidates must exactly cover generated candidate edges"
  let components ← (connectedComponents (eligible candidates policy.assignmentFloorBp)).mapM
    (solveConnected digest generated.limitedRecordIds policy solver)
  AssignmentSolveResult.create {
    components := components
    selectedEdges := components.flatMap (·.selectedEdges)
    sourceLimitedRecordIds := generated.limitedRecordIds
    limitedRecordIds := (generated.limitedRecordIds ++ incompleteMembers components).dedup }

def sampleSolver : AssignmentSolver := ⟨"exhaustive-1", exhaustive⟩

theorem sample_optimal : Optimal sampleSolver.minimize := exhaustive_optimal

end Workbench.Assignment
