import Workbench.Assignment

/-!
# Automatic acceptance

Every selected edge is a proposal. It is accepted when its score, its
evidence and its gap pass: the gap is what the component loses when it is
solved again without the edge.
-/

set_option autoImplicit false

namespace Workbench.Gating
open Workbench.Listing Workbench.Raising Workbench.Records Workbench.Evidence
open Workbench.Assignment Workbench.Json

inductive ProposalGateReason where
  | scoreBelowAutomaticThreshold
  | insufficientEvidence
  | hardContradiction
  | incompleteComputation
  | globalGapBelowMinimum
deriving DecidableEq

def ProposalGateReason.value : ProposalGateReason → String
  | .scoreBelowAutomaticThreshold => "SCORE_BELOW_AUTOMATIC_THRESHOLD"
  | .insufficientEvidence => "INSUFFICIENT_EVIDENCE"
  | .hardContradiction => "HARD_CONTRADICTION"
  | .incompleteComputation => "INCOMPLETE_COMPUTATION"
  | .globalGapBelowMinimum => "GLOBAL_GAP_BELOW_MINIMUM"

structure GatedAssignmentResult where
  components : List AssignmentComponentEvidence
  proposals : List ProposalEvidence
  acceptedProposals : List ProposalEvidence
deriving DecidableEq

def proposalOrder (p : ProposalEvidence) : String ×ₗ String := edgeOrder p.edge

def GatedAssignmentResult.create (g : GatedAssignmentResult) : Outcome GatedAssignmentResult := do
  require (g.components.map (·.componentId)).Nodup
    "gated assignment component identities must be unique"
  require (sortOn proposalOrder g.proposals =
      sortOn proposalOrder (proposalsOf (sortOn (·.componentId) g.components)))
    "gated proposals must exactly equal the component proposal evidence"
  require (sortOn proposalOrder g.acceptedProposals =
      (sortOn proposalOrder g.proposals).filter (·.accepted))
    "accepted proposals must exactly equal the accepted flagged subset"
  require ((g.acceptedProposals.map (·.leftId)).Nodup ∧
      (g.acceptedProposals.map (·.rightId)).Nodup)
    "accepted proposals must be one-to-one"
  return {
    components := sortOn (·.componentId) g.components
    proposals := sortOn proposalOrder g.proposals
    acceptedProposals := sortOn proposalOrder g.acceptedProposals }

def gateReasons (candidate : CandidateEvidence) (globalGapBp : ℤ) (policy : MatchingPolicy) :
    List ProposalGateReason :=
  (if candidate.scoreBp < policy.automaticThresholdBp then [.scoreBelowAutomaticThreshold]
    else []) ++
  (if candidate.coverageSufficient = false then [.insufficientEvidence] else []) ++
  (if candidate.contradictions ≠ [] then [.hardContradiction] else []) ++
  (if candidate.completeComputation = false then [.incompleteComputation] else []) ++
  (if globalGapBp < policy.minimumGlobalGapBp then [.globalGapBelowMinimum] else [])

def componentCandidates (candidates : List CandidateEvidence) (floorBp : ℕ)
    (component : SolvedAssignmentComponent) : List CandidateEvidence :=
  sortOn (fun c => edgeOrder c.edge) (candidates.filter fun c =>
    c.leftId ∈ component.leftIds ∧ c.rightId ∈ component.rightIds ∧ floorBp < c.scoreBp)

def objective (selected : List SelectedAssignmentEdge) : ℕ := (selected.map (·.utilityBp)).sum

def gateSelected (candidates : List CandidateEvidence) (policy : MatchingPolicy)
    (solver : AssignmentSolver) (component : SolvedAssignmentComponent)
    (selected : SelectedAssignmentEdge) : Outcome ProposalEvidence :=
  match lookup (·.edge) candidates selected.edge with
  | none =>
    .error (.domainValidation "assignment proposal must reference a scored candidate")
  | some candidate => do
    require (selected.scoreBp = candidate.scoreBp ∧
        (selected.utilityBp : ℤ) = candidate.scoreBp-policy.assignmentFloorBp)
      "assignment proposal score and utility must match its candidate evidence"
    let counterfactual ← solveComponent component.leftIds component.rightIds
      (componentCandidates candidates policy.assignmentFloorBp component)
      policy.assignmentFloorBp solver [selected.edge]
    let globalGap : ℤ := component.optimalUtilityBp-objective counterfactual
    require (0 ≤ globalGap)
      "counterfactual objective cannot exceed the base optimal objective"
    let reasons := gateReasons candidate globalGap policy
    ProposalEvidence.create selected.leftId selected.rightId selected.scoreBp
      (objective counterfactual) globalGap (reasons = []) (reasons.map (·.value))

def gateProposals (candidates : List CandidateEvidence) (policy : MatchingPolicy)
    (solver : AssignmentSolver) (component : SolvedAssignmentComponent) :
    Outcome (List ProposalEvidence) :=
  if component.complete then
    component.selectedEdges.mapM (gateSelected candidates policy solver component)
  else .ok []

def gateComponent (digest : Digest) (candidates : List CandidateEvidence)
    (policy : MatchingPolicy) (solver : AssignmentSolver)
    (acc : List AssignmentComponentEvidence × List Edge) (component : SolvedAssignmentComponent) :
    Outcome (List AssignmentComponentEvidence × List Edge) := do
  require (component.solverVersion = policy.solverVersion)
    "assignment component solver version must match the matching policy"
  let componentCandidates :=
    componentCandidates candidates policy.assignmentFloorBp component
  require (componentCandidates.length = component.candidateCount)
    "assignment component candidate count must match the eligible candidate graph"
  require (Apart (componentCandidates.map (·.edge)) acc.2)
    "eligible candidate edges cannot span assignment components"
  require (component.graphDigest = assignmentGraphDigest digest component.componentId
      policy.assignmentFloorBp componentCandidates)
    "assignment component graph digest must match the eligible candidate graph"
  let proposals ← gateProposals candidates policy solver component
  let evidence ← AssignmentComponentEvidence.create {
    componentId := component.componentId
    graphDigest := component.graphDigest
    solverVersion := component.solverVersion
    leftIds := component.leftIds
    rightIds := component.rightIds
    candidateCount := component.candidateCount
    optimalUtilityBp := component.optimalUtilityBp
    complete := component.complete
    limitReason := component.limitReason.map (·.value)
    proposals := proposals }
  return (acc.1 ++ [evidence], acc.2 ++ componentCandidates.map (·.edge))

def gateAssignment (digest : Digest) (candidates : List CandidateEvidence)
    (assignment : AssignmentSolveResult) (policy : MatchingPolicy) (solver : AssignmentSolver) :
    Outcome GatedAssignmentResult := do
  require (solver.version = policy.solverVersion)
    "counterfactual solver version must match the matching policy"
  require (candidates.map (·.edge)).Nodup "counterfactual candidates must be unique"
  let (components, assigned) ←
    assignment.components.foldlM (gateComponent digest candidates policy solver) ([], [])
  require (SameMembers assigned
      ((candidates.filter (policy.assignmentFloorBp < ·.scoreBp)).map (·.edge)))
    "assignment components must exactly partition the eligible candidate graph"
  GatedAssignmentResult.create {
    components := components
    proposals := proposalsOf components
    acceptedProposals := acceptedOf components }

end Workbench.Gating
