import Workbench.Gating
import Workbench.Comparison
import Workbench.Diagnostics

/-!
# The engine

A run preprocesses references, generates and scores candidates, assigns them
globally and gates what was assigned. Its result lists one outcome for every
record of the snapshot.
-/

set_option autoImplicit false

namespace Workbench.Engine
open Workbench.Listing Workbench.Calendar Workbench.Raising Workbench.Records
open Workbench.Evidence
open Workbench.References Workbench.Candidates Workbench.Scoring Workbench.Assignment
open Workbench.Gating Workbench.Comparison Workbench.Diagnostics Workbench.Json

def comparePair (snapshot : EngineSnapshot) (matchingPolicy : MatchingPolicy)
    (comparisonPolicy : ComparisonPolicy) (pair : PairOutcome) : Outcome PairOutcome :=
  match lookup (·.observationId) snapshot.left pair.leftId,
    lookup (·.observationId) snapshot.right pair.rightId with
  | some left, some right => do
    let comparisons ← comparePairFields left right pair.origin comparisonPolicy
      matchingPolicy.referenceContract
    PairOutcome.create { pair with comparisons := comparisons }
  | _, _ => .error .missingKey

def proposedPair (p : ProposalEvidence) : PairOutcome :=
  ⟨p.leftId, p.rightId, .weightedGlobal, some p.scoreBp, some p.globalGapBp, []⟩

def acceptPair (snapshot : EngineSnapshot) (matchingPolicy : MatchingPolicy)
    (comparisonPolicy : ComparisonPolicy) (p : ProposalEvidence) : Outcome PairOutcome := do
  let pair ← (proposedPair p).create
  comparePair snapshot matchingPolicy comparisonPolicy pair

def limitedText : String :=
  "Candidate enumeration or assignment was incomplete for this record, so automatic matching was withheld."

def prohibitedText : String :=
  "The available relationship for this record was prohibited by an active reviewer decision."

def noCandidateText : String := "No candidate was found in the complete configured search."

def contradictedText : String :=
  "Every retained candidate for this record contains a hard contradiction."

def belowFloorText : String := "Every candidate rule score was at or below the assignment floor."

def ambiguousText : String :=
  "No proposal for this record passed every automatic acceptance gate."

def automaticUnpaired (candidates : List CandidateEvidence)
    (prohibited : List ProhibitedRelationship) (limited : List String) (floorBp : ℕ)
    (side : RecordSide) (record : MatchRecord) : Outcome UnpairedOutcome :=
  let identity := record.observationId
  let related := candidates.filter (·.endId side = identity)
  let prohibitedCounterparts :=
    (prohibited.filter (·.endId side = identity)).map (·.endId side.other)
  let relatedIds := sortedSet (related.map (·.endId side.other) ++ prohibitedCounterparts)
  if identity ∈ limited then
    UnpairedOutcome.create ⟨identity, side, .computationLimited, limitedText, relatedIds⟩
  else if related = [] then
    if prohibitedCounterparts ≠ [] then
      UnpairedOutcome.create ⟨identity, side, .prohibited, prohibitedText, relatedIds⟩
    else UnpairedOutcome.create ⟨identity, side, .noCandidate, noCandidateText, []⟩
  else if ∀ c ∈ related, c.contradictions ≠ [] then
    UnpairedOutcome.create ⟨identity, side, .prohibited, contradictedText, relatedIds⟩
  else if ∀ c ∈ related, c.scoreBp ≤ floorBp then
    UnpairedOutcome.create ⟨identity, side, .belowAssignmentFloor, belowFloorText, relatedIds⟩
  else UnpairedOutcome.create ⟨identity, side, .ambiguous, ambiguousText, relatedIds⟩

def pairedIds (pairs : List PairOutcome) : List String := pairs.flatMap fun p => [p.leftId, p.rightId]

def leftover (pre : ReferencePreprocessingResult) (pairs : List PairOutcome)
    (side : RecordSide) : List MatchRecord :=
  (pre.remaining side).filter (·.observationId ∉ pairedIds pairs)

def unpairedOutcomes (pre : ReferencePreprocessingResult) (candidates : List CandidateEvidence)
    (limited : List String) (floorBp : ℕ) (pairs : List PairOutcome) :
    Outcome (List UnpairedOutcome) := do
  let automatic := automaticUnpaired candidates pre.prohibitedRelationships limited floorBp
  let left ← (leftover pre pairs .left).mapM (automatic .left)
  let right ← (leftover pre pairs .right).mapM (automatic .right)
  return pre.terminalUnpaired ++ (left ++ right)

def primaryResult (snapshot : EngineSnapshot) (matchingPolicy : MatchingPolicy)
    (comparisonPolicy : ComparisonPolicy) (candidates : List CandidateEvidence)
    (components : List AssignmentComponentEvidence) (pairs : List PairOutcome)
    (unpaired : List UnpairedOutcome) : EngineResult where
  leftRevisionId := snapshot.leftRevisionId
  rightRevisionId := snapshot.rightRevisionId
  matchingPolicyVersion := matchingPolicy.policyVersion
  comparisonPolicyVersion := comparisonPolicy.policyVersion
  engineVersion := matchingPolicy.engineVersion
  solverVersion := matchingPolicy.solverVersion
  inputLeftIds := ids snapshot.left
  inputRightIds := ids snapshot.right
  pairs := pairs
  unpaired := unpaired
  candidates := candidates
  components := components
  diagnostics := []

def reconcile (digest : Digest) (snapshot : EngineSnapshot) (matchingPolicy : MatchingPolicy)
    (comparisonPolicy : ComparisonPolicy) (decisions : DecisionInputs)
    (solver : AssignmentSolver) : Outcome EngineResult := do
  let preprocessed ← preprocessReferences snapshot decisions matchingPolicy.referenceContract
  let generated ← generateCandidates digest preprocessed matchingPolicy
  let candidates ← scoreCandidates preprocessed generated matchingPolicy
  let assignment ← solveAssignment digest candidates generated matchingPolicy solver
  let gated ← gateAssignment digest candidates assignment matchingPolicy solver
  let established ← preprocessed.pairs.mapM (comparePair snapshot matchingPolicy comparisonPolicy)
  let accepted ← gated.acceptedProposals.mapM
    (acceptPair snapshot matchingPolicy comparisonPolicy)
  let pairs := established ++ accepted
  let unpaired ← unpairedOutcomes preprocessed candidates assignment.limitedRecordIds
    matchingPolicy.assignmentFloorBp pairs
  let primary ← (primaryResult snapshot matchingPolicy comparisonPolicy candidates
    gated.components pairs unpaired).create
  let diagnostics ← diagnoseAcceptedUnmatched digest snapshot decisions matchingPolicy
    primary.pairs
  EngineResult.create { primary with diagnostics := diagnostics }

def sampleRun (time : Instant) : Outcome EngineResult :=
  reconcile checksum (sampleSnapshot time) (samplePolicy sampleLimits) sampleComparison noDecisions
    sampleSolver

theorem sampleRun_pairs : (sampleRun noon).toOption.map (fun r => r.pairs.map fun p =>
    (p.edge, p.origin, p.scoreBp, p.globalGapBp)) =
      some [(("L1", "R1"), .weightedGlobal, some 10000, some 5000)] := by
  decide +kernel

end Workbench.Engine
