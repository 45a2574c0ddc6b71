import Workbench.Scoring

/-!
# Health of accepted-unmatched decisions

Every record that was accepted as unmatched is searched for once more, against
all eligible records of the other side, with what is left of the run's edge
budget. What is found is reported and changes nothing.
-/

set_option autoImplicit false

namespace Workbench.Diagnostics
open Workbench.Listing Workbench.Raising Workbench.Records Workbench.Evidence
open Workbench.References Workbench.Candidates Workbench.Scoring Workbench.Json

def acceptedRecord (snapshot : EngineSnapshot) (recordId : String) :
    RecordSide × Option MatchRecord :=
  match lookup (·.observationId) snapshot.left recordId with
  | some r => (.left, some r)
  | none =>
    match lookup (·.observationId) snapshot.right recordId with
    | some r => (.right, some r)
    | none => (.left, none)

def opposite (snapshot : EngineSnapshot) (side : RecordSide) : List MatchRecord :=
  (snapshot.records side.other).filter (·.eligible)

def diagnosticRecords (record : MatchRecord) (side : RecordSide) (opposite : List MatchRecord)
    (t : RecordSide) : List MatchRecord :=
  if t = side then [record] else opposite

def diagnosticInput (record : MatchRecord) (side : RecordSide) (opposite : List MatchRecord)
    (prohibited : List ProhibitedRelationship) : ReferencePreprocessingResult :=
  let left := diagnosticRecords record side opposite .left
  let right := diagnosticRecords record side opposite .right
  { inputLeftIds := (ids left).dedup
    inputRightIds := (ids right).dedup
    pairs := []
    terminalUnpaired := []
    remainingLeft := left
    remainingRight := right
    prohibitedRelationships :=
      prohibited.filter fun r => r.leftId ∈ ids left ∧ r.rightId ∈ ids right
    referenceConflicts := [] }

def diagnosticPreprocessing (record : MatchRecord) (side : RecordSide)
    (opposite : List MatchRecord) (prohibited : List ProhibitedRelationship) :
    Outcome ReferencePreprocessingResult :=
  (diagnosticInput record side opposite prohibited).create

def pairByRecord (pairs : List PairOutcome) (recordId : String) : Option PairOutcome :=
  pairs.reverse.find? fun p => p.leftId = recordId ∨ p.rightId = recordId

def allocation (candidateId : String) : Option PairOutcome → String
  | none => "the candidate is not currently paired"
  | some p => "the candidate is currently paired with " ++
      (if p.leftId = candidateId then p.rightId else p.leftId)

def candidateExplanation (candidateId : String) (scoreBp : ℕ)
    (currentPair : Option PairOutcome) : String :=
  "Candidate " ++ candidateId ++ " has rule score " ++ toString scoreBp ++
    " under the current policy; " ++ allocation candidateId currentPair ++ "."

def candidateFinding (pairs : List PairOutcome) (side : RecordSide) (recordId : String)
    (candidate : CandidateEvidence) : DecisionHealthDiagnostic :=
  let candidateId := candidate.endId side.other
  let currentPair := pairByRecord pairs candidateId
  ⟨.acceptedUnmatchedCandidate, recordId, some candidateId, currentPair.map (·.key),
    candidate.completeComputation, candidateExplanation candidateId candidate.scoreBp currentPair⟩

def candidateDiagnostic (pairs : List PairOutcome) (side : RecordSide) (recordId : String)
    (candidate : CandidateEvidence) : Outcome DecisionHealthDiagnostic :=
  (candidateFinding pairs side recordId candidate).create

def incompleteFinding (recordId limit : String) : DecisionHealthDiagnostic :=
  ⟨.incompleteSearch, recordId, none, none, false,
    "Decision-health search is incomplete because it reached the " ++ limit ++
      "; absence of another diagnostic does not establish that no candidate exists."⟩

def incompleteDiagnostic (recordId limit : String) : Outcome DecisionHealthDiagnostic :=
  (incompleteFinding recordId limit).create

def incompleteness (complete : Bool) (recordId : String) :
    Outcome (List DecisionHealthDiagnostic) :=
  if complete then .ok []
  else do
    let d ← incompleteDiagnostic recordId "candidate enumeration limit"
    return [d]

/-- A candidate is reported when only its reservation keeps it from being
accepted. -/
def plausibleCandidate (policy : MatchingPolicy) (c : CandidateEvidence) : Bool :=
  policy.automaticThresholdBp ≤ c.scoreBp ∧ c.coverageSufficient = true ∧ c.contradictions = []

def remainingLimits (limits : CapacityLimits) (remaining : ℕ) (h : 0 < remaining) :
    CapacityLimits :=
  { limits with maxRunCandidateEdges := remaining, run_pos := h }

structure Diagnosis where
  remainingRunEdges : ℕ
  diagnostics : List DecisionHealthDiagnostic

section Diagnose
variable (digest : Digest) (snapshot : EngineSnapshot) (decisions : DecisionInputs)
  (policy : MatchingPolicy) (pairs : List PairOutcome)

def diagnoseRecord (side : RecordSide) (record : MatchRecord) (acc : Diagnosis)
    (h : 0 < acc.remainingRunEdges) : Outcome Diagnosis := do
  let diagnosticPolicy :=
    policy.withLimits (remainingLimits policy.limits acc.remainingRunEdges h)
  let pre ← diagnosticPreprocessing record side (opposite snapshot side)
    (prohibitedRelationships snapshot decisions)
  let generated ← generateCandidates digest pre diagnosticPolicy
  let candidates ← scoreCandidates pre generated diagnosticPolicy
  let found ← (candidates.filter (plausibleCandidate policy)).mapM
    (candidateDiagnostic pairs side record.observationId)
  let limited ← incompleteness generated.complete record.observationId
  return ⟨acc.remainingRunEdges-generated.candidates.length, acc.diagnostics ++ (found ++ limited)⟩

def outOfBudget (recordId : String) (acc : Diagnosis) : Outcome Diagnosis := do
  let d ← incompleteDiagnostic recordId "run edge limit"
  return { acc with diagnostics := acc.diagnostics ++ [d] }

def diagnoseAccepted (acc : Diagnosis) (accepted : AcceptedUnmatched) : Outcome Diagnosis :=
  match acceptedRecord snapshot accepted.recordId with
  | (_, none) => .ok acc
  | (side, some record) =>
    if record.eligible = false then .ok acc
    else if h : 0 < acc.remainingRunEdges then
      diagnoseRecord digest snapshot decisions policy pairs side record acc h
    else outOfBudget accepted.recordId acc

def diagnoseAcceptedUnmatched : Outcome (List DecisionHealthDiagnostic) := do
  let diagnosis ← decisions.acceptedUnmatched.foldlM
    (diagnoseAccepted digest snapshot decisions policy pairs)
    ⟨policy.limits.maxRunCandidateEdges, []⟩
  return sortOn (·.order) diagnosis.diagnostics

end Diagnose

end Workbench.Diagnostics
