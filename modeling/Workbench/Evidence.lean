import Workbench.Records

/-!
# Evidence and outcomes

What the stages of a run hand over and what the run returns. Each value is
made by its `create`, which checks it and puts its parts in order. The last
lemma of each kind says when `create` succeeds and what it returns.
-/

set_option autoImplicit false

namespace Workbench.Evidence
open Workbench.Listing Workbench.Decimals Workbench.Calendar Workbench.Raising
open Workbench.Records

inductive PairOrigin where
  | manual
  | authoritativeReference
  | weightedGlobal
deriving DecidableEq

def PairOrigin.value : PairOrigin → String
  | .manual => "MANUAL"
  | .authoritativeReference => "AUTHORITATIVE_REFERENCE"
  | .weightedGlobal => "WEIGHTED_GLOBAL"

inductive UnpairedReason where
  | acceptedUnmatched
  | cancelledExcluded
  | reviewerReserved
  | manualAttention
  | duplicateReference
  | prohibited
  | noCandidate
  | belowAssignmentFloor
  | ambiguous
  | computationLimited
deriving DecidableEq

inductive ComparisonStatus where
  | exact
  | withinTolerance
  | discrepant
  | notComparable
  | missing
deriving DecidableEq

inductive DiagnosticKind where
  | acceptedUnmatchedCandidate
  | incompleteSearch
deriving DecidableEq

def DiagnosticKind.value : DiagnosticKind → String
  | .acceptedUnmatchedCandidate => "ACCEPTED_UNMATCHED_CANDIDATE"
  | .incompleteSearch => "INCOMPLETE_SEARCH"

inductive ScalarValue where
  | none
  | text (s : String)
  | decimal (d : Decimal)
  | datetime (t : Instant)
deriving DecidableEq

inductive DifferenceValue where
  | none
  | decimal (d : Decimal)
  | elapsed (d : Duration)
deriving DecidableEq

inductive Band where
  | decimal (d : Decimal)
  | elapsed (d : Duration)
deriving DecidableEq

def ScalarValue.ofDecimal : Option Decimal → ScalarValue
  | some d => .decimal d
  | Option.none => .none

def ScalarValue.ofDatetime : Option Instant → ScalarValue
  | some t => .datetime t
  | Option.none => .none

def ScalarValue.ofText : Option String → ScalarValue
  | some s => .text s
  | Option.none => .none

def Band.nonnegative : Band → Bool
  | .decimal d => ofInt 0 ≤ d
  | .elapsed d => 0 ≤ d.microseconds

abbrev Edge := String × String

instance (e : Edge) (edges : List Edge) : Decidable (e ∈ edges) := inferInstance

def edgeOrder (e : Edge) : String ×ₗ String := toLex e

theorem nodup_edgeOrder {α : Type} {f : α → Edge} {l : List α} (h : (l.map f).Nodup) :
    (l.map fun a => edgeOrder (f a)).Nodup := by
  have hl := h.map (toLex : Edge ≃ String ×ₗ String).injective
  rwa [List.map_map] at hl

def SameMembers {α : Type} (l m : List α) : Prop := (∀ a ∈ l, a ∈ m) ∧ ∀ a ∈ m, a ∈ l

instance {α : Type} [DecidableEq α] (l m : List α) : Decidable (SameMembers l m) :=
  inferInstanceAs (Decidable ((∀ a ∈ l, a ∈ m) ∧ ∀ a ∈ m, a ∈ l))

def Apart {α : Type} (l m : List α) : Prop := ∀ a ∈ l, a ∉ m

instance {α : Type} [DecidableEq α] (l m : List α) : Decidable (Apart l m) :=
  inferInstanceAs (Decidable (∀ a ∈ l, a ∉ m))

structure FeatureEvidence where
  feature : MatchFeature
  leftValue : ScalarValue
  rightValue : ScalarValue
  difference : DifferenceValue
  band : Band
  present : Bool
  similarityBp : ℕ
  weightBp : ℕ
  contributionBp : ℕ
  rule : String
deriving DecidableEq

def scoreBp (value : ℤ) (name : String) : Outcome Unit := do
  require (0 ≤ value) (name ++ " must be a nonnegative integer")
  require (value ≤ scoreScaleBp) (name ++ " must be between 0 and 10000")

/-- The values, the difference and the band are instants and durations for
the timestamp and decimals for every other feature. -/
def shapeValid (feature : MatchFeature) (left right : ScalarValue) (difference : DifferenceValue)
    (band : Band) : Bool :=
  match feature with
  | .timestamp =>
    (match left with | .none => true | .datetime _ => true | _ => false) &&
    (match right with | .none => true | .datetime _ => true | _ => false) &&
    (match band with | .elapsed _ => true | _ => false) &&
    (match difference with | .none => true | .elapsed _ => true | _ => false)
  | _ =>
    (match left with | .none => true | .decimal _ => true | _ => false) &&
    (match right with | .none => true | .decimal _ => true | _ => false) &&
    (match band with | .decimal _ => true | _ => false) &&
    (match difference with | .none => true | .decimal _ => true | _ => false)

def FeatureEvidence.create (feature : MatchFeature) (left right : ScalarValue)
    (difference : DifferenceValue) (band : Band) (present : Bool) (similarity weight
    contribution : ℤ) (rule : String) : Outcome FeatureEvidence := do
  scoreBp similarity "similarity_bp"
  scoreBp weight "weight_bp"
  scoreBp contribution "contribution_bp"
  requiredText rule "feature rule"
  require (present = true ∨ similarity = 0 ∧ contribution = 0)
    "a missing feature must contribute zero"
  require (contribution ≤ weight) "feature contribution cannot exceed its weight"
  require (band.nonnegative = true)
    "feature band must be a nonnegative Decimal or timedelta"
  require (shapeValid feature left right difference band = true)
    "feature evidence values, difference, and band must match its feature"
  require (present = decide (left ≠ .none ∧ right ≠ .none) ∧
      present = decide (difference ≠ .none))
    "feature presence must match its values and difference"
  return ⟨feature, left, right, difference, band, present, similarity.toNat, weight.toNat,
    contribution.toNat, rule⟩

structure CandidateEvidence where
  leftId : String
  rightId : String
  blockingReasons : List String
  features : List FeatureEvidence
  contradictions : List String
  coverageFailures : List String
  coverageSufficient : Bool
  completeComputation : Bool
  scoreBp : ℕ
  scoreLabel : String
deriving DecidableEq, Inhabited

def CandidateEvidence.edge (c : CandidateEvidence) : Edge := (c.leftId, c.rightId)

def CandidateEvidence.endId (c : CandidateEvidence) : RecordSide → String
  | .left => c.leftId
  | .right => c.rightId

def CandidateEvidence.create (c : CandidateEvidence) : Outcome CandidateEvidence := do
  requiredText c.leftId "candidate left_id"
  requiredText c.rightId "candidate right_id"
  require (c.blockingReasons ≠ []) "candidate evidence requires a blocking reason"
  require (∀ s ∈ c.blockingReasons, nonblank s = true) "blocking reason must be nonblank text"
  require (∀ s ∈ c.contradictions, nonblank s = true) "contradiction must be nonblank text"
  require (∀ s ∈ c.coverageFailures, nonblank s = true) "coverage failure must be nonblank text"
  unique (c.features.map (·.feature.value)) "candidate feature evidence"
  require (SameMembers (c.features.map (·.feature)) MatchFeature.all)
    "candidate evidence must record every matching feature"
  Evidence.scoreBp c.scoreBp "candidate score_bp"
  require (c.scoreBp = (c.features.map (·.contributionBp)).sum)
    "candidate score must equal feature contributions"
  require (c.coverageSufficient = decide (c.coverageFailures = []))
    "coverage_sufficient must be true exactly when coverage failures are empty"
  require (c.scoreLabel = "Rule score") "candidate score label must be 'Rule score'"
  return { c with
    blockingReasons := sortedSet c.blockingReasons
    features := sortOn (·.feature.value) c.features
    contradictions := sortedSet c.contradictions
    coverageFailures := sortedSet c.coverageFailures }

structure ProposalEvidence where
  leftId : String
  rightId : String
  scoreBp : ℕ
  counterfactualObjectiveBp : ℕ
  globalGapBp : ℕ
  accepted : Bool
  gateReasons : List String
deriving DecidableEq

def ProposalEvidence.edge (p : ProposalEvidence) : Edge := (p.leftId, p.rightId)

def ProposalEvidence.create (leftId rightId : String) (score counterfactual gap : ℤ)
    (accepted : Bool) (gateReasons : List String) : Outcome ProposalEvidence := do
  requiredText leftId "proposal left_id"
  requiredText rightId "proposal right_id"
  Evidence.scoreBp score "proposal score_bp"
  require (0 ≤ counterfactual) "counterfactual_objective_bp must be a nonnegative integer"
  require (0 ≤ gap) "global_gap_bp must be a nonnegative integer"
  require (∀ s ∈ gateReasons, nonblank s = true) "gate reason must be nonblank text"
  require (¬(accepted = true ∧ gateReasons ≠ []))
    "an accepted proposal cannot contain failing gate reasons"
  require (¬(accepted = false ∧ gateReasons = []))
    "a rejected proposal requires at least one gate reason"
  return ⟨leftId, rightId, score.toNat, counterfactual.toNat, gap.toNat, accepted,
    sortedSet gateReasons⟩

structure AssignmentComponentEvidence where
  componentId : String
  graphDigest : String
  solverVersion : String
  leftIds : List String
  rightIds : List String
  candidateCount : ℕ
  optimalUtilityBp : ℕ
  complete : Bool
  limitReason : Option String
  proposals : List ProposalEvidence
deriving DecidableEq

def AssignmentComponentEvidence.create (c : AssignmentComponentEvidence) :
    Outcome AssignmentComponentEvidence := do
  requiredText c.componentId "component_id"
  requiredText c.graphDigest "graph_digest"
  requiredText c.solverVersion "solver_version"
  unique c.leftIds "component left identities"
  unique c.rightIds "component right identities"
  require (¬(c.leftIds = [] ∧ c.rightIds = [])) "assignment component cannot be empty"
  optionalText c.limitReason "limit_reason"
  require (c.complete ≠ c.limitReason.isSome)
    "complete components have no limit reason; incomplete components require one"
  unique (c.proposals.map fun p => edgeText p.edge) "component proposals"
  require (¬(c.complete = false ∧ c.proposals ≠ []))
    "an incomplete component cannot contain proposals"
  require (∀ p ∈ c.proposals, p.leftId ∈ c.leftIds ∧ p.rightId ∈ c.rightIds)
    "component proposals must reference component members"
  require (∀ p ∈ c.proposals, p.counterfactualObjectiveBp ≤ c.optimalUtilityBp ∧
      p.globalGapBp = c.optimalUtilityBp-p.counterfactualObjectiveBp)
    "component proposal gaps must equal base minus counterfactual objective"
  return { c with
    leftIds := sortOn id c.leftIds
    rightIds := sortOn id c.rightIds
    proposals := sortOn (fun p => edgeOrder p.edge) c.proposals }

structure FieldComparison where
  field : String
  status : ComparisonStatus
  leftValue : ScalarValue
  rightValue : ScalarValue
  signedDifference : DifferenceValue
  allowedDifference : DifferenceValue
  explanation : String
deriving DecidableEq

def DifferenceValue.asDecimal : DifferenceValue → Option Decimal
  | .decimal d => some d
  | _ => Option.none

def DifferenceValue.asElapsed : DifferenceValue → Option Duration
  | .elapsed d => some d
  | _ => Option.none

def sameType : DifferenceValue → DifferenceValue → Bool
  | .decimal _, .elapsed _ => false
  | .elapsed _, .decimal _ => false
  | _, _ => true

def FieldComparison.create (c : FieldComparison) : Outcome FieldComparison := do
  requiredText c.field "comparison field"
  requiredText c.explanation "comparison explanation"
  require (c.signedDifference = .none ↔ c.allowedDifference = .none)
    "comparison signed and allowed differences must both be present or absent"
  require (sameType c.signedDifference c.allowedDifference = true)
    "comparison signed and allowed differences must have the same type"
  require (∀ d ∈ c.allowedDifference.asDecimal, ofInt 0 ≤ d)
    "comparison allowed decimal difference must be nonnegative"
  require (∀ d ∈ c.allowedDifference.asElapsed, 0 ≤ d.microseconds)
    "comparison allowed elapsed difference must be nonnegative"
  require (¬((c.status = .missing ∨ c.status = .notComparable) ∧
      (c.signedDifference ≠ .none ∨ c.allowedDifference ≠ .none)))
    "missing and not-comparable comparisons cannot contain calculated differences"
  return c

structure PairOutcome where
  leftId : String
  rightId : String
  origin : PairOrigin
  scoreBp : Option ℕ
  globalGapBp : Option ℕ
  comparisons : List FieldComparison
deriving DecidableEq

def PairOutcome.endId (p : PairOutcome) : RecordSide → String
  | .left => p.leftId
  | .right => p.rightId

def PairOutcome.edge (p : PairOutcome) : Edge := (p.leftId, p.rightId)

def PairOutcome.checkScores (p : PairOutcome) : Outcome Unit :=
  if p.origin = .weightedGlobal then do
    require (p.scoreBp ≠ none ∧ p.globalGapBp ≠ none)
      "weighted-global pairs require score and global gap"
    require (∀ s ∈ p.scoreBp, s ≤ scoreScaleBp) "pair score_bp must be between 0 and 10000"
  else
    require (p.scoreBp = none ∧ p.globalGapBp = none)
      "manual and authoritative pairs do not carry heuristic scores"

def PairOutcome.create (p : PairOutcome) : Outcome PairOutcome := do
  requiredText p.leftId "pair left_id"
  requiredText p.rightId "pair right_id"
  p.checkScores
  unique (p.comparisons.map (·.field)) "pair comparison fields"
  return { p with comparisons := sortOn (·.field) p.comparisons }

structure UnpairedOutcome where
  recordId : String
  side : RecordSide
  reason : UnpairedReason
  explanation : String
  relatedIds : List String
deriving DecidableEq

def UnpairedOutcome.create (u : UnpairedOutcome) : Outcome UnpairedOutcome := do
  requiredText u.recordId "unpaired record_id"
  requiredText u.explanation "unpaired explanation"
  unique u.relatedIds "unpaired related identities"
  return { u with relatedIds := sortOn id u.relatedIds }

def on (side : RecordSide) (outcomes : List UnpairedOutcome) : List String :=
  (outcomes.filter (·.side = side)).map (·.recordId)

def UnpairedOutcome.order (u : UnpairedOutcome) : String ×ₗ String :=
  toLex (u.side.value, u.recordId)

structure DecisionHealthDiagnostic where
  kind : DiagnosticKind
  recordId : String
  candidateId : Option String
  candidateCurrentPairId : Option String
  complete : Bool
  explanation : String
deriving DecidableEq

def DecisionHealthDiagnostic.create (d : DecisionHealthDiagnostic) :
    Outcome DecisionHealthDiagnostic := do
  requiredText d.recordId "diagnostic record_id"
  optionalText d.candidateId "diagnostic candidate_id"
  optionalText d.candidateCurrentPairId "diagnostic candidate_current_pair_id"
  requiredText d.explanation "diagnostic explanation"
  require (¬(d.kind = .acceptedUnmatchedCandidate ∧ d.candidateId = none))
    "accepted-unmatched candidate diagnostic requires candidate_id"
  require (¬(d.kind = .incompleteSearch ∧ d.complete = true))
    "incomplete-search diagnostic cannot be complete"
  require (¬(d.candidateCurrentPairId ≠ none ∧ d.candidateId = none))
    "diagnostic allocation requires candidate_id"
  return d

def DecisionHealthDiagnostic.order (d : DecisionHealthDiagnostic) :
    String ×ₗ String ×ₗ String :=
  toLex (d.recordId, toLex (d.candidateId.getD "", d.kind.value))

def DecisionHealthDiagnostic.key (d : DecisionHealthDiagnostic) : String :=
  d.recordId ++ String.ofList [Char.ofNat 0] ++ d.candidateId.getD "" ++
    String.ofList [Char.ofNat 0] ++ d.kind.value

structure EngineResult where
  leftRevisionId : String
  rightRevisionId : String
  matchingPolicyVersion : String
  comparisonPolicyVersion : String
  engineVersion : String
  solverVersion : String
  inputLeftIds : List String
  inputRightIds : List String
  pairs : List PairOutcome
  unpaired : List UnpairedOutcome
  candidates : List CandidateEvidence
  components : List AssignmentComponentEvidence
  diagnostics : List DecisionHealthDiagnostic
deriving DecidableEq

def PairOutcome.key (p : PairOutcome) : String := p.leftId ++ ":" ++ p.rightId

def PairOutcome.order (p : PairOutcome) : String ×ₗ String ×ₗ String :=
  toLex (p.leftId, toLex (p.rightId, p.origin.value))

def proposalsOf (components : List AssignmentComponentEvidence) : List ProposalEvidence :=
  components.flatMap (·.proposals)

def acceptedOf (components : List AssignmentComponentEvidence) : List ProposalEvidence :=
  (proposalsOf components).filter (·.accepted)

def weightedOf (pairs : List PairOutcome) : List PairOutcome :=
  pairs.filter (·.origin = .weightedGlobal)

def Agrees (pairs : List PairOutcome) (p : ProposalEvidence) : Prop :=
  ∀ q ∈ pairs, q.edge = p.edge → q.scoreBp = some p.scoreBp ∧ q.globalGapBp = some p.globalGapBp

instance (pairs : List PairOutcome) (p : ProposalEvidence) : Decidable (Agrees pairs p) :=
  inferInstanceAs (Decidable (∀ q ∈ pairs, _))

def EngineResult.create (r : EngineResult) : Outcome EngineResult := do
  requiredText r.leftRevisionId "left_revision_id"
  requiredText r.rightRevisionId "right_revision_id"
  requiredText r.matchingPolicyVersion "matching_policy_version"
  requiredText r.comparisonPolicyVersion "comparison_policy_version"
  requiredText r.engineVersion "engine_version"
  requiredText r.solverVersion "solver_version"
  unique r.inputLeftIds "result input left identities"
  unique r.inputRightIds "result input right identities"
  require (Apart r.inputLeftIds r.inputRightIds)
    "result input identities must be unique across sides"
  unique (r.diagnostics.map (·.key)) "decision-health diagnostics"
  require (∀ d ∈ r.diagnostics, d.recordId ∈ r.inputLeftIds ++ r.inputRightIds ∧
      ∀ i ∈ d.candidateId, i ∈ r.inputLeftIds ++ r.inputRightIds)
    "decision-health diagnostics must reference result inputs"
  unique (r.pairs.map (·.leftId)) "paired left identities"
  unique (r.pairs.map (·.rightId)) "paired right identities"
  unique (on .left r.unpaired) "unpaired left identities"
  unique (on .right r.unpaired) "unpaired right identities"
  require (Apart (r.pairs.map (·.leftId)) (on .left r.unpaired) ∧
      Apart (r.pairs.map (·.rightId)) (on .right r.unpaired))
    "a record cannot be both paired and unpaired"
  require (SameMembers (r.pairs.map (·.leftId) ++ on .left r.unpaired) r.inputLeftIds ∧
      SameMembers (r.pairs.map (·.rightId) ++ on .right r.unpaired) r.inputRightIds)
    "every input record must have exactly one terminal pair or unpaired outcome"
  unique (r.candidates.map fun c => edgeText c.edge) "candidate edges"
  require (∀ c ∈ r.candidates, c.leftId ∈ r.inputLeftIds ∧ c.rightId ∈ r.inputRightIds)
    "candidate edges must reference result inputs"
  unique (r.components.map (·.componentId)) "assignment component identities"
  require (∀ c ∈ r.components, c.leftIds ⊆ r.inputLeftIds ∧ c.rightIds ⊆ r.inputRightIds)
    "assignment components must reference result inputs"
  require (∀ p ∈ proposalsOf r.components,
      (lookup (·.edge) r.candidates p.edge).map (·.scoreBp) = some p.scoreBp)
    "assignment proposals must match result candidate evidence"
  require (SameMembers ((acceptedOf r.components).map (·.edge))
        ((weightedOf r.pairs).map (·.edge)) ∧
      ∀ p ∈ acceptedOf r.components, Agrees (weightedOf r.pairs) p)
    "weighted-global pairs must exactly match accepted assignment proposals"
  require (∀ d ∈ r.diagnostics, ∀ k ∈ d.candidateCurrentPairId, k ∈ r.pairs.map (·.key))
    "diagnostic current allocations must reference result pairs"
  return { r with
    inputLeftIds := sortOn id r.inputLeftIds
    inputRightIds := sortOn id r.inputRightIds
    pairs := sortOn (·.order) r.pairs
    unpaired := sortOn (·.order) r.unpaired
    candidates := sortOn (fun c => edgeOrder c.edge) r.candidates
    components := sortOn (·.componentId) r.components
    diagnostics := sortOn (·.order) r.diagnostics }

end Workbench.Evidence
