import Workbench.Candidates

/-!
# Rule scores

A candidate is scored feature by feature: each contributes its weight times a
similarity that falls linearly to zero across a band. Arithmetic is decimal
with 80 digits, rounded half to even.
-/

set_option autoImplicit false

namespace Workbench.Scoring
open Workbench.Listing Workbench.Decimals Workbench.Calendar Workbench.Raising
open Workbench.Records Workbench.Evidence Workbench.References Workbench.Candidates

inductive ContradictionCode where
  | instrumentMismatch
  | sideMismatch
  | currencyMismatch
  | sharedReferenceMismatch
  | sharedAliasMismatch
deriving DecidableEq

def ContradictionCode.value : ContradictionCode → String
  | .instrumentMismatch => "INSTRUMENT_MISMATCH"
  | .sideMismatch => "SIDE_MISMATCH"
  | .currencyMismatch => "CURRENCY_MISMATCH"
  | .sharedReferenceMismatch => "SHARED_REFERENCE_MISMATCH"
  | .sharedAliasMismatch => "SHARED_ALIAS_MISMATCH"

inductive CoverageFailure where
  | missingInstrument
  | missingSide
  | missingCurrency
  | missingQuantity
  | missingTimestamp
  | missingMonetaryField
deriving DecidableEq

def CoverageFailure.value : CoverageFailure → String
  | .missingInstrument => "MISSING_INSTRUMENT"
  | .missingSide => "MISSING_SIDE"
  | .missingCurrency => "MISSING_CURRENCY"
  | .missingQuantity => "MISSING_QUANTITY"
  | .missingTimestamp => "MISSING_TIMESTAMP"
  | .missingMonetaryField => "MISSING_MONETARY_FIELD"

def precision : ℕ := 80

def linearSimilarity (difference band : Decimal) : Option Decimal :=
  if band.coefficient = 0 then some (if difference.coefficient = 0 then ofInt 1 else ofInt 0)
  else do
    let quotient ← div precision difference band
    let rest ← sub precision (ofInt 1) quotient
    return larger (ofInt 0) rest

def quantizeBp (value : Decimal) : Option ℤ := (quantize precision value).map toInt

def timedeltaSeconds (value : Duration) : Option Decimal := do
  let fraction ← div precision (ofInt value.fraction) (ofInt 1000000)
  add precision (ofInt (value.days*86400+value.seconds)) fraction

def featureName : MatchFeature → String
  | .quantity => "Quantity"
  | .timestamp => "Timestamp"
  | .unitPrice => "Unit Price"
  | .grossAmount => "Gross Amount"

def weighted (difference band : Decimal) (weightBp : ℕ) : Option (ℤ × ℤ) := do
  let factor ← linearSimilarity difference band
  let similarity ← quantizeBp (← mul precision (ofInt scoreScaleBp) factor)
  let contribution ← quantizeBp (← mul precision (ofInt weightBp) factor)
  return (similarity, contribution)

def numericDifference (left right : Decimal) (policy : NumericSimilarityPolicy) :
    Option (Decimal × Decimal) := do
  let difference ← abs precision (← sub precision right left)
  let reach ← mul precision policy.relativeBand
    (larger (← abs precision left) (← abs precision right))
  return (difference, larger policy.absoluteBand reach)

def numericEvidence (feature : MatchFeature) (left right : Option Decimal)
    (policy : NumericSimilarityPolicy) (weightBp : ℕ) : Outcome FeatureEvidence :=
  match left, right with
  | some l, some r => do
    let (difference, band) ← fetch .arithmetic (numericDifference l r policy)
    let (similarity, contribution) ← fetch .arithmetic (weighted difference band weightBp)
    FeatureEvidence.create feature (.decimal l) (.decimal r) (.decimal difference)
      (.decimal band) true similarity weightBp contribution
      (featureName feature ++ " uses linear similarity from absolute difference " ++
        text difference ++ " across band " ++ text band ++ "; fixed weight " ++
        toString weightBp ++ " basis points.")
  | left, right =>
    FeatureEvidence.create feature (.ofDecimal left) (.ofDecimal right) .none
      (.decimal policy.absoluteBand) false 0 weightBp 0
      (featureName feature ++ " is missing on one or both records; " ++
        "its contribution is zero and feature weights remain unchanged.")

def timestampEvidence (left right : Option Instant) (band : Duration) (weightBp : ℕ) :
    Outcome FeatureEvidence :=
  match left, right with
  | some l, some r => do
    let difference := (between l r).abs
    let elapsed ← fetch .arithmetic (timedeltaSeconds difference)
    let reach ← fetch .arithmetic (timedeltaSeconds band)
    let (similarity, contribution) ← fetch .arithmetic (weighted elapsed reach weightBp)
    FeatureEvidence.create .timestamp (.datetime l) (.datetime r) (.elapsed difference)
      (.elapsed band) true similarity weightBp contribution
      ("Timestamp uses linear similarity from elapsed difference " ++ difference.text ++
        " across band " ++ band.text ++ "; fixed weight " ++ toString weightBp ++
        " basis points.")
  | left, right =>
    FeatureEvidence.create .timestamp (.ofDatetime left) (.ofDatetime right) .none
      (.elapsed band) false 0 weightBp 0
      ("Timestamp is missing on one or both records; its contribution is zero " ++
        "and feature weights remain unchanged.")

def differ {α : Type} [DecidableEq α] (a b : Option α) : Bool :=
  a.isSome && b.isSome && a ≠ b

def contradictions (left right : MatchRecord) (contract : ReferenceContract) :
    List ContradictionCode :=
  sortOn (·.value)
    ((if differ left.instrument right.instrument then [.instrumentMismatch] else []) ++
    (if differ left.side right.side then [.sideMismatch] else []) ++
    (if differ left.currency right.currency then [.currencyMismatch] else []) ++
    (match contract with
      | .sharedMustAgree =>
        if differ left.referenceValue right.referenceValue then [.sharedReferenceMismatch]
        else []
      | .sourceLocalOrAlias =>
        if differ left.sharedReferenceAlias right.sharedReferenceAlias then
          [.sharedAliasMismatch]
        else []))

def missing {α : Type} (a b : Option α) : Bool := a.isNone || b.isNone

def coverageFailures (left right : MatchRecord) : List CoverageFailure :=
  sortOn (·.value)
    ((if missing left.instrument right.instrument then [.missingInstrument] else []) ++
    (if missing left.side right.side then [.missingSide] else []) ++
    (if missing left.currency right.currency then [.missingCurrency] else []) ++
    (if missing left.quantity right.quantity then [.missingQuantity] else []) ++
    (if missing left.executedAt right.executedAt then [.missingTimestamp] else []) ++
    (if missing left.unitPrice right.unitPrice ∧ missing left.grossAmount right.grossAmount then
      [.missingMonetaryField]
    else []))

def features (left right : MatchRecord) (policy : MatchingPolicy) :
    Outcome (List FeatureEvidence) := do
  let quantity ← numericEvidence .quantity left.quantity right.quantity
    policy.quantitySimilarity (policy.weightBp .quantity)
  let timestamp ← timestampEvidence left.executedAt right.executedAt
    policy.timestampSimilarity.band (policy.weightBp .timestamp)
  let unitPrice ← numericEvidence .unitPrice left.unitPrice right.unitPrice
    policy.unitPriceSimilarity (policy.weightBp .unitPrice)
  let grossAmount ← numericEvidence .grossAmount left.grossAmount right.grossAmount
    policy.grossAmountSimilarity (policy.weightBp .grossAmount)
  return [quantity, timestamp, unitPrice, grossAmount]

def scoreCandidate (left right : MatchRecord) (blockingReasons : List String)
    (completeComputation : Bool) (policy : MatchingPolicy) : Outcome CandidateEvidence := do
  let features ← features left right policy
  CandidateEvidence.create {
    leftId := left.observationId
    rightId := right.observationId
    blockingReasons := blockingReasons
    features := features
    contradictions := (contradictions left right policy.referenceContract).map (·.value)
    coverageFailures := (coverageFailures left right).map (·.value)
    coverageSufficient := decide (coverageFailures left right = [])
    completeComputation := completeComputation
    scoreBp := (features.map (·.contributionBp)).sum
    scoreLabel := "Rule score" }

def scoreEdge (pre : ReferencePreprocessingResult) (limited : List String)
    (policy : MatchingPolicy) (candidate : CandidateEdge) : Outcome CandidateEvidence :=
  match lookup (·.observationId) pre.remainingLeft candidate.leftId,
    lookup (·.observationId) pre.remainingRight candidate.rightId with
  | some left, some right =>
    scoreCandidate left right candidate.blockingReasons
      (candidate.leftId ∉ limited ∧ candidate.rightId ∉ limited) policy
  | _, _ =>
    .error (.domainValidation
      "candidate edge must reference records remaining after preprocessing")

def scoreCandidates (pre : ReferencePreprocessingResult) (generated : CandidateGenerationResult)
    (policy : MatchingPolicy) : Outcome (List CandidateEvidence) := do
  let scored ← generated.candidates.mapM (scoreEdge pre generated.limitedRecordIds policy)
  return sortOn (fun c => edgeOrder c.edge) scored

end Workbench.Scoring
