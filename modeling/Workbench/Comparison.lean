import Workbench.Evidence
import Workbench.References

/-!
# Field comparison of a pair

Nine fields of two paired records are compared, each against its tolerance.
Arithmetic is decimal with 28 digits, rounded half to even.
-/

set_option autoImplicit false

namespace Workbench.Comparison
open Workbench.Listing Workbench.Decimals Workbench.Calendar Workbench.Raising
open Workbench.Records Workbench.Evidence

def precision : ℕ := 28

def role : PairOrigin → String
  | .manual => "manual"
  | .authoritativeReference => "authoritative reference"
  | .weightedGlobal => "weighted global"

def exactComparison (field : String) (left right : Option String) (missing : String)
    (equal : String → String) (differing : String → String → String) :
    Outcome FieldComparison :=
  match left, right with
  | some l, some r =>
    if l = r then
      FieldComparison.create ⟨field, .exact, .text l, .text r, .none, .none, equal l⟩
    else
      FieldComparison.create ⟨field, .discrepant, .text l, .text r, .none, .none, differing l r⟩
  | left, right =>
    FieldComparison.create ⟨field, .missing, .ofText left, .ofText right, .none, .none, missing⟩

def referenceKind : ReferenceContract → String
  | .sharedMustAgree => "Shared reference"
  | .sourceLocalOrAlias => "Shared reference alias"

def referenceComparison (left right : MatchRecord) (origin : PairOrigin)
    (contract : ReferenceContract) : Outcome FieldComparison :=
  let suffix := "; the pair origin is " ++ role origin ++ "."
  exactComparison "reference" (References.referenceKey contract left)
    (References.referenceKey contract right)
    (referenceKind contract ++ " is missing on one or both records" ++ suffix)
    (fun l => referenceKind contract ++ " is exactly equal at " ++ l ++ suffix)
    (fun l r => referenceKind contract ++ " differs: left is " ++ l ++ " and right is " ++ r ++
      suffix)

def categorical (field label : String) (left right : Option String) : Outcome FieldComparison :=
  exactComparison field left right
    (label ++ " is missing on one or both records; no comparison was calculated.")
    (fun l => label ++ " is exactly equal at " ++ l ++ ".")
    (fun l r => label ++ " differs: left is " ++ l ++ " and right is " ++ r ++ ".")

def decimalDifference (left right : Decimal) (tolerance : DecimalTolerance) :
    Option (Decimal × Decimal × Decimal) := do
  let signed ← sub precision right left
  let reach ← mul precision tolerance.relative
    (larger (← abs precision left) (← abs precision right))
  let size ← abs precision signed
  return (signed, size, larger tolerance.absolute reach)

def decimalComparison (field label : String) (left right : Option Decimal)
    (tolerance : DecimalTolerance) : Outcome FieldComparison :=
  match left, right with
  | some l, some r => do
    let (signed, size, allowed) ← fetch .arithmetic (decimalDifference l r tolerance)
    let differs := label ++ " differs by " ++ text signed ++ "; the allowed difference is " ++
      text allowed ++ "."
    let (status, explanation) :=
      if signed.coefficient = 0 then
        (ComparisonStatus.exact, label ++ " is exactly equal at " ++ text l ++ ".")
      else if size ≤ allowed then (.withinTolerance, differs)
      else (.discrepant, differs)
    FieldComparison.create ⟨field, status, .decimal l, .decimal r, .decimal signed,
      .decimal allowed, explanation⟩
  | left, right =>
    FieldComparison.create ⟨field, .missing, .ofDecimal left, .ofDecimal right, .none, .none,
      label ++ " is missing on one or both records; no difference was calculated."⟩

def durationText (value : Duration) : Option String := do
  let seconds ← div precision (ofInt value.microseconds) (ofInt 1000000)
  return fixedText seconds ++ " seconds"

def timestampDiffers (signed tolerance : Duration) : Option String := do
  let difference ← durationText signed
  let allowed ← durationText tolerance
  return "Timestamp differs by " ++ difference ++ "; the allowed elapsed difference is " ++
    allowed ++ "."

def timestampComparison (left right : Option Instant) (tolerance : Duration) :
    Outcome FieldComparison :=
  match left, right with
  | some l, some r =>
    let signed := between l r
    if signed.microseconds = 0 then
      FieldComparison.create ⟨"timestamp", .exact, .datetime l, .datetime r, .elapsed signed,
        .elapsed tolerance, "Timestamp is exactly equal at " ++ isoformat l ++ "."⟩
    else do
      let explanation ← fetch .arithmetic (timestampDiffers signed tolerance)
      FieldComparison.create ⟨"timestamp",
        if signed.abs.microseconds ≤ tolerance.microseconds then .withinTolerance
          else .discrepant,
        .datetime l, .datetime r, .elapsed signed, .elapsed tolerance, explanation⟩
  | left, right =>
    FieldComparison.create ⟨"timestamp", .missing, .ofDatetime left, .ofDatetime right, .none,
      .none, "Timestamp is missing on one or both records; no elapsed difference was calculated."⟩

def monetaryComparison (field label : String) (left right : Option Decimal)
    (tolerance : DecimalTolerance) (leftCurrency rightCurrency : Option String) :
    Outcome FieldComparison :=
  match leftCurrency, rightCurrency with
  | some l, some r =>
    if l = r then decimalComparison field label left right tolerance
    else
      FieldComparison.create ⟨field, .notComparable, .ofDecimal left, .ofDecimal right, .none,
        .none, label ++ " is not comparable because currencies differ: left is " ++ l ++
          " and right is " ++ r ++ "."⟩
  | _, _ =>
    FieldComparison.create ⟨field, .notComparable, .ofDecimal left, .ofDecimal right, .none,
      .none, label ++ " is not comparable because currency is missing on one or both records."⟩

def stateComparison (left right : CanonicalState) (policy : ComparisonPolicy) :
    Outcome FieldComparison :=
  if left = right then
    FieldComparison.create ⟨"state", .exact, .text left.value, .text right.value, .none, .none,
      "State is exactly equal at " ++ left.value ++ "."⟩
  else
    let compatible := (left, right) ∈ policy.compatibleStatePairs
    FieldComparison.create ⟨"state", if compatible then .withinTolerance else .discrepant,
      .text left.value, .text right.value, .none, .none,
      "State differs: left is " ++ left.value ++ " and right is " ++ right.value ++
        "; the policy marks this pair " ++ (if compatible then "compatible" else "not compatible")
        ++ "."⟩

def comparePairFields (left right : MatchRecord) (origin : PairOrigin)
    (policy : ComparisonPolicy) (contract : ReferenceContract) :
    Outcome (List FieldComparison) := do
  let reference ← referenceComparison left right origin contract
  let instrument ← categorical "instrument" "Instrument" left.instrument right.instrument
  let side ← categorical "side" "Side" (left.side.map (·.value)) (right.side.map (·.value))
  let quantity ← decimalComparison "quantity" "Quantity" left.quantity right.quantity
    policy.quantityTolerance
  let timestamp ← timestampComparison left.executedAt right.executedAt policy.timestampTolerance
  let unitPrice ← monetaryComparison "unit_price" "Unit price" left.unitPrice right.unitPrice
    policy.unitPriceTolerance left.currency right.currency
  let grossAmount ← monetaryComparison "gross_amount" "Gross amount" left.grossAmount
    right.grossAmount policy.grossAmountTolerance left.currency right.currency
  let currency ← categorical "currency" "Currency" left.currency right.currency
  let state ← stateComparison left.state right.state policy
  return sortOn (·.field) [reference, instrument, side, quantity, timestamp, unitPrice,
    grossAmount, currency, state]

end Workbench.Comparison
