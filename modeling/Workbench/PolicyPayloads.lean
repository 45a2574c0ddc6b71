import Workbench.DecimalStrings
import Workbench.JsonMembers

/-!
# Stored policies

A policy is stored as JSON and a run is computed with the policy that is read
back. Durations are counts of microseconds and decimals are their strings; the
constructors sort what they take and check it again.
-/

set_option autoImplicit false

namespace Workbench.PolicyPayloads
open Workbench.Listing Workbench.Raising Workbench.Decimals Workbench.DecimalTexts
open Workbench.DecimalStrings Workbench.Calendar Workbench.Records Workbench.Json
open Workbench.JsonMembers

def checkedText (value name : String) : Outcome (PLift (nonblank value = true)) :=
  check (nonblank value = true) (name ++ " must be nonblank text")

/-- `_finite_decimal` of a value that must not be negative. -/
def finiteDecimal (value : Number) (name : String) :
    Outcome { d : Decimal // Constructible d ∧ ofInt 0 ≤ d } :=
  match value with
  | .special => .error (.domainValidation (name ++ " must be a finite Decimal"))
  | .finite d constructible => do
    let nonnegative ← check (ofInt 0 ≤ d) (name ++ " must be nonnegative")
    return ⟨d, constructible, nonnegative.down⟩

def scoreBp (value : ℤ) (name : String) : Outcome { n : ℕ // n ≤ scoreScaleBp } := do
  let _ ← check (0 ≤ value) (name ++ " must be a nonnegative integer")
  let most ← check (value.toNat ≤ scoreScaleBp) (name ++ " must be between 0 and 10000")
  return ⟨value.toNat, most.down⟩

def positiveInt (value : ℤ) (name : String) : Outcome { n : ℕ // 0 < n } := do
  let _ ← check (0 ≤ value) (name ++ " must be a nonnegative integer")
  let positive ← check (0 < value.toNat) (name ++ " must be greater than zero")
  return ⟨value.toNat, positive.down⟩

def createBlockingPass (passId version : String) (timeWindow : Option Duration)
    (requireInstrument requireSide requireCurrency useSharedAlias : Bool) :
    Outcome BlockingPassPolicy := do
  let passText ← checkedText passId "pass_id"
  let versionText ← checkedText version "blocking pass version"
  let positive ← check (∀ w ∈ timeWindow, 0 < w.microseconds)
    "blocking time_window must be None or greater than zero"
  return ⟨passId, version, timeWindow, requireInstrument, requireSide, requireCurrency,
    useSharedAlias, text_down passText, text_down versionText, positive.down⟩

def createNumericSimilarity (absoluteBand relativeBand : Number) :
    Outcome NumericSimilarityPolicy := do
  let absolute ← finiteDecimal absoluteBand "absolute_band"
  let relative ← finiteDecimal relativeBand "relative_band"
  let least ← check (relative.val ≤ ofInt 1) "relative_band must be between zero and one"
  return ⟨absolute.val, relative.val, absolute.property.1, relative.property.1,
    absolute.property.2, relative.property.2, least.down⟩

def createTimestampSimilarity (band : Option Duration) : Outcome TimestampSimilarityPolicy :=
  match band with
  | none => .error (.domainValidation "timestamp similarity band must be nonnegative")
  | some d => do
    let nonnegative ← check (0 ≤ d.microseconds) "timestamp similarity band must be nonnegative"
    return ⟨d, nonnegative.down⟩

def createFeatureWeight (feature : MatchFeature) (weightBp : ℤ) : Outcome (MatchFeature × ℕ) := do
  let weight ← scoreBp weightBp "feature weight_bp"
  return (feature, weight.val)

def createLimits (nodes edges runEdges perRecord : ℤ) : Outcome CapacityLimits := do
  let nodes ← positiveInt nodes "max_component_nodes"
  let edges ← positiveInt edges "max_component_edges"
  let runEdges ← positiveInt runEdges "max_run_candidate_edges"
  let perRecord ← positiveInt perRecord "max_candidates_per_record"
  return ⟨nodes.val, edges.val, runEdges.val, perRecord.val, nodes.property, edges.property,
    runEdges.property, perRecord.property⟩

def weightOf (weights : List (MatchFeature × ℕ)) (feature : MatchFeature) : ℕ :=
  ((lookup Prod.fst weights feature).map Prod.snd).getD 0

theorem weights_sum {weights : List (MatchFeature × ℕ)} (hu : (weights.map Prod.fst).Nodup)
    (hall : ∀ f ∈ MatchFeature.all, f ∈ weights.map Prod.fst) :
    (MatchFeature.all.map (weightOf weights)).sum = (weights.map Prod.snd).sum := by
  have hmem : ∀ f : MatchFeature, f ∈ MatchFeature.all := by
    intro f
    cases f <;> decide
  have hperm : (weights.map Prod.fst).Perm MatchFeature.all :=
    (List.perm_ext_iff_of_nodup hu (by decide)).mpr fun f => ⟨fun _ => hmem f, fun hf => hall f hf⟩
  have hvalues : weights.map Prod.snd = (weights.map Prod.fst).map (weightOf weights) := by
    rw [List.map_map]
    refine List.map_congr_left fun w hw => ?_
    rw [Function.comp, weightOf, lookup_mem hu hw, Option.map_some, Option.getD_some]
  rw [hvalues]
  exact (hperm.map _).sum_eq.symm

def createMatchingPolicy (policyVersion engineVersion solverVersion : String)
    (referenceContract : ReferenceContract) (blockingPasses : List BlockingPassPolicy)
    (featureWeights : List (MatchFeature × ℕ))
    (quantitySimilarity : NumericSimilarityPolicy)
    (timestampSimilarity : TimestampSimilarityPolicy)
    (unitPriceSimilarity grossAmountSimilarity : NumericSimilarityPolicy)
    (assignmentFloorBp automaticThresholdBp minimumGlobalGapBp : ℤ) (limits : CapacityLimits) :
    Outcome MatchingPolicy := do
  let policyText ← checkedText policyVersion "policy_version"
  let engineText ← checkedText engineVersion "engine_version"
  let solverText ← checkedText solverVersion "solver_version"
  let nonempty ← check (sortOn (·.order) blockingPasses ≠ [])
    "matching policy requires at least one blocking pass"
  let passesUnique ← check ((sortOn (·.order) blockingPasses).map (·.passId)).Nodup
    "blocking pass identities must be unique"
  let orderedWeights := sortOn (·.1.value) featureWeights
  let featuresUnique ← check (orderedWeights.map Prod.fst).Nodup "feature weights must be unique"
  let weighted ← check (∀ f ∈ MatchFeature.all, f ∈ orderedWeights.map Prod.fst)
    "matching policy must weight every matching feature exactly once"
  let total ← check ((orderedWeights.map Prod.snd).sum = scoreScaleBp)
    "feature weights must total 10000 basis points"
  let floor ← scoreBp assignmentFloorBp "assignment_floor_bp"
  let threshold ← scoreBp automaticThresholdBp "automatic_threshold_bp"
  let gap ← scoreBp minimumGlobalGapBp "minimum_global_gap_bp"
  let lower ← check (floor.val < threshold.val)
    "assignment floor must be lower than automatic threshold"
  let most ← check (gap.val ≤ threshold.val) "minimum global gap cannot exceed automatic threshold"
  return {
    policyVersion := policyVersion
    engineVersion := engineVersion
    solverVersion := solverVersion
    referenceContract := referenceContract
    blockingPasses := sortOn (·.order) blockingPasses
    weightBp := weightOf orderedWeights
    quantitySimilarity := quantitySimilarity
    timestampSimilarity := timestampSimilarity
    unitPriceSimilarity := unitPriceSimilarity
    grossAmountSimilarity := grossAmountSimilarity
    assignmentFloorBp := floor.val
    automaticThresholdBp := threshold.val
    minimumGlobalGapBp := gap.val
    limits := limits
    policyVersion_text := text_down policyText
    engineVersion_text := text_down engineText
    solverVersion_text := text_down solverText
    passes_nonempty := nonempty.down
    passes_sorted := sortOn_pairwise _ _
    passes_unique := passesUnique.down
    weights_total := (weights_sum featuresUnique.down weighted.down).trans total.down
    threshold_le := threshold.property
    floor_lt := lower.down
    gap_le := most.down }

def createTolerance (absolute relative : Number) : Outcome DecimalTolerance := do
  let absolute ← finiteDecimal absolute "decimal tolerance absolute"
  let relative ← finiteDecimal relative "decimal tolerance relative"
  let least ← check (relative.val ≤ ofInt 1) "decimal tolerance relative must be between zero and one"
  return ⟨absolute.val, relative.val, absolute.property.1, relative.property.1,
    absolute.property.2, relative.property.2, least.down⟩

def pairOrder (p : CanonicalState × CanonicalState) : String ×ₗ String :=
  toLex (p.1.value, p.2.value)

def createComparisonPolicy (policyVersion : String) (timestampTolerance : Option Duration)
    (quantityTolerance unitPriceTolerance grossAmountTolerance : DecimalTolerance)
    (compatibleStatePairs : List (CanonicalState × CanonicalState)) : Outcome ComparisonPolicy := do
  let policyText ← checkedText policyVersion "comparison policy_version"
  match timestampTolerance with
  | none => .error (.domainValidation "timestamp_tolerance must be nonnegative")
  | some d => do
    let nonnegative ← check (0 ≤ d.microseconds) "timestamp_tolerance must be nonnegative"
    return ⟨policyVersion, d, quantityTolerance, unitPriceTolerance, grossAmountTolerance,
      sortOn pairOrder compatibleStatePairs.dedup, text_down policyText, nonnegative.down⟩

def durationMicroseconds (d : Duration) : ℤ :=
  d.days*86400000000+d.seconds*1000000+d.fraction

def durationPayload : Option Duration → Value
  | none => .null
  | some d => .number (durationMicroseconds d)

def numericPayload (p : NumericSimilarityPolicy) : Value :=
  .object [("absolute_band", .text (text p.absoluteBand)),
    ("relative_band", .text (text p.relativeBand))]

def passPayload (p : BlockingPassPolicy) : Value :=
  .object [("pass_id", .text p.passId), ("version", .text p.version),
    ("time_window_microseconds", durationPayload p.timeWindow),
    ("require_instrument", .bool p.requireInstrument), ("require_side", .bool p.requireSide),
    ("require_currency", .bool p.requireCurrency), ("use_shared_alias", .bool p.useSharedAlias)]

def featureWeights (p : MatchingPolicy) : List (MatchFeature × ℕ) :=
  sortOn (·.1.value) (MatchFeature.all.map fun f => (f, p.weightBp f))

def weightPayload (w : MatchFeature × ℕ) : Value :=
  .object [("feature", .text w.1.value), ("weight_bp", .number w.2)]

def limitFields (l : CapacityLimits) : List (String × Value) :=
  [("max_component_nodes", .number l.maxComponentNodes),
    ("max_component_edges", .number l.maxComponentEdges),
    ("max_run_candidate_edges", .number l.maxRunCandidateEdges),
    ("max_candidates_per_record", .number l.maxCandidatesPerRecord)]

def matchingPolicyToPayload (p : MatchingPolicy) : Value :=
  .object [("policy_version", .text p.policyVersion), ("engine_version", .text p.engineVersion),
    ("solver_version", .text p.solverVersion),
    ("reference_contract", .text (ReferenceContract.value p.referenceContract)),
    ("blocking_passes", .array (p.blockingPasses.map passPayload)),
    ("feature_weights", .array ((featureWeights p).map weightPayload)),
    ("quantity_similarity", numericPayload p.quantitySimilarity),
    ("timestamp_similarity",
      .object [("band_microseconds", durationPayload (some p.timestampSimilarity.band))]),
    ("unit_price_similarity", numericPayload p.unitPriceSimilarity),
    ("gross_amount_similarity", numericPayload p.grossAmountSimilarity),
    ("assignment_floor_bp", .number p.assignmentFloorBp),
    ("automatic_threshold_bp", .number p.automaticThresholdBp),
    ("minimum_global_gap_bp", .number p.minimumGlobalGapBp),
    ("limits", .object (limitFields p.limits))]

def tolerancePayload (t : DecimalTolerance) : Value :=
  .object [("absolute", .text (text t.absolute)), ("relative", .text (text t.relative))]

def statePairPayload (p : CanonicalState × CanonicalState) : Value :=
  .array [.text p.1.value, .text p.2.value]

def comparisonPolicyToPayload (p : ComparisonPolicy) : Value :=
  .object [("policy_version", .text p.policyVersion),
    ("timestamp_tolerance_microseconds", durationPayload (some p.timestampTolerance)),
    ("quantity_tolerance", tolerancePayload p.quantityTolerance),
    ("unit_price_tolerance", tolerancePayload p.unitPriceTolerance),
    ("gross_amount_tolerance", tolerancePayload p.grossAmountTolerance),
    ("compatible_state_pairs", .array (p.compatibleStatePairs.map statePairPayload))]

section Decoders
variable (written : Value → String)

def microsecondsDuration (v : Value) : Reading (Option Duration) :=
  match v with
  | .null => .ok none
  | v => do
    let z ← asInt v
    if h : -86399999913600000000 ≤ z ∧ z ≤ 86399999999999999999 then .ok (some ⟨z, h.1, h.2⟩)
    else .error .overflowError

def decimalOf (v : Value) : Reading Number :=
  orFail .arithmeticError (readDecimal (asText written v))

def numericFromPayload (v : Value) : Reading NumericSimilarityPolicy := do
  let absolute ← decimalOf written (← item v "absolute_band")
  let relative ← decimalOf written (← item v "relative_band")
  constructed (createNumericSimilarity absolute relative)

def toleranceFromPayload (v : Value) : Reading DecimalTolerance := do
  let absolute ← decimalOf written (← item v "absolute")
  let relative ← decimalOf written (← item v "relative")
  constructed (createTolerance absolute relative)

def passFromPayload (v : Value) : Reading BlockingPassPolicy := do
  let passId ← item v "pass_id"
  let version ← item v "version"
  let timeWindow ← microsecondsDuration (← item v "time_window_microseconds")
  let requireInstrument ← item v "require_instrument"
  let requireSide ← item v "require_side"
  let requireCurrency ← item v "require_currency"
  let useSharedAlias ← item v "use_shared_alias"
  constructed (createBlockingPass (asText written passId) (asText written version) timeWindow
    (truth requireInstrument) (truth requireSide) (truth requireCurrency) (truth useSharedAlias))

def weightFromPayload (v : Value) : Reading (MatchFeature × ℕ) := do
  let feature ← enumOf MatchFeature.all MatchFeature.value (← item v "feature")
  let weight ← asInt (← item v "weight_bp")
  constructed (createFeatureWeight feature weight)

def limitNamed (values : List (String × ℤ)) (name : String) (default : ℤ) : ℤ :=
  ((lookup Prod.fst values name).map Prod.snd).getD default

def limitNames : List String :=
  ["max_component_nodes", "max_component_edges", "max_run_candidate_edges",
    "max_candidates_per_record"]

def limitsFromPayload (v : Value) : Reading CapacityLimits := do
  let fields ← membersOf v
  let values ← fields.mapM fun f => do
    let z ← asInt f.2
    return (f.1, z)
  if ∀ value ∈ values, value.1 ∈ limitNames then
    constructed (createLimits (limitNamed values "max_component_nodes" 100)
      (limitNamed values "max_component_edges" 2500)
      (limitNamed values "max_run_candidate_edges" 250000)
      (limitNamed values "max_candidates_per_record" 200))
  else .error .typeError

def matchingPolicyFromPayload (v : Value) : Reading MatchingPolicy := do
  let policyVersion ← item v "policy_version"
  let engineVersion ← item v "engine_version"
  let solverVersion ← item v "solver_version"
  let contract ← enumOf [.sharedMustAgree, .sourceLocalOrAlias] ReferenceContract.value
    (← item v "reference_contract")
  let passes ← (← elements (← item v "blocking_passes")).mapM (passFromPayload written)
  let weights ← (← elements (← item v "feature_weights")).mapM weightFromPayload
  let quantity ← numericFromPayload written (← item v "quantity_similarity")
  let band ← microsecondsDuration
    (← item (← item v "timestamp_similarity") "band_microseconds")
  let timestamp ← constructed (createTimestampSimilarity band)
  let unitPrice ← numericFromPayload written (← item v "unit_price_similarity")
  let grossAmount ← numericFromPayload written (← item v "gross_amount_similarity")
  let floor ← asInt (← item v "assignment_floor_bp")
  let threshold ← asInt (← item v "automatic_threshold_bp")
  let gap ← asInt (← item v "minimum_global_gap_bp")
  let limits ← limitsFromPayload (← item v "limits")
  constructed (createMatchingPolicy (asText written policyVersion) (asText written engineVersion)
    (asText written solverVersion) contract passes weights quantity timestamp unitPrice grossAmount
    floor threshold gap limits)

def statePairFromPayload (v : Value) : Reading (CanonicalState × CanonicalState) := do
  let (left, right) ← pairOf v
  let left ← enumOf [.settled, .cancelled] CanonicalState.value left
  let right ← enumOf [.settled, .cancelled] CanonicalState.value right
  return (left, right)

def comparisonPolicyFromPayload (v : Value) : Reading ComparisonPolicy := do
  let policyVersion ← item v "policy_version"
  let tolerance ← microsecondsDuration (← item v "timestamp_tolerance_microseconds")
  let quantity ← toleranceFromPayload written (← item v "quantity_tolerance")
  let unitPrice ← toleranceFromPayload written (← item v "unit_price_tolerance")
  let grossAmount ← toleranceFromPayload written (← item v "gross_amount_tolerance")
  let pairs ← (← elements (← get v "compatible_state_pairs" (.array []))).mapM statePairFromPayload
  constructed (createComparisonPolicy (asText written policyVersion) tolerance quantity unitPrice
    grossAmount pairs)

end Decoders

theorem durationMicroseconds_eq (d : Duration) : durationMicroseconds d = d.microseconds := by
  unfold durationMicroseconds Duration.days Duration.seconds Duration.fraction
  omega

theorem duration_kept {d : Option Duration} {w : Value} (h : Kept (durationPayload d) w) :
    microsecondsDuration w = .ok d := by
  cases d with
  | none =>
    rw [kept_null h]
    rfl
  | some d =>
    rw [durationPayload, durationMicroseconds_eq] at h
    rw [kept_number h]
    simp only [microsecondsDuration, asInt, ok_bind]
    rw [dif_pos ⟨d.lower, d.upper⟩]

section Parts
variable (written : Value → String)

theorem decimal_kept {d : Decimal} (hd : Constructible d) {w : Value}
    (h : Kept (.text (text d)) w) : decimalOf written w = .ok (.finite d hd) := by
  rw [kept_text h, decimalOf, asText, readDecimal_text hd, orFail_some]

theorem finiteDecimal_finite {d : Decimal} (hd : Constructible d) (h : ofInt 0 ≤ d)
    (name : String) : finiteDecimal (.finite d hd) name = .ok ⟨d, hd, h⟩ := by
  rw [finiteDecimal, check_true h]
  rfl

theorem numeric_kept {p : NumericSimilarityPolicy} {w : Value} (h : Kept (numericPayload p) w) :
    numericFromPayload written w = .ok p := by
  have hkeys : (["absolute_band", "relative_band"] : List String).Nodup := by decide
  obtain ⟨absolute, ha, hka⟩ := kept_item h hkeys 0 rfl
  obtain ⟨relative, hr, hkr⟩ := kept_item h hkeys 1 rfl
  simp only [numericFromPayload, ha, hr, ok_bind,
    decimal_kept written p.absolute_constructible hka,
    decimal_kept written p.relative_constructible hkr, createNumericSimilarity,
    finiteDecimal_finite p.absolute_constructible p.absolute_nonneg,
    finiteDecimal_finite p.relative_constructible p.relative_nonneg, check_true p.relative_le]
  rfl

theorem tolerance_kept {t : DecimalTolerance} {w : Value} (h : Kept (tolerancePayload t) w) :
    toleranceFromPayload written w = .ok t := by
  have hkeys : (["absolute", "relative"] : List String).Nodup := by decide
  obtain ⟨absolute, ha, hka⟩ := kept_item h hkeys 0 rfl
  obtain ⟨relative, hr, hkr⟩ := kept_item h hkeys 1 rfl
  simp only [toleranceFromPayload, ha, hr, ok_bind,
    decimal_kept written t.absolute_constructible hka,
    decimal_kept written t.relative_constructible hkr, createTolerance,
    finiteDecimal_finite t.absolute_constructible t.absolute_nonneg,
    finiteDecimal_finite t.relative_constructible t.relative_nonneg, check_true t.relative_le]
  rfl

theorem checkedText_true {value : String} (h : nonblank value = true) (name : String) :
    checkedText value name = .ok ⟨h⟩ := check_true h

theorem pass_kept {p : BlockingPassPolicy} {w : Value} (h : Kept (passPayload p) w) :
    passFromPayload written w = .ok p := by
  have hkeys : (["pass_id", "version", "time_window_microseconds", "require_instrument",
    "require_side", "require_currency", "use_shared_alias"] : List String).Nodup := by decide
  obtain ⟨_, hid, hkid⟩ := kept_item h hkeys 0 rfl
  obtain ⟨_, hversion, hkversion⟩ := kept_item h hkeys 1 rfl
  obtain ⟨_, hwindow, hkwindow⟩ := kept_item h hkeys 2 rfl
  obtain ⟨_, hinstrument, hkinstrument⟩ := kept_item h hkeys 3 rfl
  obtain ⟨_, hside, hkside⟩ := kept_item h hkeys 4 rfl
  obtain ⟨_, hcurrency, hkcurrency⟩ := kept_item h hkeys 5 rfl
  obtain ⟨_, halias, hkalias⟩ := kept_item h hkeys 6 rfl
  cases kept_text hkid
  cases kept_text hkversion
  cases kept_bool hkinstrument
  cases kept_bool hkside
  cases kept_bool hkcurrency
  cases kept_bool hkalias
  simp only [passFromPayload, hid, hversion, hwindow, hinstrument, hside, hcurrency, halias,
    ok_bind, duration_kept hkwindow, asText, truth, createBlockingPass,
    checkedText_true p.passId_text, checkedText_true p.version_text, check_true p.timeWindow_pos]
  rfl

theorem scoreBp_nat {n : ℕ} (h : n ≤ scoreScaleBp) (name : String) :
    scoreBp n name = .ok ⟨n, h⟩ := by
  have hpositive : (0 : ℤ) ≤ n := Int.natCast_nonneg n
  have hle : (n : ℤ).toNat ≤ scoreScaleBp := by rwa [Int.toNat_natCast]
  rw [scoreBp, check_true hpositive, ok_bind, check_true hle]
  rfl

theorem positiveInt_nat {n : ℕ} (h : 0 < n) (name : String) :
    positiveInt n name = .ok ⟨n, h⟩ := by
  have hpositive : (0 : ℤ) ≤ n := Int.natCast_nonneg n
  have hlt : 0 < (n : ℤ).toNat := by rwa [Int.toNat_natCast]
  rw [positiveInt, check_true hpositive, ok_bind, check_true hlt]
  rfl

theorem weight_kept {m : MatchFeature × ℕ} (hm : m.2 ≤ scoreScaleBp) {w : Value}
    (h : Kept (weightPayload m) w) : weightFromPayload w = .ok m := by
  have hkeys : (["feature", "weight_bp"] : List String).Nodup := by decide
  obtain ⟨_, hf, hkf⟩ := kept_item h hkeys 0 rfl
  obtain ⟨_, hw, hkw⟩ := kept_item h hkeys 1 rfl
  cases kept_text hkf
  cases kept_number hkw
  have hall : m.1 ∈ MatchFeature.all := by
    cases m.1 <;> decide
  simp only [weightFromPayload, hf, hw, ok_bind, enumOf_value MatchFeature.value_injective hall,
    asInt, createFeatureWeight, scoreBp_nat hm]
  rfl

/-- The names of the limits are those of the constructor. -/
theorem limits_kept {l : CapacityLimits} {w : Value} (h : Kept (.object (limitFields l)) w) :
    limitsFromPayload w = .ok l := by
  have hnumbers : ∀ f ∈ limitFields l, ∃ z, f.2 = .number z := by
    intro f hf
    simp only [limitFields, List.mem_cons, List.not_mem_nil, or_false] at hf
    rcases hf with rfl | rfl | rfl | rfl <;> exact ⟨_, rfl⟩
  obtain ⟨fields, hfields, hperm⟩ := kept_members h hnumbers
  let values : List (String × ℤ) :=
    [("max_component_nodes", l.maxComponentNodes), ("max_component_edges", l.maxComponentEdges),
      ("max_run_candidate_edges", l.maxRunCandidateEdges),
      ("max_candidates_per_record", l.maxCandidatesPerRecord)]
  let number : String × Value → String × ℤ := fun f =>
    (f.1, match f.2 with | .number z => z | _ => 0)
  have hread : fields.mapM (fun f => do
      let z ← asInt f.2
      return (f.1, z)) = (.ok (fields.map number) : Reading (List (String × ℤ))) := by
    refine mapM_total fun f hf => ?_
    obtain ⟨z, hz⟩ := hnumbers f (hperm.mem_iff.mpr hf)
    simp only [number, hz, asInt, ok_bind]
    rfl
  have hvalues : values.Perm (fields.map number) := hperm.map number
  have hdistinct : (values.map Prod.fst).Nodup := by
    show limitNames.Nodup
    decide
  have hnamed : ∀ name default, limitNamed (fields.map number) name default =
      limitNamed values name default := by
    intro name default
    rw [limitNamed, limitNamed, lookup_perm hvalues hdistinct]
  have hknown : ∀ value ∈ fields.map number, value.1 ∈ limitNames := by
    intro value hv
    have hmem := List.mem_map_of_mem (f := Prod.fst) (hvalues.mem_iff.mpr hv)
    exact hmem
  simp only [limitsFromPayload, hfields, ok_bind, hread]
  rw [if_pos hknown]
  simp only [hnamed]
  have hnodes : limitNamed values "max_component_nodes" 100 = l.maxComponentNodes := by
    simp [limitNamed, lookup, values]
  have hedges : limitNamed values "max_component_edges" 2500 = l.maxComponentEdges := by
    simp [limitNamed, lookup, values]
  have hrun : limitNamed values "max_run_candidate_edges" 250000 = l.maxRunCandidateEdges := by
    simp [limitNamed, lookup, values]
  have hrecord : limitNamed values "max_candidates_per_record" 200 =
      l.maxCandidatesPerRecord := by
    simp [limitNamed, lookup, values]
  simp only [hnodes, hedges, hrun, hrecord, createLimits, positiveInt_nat l.nodes_pos,
    positiveInt_nat l.edges_pos, positiveInt_nat l.run_pos, positiveInt_nat l.record_pos, ok_bind]
  rfl

theorem statePair_kept {p : CanonicalState × CanonicalState} {w : Value}
    (h : Kept (statePairPayload p) w) : statePairFromPayload w = .ok p := by
  have hmem : ∀ state : CanonicalState, state ∈ [CanonicalState.settled, .cancelled] := by
    intro state
    cases state <;> decide
  obtain ⟨ws, rfl, hitems⟩ := kept_array h
  cases hitems with
  | cons hl hrest =>
    cases hrest with
    | cons hr hnil =>
      cases hnil
      cases kept_text hl
      cases kept_text hr
      simp only [statePairFromPayload, pairOf, elements, ok_bind,
        enumOf_value CanonicalState.value_injective (hmem _)]
      rfl

end Parts

theorem featureWeights_keys (p : MatchingPolicy) :
    ((featureWeights p).map Prod.fst).Perm MatchFeature.all := by
  refine ((sortOn_perm _ _).map _).trans (List.Perm.of_eq ?_)
  rw [List.map_map]
  exact List.map_id _

theorem featureWeights_nodup (p : MatchingPolicy) : ((featureWeights p).map Prod.fst).Nodup :=
  (featureWeights_keys p).nodup_iff.mpr (by decide)

theorem weightOf_featureWeights (p : MatchingPolicy) : weightOf (featureWeights p) = p.weightBp := by
  funext f
  have hall : f ∈ MatchFeature.all := by cases f <;> decide
  have hmem : (f, p.weightBp f) ∈ featureWeights p :=
    (mem_sortOn _ _ _).mpr (List.mem_map_of_mem hall)
  rw [weightOf, lookup_mem (featureWeights_nodup p) hmem]
  rfl

/-- A policy passes the checks of its constructor and is what it makes. -/
theorem createMatchingPolicy_own (p : MatchingPolicy) :
    createMatchingPolicy p.policyVersion p.engineVersion p.solverVersion p.referenceContract
      p.blockingPasses (featureWeights p) p.quantitySimilarity p.timestampSimilarity
      p.unitPriceSimilarity p.grossAmountSimilarity p.assignmentFloorBp p.automaticThresholdBp
      p.minimumGlobalGapBp p.limits = .ok p := by
  have hpasses : sortOn (·.order) p.blockingPasses = p.blockingPasses :=
    sortOn_eq_self _ p.passes_sorted
  have hweights : sortOn (·.1.value) (featureWeights p) = featureWeights p := sortOn_idem _ _
  have hnonempty : sortOn (·.order) p.blockingPasses ≠ [] := hpasses.symm ▸ p.passes_nonempty
  have hunique : ((sortOn (·.order) p.blockingPasses).map (·.passId)).Nodup :=
    hpasses.symm ▸ p.passes_unique
  have hfeatures : ((sortOn (·.1.value) (featureWeights p)).map Prod.fst).Nodup :=
    hweights.symm ▸ featureWeights_nodup p
  have hweighted : ∀ f ∈ MatchFeature.all,
      f ∈ (sortOn (·.1.value) (featureWeights p)).map Prod.fst := by
    rw [hweights]
    exact fun f hf => (featureWeights_keys p).mem_iff.mpr hf
  have htotal : ((sortOn (·.1.value) (featureWeights p)).map Prod.snd).sum = scoreScaleBp := by
    rw [← weights_sum hfeatures hweighted, hweights, weightOf_featureWeights, p.weights_total]
  have hfloor := scoreBp_nat (le_trans p.floor_lt.le p.threshold_le) "assignment_floor_bp"
  have hthreshold := scoreBp_nat p.threshold_le "automatic_threshold_bp"
  have hgap := scoreBp_nat (le_trans p.gap_le p.threshold_le) "minimum_global_gap_bp"
  simp only [createMatchingPolicy, checkedText_true p.policyVersion_text,
    checkedText_true p.engineVersion_text, checkedText_true p.solverVersion_text,
    check_true hnonempty, check_true hunique, check_true hfeatures, check_true hweighted,
    check_true htotal, hfloor, hthreshold, hgap, check_true p.floor_lt, check_true p.gap_le, ok_bind]
  show Except.ok _ = Except.ok p
  congr 1
  cases p
  simp only [MatchingPolicy.mk.injEq, true_and, and_true]
  exact ⟨hpasses, hweights.symm ▸ weightOf_featureWeights _⟩

section Reloaded
variable (written : Value → String)

/-- A matching policy is read back from any store that keeps its members. -/
theorem matchingPolicy_kept {p : MatchingPolicy} {w : Value}
    (h : Kept (matchingPolicyToPayload p) w) : matchingPolicyFromPayload written w = .ok p := by
  have hkeys : (["policy_version", "engine_version", "solver_version", "reference_contract",
    "blocking_passes", "feature_weights", "quantity_similarity", "timestamp_similarity",
    "unit_price_similarity", "gross_amount_similarity", "assignment_floor_bp",
    "automatic_threshold_bp", "minimum_global_gap_bp", "limits"] : List String).Nodup := by decide
  obtain ⟨_, hpolicy, hkpolicy⟩ := kept_item h hkeys 0 rfl
  obtain ⟨_, hengine, hkengine⟩ := kept_item h hkeys 1 rfl
  obtain ⟨_, hsolver, hksolver⟩ := kept_item h hkeys 2 rfl
  obtain ⟨_, hcontract, hkcontract⟩ := kept_item h hkeys 3 rfl
  obtain ⟨_, hpasses, hkpasses⟩ := kept_item h hkeys 4 rfl
  obtain ⟨_, hweights, hkweights⟩ := kept_item h hkeys 5 rfl
  obtain ⟨_, hquantity, hkquantity⟩ := kept_item h hkeys 6 rfl
  obtain ⟨_, htimestamp, hktimestamp⟩ := kept_item h hkeys 7 rfl
  obtain ⟨_, hprice, hkprice⟩ := kept_item h hkeys 8 rfl
  obtain ⟨_, hgross, hkgross⟩ := kept_item h hkeys 9 rfl
  obtain ⟨_, hfloor, hkfloor⟩ := kept_item h hkeys 10 rfl
  obtain ⟨_, hthreshold, hkthreshold⟩ := kept_item h hkeys 11 rfl
  obtain ⟨_, hgap, hkgap⟩ := kept_item h hkeys 12 rfl
  obtain ⟨_, hlimits, hklimits⟩ := kept_item h hkeys 13 rfl
  obtain ⟨_, hband, hkband⟩ := kept_item hktimestamp (List.nodup_singleton _) 0 rfl
  obtain ⟨passes, hpassItems, hpassesRead⟩ :=
    elements_kept (fun q _ _ hq => pass_kept written hq) hkpasses
  have hscale : ∀ m ∈ featureWeights p, m.2 ≤ scoreScaleBp := by
    intro m hm
    obtain ⟨f, -, rfl⟩ := List.mem_map.mp ((mem_sortOn _ _ _).mp hm)
    exact p.weight_le f
  obtain ⟨weights, hweightItems, hweightsRead⟩ :=
    elements_kept (fun m hm _ hw => weight_kept (hscale m hm) hw) hkweights
  cases kept_text hkpolicy
  cases kept_text hkengine
  cases kept_text hksolver
  cases kept_text hkcontract
  cases kept_number hkfloor
  cases kept_number hkthreshold
  cases kept_number hkgap
  have hcontractRead : enumOf [.sharedMustAgree, .sourceLocalOrAlias] ReferenceContract.value
      (.text (ReferenceContract.value p.referenceContract)) = .ok p.referenceContract := by
    cases p.referenceContract <;> rfl
  have htimestampRead : createTimestampSimilarity (some p.timestampSimilarity.band) =
      .ok p.timestampSimilarity := by
    rw [createTimestampSimilarity, check_true p.timestampSimilarity.band_nonneg]
    rfl
  simp only [matchingPolicyFromPayload, hpolicy, hengine, hsolver, hcontract, hpasses, hweights,
    hquantity, htimestamp, hprice, hgross, hfloor, hthreshold, hgap, hlimits, hband, hpassItems,
    hweightItems, ok_bind, hcontractRead, hpassesRead, hweightsRead, duration_kept hkband,
    htimestampRead, constructed_ok, numeric_kept written hkquantity, numeric_kept written hkprice,
    numeric_kept written hkgross, asInt, limits_kept hklimits, asText, createMatchingPolicy_own]

theorem createComparisonPolicy_pairs {policyVersion : String} {tolerance : Option Duration}
    {quantity unitPrice grossAmount : DecimalTolerance}
    {pairs : List (CanonicalState × CanonicalState)} {p : ComparisonPolicy}
    (h : createComparisonPolicy policyVersion tolerance quantity unitPrice grossAmount pairs =
      .ok p) : sortOn pairOrder p.compatibleStatePairs.dedup = p.compatibleStatePairs := by
  unfold createComparisonPolicy at h
  simp only [bind_ok] at h
  obtain ⟨_, -, h⟩ := h
  cases tolerance with
  | none => cases h
  | some d =>
    simp only [bind_ok, pure_ok] at h
    obtain ⟨_, -, rfl⟩ := h
    have hnodup : (sortOn pairOrder pairs.dedup).Nodup :=
      (sortOn_perm _ _).nodup_iff.mpr (List.nodup_dedup pairs)
    rw [hnodup.dedup, sortOn_idem]

theorem comparisonPolicy_kept {p : ComparisonPolicy}
    (hp : sortOn pairOrder p.compatibleStatePairs.dedup = p.compatibleStatePairs) {w : Value}
    (h : Kept (comparisonPolicyToPayload p) w) : comparisonPolicyFromPayload written w = .ok p := by
  have hkeys : (["policy_version", "timestamp_tolerance_microseconds", "quantity_tolerance",
    "unit_price_tolerance", "gross_amount_tolerance", "compatible_state_pairs"] :
      List String).Nodup := by decide
  obtain ⟨_, hpolicy, hkpolicy⟩ := kept_item h hkeys 0 rfl
  obtain ⟨_, htimestamp, hktimestamp⟩ := kept_item h hkeys 1 rfl
  obtain ⟨_, hquantity, hkquantity⟩ := kept_item h hkeys 2 rfl
  obtain ⟨_, hprice, hkprice⟩ := kept_item h hkeys 3 rfl
  obtain ⟨_, hgross, hkgross⟩ := kept_item h hkeys 4 rfl
  obtain ⟨_, hpairs, hkpairs⟩ := kept_get h hkeys 5 rfl (.array [])
  obtain ⟨pairs, hitems, hpairsRead⟩ :=
    elements_kept (fun q _ _ hq => statePair_kept hq) hkpairs
  cases kept_text hkpolicy
  simp only [comparisonPolicyFromPayload, hpolicy, htimestamp, hquantity, hprice, hgross, hpairs,
    hitems, ok_bind, duration_kept hktimestamp, tolerance_kept written hkquantity,
    tolerance_kept written hkprice, tolerance_kept written hkgross, hpairsRead, asText,
    createComparisonPolicy, checkedText_true p.policyVersion_text,
    check_true p.timestampTolerance_nonneg]
  show Except.ok _ = Except.ok p
  congr 1
  cases p
  simp only [ComparisonPolicy.mk.injEq, true_and]
  exact hp

/-- The policies that their constructors accept are what is read back of their payloads, in
whatever order a store keeps the members of an object. -/
theorem policies_reloaded :
    (∀ p : MatchingPolicy,
      matchingPolicyFromPayload written (matchingPolicyToPayload p) = .ok p ∧
      ∀ w, Kept (matchingPolicyToPayload p) w → matchingPolicyFromPayload written w = .ok p) ∧
    ∀ (policyVersion : String) (tolerance : Option Duration)
      (quantity unitPrice grossAmount : DecimalTolerance)
      (pairs : List (CanonicalState × CanonicalState)) (p : ComparisonPolicy),
      createComparisonPolicy policyVersion tolerance quantity unitPrice grossAmount pairs = .ok p →
        comparisonPolicyFromPayload written (comparisonPolicyToPayload p) = .ok p ∧
        ∀ w, Kept (comparisonPolicyToPayload p) w → comparisonPolicyFromPayload written w = .ok p :=
  by
  refine ⟨fun p => ⟨matchingPolicy_kept written (kept_refl _),
    fun w hw => matchingPolicy_kept written hw⟩, ?_⟩
  intro policyVersion tolerance quantity unitPrice grossAmount pairs p h
  have hp := createComparisonPolicy_pairs h
  exact ⟨comparisonPolicy_kept written hp (kept_refl _),
    fun w hw => comparisonPolicy_kept written hp hw⟩

end Reloaded

def unsortedPairs : List (CanonicalState × CanonicalState) :=
  [(.settled, .cancelled), (.cancelled, .settled), (.settled, .cancelled)]

theorem unsortedPairs_accepted : (createComparisonPolicy "comparison-1" (some hour) sampleTolerance
    sampleTolerance sampleTolerance unsortedPairs).toOption.isSome = true := by decide +kernel

/-- A matching policy, and a comparison policy with repeated pairs of states. -/
theorem policies_reloaded_sample : ∃ p,
    createComparisonPolicy "comparison-1" (some hour) sampleTolerance sampleTolerance
      sampleTolerance unsortedPairs = .ok p ∧
    comparisonPolicyFromPayload (fun _ => "") (comparisonPolicyToPayload p) = .ok p ∧
    matchingPolicyFromPayload (fun _ => "") (matchingPolicyToPayload (samplePolicy sampleLimits)) =
      .ok (samplePolicy sampleLimits) := by
  obtain ⟨p, hp⟩ := Option.isSome_iff_exists.mp unsortedPairs_accepted
  have h := policies_reloaded fun _ => ""
  exact ⟨p, toOption_ok hp, (h.2 _ _ _ _ _ _ p (toOption_ok hp)).1,
    (h.1 (samplePolicy sampleLimits)).1⟩

end Workbench.PolicyPayloads
