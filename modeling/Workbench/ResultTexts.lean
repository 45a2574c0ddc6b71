import Workbench.Engine
import Workbench.ExactDecimals
import Workbench.Ingestion
import Workbench.Generation

/-!
# The canonical text of a result

The text of a result holds all its fields: objects with sorted keys, decimals
as canonical texts, instants in UTC and durations in microseconds. It loses
what the default context rounds off a decimal, and nothing else.
-/

set_option autoImplicit false

namespace Workbench.ResultTexts
open Workbench.Listing Workbench.Decimals Workbench.DecimalRounding Workbench.DecimalTexts
open Workbench.ExactDecimals Workbench.Calendar Workbench.CivilTime Workbench.Records
open Workbench.Evidence Workbench.Candidates Workbench.Json Workbench.Ingestion
open Workbench.Generation Workbench.Raising Workbench.Assignment Workbench.Engine

def decimalValue (d : Decimal) : Option Value := do
  let text ← canonicalDecimal d
  return .object [("decimal", .text text)]

def datetimeValue (t : Instant) : Value := .object [("datetime", .text (canonicalDatetime t))]

def durationValue (d : Duration) : Value :=
  .object [("timedelta_microseconds", .number d.microseconds)]

def scalarValue : ScalarValue → Option Value
  | .none => some .null
  | .text s => some (.text s)
  | .decimal d => decimalValue d
  | .datetime t => some (datetimeValue t)

def differenceValue : DifferenceValue → Option Value
  | .none => some .null
  | .decimal d => decimalValue d
  | .elapsed d => some (durationValue d)

def bandValue : Band → Option Value
  | .decimal d => decimalValue d
  | .elapsed d => some (durationValue d)

def textValues (l : List String) : Value := .array (l.map .text)

def numberOrNull : Option ℕ → Value
  | none => .null
  | some n => .number n

def comparisonStatus : ComparisonStatus → String
  | .exact => "EXACT"
  | .withinTolerance => "WITHIN_TOLERANCE"
  | .discrepant => "DISCREPANT"
  | .notComparable => "NOT_COMPARABLE"
  | .missing => "MISSING"

def unpairedReason : UnpairedReason → String
  | .acceptedUnmatched => "ACCEPTED_UNMATCHED"
  | .cancelledExcluded => "CANCELLED_EXCLUDED"
  | .reviewerReserved => "REVIEWER_RESERVED"
  | .manualAttention => "MANUAL_ATTENTION"
  | .duplicateReference => "DUPLICATE_REFERENCE"
  | .prohibited => "PROHIBITED"
  | .noCandidate => "NO_CANDIDATE"
  | .belowAssignmentFloor => "BELOW_ASSIGNMENT_FLOOR"
  | .ambiguous => "AMBIGUOUS"
  | .computationLimited => "COMPUTATION_LIMITED"

def featureValue (f : FeatureEvidence) : Option Value := do
  let band ← bandValue f.band
  let difference ← differenceValue f.difference
  let left ← scalarValue f.leftValue
  let right ← scalarValue f.rightValue
  return .object [("band", band), ("contribution_bp", .number f.contributionBp),
    ("difference", difference), ("feature", .text f.feature.value), ("left_value", left),
    ("present", .bool f.present), ("right_value", right), ("rule", .text f.rule),
    ("similarity_bp", .number f.similarityBp), ("weight_bp", .number f.weightBp)]

def candidateValue (c : CandidateEvidence) : Option Value := do
  let features ← c.features.mapM featureValue
  return .object [("blocking_reasons", textValues c.blockingReasons),
    ("complete_computation", .bool c.completeComputation),
    ("contradictions", textValues c.contradictions),
    ("coverage_failures", textValues c.coverageFailures),
    ("coverage_sufficient", .bool c.coverageSufficient), ("features", .array features),
    ("left_id", .text c.leftId), ("right_id", .text c.rightId),
    ("score_bp", .number c.scoreBp), ("score_label", .text c.scoreLabel)]

def proposalValue (p : ProposalEvidence) : Value :=
  .object [("accepted", .bool p.accepted),
    ("counterfactual_objective_bp", .number p.counterfactualObjectiveBp),
    ("gate_reasons", textValues p.gateReasons), ("global_gap_bp", .number p.globalGapBp),
    ("left_id", .text p.leftId), ("right_id", .text p.rightId), ("score_bp", .number p.scoreBp)]

def componentValue (c : AssignmentComponentEvidence) : Value :=
  .object [("candidate_count", .number c.candidateCount), ("complete", .bool c.complete),
    ("component_id", .text c.componentId), ("graph_digest", .text c.graphDigest),
    ("left_ids", textValues c.leftIds), ("limit_reason", textOrNull c.limitReason),
    ("optimal_utility_bp", .number c.optimalUtilityBp),
    ("proposals", .array (c.proposals.map proposalValue)), ("right_ids", textValues c.rightIds),
    ("solver_version", .text c.solverVersion)]

def comparisonValue (c : FieldComparison) : Option Value := do
  let allowed ← differenceValue c.allowedDifference
  let left ← scalarValue c.leftValue
  let right ← scalarValue c.rightValue
  let signed ← differenceValue c.signedDifference
  return .object [("allowed_difference", allowed), ("explanation", .text c.explanation),
    ("field", .text c.field), ("left_value", left), ("right_value", right),
    ("signed_difference", signed), ("status", .text (comparisonStatus c.status))]

def pairValue (p : PairOutcome) : Option Value := do
  let comparisons ← p.comparisons.mapM comparisonValue
  return .object [("comparisons", .array comparisons),
    ("global_gap_bp", numberOrNull p.globalGapBp), ("left_id", .text p.leftId),
    ("origin", .text p.origin.value), ("right_id", .text p.rightId),
    ("score_bp", numberOrNull p.scoreBp)]

def unpairedValue (u : UnpairedOutcome) : Value :=
  .object [("explanation", .text u.explanation), ("reason", .text (unpairedReason u.reason)),
    ("record_id", .text u.recordId), ("related_ids", textValues u.relatedIds),
    ("side", .text u.side.value)]

def diagnosticValue (d : DecisionHealthDiagnostic) : Value :=
  .object [("candidate_current_pair_id", textOrNull d.candidateCurrentPairId),
    ("candidate_id", textOrNull d.candidateId), ("complete", .bool d.complete),
    ("explanation", .text d.explanation), ("kind", .text d.kind.value),
    ("record_id", .text d.recordId)]

def resultValue (r : EngineResult) : Option Value := do
  let candidates ← r.candidates.mapM candidateValue
  let pairs ← r.pairs.mapM pairValue
  return .object [("candidates", .array candidates),
    ("comparison_policy_version", .text r.comparisonPolicyVersion),
    ("components", .array (r.components.map componentValue)),
    ("diagnostics", .array (r.diagnostics.map diagnosticValue)),
    ("engine_version", .text r.engineVersion), ("input_left_ids", textValues r.inputLeftIds),
    ("input_right_ids", textValues r.inputRightIds),
    ("left_revision_id", .text r.leftRevisionId),
    ("matching_policy_version", .text r.matchingPolicyVersion), ("pairs", .array pairs),
    ("right_revision_id", .text r.rightRevisionId), ("solver_version", .text r.solverVersion),
    ("unpaired", .array (r.unpaired.map unpairedValue))]

def canonicalResultJson (r : EngineResult) : Option String := (resultValue r).map dumps

def engineResultDigest (sha : Sha256) (r : EngineResult) : Option String :=
  (canonicalResultJson r).map fun text => sha.hexdigest (utf8 text)

section Mapped
variable (f : Decimal → Decimal)

def mapScalar : ScalarValue → ScalarValue
  | .decimal d => .decimal (f d)
  | v => v

def mapDifference : DifferenceValue → DifferenceValue
  | .decimal d => .decimal (f d)
  | v => v

def mapBand : Band → Band
  | .decimal d => .decimal (f d)
  | v => v

def mapFeature (x : FeatureEvidence) : FeatureEvidence :=
  { x with
    leftValue := mapScalar f x.leftValue
    rightValue := mapScalar f x.rightValue
    difference := mapDifference f x.difference
    band := mapBand f x.band }

def mapCandidate (c : CandidateEvidence) : CandidateEvidence :=
  { c with features := c.features.map (mapFeature f) }

def mapComparison (c : FieldComparison) : FieldComparison :=
  { c with
    leftValue := mapScalar f c.leftValue
    rightValue := mapScalar f c.rightValue
    signedDifference := mapDifference f c.signedDifference
    allowedDifference := mapDifference f c.allowedDifference }

def mapPair (p : PairOutcome) : PairOutcome :=
  { p with comparisons := p.comparisons.map (mapComparison f) }

def mapResult (r : EngineResult) : EngineResult :=
  { r with
    pairs := r.pairs.map (mapPair f)
    candidates := r.candidates.map (mapCandidate f) }

end Mapped

/-- Equal field by field, decimals by their values. -/
def Same (r r' : EngineResult) : Prop := mapResult reduced r = mapResult reduced r'

def scalarDecimals : ScalarValue → List Decimal
  | .decimal d => [d]
  | _ => []

def differenceDecimals : DifferenceValue → List Decimal
  | .decimal d => [d]
  | _ => []

def bandDecimals : Band → List Decimal
  | .decimal d => [d]
  | _ => []

def featureDecimals (f : FeatureEvidence) : List Decimal :=
  bandDecimals f.band ++ differenceDecimals f.difference ++ scalarDecimals f.leftValue ++
    scalarDecimals f.rightValue

def comparisonDecimals (c : FieldComparison) : List Decimal :=
  differenceDecimals c.allowedDifference ++ scalarDecimals c.leftValue ++
    scalarDecimals c.rightValue ++ differenceDecimals c.signedDifference

/-- All decimals of a result. -/
def resultDecimals (r : EngineResult) : List Decimal :=
  (r.candidates.flatMap fun c => c.features.flatMap featureDecimals) ++
    r.pairs.flatMap fun p => p.comparisons.flatMap comparisonDecimals

/-- What the encoding of a part needs of the numbers in it: they have a text,
and where they fit the encoding determines the part. -/
structure Faithful {α : Type} (encode : α → Option Value) (decimals : α → List Decimal)
    (reduce : α → α) : Prop where
  texts : ∀ {a v}, encode a = some v → ∀ d ∈ decimals a, ∃ t, canonicalDecimal d = some t
  inj : ∀ {a b v}, encode a = some v → encode b = some v → (∀ d ∈ decimals a, Fits d) →
    (∀ d ∈ decimals b, Fits d) → reduce a = reduce b

theorem bind_some {α β : Type} {x : Option α} {f : α → Option β} {b : β} :
    (x >>= f) = some b ↔ ∃ a, x = some a ∧ f a = some b := Option.bind_eq_some_iff

theorem pure_some {α : Type} {a b : α} : (pure a : Option α) = some b ↔ a = b :=
  Option.some_inj

theorem decimalValue_ok {d : Decimal} {v : Value} :
    decimalValue d = some v ↔ ∃ t, canonicalDecimal d = some t ∧
      .object [("decimal", .text t)] = v := by
  simp only [decimalValue, bind_some, pure_some]

theorem decimalValue_inj {d d' : Decimal} {v : Value} (h : decimalValue d = some v)
    (h' : decimalValue d' = some v) (hf : Fits d) (hf' : Fits d') : reduced d = reduced d' := by
  obtain ⟨t, ht, rfl⟩ := decimalValue_ok.mp h
  obtain ⟨t', ht', he⟩ := decimalValue_ok.mp h'
  simp only [Value.object.injEq, List.cons.injEq, Prod.mk.injEq, Value.text.injEq, true_and,
    and_true] at he
  subst he
  exact canonicalDecimal_inj ht ht' hf hf'

theorem decimalValue_ne {d : Decimal} {v : Value} (h : ∀ t, v ≠ .object [("decimal", .text t)]) :
    decimalValue d ≠ some v := by
  intro he
  obtain ⟨t, -, rfl⟩ := decimalValue_ok.mp he
  exact h t rfl

theorem duration_inj {d d' : Duration} (h : durationValue d = durationValue d') : d = d' := by
  simp only [durationValue, Value.object.injEq, List.cons.injEq, Prod.mk.injEq,
    Value.number.injEq, true_and, and_true] at h
  cases d
  cases d'
  simp_all

theorem datetime_inj {t t' : Instant} (h : datetimeValue t = datetimeValue t') : t = t' := by
  simp only [datetimeValue, Value.object.injEq, List.cons.injEq, Prod.mk.injEq, Value.text.injEq,
    true_and, and_true] at h
  exact canonicalDatetime_injective h

theorem datetime_ne (t : Instant) (text : String) :
    datetimeValue t ≠ .object [("decimal", .text text)] := by
  simp [datetimeValue]

theorem duration_ne (d : Duration) (text : String) :
    durationValue d ≠ .object [("decimal", .text text)] := by
  simp [durationValue]

theorem scalar_faithful : Faithful scalarValue scalarDecimals (mapScalar reduced) where
  texts := by
    intro a v h d hd
    cases a with
    | decimal x =>
      obtain rfl := List.mem_singleton.mp hd
      obtain ⟨t, ht, -⟩ := decimalValue_ok.mp h
      exact ⟨t, ht⟩
    | none => cases hd
    | text s => cases hd
    | datetime t => cases hd
  inj := by
    intro a b v ha hb hfa hfb
    have hab := ha.trans hb.symm
    cases a with
    | none =>
      cases b with
      | none => rfl
      | text s => simp [scalarValue] at hab
      | decimal y => exact absurd hab.symm (decimalValue_ne (by simp))
      | datetime t => simp [scalarValue, datetimeValue] at hab
    | text s =>
      cases b with
      | none => simp [scalarValue] at hab
      | text s' =>
        simp only [scalarValue, Option.some.injEq, Value.text.injEq] at hab
        rw [hab]
      | decimal y => exact absurd hab.symm (decimalValue_ne (by simp))
      | datetime t => simp [scalarValue, datetimeValue] at hab
    | decimal x =>
      cases b with
      | none => exact absurd hab (decimalValue_ne (by simp))
      | text s => exact absurd hab (decimalValue_ne (by simp))
      | decimal y =>
        exact congrArg ScalarValue.decimal (decimalValue_inj ha hb
          (hfa x (List.mem_singleton.mpr rfl)) (hfb y (List.mem_singleton.mpr rfl)))
      | datetime t => exact absurd hab (decimalValue_ne (datetime_ne t))
    | datetime t =>
      cases b with
      | none => simp [scalarValue, datetimeValue] at hab
      | text s => simp [scalarValue, datetimeValue] at hab
      | decimal y => exact absurd hab.symm (decimalValue_ne (datetime_ne t))
      | datetime u => exact congrArg ScalarValue.datetime (datetime_inj (Option.some.inj hab))

theorem difference_faithful :
    Faithful differenceValue differenceDecimals (mapDifference reduced) where
  texts := by
    intro a v h d hd
    cases a with
    | decimal x =>
      obtain rfl := List.mem_singleton.mp hd
      obtain ⟨t, ht, -⟩ := decimalValue_ok.mp h
      exact ⟨t, ht⟩
    | none => cases hd
    | elapsed t => cases hd
  inj := by
    intro a b v ha hb hfa hfb
    have hab := ha.trans hb.symm
    cases a with
    | none =>
      cases b with
      | none => rfl
      | decimal y => exact absurd hab.symm (decimalValue_ne (by simp))
      | elapsed t => simp [differenceValue, durationValue] at hab
    | decimal x =>
      cases b with
      | none => exact absurd hab (decimalValue_ne (by simp))
      | decimal y =>
        exact congrArg DifferenceValue.decimal (decimalValue_inj ha hb
          (hfa x (List.mem_singleton.mpr rfl)) (hfb y (List.mem_singleton.mpr rfl)))
      | elapsed t => exact absurd hab (decimalValue_ne (duration_ne t))
    | elapsed t =>
      cases b with
      | none => simp [differenceValue, durationValue] at hab
      | decimal y => exact absurd hab.symm (decimalValue_ne (duration_ne t))
      | elapsed u => exact congrArg DifferenceValue.elapsed (duration_inj (Option.some.inj hab))

theorem band_faithful : Faithful bandValue bandDecimals (mapBand reduced) where
  texts := by
    intro a v h d hd
    cases a with
    | decimal x =>
      obtain rfl := List.mem_singleton.mp hd
      obtain ⟨t, ht, -⟩ := decimalValue_ok.mp h
      exact ⟨t, ht⟩
    | elapsed t => cases hd
  inj := by
    intro a b v ha hb hfa hfb
    have hab := ha.trans hb.symm
    cases a with
    | decimal x =>
      cases b with
      | decimal y =>
        exact congrArg Band.decimal (decimalValue_inj ha hb
          (hfa x (List.mem_singleton.mpr rfl)) (hfb y (List.mem_singleton.mpr rfl)))
      | elapsed t => exact absurd hab (decimalValue_ne (duration_ne t))
    | elapsed t =>
      cases b with
      | decimal y => exact absurd hab.symm (decimalValue_ne (duration_ne t))
      | elapsed u => exact congrArg Band.elapsed (duration_inj (Option.some.inj hab))

/-- Parts in a list. -/
theorem Faithful.list {α : Type} {encode : α → Option Value} {decimals : α → List Decimal}
    {reduce : α → α} (h : Faithful encode decimals reduce) {l m : List α} {vs : List Value}
    (hl : l.mapM encode = some vs) :
    (∀ d ∈ l.flatMap decimals, ∃ t, canonicalDecimal d = some t) ∧
      (m.mapM encode = some vs → (∀ d ∈ l.flatMap decimals, Fits d) →
        (∀ d ∈ m.flatMap decimals, Fits d) → l.map reduce = m.map reduce) := by
  induction l generalizing m vs with
  | nil =>
    refine ⟨by simp, fun hm _ _ => ?_⟩
    obtain rfl : [] = vs := by simpa using hl
    cases m with
    | nil => rfl
    | cons b m =>
      simp only [List.mapM_cons, bind_some, pure_some] at hm
      obtain ⟨v, -, ws, -, he⟩ := hm
      cases he
  | cons a l ih =>
    simp only [List.mapM_cons, bind_some, pure_some] at hl
    obtain ⟨v, hv, ws, hws, rfl⟩ := hl
    refine ⟨fun d hd => ?_, fun hm hfl hfm => ?_⟩
    · rw [List.flatMap_cons, List.mem_append] at hd
      rcases hd with hd | hd
      · exact h.texts hv d hd
      · exact (ih hws (m := [])).1 d hd
    · cases m with
      | nil => simp at hm
      | cons b m =>
        simp only [List.mapM_cons, bind_some, pure_some] at hm
        obtain ⟨v', hv', ws', hws', he⟩ := hm
        obtain ⟨rfl, rfl⟩ := List.cons.inj he
        rw [List.flatMap_cons] at hfl hfm
        have hhead : reduce a = reduce b := h.inj hv hv'
          (fun d hd => hfl d (List.mem_append_left _ hd))
          (fun d hd => hfm d (List.mem_append_left _ hd))
        have htail : l.map reduce = m.map reduce := (ih hws).2 hws'
          (fun d hd => hfl d (List.mem_append_right _ hd))
          (fun d hd => hfm d (List.mem_append_right _ hd))
        rw [List.map_cons, List.map_cons, hhead, htail]

theorem origin_injective : Function.Injective PairOrigin.value := by
  intro a b h
  cases a <;> cases b <;> first | rfl | exact absurd h (by decide)

theorem status_injective : Function.Injective comparisonStatus := by
  intro a b h
  cases a <;> cases b <;> first | rfl | exact absurd h (by decide)

theorem reason_injective : Function.Injective unpairedReason := by
  intro a b h
  cases a <;> cases b <;> first | rfl | exact absurd h (by decide)

theorem kind_injective : Function.Injective DiagnosticKind.value := by
  intro a b h
  cases a <;> cases b <;> first | rfl | exact absurd h (by decide)

theorem recordSide_injective : Function.Injective RecordSide.value := by
  intro a b h
  cases a <;> cases b <;> first | rfl | exact absurd h (by decide)

theorem textValues_injective : Function.Injective textValues := by
  intro a b h
  have htext : Function.Injective Value.text := fun x y he => Value.text.inj he
  exact List.map_injective_iff.mpr htext (Value.array.inj h)

theorem numberOrNull_injective : Function.Injective numberOrNull := by
  intro a b h
  cases a <;> cases b <;> simp_all [numberOrNull]

theorem feature_faithful : Faithful featureValue featureDecimals (mapFeature reduced) where
  texts := by
    intro f v h d hd
    simp only [featureValue, bind_some, pure_some] at h
    obtain ⟨band, hband, difference, hdifference, left, hleft, right, hright, -⟩ := h
    simp only [featureDecimals, List.mem_append] at hd
    rcases hd with ((hd | hd) | hd) | hd
    · exact band_faithful.texts hband d hd
    · exact difference_faithful.texts hdifference d hd
    · exact scalar_faithful.texts hleft d hd
    · exact scalar_faithful.texts hright d hd
  inj := by
    intro f g v h h' hf hg
    simp only [featureValue, bind_some, pure_some] at h h'
    obtain ⟨band, hband, difference, hdifference, left, hleft, right, hright, rfl⟩ := h
    obtain ⟨band', hband', difference', hdifference', left', hleft', right', hright', he⟩ := h'
    simp only [Value.object.injEq, List.cons.injEq, Prod.mk.injEq, Value.text.injEq,
      Value.bool.injEq, Value.number.injEq, Int.natCast_inj, true_and, and_true] at he
    obtain ⟨rfl, hcontribution, rfl, hfeature, rfl, hpresent, rfl, hrule, hsimilarity, hweight⟩ :=
      he
    simp only [featureDecimals, List.mem_append, or_imp, forall_and] at hf hg
    have hb := band_faithful.inj hband hband' hf.1.1.1 hg.1.1.1
    have hd := difference_faithful.inj hdifference hdifference' hf.1.1.2 hg.1.1.2
    have hl := scalar_faithful.inj hleft hleft' hf.1.2 hg.1.2
    have hr := scalar_faithful.inj hright hright' hf.2 hg.2
    simp only [mapFeature, FeatureEvidence.mk.injEq]
    exact ⟨MatchFeature.value_injective hfeature.symm, hl, hr, hd, hb, hpresent.symm, hsimilarity.symm,
      hweight.symm, hcontribution.symm, hrule.symm⟩

theorem comparison_faithful :
    Faithful comparisonValue comparisonDecimals (mapComparison reduced) where
  texts := by
    intro c v h d hd
    simp only [comparisonValue, bind_some, pure_some] at h
    obtain ⟨allowed, hallowed, left, hleft, right, hright, signed, hsigned, -⟩ := h
    simp only [comparisonDecimals, List.mem_append] at hd
    rcases hd with ((hd | hd) | hd) | hd
    · exact difference_faithful.texts hallowed d hd
    · exact scalar_faithful.texts hleft d hd
    · exact scalar_faithful.texts hright d hd
    · exact difference_faithful.texts hsigned d hd
  inj := by
    intro c e v h h' hc he
    simp only [comparisonValue, bind_some, pure_some] at h h'
    obtain ⟨allowed, hallowed, left, hleft, right, hright, signed, hsigned, rfl⟩ := h
    obtain ⟨allowed', hallowed', left', hleft', right', hright', signed', hsigned', hv⟩ := h'
    simp only [Value.object.injEq, List.cons.injEq, Prod.mk.injEq, Value.text.injEq, true_and,
      and_true] at hv
    obtain ⟨rfl, hexplanation, hfield, rfl, rfl, rfl, hstatus⟩ := hv
    simp only [comparisonDecimals, List.mem_append, or_imp, forall_and] at hc he
    have ha := difference_faithful.inj hallowed hallowed' hc.1.1.1 he.1.1.1
    have hl := scalar_faithful.inj hleft hleft' hc.1.1.2 he.1.1.2
    have hr := scalar_faithful.inj hright hright' hc.1.2 he.1.2
    have hs := difference_faithful.inj hsigned hsigned' hc.2 he.2
    simp only [mapComparison, FieldComparison.mk.injEq]
    exact ⟨hfield.symm, status_injective hstatus.symm, hl, hr, hs, ha, hexplanation.symm⟩

theorem candidate_faithful :
    Faithful candidateValue (fun c => c.features.flatMap featureDecimals)
      (mapCandidate reduced) where
  texts := by
    intro c v h
    simp only [candidateValue, bind_some, pure_some] at h
    obtain ⟨features, hfeatures, -⟩ := h
    exact (feature_faithful.list hfeatures (m := [])).1
  inj := by
    intro c e v h h' hc he
    simp only [candidateValue, bind_some, pure_some] at h h'
    obtain ⟨features, hfeatures, rfl⟩ := h
    obtain ⟨features', hfeatures', hv⟩ := h'
    simp only [Value.object.injEq, List.cons.injEq, Prod.mk.injEq, Value.text.injEq,
      Value.bool.injEq, Value.number.injEq, Value.array.injEq, Int.natCast_inj, true_and,
      and_true] at hv
    obtain ⟨hreasons, hcomplete, hcontradictions, hfailures, hsufficient, rfl, hleft, hright,
      hscore, hlabel⟩ := hv
    have hf := (feature_faithful.list hfeatures).2 hfeatures' hc he
    simp only [mapCandidate, CandidateEvidence.mk.injEq]
    exact ⟨hleft.symm, hright.symm, textValues_injective hreasons.symm, hf,
      textValues_injective hcontradictions.symm, textValues_injective hfailures.symm,
      hsufficient.symm, hcomplete.symm, hscore.symm, hlabel.symm⟩

theorem pair_faithful :
    Faithful pairValue (fun p => p.comparisons.flatMap comparisonDecimals) (mapPair reduced) where
  texts := by
    intro p v h
    simp only [pairValue, bind_some, pure_some] at h
    obtain ⟨comparisons, hcomparisons, -⟩ := h
    exact (comparison_faithful.list hcomparisons (m := [])).1
  inj := by
    intro p q v h h' hp hq
    simp only [pairValue, bind_some, pure_some] at h h'
    obtain ⟨comparisons, hcomparisons, rfl⟩ := h
    obtain ⟨comparisons', hcomparisons', hv⟩ := h'
    simp only [Value.object.injEq, List.cons.injEq, Prod.mk.injEq, Value.text.injEq,
      Value.array.injEq, true_and, and_true] at hv
    obtain ⟨rfl, hgap, hleft, horigin, hright, hscore⟩ := hv
    have hc := (comparison_faithful.list hcomparisons).2 hcomparisons' hp hq
    simp only [mapPair, PairOutcome.mk.injEq]
    exact ⟨hleft.symm, hright.symm, origin_injective horigin.symm,
      numberOrNull_injective hscore.symm, numberOrNull_injective hgap.symm, hc⟩

theorem proposalValue_injective : Function.Injective proposalValue := by
  intro p q h
  simp only [proposalValue, Value.object.injEq, List.cons.injEq, Prod.mk.injEq, Value.text.injEq,
    Value.bool.injEq, Value.number.injEq, Int.natCast_inj, true_and, and_true] at h
  obtain ⟨haccepted, hcounterfactual, hreasons, hgap, hleft, hright, hscore⟩ := h
  cases p
  cases q
  simp only [ProposalEvidence.mk.injEq]
  exact ⟨hleft, hright, hscore, hcounterfactual, hgap, haccepted, textValues_injective hreasons⟩

theorem componentValue_injective : Function.Injective componentValue := by
  intro c e h
  simp only [componentValue, Value.object.injEq, List.cons.injEq, Prod.mk.injEq,
    Value.text.injEq, Value.bool.injEq, Value.number.injEq, Value.array.injEq, Int.natCast_inj,
    true_and, and_true] at h
  obtain ⟨hcount, hcomplete, hid, hdigest, hleft, hreason, hutility, hproposals, hright,
    hversion⟩ := h
  cases c
  cases e
  simp only [AssignmentComponentEvidence.mk.injEq]
  exact ⟨hid, hdigest, hversion, textValues_injective hleft, textValues_injective hright, hcount,
    hutility, hcomplete, textOrNull_injective hreason,
    List.map_injective_iff.mpr proposalValue_injective hproposals⟩

theorem unpairedValue_injective : Function.Injective unpairedValue := by
  intro u v h
  simp only [unpairedValue, Value.object.injEq, List.cons.injEq, Prod.mk.injEq, Value.text.injEq,
    true_and, and_true] at h
  obtain ⟨hexplanation, hreason, hrecord, hrelated, hside⟩ := h
  cases u
  cases v
  simp only [UnpairedOutcome.mk.injEq]
  exact ⟨hrecord, recordSide_injective hside, reason_injective hreason, hexplanation,
    textValues_injective hrelated⟩

theorem diagnosticValue_injective : Function.Injective diagnosticValue := by
  intro d e h
  simp only [diagnosticValue, Value.object.injEq, List.cons.injEq, Prod.mk.injEq,
    Value.text.injEq, Value.bool.injEq, true_and, and_true] at h
  obtain ⟨hpair, hcandidate, hcomplete, hexplanation, hkind, hrecord⟩ := h
  cases d
  cases e
  simp only [DecisionHealthDiagnostic.mk.injEq]
  exact ⟨kind_injective hkind, hrecord, textOrNull_injective hcandidate,
    textOrNull_injective hpair, hcomplete, hexplanation⟩

theorem result_faithful : Faithful resultValue resultDecimals (mapResult reduced) where
  texts := by
    intro r v h d hd
    simp only [resultValue, bind_some, pure_some] at h
    obtain ⟨candidates, hcandidates, pairs, hpairs, -⟩ := h
    rcases List.mem_append.mp hd with hd | hd
    · exact (candidate_faithful.list hcandidates (m := [])).1 d hd
    · exact (pair_faithful.list hpairs (m := [])).1 d hd
  inj := by
    intro r q v h h' hr hq
    simp only [resultValue, bind_some, pure_some] at h h'
    obtain ⟨candidates, hcandidates, pairs, hpairs, rfl⟩ := h
    obtain ⟨candidates', hcandidates', pairs', hpairs', hv⟩ := h'
    simp only [Value.object.injEq, List.cons.injEq, Prod.mk.injEq, Value.text.injEq,
      Value.array.injEq, true_and, and_true] at hv
    obtain ⟨rfl, hcomparison, hcomponents, hdiagnostics, hengine, hinputLeft, hinputRight, hleft,
      hmatching, rfl, hright, hsolver, hunpaired⟩ := hv
    simp only [resultDecimals, List.mem_append, or_imp, forall_and] at hr hq
    have hc := (candidate_faithful.list hcandidates).2 hcandidates' hr.1 hq.1
    have hp := (pair_faithful.list hpairs).2 hpairs' hr.2 hq.2
    simp only [mapResult, EngineResult.mk.injEq]
    exact ⟨hleft.symm, hright.symm, hmatching.symm, hcomparison.symm, hengine.symm,
      hsolver.symm, textValues_injective hinputLeft.symm, textValues_injective hinputRight.symm, hp,
      List.map_injective_iff.mpr unpairedValue_injective hunpaired.symm, hc,
      List.map_injective_iff.mpr componentValue_injective hcomponents.symm,
      List.map_injective_iff.mpr diagnosticValue_injective hdiagnostics.symm⟩

section Mapped
variable {f : Decimal → Decimal} (hf : ∀ d, canonicalDecimal (f d) = canonicalDecimal d)

include hf

theorem decimalValue_map (d : Decimal) : decimalValue (f d) = decimalValue d := by
  rw [decimalValue, decimalValue, hf]

theorem scalarValue_map (v : ScalarValue) : scalarValue (mapScalar f v) = scalarValue v := by
  cases v with
  | decimal d => exact decimalValue_map hf d
  | none => rfl
  | text s => rfl
  | datetime t => rfl

theorem differenceValue_map (v : DifferenceValue) :
    differenceValue (mapDifference f v) = differenceValue v := by
  cases v with
  | decimal d => exact decimalValue_map hf d
  | none => rfl
  | elapsed d => rfl

theorem bandValue_map (v : Band) : bandValue (mapBand f v) = bandValue v := by
  cases v with
  | decimal d => exact decimalValue_map hf d
  | elapsed d => rfl

theorem featureValue_map (x : FeatureEvidence) :
    featureValue (mapFeature f x) = featureValue x := by
  simp only [featureValue, mapFeature, bandValue_map hf, differenceValue_map hf,
    scalarValue_map hf]

theorem comparisonValue_map (c : FieldComparison) :
    comparisonValue (mapComparison f c) = comparisonValue c := by
  simp only [comparisonValue, mapComparison, differenceValue_map hf, scalarValue_map hf]

theorem candidateValue_map (c : CandidateEvidence) :
    candidateValue (mapCandidate f c) = candidateValue c := by
  have hfeatures : (c.features.map (mapFeature f)).mapM featureValue =
      c.features.mapM featureValue := by
    rw [List.mapM_map]
    exact congrArg (fun g => c.features.mapM g) (funext (featureValue_map hf))
  simp only [candidateValue, mapCandidate, hfeatures]

theorem pairValue_map (p : PairOutcome) : pairValue (mapPair f p) = pairValue p := by
  have hcomparisons : (p.comparisons.map (mapComparison f)).mapM comparisonValue =
      p.comparisons.mapM comparisonValue := by
    rw [List.mapM_map]
    exact congrArg (fun g => p.comparisons.mapM g) (funext (comparisonValue_map hf))
  simp only [pairValue, mapPair, hcomparisons]

theorem canonicalResultJson_map (r : EngineResult) :
    canonicalResultJson (mapResult f r) = canonicalResultJson r := by
  have hcandidates : (r.candidates.map (mapCandidate f)).mapM candidateValue =
      r.candidates.mapM candidateValue := by
    rw [List.mapM_map]
    exact congrArg (fun g => r.candidates.mapM g) (funext (candidateValue_map hf))
  have hpairs : (r.pairs.map (mapPair f)).mapM pairValue = r.pairs.mapM pairValue := by
    rw [List.mapM_map]
    exact congrArg (fun g => r.pairs.mapM g) (funext (pairValue_map hf))
  simp only [canonicalResultJson, resultValue, mapResult, hcandidates, hpairs]

end Mapped

def Exact (r : EngineResult) : Prop :=
  ∀ d ∈ resultDecimals r, ∃ text x hx,
    decimalValue d = some (.object [("decimal", .text text)]) ∧
      readDecimal text = some (.finite x hx) ∧ value x = value d

/-- Two results are told apart by their texts, and by their digests unless
these collide, and both keep their numbers. -/
structure Lossless (sha : Sha256) (r r' : EngineResult) : Prop where
  texts : canonicalResultJson r = canonicalResultJson r' → Same r r'
  digests : (∀ t ∈ canonicalResultJson r, ∀ t' ∈ canonicalResultJson r',
    sha.Apart (utf8 t) (utf8 t')) → engineResultDigest sha r = engineResultDigest sha r' → Same r r'
  left : Exact r
  right : Exact r'

theorem exact_iff {r : EngineResult} {text : String} (h : canonicalResultJson r = some text) :
    Exact r ↔ ∀ d ∈ resultDecimals r, Fits d := by
  obtain ⟨v, hv, -⟩ := Option.map_eq_some_iff.mp h
  constructor
  · intro hexact d hd
    obtain ⟨t, x, hlimits, ht, hx, hvalue⟩ := hexact d hd
    obtain ⟨t', ht', he⟩ := decimalValue_ok.mp ht
    simp only [Value.object.injEq, List.cons.injEq, Prod.mk.injEq, Value.text.injEq, true_and,
      and_true] at he
    subst he
    exact (canonicalDecimal_exact_iff ht').mp ⟨x, hlimits, hx, hvalue⟩
  · intro hfits d hd
    obtain ⟨t, ht⟩ := result_faithful.texts hv d hd
    obtain ⟨x, hlimits, hx, hvalue⟩ := (canonicalDecimal_exact_iff ht).mpr (hfits d hd)
    exact ⟨t, x, hlimits, decimalValue_ok.mpr ⟨t, ht, rfl⟩, hx, hvalue⟩

theorem texts_same {r r' : EngineResult} {text : String} (h : canonicalResultJson r = some text)
    (h' : canonicalResultJson r' = some text) (hf : ∀ d ∈ resultDecimals r, Fits d)
    (hf' : ∀ d ∈ resultDecimals r', Fits d) : Same r r' := by
  obtain ⟨v, hv, hvt⟩ := Option.map_eq_some_iff.mp h
  obtain ⟨v', hv', hvt'⟩ := Option.map_eq_some_iff.mp h'
  obtain rfl := dumps_injective (hvt.trans hvt'.symm)
  exact result_faithful.inj hv hv' hf hf'

/-- The texts of two results lose nothing exactly when none of their numbers
has more digits than the default context. -/
theorem lossless_iff (sha : Sha256) {r r' : EngineResult} {text text' : String}
    (h : canonicalResultJson r = some text) (h' : canonicalResultJson r' = some text') :
    Lossless sha r r' ↔ ∀ d ∈ resultDecimals r ++ resultDecimals r', Fits d := by
  simp only [List.mem_append, or_imp, forall_and]
  constructor
  · intro hl
    exact ⟨(exact_iff h).mp hl.left, (exact_iff h').mp hl.right⟩
  · rintro ⟨hf, hf'⟩
    refine ⟨fun he => ?_, fun hapart he => ?_, (exact_iff h).mpr hf, (exact_iff h').mpr hf'⟩
    · exact texts_same h (he.symm.trans h) hf hf'
    · rw [engineResultDigest, engineResultDigest, h, h', Option.map_some, Option.map_some,
        Option.some.injEq] at he
      have hbytes := hapart text h text' h' he
      exact texts_same h ((utf8_injective hbytes) ▸ h') hf hf'

theorem sample_texts : ((sampleRun noon).toOption.bind fun r =>
    (sampleRun (noon+1000000)).toOption.map fun r' =>
      ((resultValue r).isSome, (resultValue r').isSome,
        decide (∀ d ∈ resultDecimals r ++ resultDecimals r', Fits d),
        decide (mapResult reduced r = mapResult reduced r'))) = some (true, true, true, false) := by
  decide +kernel

/-- A second later everything is the same but for the times. -/
theorem lossless_iff_sample : ∃ r r', sampleRun noon = .ok r ∧ sampleRun (noon+1000000) = .ok r' ∧
    canonicalResultJson r ≠ canonicalResultJson r' ∧ ∀ sha, Lossless sha r r' := by
  obtain ⟨r, hr, hrest⟩ := Option.bind_eq_some_iff.mp sample_texts
  obtain ⟨r', hr', hfacts⟩ := Option.map_eq_some_iff.mp hrest
  simp only [Prod.mk.injEq, decide_eq_true_eq, decide_eq_false_iff_not] at hfacts
  obtain ⟨hsome, hsome', hfits, hdiffer⟩ := hfacts
  obtain ⟨v, hv⟩ := Option.isSome_iff_exists.mp hsome
  obtain ⟨v', hv'⟩ := Option.isSome_iff_exists.mp hsome'
  have htext : canonicalResultJson r = some (dumps v) := by
    rw [canonicalResultJson, hv, Option.map_some]
  have htext' : canonicalResultJson r' = some (dumps v') := by
    rw [canonicalResultJson, hv', Option.map_some]
  have hlossless : ∀ sha, Lossless sha r r' := fun sha =>
    (lossless_iff sha htext htext').mpr hfits
  exact ⟨r, r', toOption_ok hr, toOption_ok hr',
    fun he => hdiffer ((hlossless (endingIn List.sum)).texts he), hlossless⟩

theorem some_nonnegative {d : Decimal} (h : ofInt 0 ≤ d) : Nonnegative (some d) := by
  rintro _ ⟨⟩
  exact h

theorem none_nonnegative : Nonnegative none := by
  rintro _ ⟨⟩

def withQuantity (d : Decimal) (h : ofInt 0 ≤ d) (r : MatchRecord) : MatchRecord :=
  { r with
    quantity := some d
    unitPrice := none
    quantity_nonneg := some_nonnegative h
    unitPrice_nonneg := none_nonnegative }

theorem withQuantity_ids (d : Decimal) (h : ofInt 0 ≤ d) (l : List MatchRecord) :
    ids (l.map (withQuantity d h)) = ids l := by
  rw [ids, List.map_map]
  rfl

theorem withQuantity_sorted {s : EngineSnapshot} (d : Decimal) (h : ofInt 0 ≤ d)
    (side : RecordSide) : (ids ((s.records side).map (withQuantity d h))).Pairwise (· < ·) := by
  rw [withQuantity_ids]
  exact s.sorted side

theorem withQuantity_apart {s : EngineSnapshot} (d : Decimal) (h : ofInt 0 ≤ d) :
    ∀ i ∈ ids (s.left.map (withQuantity d h)), i ∉ ids (s.right.map (withQuantity d h)) := by
  rw [withQuantity_ids, withQuantity_ids]
  exact s.apart

def quantitySnapshot (s : EngineSnapshot) (d : Decimal) (h : ofInt 0 ≤ d) : EngineSnapshot :=
  { s with
    left := s.left.map (withQuantity d h)
    right := s.right.map (withQuantity d h)
    left_sorted := withQuantity_sorted d h .left
    right_sorted := withQuantity_sorted d h .right
    apart := withQuantity_apart d h }

/-- A quantity of seventeen digits before the point, and the next one of twelve
decimals. -/
def large : Decimal := ⟨false, 10^28, -12⟩

def corrected : Decimal := ⟨false, 10^28+1, -12⟩

theorem large_nonneg : ofInt 0 ≤ large := by decide +kernel

theorem corrected_nonneg : ofInt 0 ≤ corrected := by decide +kernel

def quantityRun (d : Decimal) (h : ofInt 0 ≤ d) : Outcome EngineResult :=
  reconcile checksum (quantitySnapshot (sampleSnapshot noon) d h)
    (samplePolicy sampleLimits) sampleComparison noDecisions sampleSolver

def uncorrect (d : Decimal) : Decimal := if d = corrected then large else d

theorem corrected_text : canonicalDecimal large = canonicalDecimal corrected := by decide +kernel

theorem uncorrect_text (d : Decimal) : canonicalDecimal (uncorrect d) = canonicalDecimal d := by
  unfold uncorrect
  split_ifs with h
  · rw [h]
    exact corrected_text
  · rfl

theorem quantityRuns : ((quantityRun large large_nonneg).toOption.bind fun r =>
    (quantityRun corrected corrected_nonneg).toOption.map fun r' =>
      (decide (mapResult uncorrect r' = r), decide (mapResult reduced r = mapResult reduced r'),
        (resultValue r).isSome)) = some (true, false, true) := by
  decide +kernel

/-- A correction in the twelfth decimal of a large quantity leaves the text of the
run as it was. -/
theorem correction_keeps_text : ∃ r r' text, quantityRun large large_nonneg = .ok r ∧
    quantityRun corrected corrected_nonneg = .ok r' ∧ Numeric large ∧ Numeric corrected ∧
    canonicalResultJson r = some text ∧ canonicalResultJson r' = some text ∧ ¬Same r r' := by
  obtain ⟨r, hr, hrest⟩ := Option.bind_eq_some_iff.mp quantityRuns
  obtain ⟨r', hr', hfacts⟩ := Option.map_eq_some_iff.mp hrest
  simp only [Prod.mk.injEq, decide_eq_true_eq, decide_eq_false_iff_not] at hfacts
  obtain ⟨hmap, hdiffer, hsome⟩ := hfacts
  obtain ⟨v, hv⟩ := Option.isSome_iff_exists.mp hsome
  have htext : canonicalResultJson r = some (dumps v) := by
    rw [canonicalResultJson, hv, Option.map_some]
  have htext' : canonicalResultJson r' = some (dumps v) := by
    rw [← canonicalResultJson_map uncorrect_text r', hmap, htext]
  exact ⟨r, r', dumps v, toOption_ok hr, toOption_ok hr', by decide, by decide, htext, htext',
    hdiffer⟩

end Workbench.ResultTexts
