import Workbench.Comparison
import Workbench.Scores

/-!
# Every pair of ordinary records can be compared

A comparison only fails on decimal arithmetic, and ordinary numbers stay in
range. The nine fields of a comparison are always the same.
-/

set_option autoImplicit false

namespace Workbench.Comparisons
open Workbench.Listing Workbench.Decimals Workbench.Calendar Workbench.Raising
open Workbench.Records Workbench.Evidence Workbench.Scores Workbench.Comparison

def Comparable (policy : ComparisonPolicy) (contract : ReferenceContract) (origin : PairOrigin)
    (left right : MatchRecord) : Prop :=
  ∃ cs, comparePairFields left right origin policy contract = .ok cs

structure OrdinaryTolerance (t : DecimalTolerance) : Prop where
  absolute : Ordinary t.absolute
  relative : Ordinary t.relative

structure OrdinaryTolerances (policy : ComparisonPolicy) : Prop where
  quantity : OrdinaryTolerance policy.quantityTolerance
  unitPrice : OrdinaryTolerance policy.unitPriceTolerance
  grossAmount : OrdinaryTolerance policy.grossAmountTolerance

theorem comparison_create_ok {c d : FieldComparison} :
    c.create = .ok d ↔ (nonblank c.field = true ∧ nonblank c.explanation = true ∧
      (c.signedDifference = .none ↔ c.allowedDifference = .none) ∧
      sameType c.signedDifference c.allowedDifference = true ∧
      (∀ x ∈ c.allowedDifference.asDecimal, ofInt 0 ≤ x) ∧
      (∀ x ∈ c.allowedDifference.asElapsed, 0 ≤ x.microseconds) ∧
      ¬((c.status = .missing ∨ c.status = .notComparable) ∧
        (c.signedDifference ≠ .none ∨ c.allowedDifference ≠ .none))) ∧ c = d := by
  simp only [FieldComparison.create, bind_ok, exists_require, pure_ok, requiredText, and_assoc]

theorem plain_total {field explanation : String} (hf : nonblank field = true)
    (he : nonblank explanation = true) (status : ComparisonStatus) (l r : ScalarValue) :
    ∃ d, FieldComparison.create ⟨field, status, l, r, .none, .none, explanation⟩ = .ok d := by
  refine ⟨_, comparison_create_ok.mpr ⟨⟨hf, he, Iff.rfl, rfl, ?_, ?_, ?_⟩, rfl⟩⟩
  · simp [DifferenceValue.asDecimal]
  · simp [DifferenceValue.asElapsed]
  · simp

theorem exactComparison_total (field : String) {missing : String} {equal : String → String}
    {differing : String → String → String} (hf : nonblank field = true)
    (hm : nonblank missing = true) (he : ∀ l, nonblank (equal l) = true)
    (hd : ∀ l r, nonblank (differing l r) = true) (left right : Option String) :
    ∃ d, exactComparison field left right missing equal differing = .ok d := by
  unfold exactComparison
  split
  · split_ifs
    · exact plain_total hf (he _) _ _ _
    · exact plain_total hf (hd _ _) _ _ _
  · exact plain_total hf hm _ _ _

theorem referenceComparison_total (left right : MatchRecord) (origin : PairOrigin)
    (contract : ReferenceContract) :
    ∃ d, referenceComparison left right origin contract = .ok d := by
  have hkind : ∀ s : String, nonblank (referenceKind contract ++ s) = true :=
    fun s => nonblank_append_left (by cases contract <;> decide)
  refine exactComparison_total "reference" (by decide) ?_ ?_ ?_ _ _
  · simp only [String.append_assoc, hkind]
  · simp only [String.append_assoc, hkind, implies_true]
  · simp only [String.append_assoc, hkind, implies_true]

theorem categorical_total (field label : String) (hf : nonblank field = true)
    (hlabel : nonblank label = true) (left right : Option String) :
    ∃ d, categorical field label left right = .ok d := by
  have htext : ∀ s : String, nonblank (label ++ s) = true := fun s => nonblank_append_left hlabel
  refine exactComparison_total field hf (htext _) ?_ ?_ _ _
  · simp only [String.append_assoc, htext, implies_true]
  · simp only [String.append_assoc, htext, implies_true]

theorem stateComparison_total (left right : CanonicalState) (policy : ComparisonPolicy) :
    ∃ d, stateComparison left right policy = .ok d := by
  unfold stateComparison
  split_ifs
  all_goals
    simp only [String.append_assoc]
    exact plain_total (by decide) (nonblank_append_left (by decide)) _ _ _

theorem decimalDifference_ok {left right : Decimal} {t : DecimalTolerance} (hl : Ordinary left)
    (hr : Ordinary right) (ht : OrdinaryTolerance t) :
    ∃ signed size allowed, decimalDifference left right t = some (signed, size, allowed) ∧
      ofInt 0 ≤ allowed := by
  have hp : 0 < precision := by decide
  obtain ⟨x, hx, hxs⟩ := sub_bounded hp (by norm_num) hr.size_le hl.size_le
  obtain ⟨d, hd, -⟩ := abs_bounded hp (by norm_num) hxs
  obtain ⟨la, hla, hlas⟩ := abs_bounded hp (by norm_num) hl.size_le
  obtain ⟨ra, hra, hras⟩ := abs_bounded hp (by norm_num) hr.size_le
  obtain ⟨m, hm, -⟩ := mul_bounded hp (by norm_num) ht.relative.size_le (larger_size hlas hras)
  refine ⟨x, d, larger t.absolute m, ?_, ?_⟩
  · simp [decimalDifference, hx, hd, hla, hra, hm]
  · refine le_iff.mpr ((le_iff.mp t.absolute_nonneg).trans (le_larger _ _))

theorem decimalComparison_total (field label : String) (hf : nonblank field = true)
    (hlabel : nonblank label = true) {left right : Option Decimal} {t : DecimalTolerance}
    (hl : ∀ d ∈ left, Ordinary d) (hr : ∀ d ∈ right, Ordinary d) (ht : OrdinaryTolerance t) :
    ∃ d, decimalComparison field label left right t = .ok d := by
  have htext : ∀ s : String, nonblank (label ++ s) = true := fun s => nonblank_append_left hlabel
  cases left with
  | none => exact plain_total hf (htext _) _ _ _
  | some l =>
    cases right with
    | none => exact plain_total hf (htext _) _ _ _
    | some r =>
      obtain ⟨signed, size, allowed, hdiff, hallowed⟩ :=
        decimalDifference_ok (hl l rfl) (hr r rfl) ht
      have hmake : ∀ (status : ComparisonStatus) (explanation : String),
          nonblank explanation = true → status ≠ .missing → status ≠ .notComparable →
          ∃ d, FieldComparison.create ⟨field, status, .decimal l, .decimal r, .decimal signed,
            .decimal allowed, explanation⟩ = .ok d := by
        intro status explanation he h1 h2
        refine ⟨_, comparison_create_ok.mpr ⟨⟨hf, he, by simp, rfl, ?_, ?_, ?_⟩, rfl⟩⟩
        · simpa [DifferenceValue.asDecimal] using hallowed
        · simp [DifferenceValue.asElapsed]
        · simp [h1, h2]
      simp only [decimalComparison, hdiff, fetch, ok_bind]
      split_ifs
      all_goals
        refine hmake _ _ ?_ (by simp) (by simp)
        simp only [String.append_assoc, htext]

theorem monetaryComparison_total (field label : String) (hf : nonblank field = true)
    (hlabel : nonblank label = true) {left right : Option Decimal} {t : DecimalTolerance}
    (hl : ∀ d ∈ left, Ordinary d) (hr : ∀ d ∈ right, Ordinary d) (ht : OrdinaryTolerance t)
    (leftCurrency rightCurrency : Option String) :
    ∃ d, monetaryComparison field label left right t leftCurrency rightCurrency = .ok d := by
  have htext : ∀ s : String, nonblank (label ++ s) = true := fun s => nonblank_append_left hlabel
  unfold monetaryComparison
  split
  · split_ifs
    · exact decimalComparison_total field label hf hlabel hl hr ht
    · refine plain_total hf ?_ _ _ _
      simp only [String.append_assoc, htext]
  · exact plain_total hf (htext _) _ _ _

theorem durationText_ok (d : Duration) : ∃ s, durationText d = some s := by
  have hp : 0 < precision := by decide
  have hsize : size (ofInt d.microseconds) ≤ 10^20 := by
    have hle : d.microseconds.natAbs ≤ 10^20 := by
      have h1 := d.lower
      have h2 := d.upper
      omega
    have hcast : ((d.microseconds.natAbs : ℕ) : ℚ) ≤ 10^20 := by exact_mod_cast hle
    simpa [size, ofInt] using hcast
  have hmillion : (10 : ℚ)^(-((0 : ℕ) : ℤ)) ≤ size (ofInt 1000000) := by simp [size, ofInt]
  obtain ⟨q, hq, -⟩ := div_bounded (k := 20) (l := 0) hp (by norm_num) hsize (by decide) hmillion
  exact ⟨fixedText q ++ " seconds", by simp [durationText, hq]⟩

theorem timestampComparison_total (left right : Option Instant) {tolerance : Duration}
    (h : 0 ≤ tolerance.microseconds) :
    ∃ d, timestampComparison left right tolerance = .ok d := by
  cases left with
  | none => exact plain_total (by decide) (by decide) _ _ _
  | some l =>
    cases right with
    | none => exact plain_total (by decide) (by decide) _ _ _
    | some r =>
      have hmake : ∀ (status : ComparisonStatus) (explanation : String),
          nonblank explanation = true → status ≠ .missing → status ≠ .notComparable →
          ∃ d, FieldComparison.create ⟨"timestamp", status, .datetime l, .datetime r,
            .elapsed (between l r), .elapsed tolerance, explanation⟩ = .ok d := by
        intro status explanation he h1 h2
        have hf : nonblank "timestamp" = true := by decide
        refine ⟨_, comparison_create_ok.mpr ⟨⟨hf, he, by simp, rfl, ?_, ?_, ?_⟩, rfl⟩⟩
        · simp [DifferenceValue.asDecimal]
        · simpa [DifferenceValue.asElapsed] using h
        · simp [h1, h2]
      obtain ⟨s, hs⟩ := durationText_ok (between l r)
      obtain ⟨t, ht⟩ := durationText_ok tolerance
      simp only [timestampComparison, timestampDiffers, hs, ht, Option.bind_eq_bind,
        Option.bind_some, fetch]
      split_ifs
      all_goals
        refine hmake _ _ ?_ (by simp) (by simp)
        simp only [String.append_assoc]
        exact nonblank_append_left (by decide)

theorem comparable {policy : ComparisonPolicy} {left right : MatchRecord}
    (hl : OrdinaryRecord left) (hr : OrdinaryRecord right) (hp : OrdinaryTolerances policy)
    (contract : ReferenceContract) (origin : PairOrigin) :
    Comparable policy contract origin left right := by
  obtain ⟨c1, h1⟩ := referenceComparison_total left right origin contract
  obtain ⟨c2, h2⟩ := categorical_total "instrument" "Instrument" (by decide) (by decide)
    left.instrument right.instrument
  obtain ⟨c3, h3⟩ := categorical_total "side" "Side" (by decide) (by decide)
    (left.side.map (·.value)) (right.side.map (·.value))
  obtain ⟨c4, h4⟩ := decimalComparison_total "quantity" "Quantity" (by decide) (by decide)
    hl.quantity hr.quantity hp.quantity
  obtain ⟨c5, h5⟩ := timestampComparison_total left.executedAt right.executedAt
    policy.timestampTolerance_nonneg
  obtain ⟨c6, h6⟩ := monetaryComparison_total "unit_price" "Unit price" (by decide) (by decide)
    hl.unitPrice hr.unitPrice hp.unitPrice left.currency right.currency
  obtain ⟨c7, h7⟩ := monetaryComparison_total "gross_amount" "Gross amount" (by decide)
    (by decide) hl.grossAmount hr.grossAmount hp.grossAmount left.currency right.currency
  obtain ⟨c8, h8⟩ := categorical_total "currency" "Currency" (by decide) (by decide)
    left.currency right.currency
  obtain ⟨c9, h9⟩ := stateComparison_total left.state right.state policy
  exact ⟨_, by simp only [comparePairFields, h1, h2, h3, h4, h5, h6, h7, h8, h9, ok_bind]; rfl⟩

theorem create_field {c d : FieldComparison} (h : c.create = .ok d) : d.field = c.field := by
  rw [← (comparison_create_ok.mp h).2]

theorem exactComparison_field {field missing : String} {equal : String → String}
    {differing : String → String → String} {left right : Option String} {d : FieldComparison}
    (h : exactComparison field left right missing equal differing = .ok d) : d.field = field := by
  unfold exactComparison at h
  split at h
  · split_ifs at h <;> exact create_field h
  · exact create_field h

theorem decimalComparison_field {field label : String} {left right : Option Decimal}
    {t : DecimalTolerance} {d : FieldComparison}
    (h : decimalComparison field label left right t = .ok d) : d.field = field := by
  unfold decimalComparison at h
  split at h
  · simp only [bind_ok] at h
    obtain ⟨x, -, h⟩ := h
    exact create_field h
  · exact create_field h

theorem monetaryComparison_field {field label : String} {left right : Option Decimal}
    {t : DecimalTolerance} {leftCurrency rightCurrency : Option String} {d : FieldComparison}
    (h : monetaryComparison field label left right t leftCurrency rightCurrency = .ok d) :
    d.field = field := by
  unfold monetaryComparison at h
  split at h
  · split_ifs at h
    · exact decimalComparison_field h
    · exact create_field h
  · exact create_field h

theorem timestampComparison_field {left right : Option Instant} {tolerance : Duration}
    {d : FieldComparison} (h : timestampComparison left right tolerance = .ok d) :
    d.field = "timestamp" := by
  unfold timestampComparison at h
  split at h
  · simp only at h
    split_ifs at h
    · exact create_field h
    · obtain ⟨x, -, h⟩ := bind_ok.mp h
      exact create_field h
    · obtain ⟨x, -, h⟩ := bind_ok.mp h
      exact create_field h
  · exact create_field h

theorem stateComparison_field {left right : CanonicalState} {policy : ComparisonPolicy}
    {d : FieldComparison} (h : stateComparison left right policy = .ok d) : d.field = "state" := by
  unfold stateComparison at h
  split_ifs at h <;> exact create_field h

theorem comparePairFields_nodup {policy : ComparisonPolicy} {left right : MatchRecord}
    {contract : ReferenceContract} {origin : PairOrigin} {cs : List FieldComparison}
    (h : comparePairFields left right origin policy contract = .ok cs) :
    (cs.map (·.field)).Nodup := by
  simp only [comparePairFields, bind_ok, pure_ok] at h
  obtain ⟨c1, h1, c2, h2, c3, h3, c4, h4, c5, h5, c6, h6, c7, h7, c8, h8, c9, h9, rfl⟩ := h
  refine ((sortOn_perm _ _).map _).nodup_iff.mpr ?_
  simp only [List.map_cons, List.map_nil, exactComparison_field h1, exactComparison_field h2,
    exactComparison_field h3, decimalComparison_field h4, timestampComparison_field h5,
    monetaryComparison_field h6, monetaryComparison_field h7, exactComparison_field h8,
    stateComparison_field h9]
  decide

end Workbench.Comparisons
