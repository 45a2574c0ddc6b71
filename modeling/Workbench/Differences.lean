import Workbench.Comparisons
import Workbench.Contributions

/-!
# Differences in exact arithmetic

The comparison of two amounts computes their difference and what the tolerance
allows with 28 digits. What it reports against exact arithmetic.
-/

set_option autoImplicit false

namespace Workbench.Differences
open Workbench.Listing Workbench.Decimals Workbench.Raising Workbench.Records Workbench.Evidence
open Workbench.Rounding Workbench.Nearest Workbench.Scores Workbench.Comparison
open Workbench.Comparisons Workbench.Contributions

def exactAllowed (t : DecimalTolerance) (left right : Decimal) : ℚ :=
  max (value t.absolute) (value t.relative*max |value left| |value right|)

def roundedAllowed (t : DecimalTolerance) (left right : Decimal) : ℚ :=
  max (value t.absolute) (nearest 10 28 (value t.relative*
    max (nearest 10 28 |value left|) (nearest 10 28 |value right|)))

structure Exactly (t : DecimalTolerance) (left right : Decimal) (c : FieldComparison) : Prop where
  difference : ∃ d, c.signedDifference = .decimal d ∧ value d = value right-value left
  exact : c.status = .exact ↔ value left = value right
  within : c.status = .withinTolerance ↔ value left ≠ value right ∧
    |value right-value left| ≤ exactAllowed t left right
  discrepant : c.status = .discrepant ↔ value left ≠ value right ∧
    exactAllowed t left right < |value right-value left|

/-- The difference has at most 28 significant digits, and rounding does not
carry what is allowed across it. -/
structure Fits (t : DecimalTolerance) (left right : Decimal) : Prop where
  difference : ∃ (m j : ℤ), |m| < 10^28 ∧ value right-value left = m*10^j
  allowed : |value right-value left| ≤ roundedAllowed t left right ↔
    |value right-value left| ≤ exactAllowed t left right

theorem decimalDifference_nearest {left right signed size allowed : Decimal}
    {t : DecimalTolerance}
    (h : decimalDifference left right t = some (signed, size, allowed)) (hl : Ordinary left)
    (hr : Ordinary right) (ht : OrdinaryTolerance t) :
    value signed = nearest 10 28 (value right-value left) ∧ value size = |value signed| ∧
      value allowed = roundedAllowed t left right := by
  have hle := hl.1
  have hre := hr.1
  have hrel := ht.relative.1
  simp only [decimalDifference, Option.bind_eq_bind, Option.bind_eq_some_iff] at h
  obtain ⟨x, hx, la, hla, ra, hra, m, hm, s, hs, he⟩ := h
  have htriple := Option.some.inj he
  have hxs : x = signed := congrArg Prod.fst htriple
  have hss : s = size := congrArg (fun p => p.2.1) htriple
  have hma : larger t.absolute m = allowed := congrArg (fun p => p.2.2) htriple
  have hxe : -12 ≤ x.exponent := add_exponent (by norm_num) hx hre hle
  have hlae : -12 ≤ la.exponent := abs_exponent (by norm_num) hla hle
  have hrae : -12 ≤ ra.exponent := abs_exponent (by norm_num) hra hre
  have hlarge := larger_exponent hlae hrae
  have hxv : value x = nearest 10 28 (value right-value left) :=
    sub_nearest (by decide) hx (by omega) (by omega)
  have hsv : value s = |value x| := by
    have h28 : (0 : ℕ) < 28 := by norm_num
    rw [abs_nearest (by decide) hs (by omega), hxv]
    rcases abs_choice (nearest 10 28 (value right-value left)) with habs | habs
    · rw [habs]
      exact nearest_idem ten_base h28 _
    · rw [habs, nearest_neg]
      exact congrArg Neg.neg (nearest_idem ten_base h28 _)
  have hlav : value la = nearest 10 28 |value left| := abs_nearest (by decide) hla (by omega)
  have hrav : value ra = nearest 10 28 |value right| := abs_nearest (by decide) hra (by omega)
  have hmv : value m = nearest 10 28 (value t.relative*
      max (nearest 10 28 |value left|) (nearest 10 28 |value right|)) := by
    rw [← hlav, ← hrav, ← value_larger]
    exact mul_nearest (by decide) hm (by omega)
  refine ⟨hxs ▸ hxv, by rw [← hss, ← hxs, hsv], ?_⟩
  rw [← hma, value_larger, hmv, roundedAllowed]

theorem decimalComparison_reports {field label : String} {left right : Decimal}
    {t : DecimalTolerance} {c : FieldComparison}
    (h : decimalComparison field label (some left) (some right) t = .ok c) (hl : Ordinary left)
    (hr : Ordinary right) (ht : OrdinaryTolerance t) : ∃ d : Decimal,
    c.signedDifference = .decimal d ∧ value d = nearest 10 28 (value right-value left) ∧
      c.status = if value d = 0 then .exact
        else if |value d| ≤ roundedAllowed t left right then .withinTolerance else .discrepant := by
  obtain ⟨signed, size, allowed, hdiff, -⟩ := decimalDifference_ok hl hr ht
  obtain ⟨hsigned, hsize, hallowed⟩ := decimalDifference_nearest hdiff hl hr ht
  simp only [decimalComparison, hdiff, fetch, ok_bind] at h
  refine ⟨signed, ?_, hsigned, ?_⟩
  · split_ifs at h
    all_goals exact (congrArg FieldComparison.signedDifference (comparison_create_ok.mp h).2).symm
  · have hzero : value signed = 0 ↔ signed.coefficient = 0 := value_eq_zero
    have hle : |value signed| ≤ roundedAllowed t left right ↔ size ≤ allowed := by
      rw [le_iff, hsize, hallowed]
    simp only [hzero, hle]
    split_ifs at h ⊢
    all_goals exact (congrArg FieldComparison.status (comparison_create_ok.mp h).2).symm

theorem allowed_nonneg (t : DecimalTolerance) (left right : Decimal) :
    0 ≤ exactAllowed t left right ∧ 0 ≤ roundedAllowed t left right :=
  ⟨(nonneg_value t.absolute_nonneg).trans (le_max_left _ _),
    (nonneg_value t.absolute_nonneg).trans (le_max_left _ _)⟩

/-- Two amounts are compared as in exact arithmetic exactly when their
difference fits the context. -/
theorem decimalComparison_exactly {field label : String} {left right : Decimal}
    {t : DecimalTolerance} {c : FieldComparison}
    (h : decimalComparison field label (some left) (some right) t = .ok c) (hl : Ordinary left)
    (hr : Ordinary right) (ht : OrdinaryTolerance t) :
    Exactly t left right c ↔ Fits t left right := by
  obtain ⟨d, hd, hv, hstatus⟩ := decimalComparison_reports h hl hr ht
  have h28 : (0 : ℕ) < 28 := by norm_num
  have hself := @nearest_eq_self ℚ _ _ _ _ 10 28 ten_base h28 (value right-value left)
  push_cast at hself
  have hzero : value d = 0 ↔ value left = value right := by
    rw [hv, nearest_eq_zero ten_base h28, sub_eq_zero]
    exact eq_comm
  simp only [hzero] at hstatus
  constructor
  · intro he
    obtain ⟨d', hd', hv'⟩ := he.difference
    rw [hd] at hd'
    obtain rfl : d = d' := by injection hd'
    refine ⟨hself.mp (hv ▸ hv'), ?_⟩
    rw [hv'] at hstatus
    by_cases hequal : value left = value right
    · obtain ⟨h1, h2⟩ := allowed_nonneg t left right
      rw [hequal, sub_self, abs_zero]
      exact iff_of_true h2 h1
    · rw [if_neg hequal] at hstatus
      have hwithin := he.within
      rw [hstatus] at hwithin
      by_cases hle : |value right-value left| ≤ roundedAllowed t left right
      · rw [if_pos hle] at hwithin
        exact iff_of_true hle (hwithin.mp rfl).2
      · rw [if_neg hle] at hwithin
        refine iff_of_false hle fun hexact => ?_
        cases hwithin.mpr ⟨hequal, hexact⟩
  · intro hf
    have hv' : value d = value right-value left := hv.trans (hself.mpr hf.difference)
    rw [hv'] at hstatus
    simp only [hf.allowed] at hstatus
    refine ⟨⟨d, hd, hv'⟩, ?_, ?_, ?_⟩
    all_goals
      rw [hstatus]
      by_cases hequal : value left = value right
      · simp [hequal]
      · by_cases hle : |value right-value left| ≤ exactAllowed t left right
        · simp [hequal, hle]
        · simp [hequal, hle, not_le.mp hle]

inductive AmountField where
  | quantity
  | unitPrice
  | grossAmount
deriving DecidableEq

def AmountField.name : AmountField → String
  | .quantity => "quantity"
  | .unitPrice => "unit_price"
  | .grossAmount => "gross_amount"

def AmountField.amount : AmountField → MatchRecord → Option Decimal
  | .quantity, r => r.quantity
  | .unitPrice, r => r.unitPrice
  | .grossAmount, r => r.grossAmount

def AmountField.tolerance : AmountField → ComparisonPolicy → DecimalTolerance
  | .quantity, p => p.quantityTolerance
  | .unitPrice, p => p.unitPriceTolerance
  | .grossAmount, p => p.grossAmountTolerance

/-- Amounts of money are compared in one currency. -/
def AmountField.Alike (f : AmountField) (left right : MatchRecord) : Prop :=
  f = .quantity ∨ ∃ currency, left.currency = some currency ∧ right.currency = some currency

/-- No difference is reported. -/
def Withheld (c : FieldComparison) : Prop :=
  c.status = .notComparable ∧ c.signedDifference = .none ∧ c.allowedDifference = .none

section Amounts
variable {policy : ComparisonPolicy} {left right : MatchRecord} {contract : ReferenceContract}
  {origin : PairOrigin} {cs : List FieldComparison}

theorem amount_ordinary (h : OrdinaryRecord left) (f : AmountField) :
    ∀ d ∈ f.amount left, Ordinary d := by
  cases f with
  | quantity => exact h.quantity
  | unitPrice => exact h.unitPrice
  | grossAmount => exact h.grossAmount

theorem tolerance_ordinary (h : OrdinaryTolerances policy) (f : AmountField) :
    OrdinaryTolerance (f.tolerance policy) := by
  cases f with
  | quantity => exact h.quantity
  | unitPrice => exact h.unitPrice
  | grossAmount => exact h.grossAmount

theorem monetaryComparison_cases {field label : String} {l r : Option Decimal}
    {t : DecimalTolerance} {leftCurrency rightCurrency : Option String} {c : FieldComparison}
    (h : monetaryComparison field label l r t leftCurrency rightCurrency = .ok c) :
    ((∃ currency, leftCurrency = some currency ∧ rightCurrency = some currency) →
      decimalComparison field label l r t = .ok c) ∧
    ((¬∃ currency, leftCurrency = some currency ∧ rightCurrency = some currency) →
      Withheld c) := by
  constructor
  · intro hs
    obtain ⟨currency, rfl, rfl⟩ := hs
    simpa [monetaryComparison] using h
  · intro hd
    unfold monetaryComparison at h
    split at h
    · split_ifs at h with he
      · exact absurd ⟨_, rfl, congrArg some he.symm⟩ hd
      · rw [← (comparison_create_ok.mp h).2]
        exact ⟨rfl, rfl, rfl⟩
    · rw [← (comparison_create_ok.mp h).2]
      exact ⟨rfl, rfl, rfl⟩

theorem amount_compared (h : comparePairFields left right origin policy contract = .ok cs)
    (f : AmountField) : ∃ c ∈ cs, c.field = f.name ∧
      (f.Alike left right → ∃ label, decimalComparison f.name label (f.amount left)
        (f.amount right) (f.tolerance policy) = .ok c) ∧
      (¬f.Alike left right → Withheld c) := by
  simp only [comparePairFields, bind_ok, pure_ok] at h
  obtain ⟨c1, h1, c2, h2, c3, h3, c4, h4, c5, h5, c6, h6, c7, h7, c8, h8, c9, h9, rfl⟩ := h
  have hmoney : f ≠ .quantity → (f.Alike left right ↔
      ∃ currency, left.currency = some currency ∧ right.currency = some currency) :=
    fun hne => or_iff_right hne
  cases f with
  | quantity =>
    refine ⟨c4, (mem_sortOn _ _ _).mpr (by simp), decimalComparison_field h4,
      fun _ => ⟨_, h4⟩, fun hno => absurd (.inl rfl) hno⟩
  | unitPrice =>
    rw [hmoney (by decide)]
    exact ⟨c6, (mem_sortOn _ _ _).mpr (by simp), monetaryComparison_field h6,
      fun hs => ⟨_, (monetaryComparison_cases h6).1 hs⟩, (monetaryComparison_cases h6).2⟩
  | grossAmount =>
    rw [hmoney (by decide)]
    exact ⟨c7, (mem_sortOn _ _ _).mpr (by simp), monetaryComparison_field h7,
      fun hs => ⟨_, (monetaryComparison_cases h7).1 hs⟩, (monetaryComparison_cases h7).2⟩

theorem field_unique (h : comparePairFields left right origin policy contract = .ok cs)
    {c c' : FieldComparison} (hc : c ∈ cs) (hc' : c' ∈ cs) (he : c.field = c'.field) : c = c' :=
  List.inj_on_of_nodup_map (comparePairFields_nodup h) hc hc' he

/-- Every amount that both records have, in one currency, is compared as in
exact arithmetic. -/
def ComparedExactly (policy : ComparisonPolicy) (left right : MatchRecord)
    (cs : List FieldComparison) : Prop :=
  ∀ f : AmountField, f.Alike left right → ∀ l ∈ f.amount left, ∀ r ∈ f.amount right,
    ∀ c ∈ cs, c.field = f.name → Exactly (f.tolerance policy) l r c

/-- Each difference fits the context. -/
def DifferencesFit (policy : ComparisonPolicy) (left right : MatchRecord) : Prop :=
  ∀ f : AmountField, f.Alike left right → ∀ l ∈ f.amount left, ∀ r ∈ f.amount right,
    Fits (f.tolerance policy) l r

/-- Ordinary records are always compared, no amounts of money are subtracted
but in one currency, and the comparison is that of exact arithmetic exactly
when each difference fits the context. -/
theorem comparison_exact_iff (hl : OrdinaryRecord left) (hr : OrdinaryRecord right)
    (hp : OrdinaryTolerances policy) (contract : ReferenceContract) (origin : PairOrigin) :
    ∃ cs, comparePairFields left right origin policy contract = .ok cs ∧
      (∀ f : AmountField, ¬f.Alike left right → ∀ c ∈ cs, c.field = f.name → Withheld c) ∧
      (ComparedExactly policy left right cs ↔ DifferencesFit policy left right) := by
  obtain ⟨cs, hcs⟩ := comparable hl hr hp contract origin
  refine ⟨cs, hcs, ?_, ?_⟩
  · intro f hno c hc hfield
    obtain ⟨c', hc', hfield', -, hwithheld⟩ := amount_compared hcs f
    rw [field_unique hcs hc hc' (hfield.trans hfield'.symm)]
    exact hwithheld hno
  · constructor
    · intro hexact f halike l hleft r hright
      obtain ⟨c, hc, hfield, hdecimal, -⟩ := amount_compared hcs f
      obtain ⟨label, hd⟩ := hdecimal halike
      rw [Option.mem_def.mp hleft, Option.mem_def.mp hright] at hd
      exact (decimalComparison_exactly hd (amount_ordinary hl f l hleft)
        (amount_ordinary hr f r hright) (tolerance_ordinary hp f)).mp
        (hexact f halike l hleft r hright c hc hfield)
    · intro hfit f halike l hleft r hright c hc hfield
      obtain ⟨c', hc', hfield', hdecimal, -⟩ := amount_compared hcs f
      obtain ⟨label, hd⟩ := hdecimal halike
      rw [Option.mem_def.mp hleft, Option.mem_def.mp hright] at hd
      rw [field_unique hcs hc hc' (hfield.trans hfield'.symm)]
      exact (decimalComparison_exactly hd (amount_ordinary hl f l hleft)
        (amount_ordinary hr f r hright) (tolerance_ordinary hp f)).mpr
        (hfit f halike l hleft r hright)

end Amounts

def differenceLeft : MatchRecord :=
  sampleRecord "difference-left" "difference" (by decide) (by decide) 0

/-- A quantity of thirty digits. -/
def differenceRight : MatchRecord :=
  { sampleRecord "difference-right" "difference" (by decide) (by decide) 0 with
    quantity := some ⟨false, 10^29+1, -12⟩
    quantity_nonneg := by decide }

theorem difference_ordinary : OrdinaryRecord differenceLeft ∧ OrdinaryRecord differenceRight ∧
    OrdinaryTolerances sampleComparison := by
  have htolerance : OrdinaryTolerance sampleTolerance := ⟨by decide, by decide⟩
  refine ⟨⟨?_, ?_, ?_⟩, ⟨?_, ?_, ?_⟩, ⟨htolerance, htolerance, htolerance⟩⟩
  all_goals
    intro d hd
    cases hd
  all_goals decide

theorem differenceNear_text : nonblank "difference-near" = true := by decide

theorem difference_text : nonblank "difference" = true := by decide

theorem differenceNear_nonneg : Nonnegative (some ⟨false, 55, -1⟩) := by decide

/-- Half a unit more. -/
def differenceNear : MatchRecord :=
  { sampleRecord "difference-near" "difference" differenceNear_text difference_text 0 with
    quantity := some ⟨false, 55, -1⟩
    quantity_nonneg := differenceNear_nonneg }

theorem differenceNear_ordinary : OrdinaryRecord differenceNear := by
  refine ⟨?_, ?_, ?_⟩
  all_goals
    intro d hd
    cases hd
  all_goals decide

theorem fits_without_tolerance {left right : Decimal} (m j : ℤ) (hm : |m| < 10^28)
    (h : value right-value left = m*10^j) : Fits sampleTolerance left right := by
  refine ⟨⟨m, j, hm, h⟩, ?_⟩
  have hzero : value (ofInt 0) = 0 := by decide +kernel
  unfold roundedAllowed exactAllowed sampleTolerance
  rw [hzero, zero_mul, zero_mul, nearest_zero]

theorem comparison_exact_sample : ∃ cs,
    comparePairFields differenceLeft differenceNear .manual sampleComparison .sharedMustAgree =
        .ok cs ∧ ComparedExactly sampleComparison differenceLeft differenceNear cs := by
  obtain ⟨hleft, -, hpolicy⟩ := difference_ordinary
  obtain ⟨cs, hcs, -, hiff⟩ :=
    comparison_exact_iff hleft differenceNear_ordinary hpolicy .sharedMustAgree .manual
  refine ⟨cs, hcs, hiff.mpr fun f _ l hl r hr => ?_⟩
  cases f with
  | quantity =>
    obtain rfl := Option.some.inj hl
    obtain rfl := Option.some.inj hr
    exact fits_without_tolerance 5 (-1) (by norm_num) (by decide +kernel)
  | unitPrice =>
    obtain rfl := Option.some.inj hl
    obtain rfl := Option.some.inj hr
    exact fits_without_tolerance 0 0 (by norm_num) (by decide +kernel)
  | grossAmount => cases hl

/-- A difference of 29 digits is reported with 28 of them. -/
theorem difference_rounded : ∃ cs,
    comparePairFields differenceLeft differenceRight .manual sampleComparison .sharedMustAgree =
        .ok cs ∧ ¬ComparedExactly sampleComparison differenceLeft differenceRight cs := by
  have hrun : (comparePairFields differenceLeft differenceRight .manual sampleComparison
      .sharedMustAgree).toOption.map (fun cs => cs.any fun c => c.field = "quantity" ∧
        c.signedDifference = .decimal ⟨false, 9999999999999999500000000000, -11⟩) =
          some true := by decide +kernel
  obtain ⟨cs, hcs, hany⟩ := Option.map_eq_some_iff.mp hrun
  obtain ⟨c, hc, hreport⟩ := List.any_eq_true.mp hany
  obtain ⟨hfield, hsigned⟩ := of_decide_eq_true hreport
  cases hs : comparePairFields differenceLeft differenceRight .manual sampleComparison
      .sharedMustAgree with
  | error x =>
    rw [hs] at hcs
    cases hcs
  | ok x =>
    rw [hs] at hcs
    refine ⟨x, rfl, fun h => ?_⟩
    have hexact := h .quantity (.inl rfl) (ofInt 5) rfl ⟨false, 10^29+1, -12⟩ rfl c
      (by rwa [Option.some.inj hcs]) hfield
    obtain ⟨d, hd, hv⟩ := hexact.difference
    rw [hsigned] at hd
    obtain rfl : (⟨false, 9999999999999999500000000000, -11⟩ : Decimal) = d := by injection hd
    unfold value size ofInt at hv
    norm_num at hv

end Workbench.Differences
