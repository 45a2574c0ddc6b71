import Workbench.DecimalTexts
import Workbench.DecimalRounding

/-!
# Decimals that a canonical text denotes exactly

A number loses nothing in its canonical text exactly when it has at most the
28 significant digits of the default context, none of them below the places
that the context has. Every value has one number that ends in no zero.
-/

set_option autoImplicit false

namespace Workbench.ExactDecimals
open Workbench.Decimals Workbench.DecimalRounding Workbench.DecimalTexts

theorem strip_spec (n c : ℕ) (e : ℤ) :
    ∃ j : ℕ, (strip n c e).2 = e+j ∧ c = (strip n c e).1*10^j := by
  induction n generalizing c e with
  | zero => exact ⟨0, by simp [strip], by simp [strip]⟩
  | succ n ih =>
    unfold strip
    split_ifs with h
    · obtain ⟨j, he, hc⟩ := ih (c/10) (e+1)
      refine ⟨j+1, by rw [he]; push_cast; ring, ?_⟩
      rw [pow_succ, ← mul_assoc, ← hc]
      omega
    · exact ⟨0, by simp, by simp⟩

def reduced (d : Decimal) : Decimal :=
  if d.coefficient = 0 then ⟨false, 0, 0⟩
  else
    let s := strip (digits d.coefficient) d.coefficient d.exponent
    ⟨d.negative, s.1, s.2⟩

theorem reduced_zero {d : Decimal} (h : d.coefficient = 0) : reduced d = ⟨false, 0, 0⟩ := by
  rw [reduced, if_pos h]

theorem reduced_spec {d : Decimal} (h : d.coefficient ≠ 0) :
    (reduced d).negative = d.negative ∧ (reduced d).coefficient%10 ≠ 0 ∧
      ∃ j : ℕ, (reduced d).exponent = d.exponent+j ∧
        d.coefficient = (reduced d).coefficient*10^j := by
  rw [reduced, if_neg h]
  exact ⟨rfl, strip_ends _ _ h (lt_pow_digits _), strip_spec _ _ _⟩

theorem size_reduced (d : Decimal) : size (reduced d) = size d := by
  by_cases h : d.coefficient = 0
  · rw [reduced_zero h, size_eq_zero.mpr h]
    simp [size]
  · rw [reduced, if_neg h]
    exact strip_size _ _ _

theorem value_zero {d : Decimal} (h : d.coefficient = 0) : value d = 0 := by
  rw [value, size_eq_zero.mpr h]
  simp

theorem coefficient_zero {d : Decimal} (h : value d = 0) : d.coefficient = 0 := by
  have habs := abs_value d
  rw [h, abs_zero] at habs
  exact size_eq_zero.mp habs.symm

theorem negative_eq {d d' : Decimal} (h : value d = value d') (hc : d.coefficient ≠ 0) :
    d.negative = d'.negative := by
  have hsize : size d = size d' := by rw [← abs_value, ← abs_value, h]
  have hpos : 0 < size d := lt_of_le_of_ne (size_nonneg d) fun h0 => hc (size_eq_zero.mp h0.symm)
  unfold value at h
  rw [← hsize] at h
  cases hn : d.negative <;> cases hn' : d'.negative <;> simp [hn, hn'] at h ⊢ <;> linarith

theorem reduced_eq_iff {d d' : Decimal} : reduced d = reduced d' ↔ value d = value d' := by
  have hvalue : ∀ x, value (reduced x) = value x := by
    intro x
    by_cases h : x.coefficient = 0
    · rw [reduced_zero h, value_zero h]
      simp [value, size]
    · exact value_eq (reduced_spec h).1 (size_reduced x)
  refine ⟨fun h => by rw [← hvalue d, h, hvalue], fun h => ?_⟩
  by_cases hc : d.coefficient = 0
  · have hc' : d'.coefficient = 0 := coefficient_zero (h ▸ value_zero hc)
    rw [reduced_zero hc, reduced_zero hc']
  · have hc' : d'.coefficient ≠ 0 := fun h0 => hc (coefficient_zero (h.trans (value_zero h0)))
    obtain ⟨hneg, hend, -⟩ := reduced_spec hc
    obtain ⟨hneg', hend', -⟩ := reduced_spec hc'
    have hsize : size (reduced d) = size (reduced d') := by
      rw [size_reduced, size_reduced, ← abs_value, ← abs_value, h]
    obtain ⟨hcoefficient, hexponent⟩ := stripped_unique hend hend' hsize
    have hsign : (reduced d).negative = (reduced d').negative := by
      rw [hneg, hneg', negative_eq h hc]
    calc reduced d = ⟨(reduced d).negative, (reduced d).coefficient, (reduced d).exponent⟩ := rfl
      _ = ⟨(reduced d').negative, (reduced d').coefficient, (reduced d').exponent⟩ := by
        rw [hsign, hcoefficient, hexponent]
      _ = reduced d' := rfl

/-- At most 28 significant digits, the last at a place of the context. -/
def Fits (d : Decimal) : Prop := (reduced d).coefficient < 10^28 ∧ etiny 28 ≤ (reduced d).exponent

instance (d : Decimal) : Decidable (Fits d) := inferInstanceAs (Decidable (_ ∧ _))

theorem fits_of_size {d : Decimal} {c : ℕ} {e : ℤ} (hc : c < 10^28) (he : etiny 28 ≤ e)
    (h : size d = c*10^e) : Fits d := by
  by_cases h0 : d.coefficient = 0
  · rw [Fits, reduced_zero h0]
    exact ⟨by norm_num, by unfold etiny; norm_num⟩
  · obtain ⟨-, hend, -⟩ := reduced_spec h0
    have hsize : ((reduced d).coefficient : ℚ)*10^(reduced d).exponent = c*10^e := by
      rw [← h, ← size_reduced]
      rfl
    rcases le_total (reduced d).exponent e with hle | hle
    · obtain ⟨hcoefficient, hexponent⟩ := stripped_le hend hle hsize
      exact ⟨hcoefficient ▸ hc, hexponent ▸ he⟩
    · obtain ⟨n, hn⟩ : ∃ n : ℕ, (reduced d).exponent = n+e :=
        ⟨((reduced d).exponent-e).toNat, by omega⟩
      have hz : (0 : ℚ) < 10^e := by positivity
      rw [hn, zpow_add₀ (by norm_num), ← mul_assoc, zpow_natCast] at hsize
      have hnat : (reduced d).coefficient*10^n = c := by
        exact_mod_cast mul_right_cancel₀ hz.ne' hsize
      have hpos : 0 < 10^n := by positivity
      exact ⟨lt_of_le_of_lt (hnat ▸ Nat.le_mul_of_pos_right _ hpos) hc, he.trans hle⟩

theorem fix_place {d r : Decimal} (hc : d.coefficient ≠ 0) (h : fix 28 d = some r) :
    r.coefficient < 10^28 ∧ etiny 28 ≤ r.exponent := by
  have hdigits : ∀ {c : ℕ}, digits c ≤ 28 → c < 10^28 := fun hle =>
    (lt_pow_digits _).trans_le (Nat.pow_le_pow_right (by norm_num) hle)
  simp only [fix, if_neg hc] at h
  split_ifs at h with h1 h2
  · simp only [rounded] at h
    split_ifs at h with h3 h4
    · obtain rfl := Option.some.inj h
      exact ⟨hdigits h3, le_max_right _ _⟩
    · obtain rfl := Option.some.inj h
      refine ⟨?_, by simp only; omega⟩
      -- rounding up can only reach the first number of 29 digits
      have hbound : d.coefficient < 10^(28+
          (max (digits d.coefficient+d.exponent-(28 : ℕ)) (etiny 28)-d.exponent).toNat) :=
        (lt_pow_digits _).trans_le (Nat.pow_le_pow_right (by norm_num) (by omega))
      have hle := halfEven_lt hbound
      simp only
      omega
  · obtain rfl := Option.some.inj h
    exact ⟨hdigits (by omega), by omega⟩

/-- A number that fits is not rounded. -/
theorem fix_fits {d r : Decimal} (hc : d.coefficient ≠ 0) (hf : Fits d) (h : fix 28 d = some r) :
    size r = size d := by
  obtain ⟨-, hend, j, hexponent, hcoefficient⟩ := reduced_spec hc
  obtain ⟨hsmall, hplace⟩ := hf
  have hne : (reduced d).coefficient ≠ 0 := fun h0 => hend (by rw [h0])
  have hdigits : digits d.coefficient = digits (reduced d).coefficient+j := by
    conv_lhs => rw [hcoefficient]
    exact digits_mul hne j
  have hle : digits (reduced d).coefficient ≤ 28 := digits_le (by norm_num) hsmall
  simp only [fix, if_neg hc] at h
  split_ifs at h with h1 h2
  · generalize hl : max (digits d.coefficient+d.exponent-(28 : ℕ)) (etiny 28) = least at h h2
    obtain ⟨k, hk⟩ : ∃ k : ℕ, least = d.exponent+k := ⟨(least-d.exponent).toNat, by omega⟩
    have hkj : k ≤ j := by omega
    have hround : halfEven d.coefficient (least-d.exponent).toNat =
        (reduced d).coefficient*10^(j-k) := by
      have hkk : (least-d.exponent).toNat = k := by omega
      rw [hkk]
      conv_lhs => rw [hcoefficient]
      exact halfEven_multiple hkj
    have hkept : digits ((reduced d).coefficient*10^(j-k)) ≤ 28 := by
      rw [digits_mul hne]
      omega
    simp only [rounded, hround, if_pos hkept] at h
    obtain rfl := Option.some.inj h
    rw [← size_reduced d]
    unfold size
    have hpow : (10 : ℚ)^(reduced d).exponent = 10^(j-k)*10^least := by
      rw [← zpow_natCast, ← zpow_add₀ (by norm_num)]
      congr 1
      omega
    rw [hpow]
    push_cast
    ring
  · obtain rfl := Option.some.inj h
    rfl

/-- A canonical text denotes its number exactly when the number fits. -/
theorem canonicalDecimal_exact_iff {d : Decimal} {t : String} (h : canonicalDecimal d = some t) :
    (∃ r hr, readDecimal t = some (.finite r hr) ∧ value r = value d) ↔ Fits d := by
  unfold canonicalDecimal at h
  split_ifs at h with hc
  · obtain rfl := Option.some.inj h
    refine iff_of_true ⟨⟨false, 0, 0⟩, by decide, by decide, ?_⟩ ?_
    · rw [value_zero hc]
      simp [value, size]
    · rw [Fits, reduced_zero hc]
      exact ⟨by norm_num, by unfold etiny; norm_num⟩
  · obtain ⟨n, hn, rfl⟩ := Option.map_eq_some_iff.mp h
    obtain ⟨r, hr, rfl⟩ := Option.map_eq_some_iff.mp hn
    generalize hm : (if r.coefficient = 0 then (⟨r.negative, 0, 0⟩ : Decimal)
      else _) = m
    have hmr : m.negative = r.negative ∧ size m = size r ∧ Constructible m := by
      subst hm
      split_ifs with h0
      · exact ⟨rfl, by rw [size_eq_zero.mpr h0]; simp [size], by
          cases r.negative <;> decide⟩
      · exact ⟨rfl, strip_size _ _ _, stripped_constructible hr
          (strip_ends _ _ h0 (lt_pow_digits _)) (strip_size _ _ _)⟩
    obtain ⟨x, hlimits, hx, hxn, hxs, -⟩ := readDecimal_fixedText hmr.2.2
    have hvalue : value x = value r := value_eq (hxn.trans hmr.1) (hxs.trans hmr.2.1)
    constructor
    · rintro ⟨y, _, hy, hv⟩
      rw [hx, Option.some.injEq, Number.finite.injEq] at hy
      subst hy
      obtain ⟨hplace, hexponent⟩ := fix_place hc hr
      refine fits_of_size hplace hexponent ?_
      rw [← abs_value, ← hv, hvalue, abs_value]
      rfl
    · intro hf
      exact ⟨x, hlimits, hx, hvalue.trans (value_eq (fix_negative hr) (fix_fits hc hf hr))⟩

theorem canonicalDecimal_inj {d d' : Decimal} {t : String} (h : canonicalDecimal d = some t)
    (h' : canonicalDecimal d' = some t) (hf : Fits d) (hf' : Fits d') : reduced d = reduced d' := by
  obtain ⟨r, _, hr, hv⟩ := (canonicalDecimal_exact_iff h).mpr hf
  obtain ⟨r', _, hr', hv'⟩ := (canonicalDecimal_exact_iff h').mpr hf'
  rw [hr, Option.some.injEq, Number.finite.injEq] at hr'
  rw [reduced_eq_iff, ← hv, ← hv', hr']

end Workbench.ExactDecimals
