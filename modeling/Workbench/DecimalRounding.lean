import Workbench.DecimalTexts

/-!
# Decimals rounded to 28 digits

An admitted decimal has at most 38 digits, 12 of them after the point. Its
canonical text is that of its value rounded to 28 digits, so it tells admitted
decimals apart exactly as long as they are below `10^16`.
-/

set_option autoImplicit false

namespace Workbench.DecimalRounding
open Workbench.Decimals Workbench.DecimalTexts

def maxNumericPrecision : ℕ := 38

def maxNumericScale : ℕ := 12

def scale (d : Decimal) : ℕ := (-d.exponent).toNat

def integerDigits (d : Decimal) : ℕ := (digits d.coefficient+d.exponent).toNat

/-- `validate_numeric_value`. -/
def Numeric (d : Decimal) : Prop :=
  scale d ≤ maxNumericScale ∧ integerDigits d+scale d ≤ maxNumericPrecision

instance (d : Decimal) : Decidable (Numeric d) := inferInstanceAs (Decidable (_ ∧ _))

/-- `Decimal.normalize`: round to the context and drop the trailing zeros. -/
def normalize (p : ℕ) (d : Decimal) : Option Decimal :=
  (fix p d).map fun r =>
    if r.coefficient = 0 then ⟨r.negative, 0, 0⟩
    else
      let s := strip (digits r.coefficient) r.coefficient r.exponent
      ⟨r.negative, s.1, s.2⟩

/-- `canonical_decimal` under the default context. -/
def canonicalDecimal (d : Decimal) : Option String :=
  if d.coefficient = 0 then some "0" else (normalize 28 d).map fixedText

theorem halfEven_zero (c : ℕ) : halfEven c 0 = c := by
  unfold halfEven
  simp [Nat.mod_one]

theorem halfEven_mul (c k j : ℕ) : halfEven (c*10^j) (k+j) = halfEven c k := by
  have hj : 0 < 10^j := by positivity
  unfold halfEven
  rw [pow_add, Nat.mul_mod_mul_right, Nat.mul_div_mul_right _ _ hj]
  have h1 : 10^k*10^j < 2*(c%10^k*10^j) ↔ 10^k < 2*(c%10^k) := by
    rw [← mul_assoc]
    exact Nat.mul_lt_mul_right hj
  have h2 : 2*(c%10^k*10^j) = 10^k*10^j ↔ 2*(c%10^k) = 10^k := by
    rw [← mul_assoc]
    exact Nat.mul_left_inj hj.ne'
  simp only [h1, h2]

theorem halfEven_multiple {c k j : ℕ} (h : k ≤ j) : halfEven (c*10^j) k = c*10^(j-k) := by
  have he : c*10^j = c*10^(j-k)*10^k := by
    rw [mul_assoc, ← pow_add, Nat.sub_add_cancel h]
  have hm := halfEven_mul (c*10^(j-k)) 0 k
  rw [Nat.zero_add, halfEven_zero] at hm
  rw [he, hm]

theorem div_le_halfEven (c k : ℕ) : c/10^k ≤ halfEven c k := by
  unfold halfEven
  split_ifs <;> omega

theorem halfEven_lt {c n : ℕ} (h : c < 10^(28+n)) : halfEven c n ≤ 10^28 := by
  apply halfEven_le
  rw [← pow_add]
  exact h.le

theorem exists_rounded_alike (c k : ℕ) :
    ∃ c', c' ≠ c ∧ c'/10^(k+1) = c/10^(k+1) ∧ halfEven c' (k+1) = halfEven c (k+1) := by
  have hpow : 10^(k+1) = 10*10^k := by rw [pow_succ, mul_comm]
  have hk : 1 ≤ 10^k := Nat.one_le_two_pow.trans (Nat.pow_le_pow_left (by norm_num) k)
  generalize hu : 10^(k+1) = u at hpow ⊢
  have hlt : c%u < u := Nat.mod_lt c (by omega)
  have hc := Nat.div_add_mod c u
  have hup : ∀ t, t < u → (u*(c/u)+t)/u = c/u ∧ (u*(c/u)+t)%u = t := by
    intro t ht
    constructor
    · rw [Nat.mul_add_div (by omega), Nat.div_eq_of_lt ht, Nat.add_zero]
    · rw [Nat.mul_add_mod, Nat.mod_eq_of_lt ht]
  have hround : ∀ t, t < u → t ≠ c%u →
      ((u < 2*t ∨ 2*t = u ∧ c/u%2 = 1) ↔ (u < 2*(c%u) ∨ 2*(c%u) = u ∧ c/u%2 = 1)) →
      ∃ c', c' ≠ c ∧ c'/u = c/u ∧ halfEven c' (k+1) = halfEven c (k+1) := by
    intro t ht hne hiff
    obtain ⟨hdiv, hmod⟩ := hup t ht
    refine ⟨u*(c/u)+t, by omega, hdiv, ?_⟩
    unfold halfEven
    rw [hu, hdiv, hmod]
    simp only [hiff]
  -- the remainder can move away from the point where the rounding turns
  by_cases hside : u < 2*(c%u) ∨ 2*(c%u) = u ∧ c/u%2 = 1
  · by_cases htop : c%u+1 < u
    · exact hround (c%u+1) htop (by omega) (iff_of_true (.inl (by omega)) hside)
    · exact hround (c%u-1) (by omega) (by omega) (iff_of_true (.inl (by omega)) hside)
  · by_cases hlow : c%u = 0
    · exact hround 1 (by omega) (by omega) (iff_of_false (by omega) hside)
    · exact hround (c%u-1) (by omega) (by omega) (iff_of_false (by omega) hside)

theorem digits_mul {c : ℕ} (hc : c ≠ 0) (j : ℕ) : digits (c*10^j) = digits c+j := by
  induction j with
  | zero => rw [pow_zero, mul_one, add_zero]
  | succ j ih =>
    have hne : c*10^j ≠ 0 := by positivity
    unfold digits at ih ⊢
    rw [pow_succ, ← mul_assoc, Nat.log_mul_base (by norm_num) hne]
    omega

theorem digits_eq {c n : ℕ} (h1 : 10^n ≤ c) (h2 : c < 10^(n+1)) : digits c = n+1 := by
  unfold digits
  rw [Nat.log_eq_of_pow_le_of_lt_pow h1 h2]

theorem Numeric.bounds {d : Decimal} (h : Numeric d) :
    -12 ≤ d.exponent ∧ digits d.coefficient+d.exponent ≤ 38 ∧ digits d.coefficient ≤ 38 := by
  unfold Numeric scale integerDigits maxNumericPrecision maxNumericScale at h
  have := h.1
  have := h.2
  omega

def units (s : ℕ) (d : Decimal) : ℕ := d.coefficient*10^(d.exponent+s).toNat

theorem units_size {s : ℕ} {d : Decimal} (h : 0 ≤ d.exponent+s) :
    size d = units s d*10^(-(s : ℤ)) := by
  have hs : d.exponent = ((d.exponent+s).toNat : ℤ)+-(s : ℤ) := by omega
  unfold size units
  push_cast
  rw [mul_assoc, ← zpow_natCast, ← zpow_add₀ (by norm_num), ← hs]

theorem digits_units {s : ℕ} {d : Decimal} (hc : d.coefficient ≠ 0) (h : 0 ≤ d.exponent+s) :
    (digits (units s d) : ℤ) = digits d.coefficient+d.exponent+s := by
  unfold units
  rw [digits_mul hc]
  push_cast
  omega

/-- The rounding of an admitted decimal to 28 digits. -/
theorem fix_numeric {d : Decimal} (h : Numeric d) (hc : d.coefficient ≠ 0) :
    ∃ r, fix 28 d = some r ∧ r.negative = d.negative ∧
      size r = halfEven d.coefficient (digits d.coefficient-28)*
        10^(d.exponent+(digits d.coefficient-28 : ℕ)) := by
  obtain ⟨h1, h2, h3⟩ := h.bounds
  have hten : (10 : ℚ) ≠ 0 := by norm_num
  unfold fix
  rw [if_neg hc, if_neg (by unfold etop; omega)]
  have hmax : max ((digits d.coefficient : ℤ)+d.exponent-(28 : ℕ)) (etiny 28) =
      digits d.coefficient+d.exponent-28 := by
    unfold etiny
    have : 1 ≤ digits d.coefficient := by unfold digits; omega
    push_cast
    omega
  rw [hmax]
  by_cases hk : d.exponent < digits d.coefficient+d.exponent-28
  · rw [if_pos hk]
    obtain ⟨k, hdk⟩ : ∃ k, digits d.coefficient = 28+k := ⟨digits d.coefficient-28, by omega⟩
    have hlt : d.coefficient < 10^(28+k) := hdk ▸ lt_pow_digits d.coefficient
    have hexp : d.exponent+(digits d.coefficient-28 : ℕ) =
        (digits d.coefficient : ℤ)+d.exponent-28 := by omega
    have hshift : ((digits d.coefficient : ℤ)+d.exponent-28-d.exponent).toNat =
        digits d.coefficient-28 := by omega
    unfold rounded
    rw [hshift, hexp]
    simp only
    by_cases hd : digits (halfEven d.coefficient (digits d.coefficient-28)) ≤ 28
    · rw [if_pos hd]
      exact ⟨_, rfl, rfl, rfl⟩
    · rw [if_neg hd, if_neg (by unfold etop; omega)]
      refine ⟨_, rfl, rfl, ?_⟩
      have hle : halfEven d.coefficient (digits d.coefficient-28) ≤ 10^28 := by
        rw [show digits d.coefficient-28 = k by omega]
        exact halfEven_lt hlt
      have htop : halfEven d.coefficient (digits d.coefficient-28) = 10^28 := by
        apply le_antisymm hle
        by_contra hsmall
        exact hd (digits_le (by norm_num) (by omega))
      unfold size
      rw [htop, zpow_add₀ hten, zpow_one]
      push_cast
      ring
  · rw [if_neg hk]
    refine ⟨d, rfl, rfl, ?_⟩
    have hzero : digits d.coefficient-28 = 0 := by omega
    rw [hzero, halfEven_zero, Nat.cast_zero, add_zero, size]

/-- The same in units of any place the decimal has. -/
theorem fix_units {d : Decimal} (h : Numeric d) (hc : d.coefficient ≠ 0) {s : ℕ}
    (hs : 0 ≤ d.exponent+s) :
    ∃ r, fix 28 d = some r ∧ r.negative = d.negative ∧
      size r = halfEven (units s d) (digits (units s d)-28)*
        10^(-(s : ℤ)+(digits (units s d)-28 : ℕ)) := by
  obtain ⟨r, hr, hn, hsize⟩ := fix_numeric h hc
  refine ⟨r, hr, hn, ?_⟩
  rw [hsize]
  obtain ⟨j, hj⟩ : ∃ j : ℕ, d.exponent+s = j := ⟨(d.exponent+s).toNat, by omega⟩
  have hunits : units s d = d.coefficient*10^j := by
    unfold units
    rw [hj, Int.toNat_natCast]
  have hexp : d.exponent = (j : ℤ)-s := by omega
  rw [hunits, digits_mul hc, hexp]
  by_cases hbig : 28 ≤ digits d.coefficient
  · obtain ⟨k, hk⟩ : ∃ k, digits d.coefficient = 28+k := ⟨digits d.coefficient-28, by omega⟩
    have h1 : 28+k-28 = k := by omega
    have h2 : 28+k+j-28 = k+j := by omega
    rw [hk, h1, h2, halfEven_mul]
    congr 2
    push_cast
    ring
  · have h1 : digits d.coefficient-28 = 0 := by omega
    rw [h1, halfEven_zero, halfEven_multiple (by omega)]
    obtain ⟨i, hi⟩ : ∃ i, digits d.coefficient+j-28 = i := ⟨_, rfl⟩
    have hij : i ≤ j := by omega
    rw [hi]
    push_cast
    rw [mul_assoc, ← zpow_natCast, ← zpow_add₀ (by norm_num)]
    congr 2
    push_cast [hij]
    ring

theorem value_eq {d d' : Decimal} (hn : d.negative = d'.negative) (hs : size d = size d') :
    value d = value d' := by
  unfold value
  rw [hn, hs]

/-- A number written with at most 28 digits, or the power of ten after them,
is not rounded. -/
theorem fix_exact {d : Decimal} (h : Numeric d) (hc : d.coefficient ≠ 0) {m i : ℕ}
    (hm : m ≤ 10^28) (hu : units 12 d = m*10^i) :
    ∃ r, fix 28 d = some r ∧ value r = value d := by
  have hexp : 0 ≤ d.exponent+(12 : ℕ) := by
    have := h.bounds
    omega
  obtain ⟨r, hr, hn, hsize⟩ := fix_units h hc hexp
  refine ⟨r, hr, value_eq hn ?_⟩
  have hne : units 12 d ≠ 0 := by
    unfold units
    positivity
  have hdiv : ∃ q, units 12 d = q*10^(digits (units 12 d)-28) := by
    cases hm.lt_or_eq with
    | inl hlt =>
      have hm0 : m ≠ 0 := by
        intro h0
        rw [h0, zero_mul] at hu
        exact hne hu
      have hdig := digits_le (p := 28) (by norm_num) hlt
      rw [hu, digits_mul hm0]
      refine ⟨m*10^(i-(digits m+i-28)), ?_⟩
      rw [mul_assoc, ← pow_add]
      congr 2
      omega
    | inr heq =>
      rw [heq, ← one_mul (10^28*10^i), ← pow_add] at hu
      rw [hu, digits_mul one_ne_zero]
      refine ⟨10^(28+i-(digits 1+(28+i)-28)), ?_⟩
      have hone : digits 1 = 1 := by rfl
      rw [one_mul, ← pow_add, hone]
      congr 1
      omega
  obtain ⟨q, hq⟩ := hdiv
  rw [hsize, units_size hexp]
  generalize digits (units 12 d)-28 = k at hq hsize ⊢
  rw [hq, halfEven_multiple le_rfl, Nat.sub_self, pow_zero, mul_one]
  push_cast
  rw [mul_assoc, ← zpow_natCast, ← zpow_add₀ (by norm_num)]
  congr 2

theorem units_le {d : Decimal} (h : Numeric d) {n : ℕ} :
    size d < 10^n ↔ units 12 d < 10^(n+12) := by
  have hexp : 0 ≤ d.exponent+(12 : ℕ) := by
    have := h.bounds
    omega
  have hpos : (0 : ℚ) < 10^12 := by positivity
  rw [units_size hexp, ← mul_lt_mul_iff_left₀ hpos, mul_assoc]
  have hone : (10 : ℚ)^(-((12 : ℕ) : ℤ))*10^12 = 1 := by norm_num
  rw [hone, mul_one, ← pow_add]
  exact_mod_cast Iff.rfl

theorem fix_small {d : Decimal} (h : Numeric d) (hc : d.coefficient ≠ 0) (hs : size d < 10^16) :
    ∃ r, fix 28 d = some r ∧ value r = value d :=
  fix_exact (i := 0) h hc ((units_le h).mp hs).le (by rw [pow_zero, mul_one])

/-- A number from `10^16` on is not rounded below it. -/
theorem fix_large {d r : Decimal} (h : Numeric d) (hc : d.coefficient ≠ 0)
    (hs : ¬size d < 10^16) (hr : fix 28 d = some r) : (10 : ℚ)^16 ≤ size r := by
  have hexp : 0 ≤ d.exponent+(12 : ℕ) := by
    have := h.bounds
    omega
  rw [units_le h, not_lt] at hs
  obtain ⟨r', hr', _, hsize⟩ := fix_units h hc hexp
  rw [hr'] at hr
  obtain rfl := Option.some.inj hr
  rw [hsize]
  obtain ⟨k, hk⟩ : ∃ k, digits (units 12 d) = 29+k := by
    refine ⟨digits (units 12 d)-29, ?_⟩
    by_contra hlt
    have hlow := lt_pow_digits (units 12 d)
    have := hlow.trans_le (Nat.pow_le_pow_right (n := 10) (by norm_num)
      (show digits (units 12 d) ≤ 28 by omega))
    omega
  have hlead : 10^27 ≤ units 12 d/10^(1+k) := by
    rw [Nat.le_div_iff_mul_le (by positivity), ← pow_add]
    have hne : units 12 d ≠ 0 := by
      unfold units
      positivity
    have := pow_digits_le hne
    rw [hk] at this
    rw [show 27+(1+k) = 29+k-1 by omega]
    exact this
  have hround : ((10^27 : ℕ) : ℚ) ≤ halfEven (units 12 d) (1+k) := by
    exact_mod_cast hlead.trans (div_le_halfEven _ _)
  rw [hk, show 29+k-28 = 1+k by omega]
  have hz : (0 : ℚ) < 10^(-((12 : ℕ) : ℤ)+((1+k : ℕ) : ℤ)) := by positivity
  calc (10 : ℚ)^16 = 10^27*10^(-11 : ℤ) := by norm_num
    _ ≤ 10^27*10^(-((12 : ℕ) : ℤ)+((1+k : ℕ) : ℤ)) := by
      apply mul_le_mul_of_nonneg_left _ (by positivity)
      apply zpow_le_zpow_right₀ (by norm_num)
      push_cast
      omega
    _ ≤ halfEven (units 12 d) (1+k)*10^(-((12 : ℕ) : ℤ)+((1+k : ℕ) : ℤ)) := by
      apply mul_le_mul_of_nonneg_right _ hz.le
      exact_mod_cast hround

theorem digits_of_div {c c' m : ℕ} (h : c'/10^m = c/10^m) (hc : digits c = 29+m-1) (hm : 0 < m) :
    digits c' = 29+m-1 := by
  have hpos : 0 < 10^m := by positivity
  have hne : c ≠ 0 := by
    intro h0
    rw [h0] at hc
    have hone : digits 0 = 1 := by rfl
    omega
  have hlow := pow_digits_le hne
  have hhigh := lt_pow_digits c
  rw [hc] at hlow hhigh
  have hdivlow : 10^27 ≤ c/10^m := by
    rw [Nat.le_div_iff_mul_le hpos, ← pow_add]
    rw [show 27+m = 29+m-1-1 by omega]
    exact hlow
  have hdivhigh : c/10^m < 10^28 := by
    rw [Nat.div_lt_iff_lt_mul hpos, ← pow_add]
    rw [show 28+m = 29+m-1 by omega]
    exact hhigh
  rw [← h] at hdivlow hdivhigh
  rw [Nat.le_div_iff_mul_le hpos, ← pow_add] at hdivlow
  rw [Nat.div_lt_iff_lt_mul hpos, ← pow_add] at hdivhigh
  rw [show 29+m-1 = (27+m)+1 by omega]
  apply digits_eq hdivlow
  rw [show 27+m+1 = 28+m by omega]
  exact hdivhigh

/-- Some other admitted number is rounded to the same one. -/
theorem exists_alike {d : Decimal} (h : Numeric d) (hc : d.coefficient ≠ 0)
    (hs : ¬size d < 10^16) :
    ∃ d' r r', Numeric d' ∧ d'.coefficient ≠ 0 ∧ value d' ≠ value d ∧ fix 28 d = some r ∧
      fix 28 d' = some r' ∧ r.negative = r'.negative ∧ size r = size r' := by
  have hlead : 16 < (digits d.coefficient : ℤ)+d.exponent := by
    by_contra hle
    apply hs
    have hlt := size_lt_pow d
    have hmono : (10 : ℚ)^((digits d.coefficient : ℤ)+d.exponent) ≤ 10^(16 : ℤ) :=
      zpow_le_zpow_right₀ (by norm_num) (by omega)
    exact hlt.trans_le hmono
  have hn := h
  unfold Numeric scale integerDigits maxNumericPrecision maxNumericScale at hn
  obtain ⟨k, hk⟩ : ∃ k : ℕ, digits d.coefficient+d.exponent = k :=
    ⟨(digits d.coefficient+d.exponent).toNat, by omega⟩
  obtain ⟨s, hsdef⟩ : ∃ s, min 12 (38-k) = s := ⟨_, rfl⟩
  have hexp : 0 ≤ d.exponent+s := by omega
  have hdig : digits (units s d) = k+s := by
    have := digits_units hc hexp
    omega
  obtain ⟨m, hm⟩ : ∃ m, k+s = 29+(m+1)-1 := ⟨k+s-29, by omega⟩
  obtain ⟨c', hne, hdiv, hround⟩ := exists_rounded_alike (units s d) m
  have hdig' : digits c' = k+s := by
    rw [hm]
    exact digits_of_div hdiv (hdig.trans hm) (by omega)
  have hd'c : c' ≠ 0 := by
    intro h0
    rw [h0] at hdig'
    have hone : digits 0 = 1 := by rfl
    omega
  have hnum : Numeric ⟨d.negative, c', -s⟩ := by
    unfold Numeric scale integerDigits maxNumericPrecision maxNumericScale
    simp only [hdig']
    omega
  have hexp' : 0 ≤ (⟨d.negative, c', -s⟩ : Decimal).exponent+s := by
    simp only
    omega
  have hunits : units s ⟨d.negative, c', -s⟩ = c' := by
    unfold units
    simp
  obtain ⟨r, hr, hrn, hrs⟩ := fix_units h hc hexp
  obtain ⟨r', hr', hrn', hrs'⟩ := fix_units hnum hd'c hexp'
  refine ⟨⟨d.negative, c', -s⟩, r, r', hnum, hd'c, ?_, hr, hr', hrn.trans hrn'.symm, ?_⟩
  · intro hv
    apply hne
    have hsize : size ⟨d.negative, c', -s⟩ = size d := by
      rw [← abs_value, ← abs_value, hv]
    rw [units_size hexp, units_size hexp', hunits] at hsize
    have hz : (0 : ℚ) < 10^(-(s : ℤ)) := by positivity
    exact_mod_cast mul_right_cancel₀ hz.ne' hsize
  · rw [hrs, hrs', hunits, hdig, hdig', show k+s-28 = m+1 by omega, hround]

def kept (d : Decimal) : ℚ := ((fix 28 d).map value).getD 0

theorem strip_ends (n : ℕ) {c : ℕ} (e : ℤ) (hc : c ≠ 0) (hn : c < 10^n) :
    (strip n c e).1%10 ≠ 0 := by
  induction n generalizing c e with
  | zero => omega
  | succ n ih =>
    unfold strip
    split_ifs with h
    · apply ih
      · omega
      · rw [Nat.div_lt_iff_lt_mul (by norm_num), ← pow_succ]
        exact hn
    · exact h

theorem stripped_le {c c' : ℕ} {e e' : ℤ} (hc : c%10 ≠ 0) (he : e ≤ e')
    (h : (c : ℚ)*10^e = c'*10^e') : c = c' ∧ e = e' := by
  obtain ⟨n, hn⟩ : ∃ n : ℕ, e' = n+e := ⟨(e'-e).toNat, by omega⟩
  have hz : (0 : ℚ) < 10^e := by positivity
  rw [hn, zpow_add₀ (by norm_num), ← mul_assoc, zpow_natCast] at h
  have hnat : c = c'*10^n := by exact_mod_cast mul_right_cancel₀ hz.ne' h
  cases n with
  | zero => exact ⟨by simpa using hnat, by omega⟩
  | succ n =>
    rw [pow_succ, ← mul_assoc] at hnat
    omega

theorem stripped_unique {c c' : ℕ} {e e' : ℤ} (hc : c%10 ≠ 0) (hc' : c'%10 ≠ 0)
    (h : (c : ℚ)*10^e = c'*10^e') : c = c' ∧ e = e' := by
  cases le_total e e' with
  | inl he => exact stripped_le hc he h
  | inr he =>
    obtain ⟨h1, h2⟩ := stripped_le hc' he h.symm
    exact ⟨h1.symm, h2.symm⟩

theorem default_etiny : minEtiny ≤ etiny 28 := by
  unfold minEtiny etiny
  omega

theorem stripped_constructible {d r : Decimal} {c : ℕ} {e : ℤ} (hr : fix 28 d = some r)
    (hc : c%10 ≠ 0) (hs : (c : ℚ)*10^e = size r) : Constructible ⟨r.negative, c, e⟩ := by
  have hlimits := fix_constructible (by norm_num) default_etiny hr
  have hle : r.exponent ≤ e := by
    by_contra hlt
    obtain ⟨-, he⟩ := stripped_le hc (not_le.mp hlt).le hs
    omega
  refine hlimits.of_size hs (hlimits.2.trans hle) fun h0 => ?_
  simp only at h0
  omega

theorem kept_zero {d : Decimal} (hc : d.coefficient = 0) : kept d = 0 := by
  have hz : value d = 0 := by
    rw [value, size_eq_zero.mpr hc]
    simp
  unfold kept fix
  rw [if_pos hc]
  unfold value size
  simp

theorem canonicalDecimal_nonzero {d : Decimal} (h : Numeric d) (hc : d.coefficient ≠ 0) :
    ∃ (r : Decimal) (c : ℕ) (e : ℤ), fix 28 d = some r ∧ c%10 ≠ 0 ∧ (c : ℚ)*10^e = size r ∧
      r.negative = d.negative ∧
      canonicalDecimal d = some (fixedText ⟨r.negative, c, e⟩) := by
  obtain ⟨r, hr, hn, hs⟩ := fix_numeric h hc
  have hrc : r.coefficient ≠ 0 := by
    intro h0
    rw [size_eq_zero.mpr h0] at hs
    have hlead : 1 ≤ halfEven d.coefficient (digits d.coefficient-28) := by
      apply le_trans _ (div_le_halfEven _ _)
      rw [Nat.le_div_iff_mul_le (by positivity), one_mul]
      exact (Nat.pow_le_pow_right (by norm_num) (by omega)).trans (pow_digits_le hc)
    have hpos : (0 : ℚ) < halfEven d.coefficient (digits d.coefficient-28) := by
      exact_mod_cast hlead
    have hz : (0 : ℚ) < 10^(d.exponent+(digits d.coefficient-28 : ℕ)) := by positivity
    exact absurd hs (mul_pos hpos hz).ne
  refine ⟨r, _, _, hr, strip_ends (digits r.coefficient) r.exponent hrc (lt_pow_digits _),
    strip_size _ _ _, hn, ?_⟩
  rw [canonicalDecimal, if_neg hc, normalize, hr, Option.map_some, Option.map_some, if_neg hrc]

theorem canonicalDecimal_read {d : Decimal} (h : Numeric d) :
    ∃ t r hr, canonicalDecimal d = some t ∧ readDecimal t = some (.finite r hr) ∧
      value r = kept d := by
  by_cases hc : d.coefficient = 0
  · refine ⟨"0", ⟨false, 0, 0⟩, by decide, by rw [canonicalDecimal, if_pos hc], by decide, ?_⟩
    rw [kept_zero hc]
    unfold value size
    simp
  · obtain ⟨r, c, e, hr, hce, hs, hn, ht⟩ := canonicalDecimal_nonzero h hc
    obtain ⟨x, hlimits, hx, hxn, hxs, -⟩ :=
      readDecimal_fixedText (stripped_constructible hr hce hs)
    refine ⟨_, x, hlimits, ht, hx, ?_⟩
    rw [kept, hr]
    exact value_eq hxn (hxs.trans hs)

/-- Canonical texts are equal when the values kept are. -/
theorem canonicalDecimal_eq_iff {d d' : Decimal} (h : Numeric d) (h' : Numeric d') :
    canonicalDecimal d = canonicalDecimal d' ↔ kept d = kept d' := by
  constructor
  · intro he
    obtain ⟨t, r, _, ht, hr, hv⟩ := canonicalDecimal_read h
    obtain ⟨t', r', _, ht', hr', hv'⟩ := canonicalDecimal_read h'
    rw [ht, ht', Option.some.injEq] at he
    subst he
    rw [hr, Option.some.injEq, Number.finite.injEq] at hr'
    rw [← hv, ← hv', hr']
  · intro he
    have hzero : ∀ {x : Decimal}, Numeric x → x.coefficient ≠ 0 → kept x ≠ 0 := by
      intro x hx hxc h0
      obtain ⟨r, c, e, hr, hce, hs, _, _⟩ := canonicalDecimal_nonzero hx hxc
      rw [kept, hr] at h0
      have hsz : size r = 0 := by
        rw [← abs_value]
        simpa using h0
      have hc0 : (0 : ℚ) < c := by
        have hpos : 0 < c := by omega
        exact_mod_cast hpos
      have hz : (0 : ℚ) < 10^e := by positivity
      rw [hsz] at hs
      exact absurd hs (mul_pos hc0 hz).ne'
    by_cases hc : d.coefficient = 0
    · by_cases hc' : d'.coefficient = 0
      · rw [canonicalDecimal, canonicalDecimal, if_pos hc, if_pos hc']
      · rw [kept_zero hc] at he
        exact absurd he.symm (hzero h' hc')
    · by_cases hc' : d'.coefficient = 0
      · rw [kept_zero hc'] at he
        exact absurd he (hzero h hc)
      · obtain ⟨r, c, e, hr, hce, hs, _, ht⟩ := canonicalDecimal_nonzero h hc
        obtain ⟨r', c', e', hr', hce', hs', _, ht'⟩ := canonicalDecimal_nonzero h' hc'
        have hv : value r = value r' := by
          rw [kept, hr, kept, hr'] at he
          exact he
        have hsize : size r = size r' := by rw [← abs_value, ← abs_value, hv]
        obtain ⟨rfl, rfl⟩ := stripped_unique hce hce' (hs.trans (hsize.trans hs'.symm))
        have hneg : r.negative = r'.negative := by
          have hpos : 0 < size r := by
            apply lt_of_le_of_ne (size_nonneg r)
            intro h0
            apply hzero h hc
            rw [kept, hr]
            simp [value, ← h0]
          unfold value at hv
          rw [← hsize] at hv
          cases hn : r.negative <;> cases hn' : r'.negative <;> simp [hn, hn'] at hv ⊢ <;>
            linarith
        rw [ht, ht', hneg]

/-- The canonical text determines an admitted number exactly when the number
is below `10^16`. -/
theorem canonicalDecimal_determines_iff {d : Decimal} (h : Numeric d) :
    (∀ d', Numeric d' → canonicalDecimal d = canonicalDecimal d' → value d = value d') ↔
      size d < 10^16 := by
  have hkept : ∀ {x r : Decimal}, fix 28 x = some r → kept x = value r := by
    intro x r hr
    rw [kept, hr]
    rfl
  constructor
  · intro hall
    by_contra hlarge
    have hc : d.coefficient ≠ 0 := by
      intro h0
      apply hlarge
      rw [size_eq_zero.mpr h0]
      norm_num
    obtain ⟨d', r, r', hn', _, hne, hr, hr', hneg, hs⟩ := exists_alike h hc hlarge
    have hk : kept d = kept d' := by rw [hkept hr, hkept hr', value_eq hneg hs]
    exact hne (hall d' hn' ((canonicalDecimal_eq_iff h hn').mpr hk)).symm
  · intro hsmall d' h' he
    rw [canonicalDecimal_eq_iff h h'] at he
    have hexact : ∀ {x : Decimal}, Numeric x → size x < 10^16 → kept x = value x := by
      intro x hx hs
      by_cases hc : x.coefficient = 0
      · rw [kept_zero hc, value, size_eq_zero.mpr hc]
        simp
      · obtain ⟨r, hr, hv⟩ := fix_small hx hc hs
        rw [hkept hr, hv]
    rw [hexact h hsmall] at he
    by_cases hs' : size d' < 10^16
    · rw [he, hexact h' hs']
    · have hc' : d'.coefficient ≠ 0 := by
        intro h0
        apply hs'
        rw [size_eq_zero.mpr h0]
        norm_num
      obtain ⟨r', hr', _⟩ := fix_numeric h' hc'
      have hlarge := fix_large h' hc' hs' hr'
      rw [hkept hr'] at he
      rw [← abs_value, ← he, abs_value] at hlarge
      exact absurd hsmall (not_lt.mpr hlarge)

/-- What a canonical text reads back to is not rounded again. -/
theorem kept_reread {d r : Decimal} (h : Numeric d) (hr : Numeric r) (hv : value r = kept d) :
    kept r = value r := by
  by_cases hrc : r.coefficient = 0
  · rw [kept_zero hrc, value, size_eq_zero.mpr hrc]
    simp
  · have hc : d.coefficient ≠ 0 := by
      intro h0
      rw [kept_zero h0] at hv
      apply hrc
      rw [← size_eq_zero, ← abs_value, hv, abs_zero]
    have hexp : 0 ≤ d.exponent+(12 : ℕ) := by
      have := h.bounds
      omega
    have hexp' : 0 ≤ r.exponent+(12 : ℕ) := by
      have := hr.bounds
      omega
    obtain ⟨x, hx, _, hs⟩ := fix_units h hc hexp
    rw [kept, hx] at hv
    have hsize : size r = size x := by
      rw [← abs_value, ← abs_value]
      exact congrArg _ hv
    rw [hs, units_size hexp', zpow_add₀ (by norm_num), mul_comm ((10 : ℚ)^(-((12 : ℕ) : ℤ))),
      ← mul_assoc] at hsize
    have hz : (0 : ℚ) < 10^(-((12 : ℕ) : ℤ)) := by positivity
    have hunits := mul_right_cancel₀ hz.ne' hsize
    rw [zpow_natCast] at hunits
    have hle : halfEven (units 12 d) (digits (units 12 d)-28) ≤ 10^28 := by
      by_cases hbig : digits (units 12 d) ≤ 28
      · rw [show digits (units 12 d)-28 = 0 by omega, halfEven_zero]
        exact ((lt_pow_digits _).trans_le (Nat.pow_le_pow_right (by norm_num) hbig)).le
      · apply halfEven_lt
        rw [show 28+(digits (units 12 d)-28) = digits (units 12 d) by omega]
        exact lt_pow_digits _
    have hnat : units 12 r = halfEven (units 12 d) (digits (units 12 d)-28)*
        10^(digits (units 12 d)-28) := by exact_mod_cast hunits
    obtain ⟨y, hy, hyv⟩ := fix_exact hr hrc hle hnat
    rw [kept, hy]
    exact hyv

end Workbench.DecimalRounding
