import Mathlib.Data.Rat.Floor
import Workbench.DecimalRounding
import Workbench.Rounding

/-!
# Decimal operations round correctly

Every operation gives the nearest number of the precision to its exact result,
as long as the exponents are far from the limits of the context.
-/

set_option autoImplicit false

namespace Workbench.Nearest
open Workbench.Decimals Workbench.DecimalRounding Workbench.Rounding

theorem halfEven_nearest (c k : ℕ) : (halfEven c k : ℤ) = nearestEven ((c : ℚ)/10^k) := by
  have hcast : (c : ℚ)/10^k = (c : ℚ)/((10^k : ℕ) : ℚ) := by
    push_cast
    rfl
  have hu : 0 < 10^k := by positivity
  unfold halfEven
  rw [hcast]
  generalize 10^k = u at hu
  have hq : (0 : ℚ) < u := by exact_mod_cast hu
  have hfloor : ⌊(c : ℚ)/u⌋ = ((c/u : ℕ) : ℤ) := by
    rw [Rat.floor_natCast_div_natCast]
    push_cast
    rfl
  have hfract : 2*Int.fract ((c : ℚ)/u) = ((2*(c%u) : ℕ) : ℚ)/u := by
    rw [Int.fract_div_natCast_eq_div_natCast_mod]
    push_cast
    ring
  have hlt : 2*Int.fract ((c : ℚ)/u) < 1 ↔ 2*(c%u) < u := by
    rw [hfract, div_lt_one hq]
    exact Nat.cast_lt
  have heq : 2*Int.fract ((c : ℚ)/u) = 1 ↔ 2*(c%u) = u := by
    rw [hfract, div_eq_one_iff_eq hq.ne']
    exact Nat.cast_inj
  have heven : Even ((c/u : ℕ) : ℤ) ↔ c/u%2 = 0 := by
    rw [Int.even_coe_nat, Nat.even_iff]
  unfold nearestEven
  simp only [hlt, heq, hfloor, heven]
  split_ifs with h1 h2 h2
  · omega
  · push_cast
    rfl
  · rfl
  · omega

theorem ten_base : (1 : ℕ) < 10 := by norm_num

theorem log_size {d : Decimal} (hc : d.coefficient ≠ 0) :
    Int.log 10 (size d) = digits d.coefficient+d.exponent-1 := by
  have hpos : 0 < size d := lt_of_le_of_ne (size_nonneg d) (Ne.symm (by rwa [Ne, size_eq_zero]))
  have hlow := (Int.zpow_le_iff_le_log ten_base hpos).mp (by exact_mod_cast leading_le hc)
  have hhigh := (Int.lt_zpow_iff_log_lt ten_base hpos).mp (by exact_mod_cast size_lt_pow d)
  omega

theorem lastPlace_size {d : Decimal} (hc : d.coefficient ≠ 0) (p : ℕ) :
    lastPlace 10 p (size d) = digits d.coefficient+d.exponent-p := by
  rw [lastPlace, abs_of_nonneg (size_nonneg d), log_size hc]
  omega

theorem size_div {d : Decimal} {l : ℤ} (h : d.exponent ≤ l) :
    size d/10^l = (d.coefficient : ℚ)/10^(l-d.exponent).toNat := by
  have hl : (10 : ℚ)^l = 10^d.exponent*10^(l-d.exponent).toNat := by
    rw [← zpow_natCast, ← zpow_add₀ (by norm_num)]
    congr 1
    omega
  have hpos : (0 : ℚ) < 10^d.exponent := by positivity
  rw [size, hl]
  field_simp

theorem rounded_nearest {p : ℕ} (hp : 0 < p) {d r : Decimal} (hc : d.coefficient ≠ 0)
    (hlt : d.exponent < digits d.coefficient+d.exponent-p)
    (h : rounded p d (digits d.coefficient+d.exponent-p) = some r) :
    size r = nearest 10 p (size d) := by
  have hplace := lastPlace_size hc p
  generalize hl : (digits d.coefficient+d.exponent-p : ℤ) = l at hlt h hplace
  have hround := halfEven_nearest d.coefficient (l-d.exponent).toNat
  rw [← size_div hlt.le] at hround
  have hnearest : nearest 10 p (size d) =
      halfEven d.coefficient (l-d.exponent).toNat*(10 : ℚ)^l := by
    rw [nearest, hplace]
    push_cast
    rw [← hround]
    push_cast
    rfl
  have hle : halfEven d.coefficient (l-d.exponent).toNat ≤ 10^p := by
    apply halfEven_le
    rw [← pow_add]
    apply (lt_pow_digits _).le.trans
    apply Nat.pow_le_pow_right (by norm_num)
    omega
  rw [hnearest]
  unfold rounded at h
  simp only at h
  split_ifs at h with h1
  · rw [← Option.some.inj h, size]
  · have htop : halfEven d.coefficient (l-d.exponent).toNat = 10^p := by
      apply le_antisymm hle
      by_contra hsmall
      exact h1 (digits_le hp (not_le.mp hsmall))
    obtain ⟨k, rfl⟩ : ∃ k, p = k+1 := ⟨p-1, by omega⟩
    rw [← Option.some.inj h, size, htop, pow_succ, Nat.mul_div_cancel _ (by norm_num),
      zpow_add₀ (by norm_num), zpow_one]
    push_cast
    ring

theorem fix_nearest {p : ℕ} (hp : 0 < p) {d r : Decimal} (h : fix p d = some r)
    (he : -999999 ≤ d.exponent) : size r = nearest 10 p (size d) := by
  have hdigits : 1 ≤ digits d.coefficient := by
    unfold digits
    omega
  unfold fix at h
  split_ifs at h with h0 h1 h2
  · rw [size_eq_zero.mpr h0, nearest_zero, ← Option.some.inj h]
    exact size_eq_zero.mpr rfl
  · have hmax : max ((digits d.coefficient : ℤ)+d.exponent-p) (etiny p) =
        digits d.coefficient+d.exponent-p := by
      unfold etiny
      omega
    rw [hmax] at h h2
    exact rounded_nearest hp h0 h2 h
  · obtain rfl := Option.some.inj h
    have hle : digits d.coefficient ≤ p := by omega
    have hlt : (d.coefficient : ℤ) < 10^p := by
      exact_mod_cast (lt_pow_digits _).trans_le (Nat.pow_le_pow_right (by norm_num) hle)
    symm
    apply @nearest_exact ℚ _ _ _ _ 10 p ten_base _ d.coefficient d.exponent
    · rw [abs_of_nonneg (Int.natCast_nonneg _)]
      exact_mod_cast hlt
    · rw [size]
      push_cast
      rfl

theorem value_cases (d : Decimal) :
    d.negative = true ∧ value d = -size d ∨ d.negative = false ∧ value d = size d := by
  unfold value
  cases d.negative <;> simp

theorem nearest_value {p : ℕ} {d r : Decimal} (hn : r.negative = d.negative)
    (hs : size r = nearest 10 p (size d)) : value r = nearest 10 p (value d) := by
  rcases value_cases d with ⟨hd, hv⟩ | ⟨hd, hv⟩
  · rcases value_cases r with ⟨-, hr⟩ | ⟨hr, -⟩
    · rw [hr, hv, nearest_neg, hs]
    · rw [hn, hd] at hr
      cases hr
  · rcases value_cases r with ⟨hr, -⟩ | ⟨-, hr⟩
    · rw [hn, hd] at hr
      cases hr
    · rw [hr, hv, hs]

theorem fix_value {p : ℕ} (hp : 0 < p) {d r : Decimal} (h : fix p d = some r)
    (he : -999999 ≤ d.exponent) : value r = nearest 10 p (value d) :=
  nearest_value (fix_negative h) (fix_nearest hp h he)

theorem add_nearest {p : ℕ} (hp : 0 < p) {a b r : Decimal} (h : add p a b = some r)
    (ha : -999999 ≤ a.exponent) (hb : -999999 ≤ b.exponent) :
    value r = nearest 10 p (value a+value b) := by
  rw [← value_exactSum]
  exact fix_value hp h (le_min ha hb)

theorem sub_nearest {p : ℕ} (hp : 0 < p) {a b r : Decimal} (h : sub p a b = some r)
    (ha : -999999 ≤ a.exponent) (hb : -999999 ≤ b.exponent) :
    value r = nearest 10 p (value a-value b) := by
  rw [sub_eq_add_neg, ← value_negate]
  exact add_nearest hp h ha hb

theorem abs_nearest {p : ℕ} (hp : 0 < p) {d r : Decimal} (h : abs p d = some r)
    (he : -999999 ≤ d.exponent) : value r = nearest 10 p |value d| := by
  have hv : value (⟨false, d.coefficient, d.exponent⟩ : Decimal) = |value d| := by
    rw [abs_value]
    rfl
  rw [← hv]
  exact fix_value hp h he

theorem value_mul (a b : Decimal) :
    value ⟨a.negative ^^ b.negative, a.coefficient*b.coefficient, a.exponent+b.exponent⟩ =
      value a*value b := by
  have hs : ∀ n, size ⟨n, a.coefficient*b.coefficient, a.exponent+b.exponent⟩ =
      size a*size b := fun _ => size_mul a b
  rcases value_cases a with ⟨ha, hva⟩ | ⟨ha, hva⟩
  all_goals
    rcases value_cases b with ⟨hb, hvb⟩ | ⟨hb, hvb⟩
    all_goals
      rw [ha, hb, hva, hvb]
      simp [value, hs]

theorem mul_nearest {p : ℕ} (hp : 0 < p) {a b r : Decimal} (h : mul p a b = some r)
    (he : -999999 ≤ a.exponent+b.exponent) : value r = nearest 10 p (value a*value b) := by
  rw [← value_mul]
  exact fix_value hp h he

theorem lastPlace_scaled (p : ℕ) {x : ℚ} (hx : 0 < x) (e : ℤ) :
    lastPlace 10 p (x*10^e) = lastPlace 10 p x+e := by
  have hz : (0 : ℚ) < 10^e := by positivity
  have hlow : (10 : ℚ)^(Int.log 10 x+e) ≤ x*10^e := by
    rw [zpow_add₀ (by norm_num)]
    exact mul_le_mul_of_nonneg_right (Int.zpow_log_le_self ten_base hx) hz.le
  have hhigh : x*10^e < (10 : ℚ)^(Int.log 10 x+e+1) := by
    have hlog := Int.lt_zpow_succ_log_self ten_base x
    have he : (10 : ℚ)^(Int.log 10 x+e+1) = 10^(Int.log 10 x+1)*10^e := by
      rw [← zpow_add₀ (by norm_num)]
      congr 1
      ring
    rw [he]
    exact mul_lt_mul_of_pos_right (by exact_mod_cast hlog) hz
  have hpos : 0 < x*10^e := mul_pos hx hz
  have h1 := (Int.zpow_le_iff_le_log ten_base hpos).mp (by exact_mod_cast hlow)
  have h2 := (Int.lt_zpow_iff_log_lt ten_base hpos).mp (by exact_mod_cast hhigh)
  unfold lastPlace
  rw [abs_of_pos hpos, abs_of_pos hx]
  omega

theorem nearest_scaled (p : ℕ) {x : ℚ} (hx : 0 < x) (e : ℤ) :
    nearest 10 p (x*10^e) = nearest 10 p x*10^e := by
  have hz : (10 : ℚ)^e ≠ 0 := by positivity
  unfold nearest
  rw [lastPlace_scaled p hx]
  push_cast
  rw [zpow_add₀ (by norm_num), mul_div_mul_right _ _ hz, mul_assoc]

/-- A quotient with a sticky last digit is rounded as the exact one. -/
theorem sticky_nearest {p q q' : ℕ} {x : ℚ} (hbig : 10^p ≤ q) (hlow : (q : ℚ) < x)
    (hhigh : x < q+1) (hsticky : q' = if q%5 = 0 then q+1 else q) :
    nearest 10 p (q' : ℚ) = nearest 10 p x := by
  have hqpos : 0 < q := (by positivity : 0 < 10^p).trans_le hbig
  have hq'5 : q'%5 ≠ 0 := by
    rw [hsticky]
    split_ifs <;> omega
  have hq' : q ≤ q' ∧ q' ≤ q+1 := by
    rw [hsticky]
    split_ifs <;> omega
  obtain ⟨k, hk⟩ : ∃ k, digits q = p+1+k := by
    refine ⟨digits q-(p+1), ?_⟩
    have hlt := hbig.trans_lt (lt_pow_digits q)
    have := (Nat.pow_lt_pow_iff_right (a := 10) (by norm_num)).mp hlt
    omega
  have hqlow : 10^(p+k) ≤ q := by
    have := pow_digits_le hqpos.ne'
    rw [hk] at this
    rw [show p+k = p+1+k-1 by omega]
    exact this
  have hqhigh : q+1 ≤ 10^(p+k+1) := by
    have := lt_pow_digits q
    rw [hk] at this
    rw [show p+k+1 = p+1+k by omega]
    exact this
  have hplace : ∀ y : ℚ, ((10^(p+k) : ℕ) : ℚ) ≤ y → y < ((10^(p+k+1) : ℕ) : ℚ) →
      lastPlace 10 p y = ((k+1 : ℕ) : ℤ) := by
    intro y h1 h2
    rw [Nat.cast_pow, ← zpow_natCast] at h1 h2
    have hy : 0 < y := lt_of_lt_of_le (by positivity) h1
    have hlog1 := (Int.zpow_le_iff_le_log ten_base hy).mp h1
    have hlog2 := (Int.lt_zpow_iff_log_lt ten_base hy).mp h2
    rw [lastPlace, abs_of_pos hy]
    push_cast at hlog1 hlog2 ⊢
    omega
  -- neither number is a multiple of half the unit of rounding, nor is one between them
  have hunit : ∀ (m : ℕ) (y : ℚ), ((5*10^k*m : ℕ) : ℚ) < y → y < ((5*10^k*(m+1) : ℕ) : ℚ) →
      ((m : ℤ) : ℚ) < 2*(y/10^((k+1 : ℕ) : ℤ)) ∧
        2*(y/10^((k+1 : ℕ) : ℤ)) < ((m : ℤ) : ℚ)+1 := by
    intro m y h1 h2
    have hten : (10 : ℚ)^((k+1 : ℕ) : ℤ) = 2*(5*10^k) := by
      rw [zpow_natCast, pow_succ]
      ring
    have hu : (0 : ℚ) < 5*10^k := by positivity
    push_cast at h1 h2
    have hhalf : 2*(y/(2*(5*10^k))) = y/(5*10^k) := by field_simp
    rw [hten, hhalf]
    push_cast
    constructor
    · rw [lt_div_iff₀ hu]
      linarith
    · rw [div_lt_iff₀ hu]
      linarith
  have hmulti : ∀ n, q' ≠ 5*10^k*n := by
    intro n hn
    apply hq'5
    rw [hn, mul_assoc, Nat.mul_mod_right]
  have htop : q' < 10^(p+k+1) := by
    apply lt_of_le_of_ne (hq'.2.trans hqhigh)
    intro hn
    apply hmulti (2*10^p)
    rw [hn]
    ring
  have hmul := Nat.div_add_mod q (5*10^k)
  have hmod := Nat.mod_lt q (show 0 < 5*10^k by positivity)
  generalize q/(5*10^k) = m at hmul
  have hqm : 5*10^k*m ≤ q ∧ q+1 ≤ 5*10^k*(m+1) := by
    rw [Nat.mul_add, Nat.mul_one]
    omega
  have hx := hunit m x (lt_of_le_of_lt (by exact_mod_cast hqm.1) hlow)
    (hhigh.trans_le (by exact_mod_cast hqm.2))
  have hq'm := hunit m q'
    (by exact_mod_cast lt_of_le_of_ne (hqm.1.trans hq'.1) (hmulti m).symm)
    (by exact_mod_cast lt_of_le_of_ne (hq'.2.trans hqm.2) (hmulti (m+1)))
  have hplacex := hplace x (le_trans (by exact_mod_cast hqlow) hlow.le)
    (hhigh.trans_le (by exact_mod_cast hqhigh))
  have hplaceq := hplace q' (by exact_mod_cast hqlow.trans hq'.1) (by exact_mod_cast htop)
  unfold nearest
  rw [hplacex, hplaceq]
  push_cast
  congr 2
  apply nearestEven_between hq'm hx

theorem quotient_large {p : ℕ} {a b : Decimal} (ha : a.coefficient ≠ 0) {shift : ℤ}
    (hshift : digits b.coefficient-digits a.coefficient+p+1 = shift) (hb : b.coefficient ≠ 0) :
    10^p ≤ a.coefficient*10^shift.toNat/(b.coefficient*10^(-shift).toNat) := by
  have h1 := pow_digits_le ha
  have h2 := (lt_pow_digits b.coefficient).le
  have h3 : 1 ≤ digits a.coefficient := by unfold digits; omega
  rw [Nat.le_div_iff_mul_le (by positivity)]
  calc 10^p*(b.coefficient*10^(-shift).toNat)
      ≤ 10^p*(10^digits b.coefficient*10^(-shift).toNat) :=
        Nat.mul_le_mul_left _ (Nat.mul_le_mul_right _ h2)
    _ = 10^(p+(digits b.coefficient+(-shift).toNat)) := by rw [← pow_add, ← pow_add]
    _ ≤ 10^(digits a.coefficient-1+shift.toNat) :=
      Nat.pow_le_pow_right (by norm_num) (by omega)
    _ = 10^(digits a.coefficient-1)*10^shift.toNat := pow_add _ _ _
    _ ≤ a.coefficient*10^shift.toNat := Nat.mul_le_mul_right _ h1

/-- The quotient before rounding is rounded as the exact one. -/
theorem quotient_nearest (p : ℕ) {a b : Decimal} (ha : a.coefficient ≠ 0)
    (hb : b.coefficient ≠ 0) :
    nearest 10 p (size (quotient p a b)) = nearest 10 p (size a/size b) := by
  generalize hshift : (digits b.coefficient-digits a.coefficient+p+1 : ℤ) = shift
  have hratio := shift_ratio (a := a) hb shift
  have hlarge := quotient_large ha hshift hb
  have hm : 0 < b.coefficient*10^(-shift).toNat := by positivity
  simp only [quotient, hshift]
  generalize a.coefficient*10^shift.toNat = n at hratio hlarge ⊢
  generalize b.coefficient*10^(-shift).toNat = m at hratio hlarge hm ⊢
  generalize a.exponent-b.exponent-shift = e at hratio ⊢
  have hmq : (0 : ℚ) < m := by exact_mod_cast hm
  by_cases hexact : n%m = 0
  · rw [if_pos hexact]
    have hs : ((strip shift.toNat (n/m) e).1 : ℚ)*10^(strip shift.toNat (n/m) e).2 =
        size a/size b := by
      rw [strip_size, ← hratio]
      congr 1
      rw [eq_div_iff hmq.ne']
      have hcast : ((n/m*m : ℕ) : ℚ) = n := by
        exact_mod_cast Nat.div_mul_cancel (Nat.dvd_of_mod_eq_zero hexact)
      push_cast at hcast
      exact_mod_cast hcast
    rw [← hs]
    rfl
  · rw [if_neg hexact]
    have hlow : ((n/m : ℕ) : ℚ) < (n : ℚ)/m := by
      rw [lt_div_iff₀ hmq]
      exact_mod_cast Nat.lt_of_lt_of_eq (Nat.lt_add_of_pos_right (Nat.pos_of_ne_zero hexact))
        (Nat.div_add_mod' n m)
    have hhigh : (n : ℚ)/m < ((n/m : ℕ) : ℚ)+1 := by
      rw [div_lt_iff₀ hmq]
      have hlt := Nat.lt_mul_div_succ n hm
      rw [mul_comm] at hlt
      exact_mod_cast hlt
    have hpos : (0 : ℚ) < (n : ℚ)/m := lt_of_le_of_lt (Nat.cast_nonneg _) hlow
    have hqpos : 0 < if n/m%5 = 0 then n/m+1 else n/m := by
      have : 0 < 10^p := by positivity
      split_ifs <;> omega
    rw [← hratio, nearest_scaled p hpos, ← sticky_nearest hlarge hlow hhigh rfl,
      ← nearest_scaled p (by exact_mod_cast hqpos)]
    rfl

theorem div_nearest {p : ℕ} (hp : 0 < p) {a b r : Decimal} (h : div p a b = some r)
    (he : -999999 ≤ a.exponent-b.exponent-digits b.coefficient-p) :
    size r = nearest 10 p (size a/size b) := by
  have hdigits : 1 ≤ digits b.coefficient := by
    unfold digits
    omega
  unfold div at h
  split_ifs at h with hb ha
  · rw [fix_nearest hp h (by simp only; omega), size_eq_zero.mpr ha, size_eq_zero.mpr rfl, zero_div]
  · rw [fix_nearest hp h (he.trans (quotient_exponent p a b)), quotient_nearest p ha hb]

theorem rescaled_nearest (d : Decimal) : (rescaled d : ℤ) = nearestEven (size d) := by
  unfold rescaled
  split_ifs with h
  · have hsize : size d = ((d.coefficient*10^d.exponent.toNat : ℕ) : ℤ) := by
      have hz : (10 : ℚ)^d.exponent = 10^d.exponent.toNat := by
        rw [← zpow_natCast, Int.toNat_of_nonneg h]
      rw [size, hz]
      push_cast
      rfl
    rw [hsize, nearestEven_intCast]
  · have hsize : size d = (d.coefficient : ℚ)/10^(-d.exponent).toNat := by
      have hpow : (10 : ℚ)^(-d.exponent).toNat = (10^d.exponent)⁻¹ := by
        rw [← zpow_natCast, Int.toNat_of_nonneg (by omega), zpow_neg]
      rw [size, hpow, div_inv_eq_mul]
    rw [hsize, halfEven_nearest]

theorem quantize_nearest {p : ℕ} (hlimit : p < 999999) {d r : Decimal}
    (h : quantize p d = some r) (h0 : 0 ≤ value d) : toInt r = nearestEven (value d) := by
  have hround := rescaled_nearest d
  rw [size_of_nonneg h0] at hround
  unfold quantize at h
  split_ifs at h with hc h1 h2
  · have hv : value d = 0 := by rw [← size_of_nonneg h0, size_eq_zero.mpr hc]
    unfold fix at h
    rw [if_pos rfl] at h
    rw [← Option.some.inj h, hv, nearestEven_zero, toInt]
    simp
  · have hneg : d.negative = false := (value_nonneg.mp h0).resolve_right hc
    have hr : r.coefficient = rescaled d ∧ r.exponent = 0 ∧ r.negative = false := by
      unfold fix at h
      simp only at h
      split_ifs at h with h3 h4 h5
      · obtain rfl := Option.some.inj h
        refine ⟨h3.symm, ?_, hneg⟩
        unfold etiny emax
        simp only
        omega
      · unfold etiny at h5
        omega
      · obtain rfl := Option.some.inj h
        exact ⟨rfl, rfl, hneg⟩
    rw [toInt_whole hr.2.1, hr.1, hr.2.2, ← hround]
    simp

end Workbench.Nearest
