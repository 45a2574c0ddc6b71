import Mathlib.Data.Nat.Log
import Mathlib.Data.Rat.Defs
import Mathlib.Algebra.Order.Field.Rat
import Mathlib.Algebra.Order.Field.Power
import Mathlib.Data.Nat.Cast.Order.Field
import Mathlib.Tactic.Ring
import Mathlib.Tactic.Linarith
import Mathlib.Tactic.FieldSimp
import Mathlib.Tactic.Positivity
import Mathlib.Tactic.NormNum

/-!
# Decimal floating point

Sign, coefficient and exponent with a context precision, rounding half to
even, and the standard exponent range. An operation that would signal a
trapped condition returns `none`. The value of a result is bounded by every
bound of the exact result that the precision can represent.
-/

set_option autoImplicit false

namespace Workbench.Decimals

structure Decimal where
  negative : Bool
  coefficient : ℕ
  exponent : ℤ
deriving DecidableEq

def ofInt (z : ℤ) : Decimal := ⟨decide (z < 0), z.natAbs, 0⟩

def digits (c : ℕ) : ℕ := Nat.log 10 c+1

def adjusted (d : Decimal) : ℤ := d.exponent+digits d.coefficient-1

/-- `MAX_EMAX`. -/
def maxEmax : ℤ := 999999999999999999

/-- `MIN_ETINY`. -/
def minEtiny : ℤ := -1999999999999999997

/-- The finite numbers that the constructor makes, whatever the context. -/
def Constructible (d : Decimal) : Prop := adjusted d ≤ maxEmax ∧ minEtiny ≤ d.exponent

instance (d : Decimal) : Decidable (Constructible d) := inferInstanceAs (Decidable (_ ∧ _))

def emax : ℤ := 999999

def etiny (p : ℕ) : ℤ := -999999-p+1

def etop (p : ℕ) : ℤ := 999999-p+1

/-- The nearest integer to `c/10^k`, the even one of two. -/
def halfEven (c k : ℕ) : ℕ :=
  if 10^k < 2*(c%10^k) ∨ 2*(c%10^k) = 10^k ∧ c/10^k%2 = 1 then c/10^k+1 else c/10^k

def rounded (p : ℕ) (d : Decimal) (least : ℤ) : Option Decimal :=
  let c := halfEven d.coefficient (least-d.exponent).toNat
  if digits c ≤ p then some ⟨d.negative, c, least⟩
  else if etop p < least+1 then none
  else some ⟨d.negative, c/10, least+1⟩

/-- Round to the context: at most `p` digits and an exponent in range. -/
def fix (p : ℕ) (d : Decimal) : Option Decimal :=
  if d.coefficient = 0 then some ⟨d.negative, 0, min (max d.exponent (etiny p)) emax⟩
  else if etop p < digits d.coefficient+d.exponent-p then none
  else if d.exponent < max (digits d.coefficient+d.exponent-p) (etiny p) then
    rounded p d (max (digits d.coefficient+d.exponent-p) (etiny p))
  else some d

def scaled (e : ℤ) (d : Decimal) : ℤ :=
  (if d.negative then -1 else 1)*(d.coefficient*10^(d.exponent-e).toNat : ℕ)

instance : LE Decimal :=
  ⟨fun a b => scaled (min a.exponent b.exponent) a ≤ scaled (min a.exponent b.exponent) b⟩

instance : LT Decimal :=
  ⟨fun a b => scaled (min a.exponent b.exponent) a < scaled (min a.exponent b.exponent) b⟩

instance (a b : Decimal) : Decidable (a ≤ b) :=
  inferInstanceAs (Decidable (scaled (min a.exponent b.exponent) a ≤ _))

instance (a b : Decimal) : Decidable (a < b) :=
  inferInstanceAs (Decidable (scaled (min a.exponent b.exponent) a < _))

def larger (a b : Decimal) : Decimal := if a < b then b else a

def negate (d : Decimal) : Decimal := ⟨!d.negative, d.coefficient, d.exponent⟩

def exactSum (a b : Decimal) : Decimal :=
  let e := min a.exponent b.exponent
  let z := scaled e a+scaled e b
  ⟨if z = 0 then a.negative && b.negative else decide (z < 0), z.natAbs, e⟩

def add (p : ℕ) (a b : Decimal) : Option Decimal := fix p (exactSum a b)

def sub (p : ℕ) (a b : Decimal) : Option Decimal := add p a (negate b)

def abs (p : ℕ) (d : Decimal) : Option Decimal := fix p ⟨false, d.coefficient, d.exponent⟩

def mul (p : ℕ) (a b : Decimal) : Option Decimal :=
  fix p ⟨a.negative ^^ b.negative, a.coefficient*b.coefficient, a.exponent+b.exponent⟩

/-- Drop up to `n` trailing zeros. -/
def strip : ℕ → ℕ → ℤ → ℕ × ℤ
  | 0, c, e => (c, e)
  | n+1, c, e => if c%10 = 0 then strip n (c/10) (e+1) else (c, e)

/-- The quotient before rounding: one digit more than the precision, with a
sticky last digit when it is not exact and the ideal exponent when it is. -/
def quotient (p : ℕ) (a b : Decimal) : Decimal :=
  let shift : ℤ := digits b.coefficient-digits a.coefficient+p+1
  let n := a.coefficient*10^shift.toNat
  let m := b.coefficient*10^(-shift).toNat
  let e := a.exponent-b.exponent-shift
  if n%m = 0 then
    ⟨a.negative ^^ b.negative, (strip shift.toNat (n/m) e).1, (strip shift.toNat (n/m) e).2⟩
  else ⟨a.negative ^^ b.negative, if n/m%5 = 0 then n/m+1 else n/m, e⟩

def div (p : ℕ) (a b : Decimal) : Option Decimal :=
  if b.coefficient = 0 then none
  else if a.coefficient = 0 then
    fix p ⟨a.negative ^^ b.negative, 0, a.exponent-b.exponent⟩
  else fix p (quotient p a b)

def rescaled (d : Decimal) : ℕ :=
  if 0 ≤ d.exponent then d.coefficient*10^d.exponent.toNat
  else halfEven d.coefficient (-d.exponent).toNat

def quantize (p : ℕ) (d : Decimal) : Option Decimal :=
  if d.coefficient = 0 then fix p ⟨d.negative, 0, 0⟩
  else if emax < adjusted d ∨ p < adjusted d+1 then none
  else if p < digits (rescaled d) then none
  else fix p ⟨d.negative, rescaled d, 0⟩

def toInt (d : Decimal) : ℤ :=
  (if d.negative then -1 else 1)*
    (if 0 ≤ d.exponent then d.coefficient*10^d.exponent.toNat
      else d.coefficient/10^(-d.exponent).toNat : ℕ)

def placed (coefficient : List Char) (point : ℤ) : List Char :=
  if point ≤ 0 then ['0', '.'] ++ List.replicate (-point).toNat '0' ++ coefficient
  else if coefficient.length ≤ point then
    coefficient ++ List.replicate (point-coefficient.length).toNat '0'
  else coefficient.take point.toNat ++ '.' :: coefficient.drop point.toNat

def sign (d : Decimal) : List Char := if d.negative then ['-'] else []

/-- Plain notation when the exponent is not positive and the number not too
small, else scientific notation. -/
def text (d : Decimal) : String :=
  let coefficient := Nat.toDigits 10 d.coefficient
  let left : ℤ := d.exponent+coefficient.length
  if d.exponent ≤ 0 ∧ -6 < left then String.ofList (sign d ++ placed coefficient left)
  else if left = 1 then String.ofList (sign d ++ placed coefficient 1)
  else String.ofList (sign d ++ placed coefficient 1 ++ ['E', if left-1 < 0 then '-' else '+'] ++
    Nat.toDigits 10 (left-1).natAbs)

def fixedText (d : Decimal) : String :=
  let d : Decimal := if d.coefficient = 0 ∧ 0 < d.exponent then ⟨d.negative, 0, 0⟩ else d
  let coefficient := Nat.toDigits 10 d.coefficient
  if d.exponent = 0 then String.ofList (sign d ++ coefficient)
  else String.ofList (sign d ++ placed coefficient (d.exponent+coefficient.length))

def size (d : Decimal) : ℚ := d.coefficient*10^d.exponent

def value (d : Decimal) : ℚ := if d.negative then -size d else size d

theorem size_nonneg (d : Decimal) : 0 ≤ size d := by
  unfold size
  positivity

theorem abs_value (d : Decimal) : |value d| = size d := by
  unfold value
  split_ifs
  · rw [abs_neg, abs_of_nonneg (size_nonneg d)]
  · exact abs_of_nonneg (size_nonneg d)

theorem size_eq_zero {d : Decimal} : size d = 0 ↔ d.coefficient = 0 := by
  have h : (10 : ℚ)^d.exponent ≠ 0 := by positivity
  simp [size, h]

theorem size_ge {d : Decimal} (h : d.coefficient ≠ 0) {l : ℤ} (hl : l ≤ d.exponent) :
    (10 : ℚ)^l ≤ size d := by
  have h1 : (1 : ℚ) ≤ d.coefficient := by exact_mod_cast Nat.one_le_iff_ne_zero.mpr h
  have h2 : (10 : ℚ)^l ≤ 10^d.exponent := zpow_le_zpow_right₀ (by norm_num) hl
  have h3 : (0 : ℚ) < 10^d.exponent := by positivity
  unfold size
  nlinarith

theorem scaled_value {d : Decimal} {e : ℤ} (h : e ≤ d.exponent) :
    (scaled e d : ℚ)*10^e = value d := by
  have hz : ((10 : ℚ)^(d.exponent-e).toNat)*10^e = 10^d.exponent := by
    rw [← zpow_natCast, ← zpow_add₀ (by norm_num), Int.toNat_of_nonneg (by omega)]
    congr 1
    omega
  unfold scaled value size
  cases d.negative
  · simp only [Bool.false_eq_true, if_false]
    push_cast
    rw [one_mul, mul_assoc, hz]
  · simp only [if_true]
    push_cast
    rw [mul_assoc, mul_assoc, hz]
    ring

theorem le_iff {a b : Decimal} : a ≤ b ↔ value a ≤ value b := by
  have hp : (0 : ℚ) < 10^(min a.exponent b.exponent) := by positivity
  rw [← scaled_value (d := a) (min_le_left a.exponent b.exponent),
    ← scaled_value (d := b) (min_le_right a.exponent b.exponent), mul_le_mul_iff_left₀ hp]
  exact Int.cast_le.symm

theorem lt_iff {a b : Decimal} : a < b ↔ value a < value b := by
  have hp : (0 : ℚ) < 10^(min a.exponent b.exponent) := by positivity
  rw [← scaled_value (d := a) (min_le_left a.exponent b.exponent),
    ← scaled_value (d := b) (min_le_right a.exponent b.exponent), mul_lt_mul_iff_left₀ hp]
  exact Int.cast_lt.symm

theorem larger_cases (a b : Decimal) : larger a b = a ∨ larger a b = b := by
  unfold larger
  split_ifs
  · exact Or.inr rfl
  · exact Or.inl rfl

theorem le_larger (a b : Decimal) : value a ≤ value (larger a b) := by
  unfold larger
  split_ifs with h
  · exact (lt_iff.mp h).le
  · exact le_rfl

theorem value_negate (d : Decimal) : value (negate d) = -value d := by
  unfold value negate size
  cases d.negative <;> simp

theorem value_exactSum (a b : Decimal) : value (exactSum a b) = value a+value b := by
  have ha := scaled_value (d := a) (min_le_left a.exponent b.exponent)
  have hb := scaled_value (d := b) (min_le_right a.exponent b.exponent)
  rw [← ha, ← hb, ← add_mul]
  generalize hz : scaled (min a.exponent b.exponent) a+
    scaled (min a.exponent b.exponent) b = z
  have hcast : ((scaled (min a.exponent b.exponent) a : ℚ)+
      scaled (min a.exponent b.exponent) b) = z := by rw [← hz]; push_cast; rfl
  simp only [exactSum, hz, hcast, value, size]
  rcases lt_trichotomy z 0 with h | h | h
  · have hn : (z.natAbs : ℚ) = -z := by
      rw [Nat.cast_natAbs, abs_of_neg h]
      push_cast
      rfl
    simp only [h.ne, h, if_false, decide_true, if_true, hn]
    ring
  · simp [h]
  · have hn : (z.natAbs : ℚ) = z := by rw [Nat.cast_natAbs, abs_of_pos h]
    simp [h.ne', not_lt.mpr h.le, hn]

theorem lt_pow_digits (c : ℕ) : c < 10^digits c := Nat.lt_pow_succ_log_self (by norm_num) c

theorem pow_digits_le {c : ℕ} (h : c ≠ 0) : 10^(digits c-1) ≤ c := Nat.pow_log_le_self 10 h

theorem digits_le {c p : ℕ} (hp : 0 < p) (h : c < 10^p) : digits c ≤ p := by
  unfold digits
  rcases Nat.eq_zero_or_pos c with rfl | hc
  · rw [Nat.log_zero_right]
    omega
  · have := Nat.log_lt_of_lt_pow hc.ne' h
    omega

theorem halfEven_le {c k m : ℕ} (h : c ≤ m*10^k) : halfEven c k ≤ m := by
  have hk : 0 < 10^k := by positivity
  rcases Nat.lt_or_ge c (m*10^k) with hlt | hge
  · have hq : c/10^k < m := (Nat.div_lt_iff_lt_mul hk).mpr hlt
    unfold halfEven
    split_ifs <;> omega
  · have hc : c = m*10^k := le_antisymm h hge
    subst hc
    have hm : m*10^k%10^k = 0 := Nat.mul_mod_left m (10^k)
    have hd : m*10^k/10^k = m := Nat.mul_div_cancel m hk
    unfold halfEven
    rw [hm, hd]
    split_ifs with hcond
    · omega
    · exact le_rfl

theorem leading_le {d : Decimal} (h : d.coefficient ≠ 0) :
    (10 : ℚ)^(digits d.coefficient+d.exponent-1) ≤ size d := by
  have h1 : ((10^(digits d.coefficient-1) : ℕ) : ℚ) ≤ d.coefficient := by
    exact_mod_cast pow_digits_le h
  have h2 : (0 : ℚ) < 10^d.exponent := by positivity
  have h3 : (10 : ℚ)^(digits d.coefficient+d.exponent-1) =
      ((10^(digits d.coefficient-1) : ℕ) : ℚ)*10^d.exponent := by
    rw [Nat.cast_pow, ← zpow_natCast, Nat.cast_ofNat, ← zpow_add₀ (by norm_num)]
    congr 1
    unfold digits
    push_cast
    omega
  rw [h3]
  unfold size
  exact mul_le_mul_of_nonneg_right h1 h2.le

theorem leading_exponent {d : Decimal} (h : d.coefficient ≠ 0) {k : ℤ} (hk : size d ≤ 10^k) :
    digits d.coefficient+d.exponent-1 ≤ k :=
  (zpow_le_zpow_iff_right₀ (by norm_num : (1 : ℚ) < 10)).mp ((leading_le h).trans hk)

theorem size_lt_pow (d : Decimal) : size d < 10^(digits d.coefficient+d.exponent) := by
  have hlt : (d.coefficient : ℚ) < (10^digits d.coefficient : ℕ) := by
    exact_mod_cast lt_pow_digits d.coefficient
  have hz : (0 : ℚ) < 10^d.exponent := by positivity
  unfold size
  rw [zpow_add₀ (by norm_num), zpow_natCast]
  apply mul_lt_mul_of_pos_right _ hz
  exact_mod_cast hlt

theorem leading_unique {d d' : Decimal} (hc : d.coefficient ≠ 0) (hc' : d'.coefficient ≠ 0)
    (hs : size d = size d') :
    digits d.coefficient+d.exponent = digits d'.coefficient+d'.exponent := by
  have hone : (1 : ℚ) < 10 := by norm_num
  have h1 := (zpow_lt_zpow_iff_right₀ hone).mp
    ((leading_le hc).trans_lt (hs ▸ size_lt_pow d'))
  have h2 := (zpow_lt_zpow_iff_right₀ hone).mp
    ((leading_le hc').trans_lt (hs ▸ size_lt_pow d))
  omega

theorem Constructible.of_size {d r : Decimal} (h : Constructible d) (hs : size r = size d)
    (hleast : minEtiny ≤ r.exponent) (hzero : r.coefficient = 0 → r.exponent ≤ maxEmax) :
    Constructible r := by
  refine ⟨?_, hleast⟩
  by_cases hr : r.coefficient = 0
  · rw [adjusted, hr, show digits 0 = 1 from rfl]
    have htop := hzero hr
    omega
  · have hd : d.coefficient ≠ 0 := fun h0 =>
      hr (size_eq_zero.mp (hs.trans (size_eq_zero.mpr h0)))
    have hlead := leading_unique hr hd hs
    have htop := h.1
    unfold adjusted at htop ⊢
    omega

theorem rounded_some {p : ℕ} (d : Decimal) {least : ℤ} (h : least+1 ≤ etop p) :
    ∃ r, rounded p d least = some r := by
  unfold rounded
  simp only
  split_ifs
  · exact ⟨_, rfl⟩
  · omega
  · exact ⟨_, rfl⟩

theorem fix_some {p : ℕ} {d : Decimal} {k : ℤ} (hk : k < 999999) (h : size d ≤ 10^k) :
    ∃ r, fix p d = some r := by
  unfold fix
  split_ifs with h0 h1 h2
  · exact ⟨_, rfl⟩
  · have := leading_exponent h0 h
    unfold etop at h1
    omega
  · apply rounded_some
    have := leading_exponent h0 h
    unfold etop etiny
    omega
  · exact ⟨_, rfl⟩

theorem digits_halfEven {c k p : ℕ} (h : digits c ≤ p+k) : halfEven c k ≤ 10^p := by
  apply halfEven_le
  rw [← pow_add]
  exact (lt_pow_digits c).le.trans (Nat.pow_le_pow_right (by norm_num) h)

/-- A rounded number is within the limits of the constructor. -/
theorem fix_constructible {p : ℕ} {d r : Decimal} (hp : 0 < p) (hlimit : minEtiny ≤ etiny p)
    (h : fix p d = some r) : Constructible r := by
  have hrange : minEtiny ≤ 999999 ∧ (999999 : ℤ) ≤ maxEmax := by
    unfold minEtiny maxEmax
    omega
  unfold fix at h
  split_ifs at h with h0 htop hfew
  · obtain rfl := Option.some.inj h
    have hdigits : digits 0 = 1 := rfl
    constructor
    · simp only [adjusted, hdigits, emax]
      omega
    · simp only [emax]
      omega
  · unfold etop at htop
    unfold rounded at h
    generalize hleast : max ((digits d.coefficient : ℤ)+d.exponent-p) (etiny p) = least at h hfew
    have hdigits : digits d.coefficient ≤ p+(least-d.exponent).toNat := by omega
    have hc := digits_halfEven hdigits
    have hlow : etiny p ≤ least := by omega
    have hhigh : least ≤ 999999-p+1 := by
      unfold etiny at hleast
      omega
    simp only at h
    split_ifs at h with hkept hlast
    · obtain rfl := Option.some.inj h
      refine ⟨?_, hlimit.trans hlow⟩
      simp only [adjusted]
      omega
    · obtain rfl := Option.some.inj h
      have hten : halfEven d.coefficient (least-d.exponent).toNat/10 < 10^p := by
        have hpos : 0 < 10^p := by positivity
        omega
      have hshort := digits_le hp hten
      unfold etop at hlast
      refine ⟨?_, by simp only; omega⟩
      simp only [adjusted]
      omega
  · obtain rfl := Option.some.inj h
    unfold etop at htop
    refine ⟨?_, by omega⟩
    unfold adjusted
    omega

theorem rounded_negative {p : ℕ} {d r : Decimal} {least : ℤ} (h : rounded p d least = some r) :
    r.negative = d.negative := by
  simp only [rounded] at h
  split_ifs at h <;> · obtain rfl := Option.some.inj h; rfl

theorem fix_negative {p : ℕ} {d r : Decimal} (h : fix p d = some r) :
    r.negative = d.negative := by
  simp only [fix] at h
  split_ifs at h
  · obtain rfl := Option.some.inj h; rfl
  · exact rounded_negative h
  · obtain rfl := Option.some.inj h; rfl

theorem rounded_exponent {p : ℕ} {d r : Decimal} {least : ℤ} (h : rounded p d least = some r) :
    least ≤ r.exponent := by
  simp only [rounded] at h
  split_ifs at h <;> · obtain rfl := Option.some.inj h; simp

theorem fix_exponent {p : ℕ} {d r : Decimal} {l : ℤ} (hl : l ≤ 999999) (h : fix p d = some r)
    (hd : l ≤ d.exponent) : l ≤ r.exponent := by
  simp only [fix] at h
  split_ifs at h with h0 h1 h2
  · obtain rfl := Option.some.inj h
    unfold emax
    simp only
    omega
  · have := rounded_exponent h
    omega
  · obtain rfl := Option.some.inj h
    exact hd

theorem add_exponent {p : ℕ} {a b r : Decimal} {l : ℤ} (hl : l ≤ 999999)
    (h : add p a b = some r) (ha : l ≤ a.exponent) (hb : l ≤ b.exponent) : l ≤ r.exponent :=
  fix_exponent hl h (le_min ha hb)

theorem abs_exponent {p : ℕ} {d r : Decimal} {l : ℤ} (hl : l ≤ 999999) (h : abs p d = some r)
    (hd : l ≤ d.exponent) : l ≤ r.exponent :=
  fix_exponent hl h hd

theorem mul_exponent {p : ℕ} {a b r : Decimal} {k l : ℤ} (hl : k+l ≤ 999999)
    (h : mul p a b = some r) (ha : k ≤ a.exponent) (hb : l ≤ b.exponent) : k+l ≤ r.exponent :=
  fix_exponent hl h (add_le_add ha hb)

theorem rounded_size {p : ℕ} {d r : Decimal} {least : ℤ} (h : rounded p d least = some r) :
    size r ≤ halfEven d.coefficient (least-d.exponent).toNat*10^least := by
  simp only [rounded] at h
  split_ifs at h
  · obtain rfl := Option.some.inj h
    exact le_rfl
  · obtain rfl := Option.some.inj h
    unfold size
    simp only
    have h1 : halfEven d.coefficient (least-d.exponent).toNat/10*10 ≤
        halfEven d.coefficient (least-d.exponent).toNat := Nat.div_mul_le_self _ _
    have h2 : (0 : ℚ) < 10^least := by positivity
    have h3 : ((halfEven d.coefficient (least-d.exponent).toNat/10 : ℕ) : ℚ)*10 ≤
        halfEven d.coefficient (least-d.exponent).toNat := by exact_mod_cast h1
    rw [zpow_add₀ (by norm_num), zpow_one]
    nlinarith

/-- Rounding respects every bound with at most `p` significant digits. -/
theorem fix_size {p m j : ℕ} {d r : Decimal} (hm : m < 10^p) (h : fix p d = some r)
    (hd : size d ≤ m*10^j) : size r ≤ m*10^j := by
  simp only [fix] at h
  split_ifs at h with h0 h1 h2
  · obtain rfl := Option.some.inj h
    have hz : size ⟨d.negative, 0, min (max d.exponent (etiny p)) emax⟩ = 0 := by simp [size]
    rw [hz]
    positivity
  · refine (rounded_size h).trans ?_
    generalize hleast : max (digits d.coefficient+d.exponent-p) (etiny p) = least at *
    rcases le_or_gt least j with hj | hj
    · have hc : (d.coefficient : ℚ) ≤
          ((m*10^(j-least).toNat*10^(least-d.exponent).toNat : ℕ) : ℚ) := by
        have he : (0 : ℚ) < 10^(-d.exponent) := by positivity
        have hmul := mul_le_mul_of_nonneg_right hd he.le
        have hsize : size d*10^(-d.exponent) = d.coefficient := by
          unfold size
          rw [mul_assoc, ← zpow_add₀ (by norm_num), add_neg_cancel, zpow_zero, mul_one]
        rw [hsize] at hmul
        refine hmul.trans (le_of_eq ?_)
        push_cast
        rw [mul_assoc, mul_assoc]
        congr 1
        rw [← zpow_natCast, ← zpow_natCast, ← zpow_natCast, ← zpow_add₀ (by norm_num),
          ← zpow_add₀ (by norm_num), Int.toNat_of_nonneg (by omega),
          Int.toNat_of_nonneg (by omega)]
        congr 1
        ring
      have hhalf : halfEven d.coefficient (least-d.exponent).toNat ≤ m*10^(j-least).toNat :=
        halfEven_le (by exact_mod_cast hc)
      have hcast : ((halfEven d.coefficient (least-d.exponent).toNat : ℕ) : ℚ) ≤
          m*10^(j-least).toNat := by exact_mod_cast hhalf
      have hp : (0 : ℚ) < 10^least := by positivity
      calc (halfEven d.coefficient (least-d.exponent).toNat : ℚ)*10^least
          ≤ m*10^(j-least).toNat*10^least := mul_le_mul_of_nonneg_right hcast hp.le
        _ = m*10^j := by
          rw [mul_assoc, ← zpow_natCast, ← zpow_natCast, ← zpow_add₀ (by norm_num),
            Int.toNat_of_nonneg (by omega)]
          congr 2
          ring
    · -- the bound would have more digits than the precision
      exfalso
      have hlead : least = digits d.coefficient+d.exponent-p := by
        unfold etiny at hleast
        omega
      have h3 : (10 : ℚ)^(j+p : ℤ) ≤ size d := by
        refine le_trans ?_ (leading_le h0)
        exact zpow_le_zpow_right₀ (by norm_num) (by omega)
      have h4 : (m : ℚ)*10^j < 10^(j+p : ℤ) := by
        have hm' : (m : ℚ) < 10^p := by exact_mod_cast hm
        have hpos : (0 : ℚ) < 10^j := by positivity
        rw [zpow_add₀ (by norm_num), zpow_natCast, zpow_natCast]
        nlinarith
      linarith
  · obtain rfl := Option.some.inj h
    exact hd

theorem value_nonneg {d : Decimal} : 0 ≤ value d ↔ d.negative = false ∨ d.coefficient = 0 := by
  have hs := size_nonneg d
  rw [← size_eq_zero]
  unfold value
  cases d.negative
  · simpa using hs
  · simp only [if_true, Bool.true_eq_false, false_or]
    constructor
    · intro h
      linarith
    · intro h
      rw [h, neg_zero]

theorem value_le_size (d : Decimal) : value d ≤ size d := by
  rw [← abs_value]
  exact le_abs_self _

theorem size_of_nonneg {d : Decimal} (h : 0 ≤ value d) : size d = value d := by
  rw [← abs_value, abs_of_nonneg h]

theorem fix_nonneg {p : ℕ} {d r : Decimal} (h : fix p d = some r) (hd : 0 ≤ value d) :
    0 ≤ value r := by
  rcases value_nonneg.mp hd with h1 | h1
  · exact value_nonneg.mpr (Or.inl ((fix_negative h).trans h1))
  · have hz : size r ≤ (0 : ℕ)*10^0 :=
      fix_size (by positivity) h (by rw [size_eq_zero.mpr h1]; simp)
    refine value_nonneg.mpr (Or.inr (size_eq_zero.mp (le_antisymm ?_ (size_nonneg r))))
    simpa using hz

theorem fix_value_le {p m j : ℕ} {d r : Decimal} (hm : m < 10^p) (h : fix p d = some r)
    (hd : value d ≤ m*10^j) : value r ≤ m*10^j := by
  by_cases hneg : d.negative = true
  · have hr : value r = -size r := by
      unfold value
      rw [if_pos ((fix_negative h).trans hneg)]
    have hs := size_nonneg r
    have : (0 : ℚ) ≤ m*10^j := by positivity
    linarith
  · have hv : value d = size d := by
      unfold value
      rw [if_neg hneg]
    exact (value_le_size r).trans (fix_size hm h (hv ▸ hd))

theorem one_lt_pow {p : ℕ} (hp : 0 < p) : 1 < 10^p := Nat.one_lt_pow hp.ne' (by norm_num)

theorem fix_pow {p k : ℕ} (hp : 0 < p) {d r : Decimal} (h : fix p d = some r)
    (hd : size d ≤ 10^k) : size r ≤ 10^k := by
  have := fix_size (m := 1) (j := k) (one_lt_pow hp) h (by simpa using hd)
  simpa using this

theorem fix_bounded {p k : ℕ} (hp : 0 < p) (hk : k < 999999) {d : Decimal}
    (hd : size d ≤ 10^k) : ∃ r, fix p d = some r ∧ size r ≤ 10^k := by
  obtain ⟨r, hr⟩ := fix_some (p := p) (k := k) (by omega) (by simpa using hd)
  exact ⟨r, hr, fix_pow hp hr hd⟩

theorem size_exactSum (a b : Decimal) : size (exactSum a b) ≤ size a+size b := by
  rw [← abs_value, value_exactSum, ← abs_value a, ← abs_value b]
  exact abs_add_le _ _

theorem size_exactSum_pow {k : ℕ} {a b : Decimal} (ha : size a ≤ 10^k) (hb : size b ≤ 10^k) :
    size (exactSum a b) ≤ 10^(k+1) := by
  have h := size_exactSum a b
  have hk : (0 : ℚ) < 10^k := by positivity
  rw [pow_succ]
  linarith

theorem add_bounded {p k : ℕ} (hp : 0 < p) (hk : k+1 < 999999) {a b : Decimal}
    (ha : size a ≤ 10^k) (hb : size b ≤ 10^k) :
    ∃ r, add p a b = some r ∧ size r ≤ 10^(k+1) :=
  fix_bounded hp hk (size_exactSum_pow ha hb)

theorem sub_bounded {p k : ℕ} (hp : 0 < p) (hk : k+1 < 999999) {a b : Decimal}
    (ha : size a ≤ 10^k) (hb : size b ≤ 10^k) :
    ∃ r, sub p a b = some r ∧ size r ≤ 10^(k+1) :=
  add_bounded hp hk ha hb

theorem abs_bounded {p k : ℕ} (hp : 0 < p) (hk : k < 999999) {d : Decimal}
    (hd : size d ≤ 10^k) : ∃ r, abs p d = some r ∧ size r ≤ 10^k :=
  fix_bounded hp hk hd

theorem abs_nonneg {p : ℕ} {d r : Decimal} (h : abs p d = some r) : 0 ≤ value r :=
  value_nonneg.mpr (Or.inl (fix_negative h))

theorem size_mul (a b : Decimal) :
    size ⟨a.negative ^^ b.negative, a.coefficient*b.coefficient, a.exponent+b.exponent⟩ =
      size a*size b := by
  simp only [size]
  rw [zpow_add₀ (by norm_num)]
  push_cast
  ring

theorem mul_bounded {p k l : ℕ} (hp : 0 < p) (hk : k+l < 999999) {a b : Decimal}
    (ha : size a ≤ 10^k) (hb : size b ≤ 10^l) :
    ∃ r, mul p a b = some r ∧ size r ≤ 10^(k+l) := by
  apply fix_bounded hp hk
  rw [size_mul, pow_add]
  exact mul_le_mul ha hb (size_nonneg b) (by positivity)

theorem mul_nonneg_value {p : ℕ} {a b r : Decimal} (h : mul p a b = some r)
    (ha : 0 ≤ value a) (hb : 0 ≤ value b) : 0 ≤ value r := by
  apply fix_nonneg h
  rw [value_nonneg] at *
  rcases ha with ha | ha
  · rcases hb with hb | hb
    · exact Or.inl (by simp [ha, hb])
    · exact Or.inr (by simp [hb])
  · exact Or.inr (by simp [ha])

theorem mul_value_le {p m : ℕ} (hm : m < 10^p) {a b r : Decimal} (h : mul p a b = some r)
    (ha : value a = m) (hb0 : 0 ≤ value b) (hb : value b ≤ 1) : value r ≤ m := by
  have hsa : size a = m := by rw [size_of_nonneg (by rw [ha]; positivity), ha]
  have hab := size_mul a b
  rw [size_of_nonneg hb0, hsa] at hab
  have hm0 : (0 : ℚ) ≤ m := by positivity
  have := fix_size (m := m) (j := 0) hm h (by rw [hab]; nlinarith)
  refine (value_le_size r).trans ?_
  simpa using this

theorem strip_size (n c : ℕ) (e : ℤ) :
    ((strip n c e).1 : ℚ)*10^(strip n c e).2 = c*10^e := by
  induction n generalizing c e with
  | zero => rfl
  | succ n ih =>
    unfold strip
    split_ifs with h
    · rw [ih, zpow_add₀ (by norm_num), zpow_one]
      have hc : (c : ℚ) = (c/10 : ℕ)*10 := by
        exact_mod_cast (Nat.div_mul_cancel (Nat.dvd_of_mod_eq_zero h)).symm
      rw [hc]
      ring
    · rfl

theorem strip_exponent (n c : ℕ) (e : ℤ) : e ≤ (strip n c e).2 := by
  induction n generalizing c e with
  | zero => exact le_rfl
  | succ n ih =>
    unfold strip
    split_ifs
    · have := ih (c/10) (e+1)
      omega
    · exact le_rfl

theorem quotient_exponent (p : ℕ) (a b : Decimal) :
    a.exponent-b.exponent-digits b.coefficient-p ≤ (quotient p a b).exponent := by
  have hdigits : (1 : ℤ) ≤ digits a.coefficient := by
    unfold digits
    omega
  simp only [quotient]
  split_ifs
  · have h := strip_exponent (digits b.coefficient-digits a.coefficient+p+1 : ℤ).toNat
      (a.coefficient*10^(digits b.coefficient-digits a.coefficient+p+1 : ℤ).toNat/
        (b.coefficient*10^(-(digits b.coefficient-digits a.coefficient+p+1 : ℤ)).toNat))
      (a.exponent-b.exponent-(digits b.coefficient-digits a.coefficient+p+1))
    simp only
    omega
  all_goals
    simp only
    omega

theorem div_exponent {p : ℕ} {a b r : Decimal} {l : ℤ} (hl : l ≤ 999999)
    (h : div p a b = some r) (hd : l ≤ a.exponent-b.exponent-digits b.coefficient-p) :
    l ≤ r.exponent := by
  unfold div at h
  split_ifs at h
  · refine fix_exponent hl h ?_
    simp only
    omega
  · exact fix_exponent hl h (hd.trans (quotient_exponent p a b))

theorem shift_ratio {a b : Decimal} (hb : b.coefficient ≠ 0) (shift : ℤ) :
    ((a.coefficient*10^shift.toNat : ℕ) : ℚ)/(b.coefficient*10^(-shift).toNat : ℕ)*
      10^(a.exponent-b.exponent-shift) = size a/size b := by
  have hb' : (b.coefficient : ℚ) ≠ 0 := by exact_mod_cast hb
  have hshift : (10 : ℚ)^shift.toNat = 10^(-shift).toNat*10^shift := by
    rw [← zpow_natCast, ← zpow_natCast, ← zpow_add₀ (by norm_num)]
    congr 1
    omega
  have hexp : (10 : ℚ)^shift*10^(a.exponent-b.exponent-shift)*10^b.exponent = 10^a.exponent := by
    rw [← zpow_add₀ (by norm_num), ← zpow_add₀ (by norm_num)]
    congr 1
    ring
  have hp : (0 : ℚ) < 10^(-shift).toNat := by positivity
  unfold size
  push_cast
  rw [hshift, ← hexp]
  field_simp

/-- A rounded-up quotient is at most twice the exact one. -/
theorem quotient_size {p : ℕ} {a b : Decimal} (ha : a.coefficient ≠ 0)
    (hb : b.coefficient ≠ 0) : size (quotient p a b) ≤ 2*(size a/size b) := by
  generalize hshift : (digits b.coefficient-digits a.coefficient+p+1 : ℤ) = shift
  have hratio := shift_ratio (a := a) hb shift
  have hm : 0 < b.coefficient*10^(-shift).toNat := by positivity
  have hE : (0 : ℚ) < 10^(a.exponent-b.exponent-shift) := by positivity
  have hfloor : ((a.coefficient*10^shift.toNat/(b.coefficient*10^(-shift).toNat) : ℕ) : ℚ) ≤
      ((a.coefficient*10^shift.toNat : ℕ) : ℚ)/(b.coefficient*10^(-shift).toNat : ℕ) :=
    Nat.cast_div_le
  have hpos : 0 ≤ size a/size b := div_nonneg (size_nonneg a) (size_nonneg b)
  -- the shift makes the integer quotient at least one
  have hone : b.coefficient*10^(-shift).toNat ≤ a.coefficient*10^shift.toNat := by
    have h1 := pow_digits_le ha
    have h2 := (lt_pow_digits b.coefficient).le
    have h3 : 1 ≤ digits a.coefficient := by unfold digits; omega
    calc b.coefficient*10^(-shift).toNat
        ≤ 10^digits b.coefficient*10^(-shift).toNat := Nat.mul_le_mul_right _ h2
      _ = 10^(digits b.coefficient+(-shift).toNat) := (pow_add _ _ _).symm
      _ ≤ 10^(digits a.coefficient-1+shift.toNat) :=
        Nat.pow_le_pow_right (by norm_num) (by omega)
      _ = 10^(digits a.coefficient-1)*10^shift.toNat := pow_add _ _ _
      _ ≤ a.coefficient*10^shift.toNat := Nat.mul_le_mul_right _ h1
  have hq : 1 ≤ a.coefficient*10^shift.toNat/(b.coefficient*10^(-shift).toNat) :=
    (Nat.one_le_div_iff hm).mpr hone
  have hqc : (1 : ℚ) ≤ (a.coefficient*10^shift.toNat/(b.coefficient*10^(-shift).toNat) : ℕ) := by
    exact_mod_cast hq
  simp only [quotient, hshift]
  split_ifs with hexact h5
  · have hs : size ⟨a.negative ^^ b.negative,
        (strip shift.toNat (a.coefficient*10^shift.toNat/(b.coefficient*10^(-shift).toNat))
          (a.exponent-b.exponent-shift)).1,
        (strip shift.toNat (a.coefficient*10^shift.toNat/(b.coefficient*10^(-shift).toNat))
          (a.exponent-b.exponent-shift)).2⟩ ≤ size a/size b := by
      unfold size
      simp only
      rw [strip_size, ← size, ← size, ← hratio]
      exact mul_le_mul_of_nonneg_right hfloor hE.le
    linarith
  · rw [← hratio, ← mul_assoc]
    unfold size
    refine mul_le_mul_of_nonneg_right ?_ hE.le
    simp only
    rw [Nat.cast_succ]
    linarith
  · rw [← hratio, ← mul_assoc]
    unfold size
    refine mul_le_mul_of_nonneg_right ?_ hE.le
    simp only
    linarith

theorem quotient_nonneg {p : ℕ} {a b : Decimal} (ha : 0 ≤ value a) (hb : 0 ≤ value b)
    (ha0 : a.coefficient ≠ 0) (hb0 : b.coefficient ≠ 0) : 0 ≤ value (quotient p a b) := by
  have h1 : a.negative = false := (value_nonneg.mp ha).resolve_right ha0
  have h2 : b.negative = false := (value_nonneg.mp hb).resolve_right hb0
  refine value_nonneg.mpr (Or.inl ?_)
  simp only [quotient]
  split_ifs <;> simp [h1, h2]

theorem div_bounded {p k l : ℕ} (hp : 0 < p) (hk : k+l+1 < 999999) {a b : Decimal}
    (ha : size a ≤ 10^k) (hb0 : b.coefficient ≠ 0) (hb : (10 : ℚ)^(-(l : ℤ)) ≤ size b) :
    ∃ r, div p a b = some r ∧ size r ≤ 10^(k+l+1) := by
  unfold div
  rw [if_neg hb0]
  split_ifs with ha0
  · exact fix_bounded hp hk (by simp [size])
  · apply fix_bounded hp hk
    refine (quotient_size ha0 hb0).trans ?_
    have hl : (0 : ℚ) < 10^(-(l : ℤ)) := by positivity
    have hsb : 0 < size b := hl.trans_le hb
    have hdiv : size a/size b ≤ 10^k*10^l := by
      rw [div_le_iff₀ hsb]
      have hone : (1 : ℚ) ≤ 10^l*size b := by
        have := mul_le_mul_of_nonneg_left hb (by positivity : (0 : ℚ) ≤ 10^l)
        rw [zpow_neg, zpow_natCast, mul_inv_cancel₀ (by positivity)] at this
        exact this
      have hkpos : (0 : ℚ) < 10^k := by positivity
      nlinarith
    rw [pow_succ, pow_add]
    have : (0 : ℚ) < 10^k*10^l := by positivity
    linarith

theorem div_nonneg_value {p : ℕ} {a b r : Decimal} (h : div p a b = some r)
    (ha : 0 ≤ value a) (hb : 0 ≤ value b) : 0 ≤ value r := by
  unfold div at h
  split_ifs at h with hb0 ha0
  · exact fix_nonneg h (value_nonneg.mpr (Or.inr rfl))
  · exact fix_nonneg h (quotient_nonneg ha hb ha0 hb0)

/-- Quantizing a number of at most `m` gives a whole number of at most `m`. -/
theorem quantize_bounded {p m : ℕ} (hp : 0 < p) (hlimit : p < 999999) (hm : m < 10^p)
    {d : Decimal} (hd : size d ≤ m) :
    ∃ r, quantize p d = some r ∧ r.exponent = 0 ∧ r.coefficient ≤ m ∧
      r.negative = d.negative ∧ (d.coefficient = 0 → r.coefficient = 0) := by
  by_cases h0 : d.coefficient = 0
  · refine ⟨⟨d.negative, 0, 0⟩, ?_, rfl, Nat.zero_le _, rfl, fun _ => rfl⟩
    simp only [quantize, h0, fix, if_true, emax, etiny]
    congr 2
    omega
  · have hlead : (digits d.coefficient+d.exponent-1 : ℤ) < p := by
      have h1 := (leading_le h0).trans hd
      have h2 : (m : ℚ) < 10^(p : ℤ) := by
        rw [zpow_natCast]
        exact_mod_cast hm
      exact (zpow_lt_zpow_iff_right₀ (by norm_num : (1 : ℚ) < 10)).mp (h1.trans_lt h2)
    have hr : rescaled d ≤ m := by
      unfold rescaled
      unfold size at hd
      split_ifs with he
      · have hz : (10 : ℚ)^d.exponent = 10^d.exponent.toNat := by
          rw [← zpow_natCast, Int.toNat_of_nonneg he]
        rw [hz] at hd
        exact_mod_cast hd
      · apply halfEven_le
        have hz : (d.coefficient : ℚ) ≤ m*10^(-d.exponent).toNat := by
          have hpow : (10 : ℚ)^(-d.exponent).toNat = (10^d.exponent)⁻¹ := by
            rw [← zpow_natCast, Int.toNat_of_nonneg (by omega), zpow_neg]
          have hpos : (0 : ℚ) < 10^d.exponent := by positivity
          rw [hpow, ← div_eq_mul_inv, le_div_iff₀ hpos]
          exact hd
        exact_mod_cast hz
    have hdig : digits (rescaled d) ≤ p := digits_le hp (hr.trans_lt hm)
    refine ⟨⟨d.negative, rescaled d, 0⟩, ?_, rfl, hr, rfl, fun h => absurd h h0⟩
    unfold quantize
    rw [if_neg h0, if_neg (by unfold adjusted emax; omega), if_neg (by omega)]
    unfold fix etop etiny
    simp only
    split_ifs with h1 h2 h3
    · simp [h1, emax]
      omega
    · omega
    · omega
    · rfl

theorem toInt_whole {d : Decimal} (h : d.exponent = 0) :
    toInt d = (if d.negative then -1 else 1)*(d.coefficient : ℤ) := by
  simp [toInt, h]

/-- A nonnegative number of at most `m` is quantized to an integer between
zero and `m`. -/
theorem quantize_toInt {p m : ℕ} (hp : 0 < p) (hlimit : p < 999999) (hm : m < 10^p)
    {d : Decimal} (h0 : 0 ≤ value d) (hd : value d ≤ m) :
    ∃ r, quantize p d = some r ∧ 0 ≤ toInt r ∧ toInt r ≤ m := by
  obtain ⟨r, hr, he, hc, hn, hz⟩ :=
    quantize_bounded hp hlimit hm (d := d) (by rw [size_of_nonneg h0]; exact hd)
  refine ⟨r, hr, ?_⟩
  rw [toInt_whole he]
  rcases value_nonneg.mp h0 with h1 | h1
  · rw [hn, h1]
    simp only [Bool.false_eq_true, if_false, one_mul]
    omega
  · rw [hz h1]
    simp

def Ordinary (d : Decimal) : Prop := -12 ≤ d.exponent ∧ d.coefficient*10^d.exponent.toNat < 10^38

instance (d : Decimal) : Decidable (Ordinary d) :=
  inferInstanceAs (Decidable (_ ∧ _))

theorem Ordinary.size_le {d : Decimal} (h : Ordinary d) : size d ≤ 10^38 := by
  have hlt : ((d.coefficient*10^d.exponent.toNat : ℕ) : ℚ) ≤ 10^38 := by exact_mod_cast h.2.le
  refine le_trans ?_ hlt
  push_cast
  refine mul_le_mul_of_nonneg_left ?_ (by positivity)
  rw [← zpow_natCast]
  exact zpow_le_zpow_right₀ (by norm_num) (by omega)

end Workbench.Decimals
