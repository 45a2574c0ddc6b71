import Mathlib.Data.Int.Log
import Mathlib.Algebra.Order.Floor.Ring
import Mathlib.Algebra.Order.Field.Basic
import Mathlib.Tactic.Ring
import Mathlib.Tactic.Linarith
import Mathlib.Tactic.FieldSimp
import Mathlib.Tactic.Positivity
import Mathlib.Tactic.NormNum

/-!
# Rounding half to even

The nearest integer to a number, the even one of two, and the nearest number
of so many significant digits. How far a rounding lies, what it leaves alone,
and when two numbers are rounded alike.
-/

set_option autoImplicit false
set_option linter.unusedSectionVars false

namespace Workbench.Rounding
variable {K : Type*} [Field K] [LinearOrder K] [FloorRing K]

def nearestEven (x : K) : ℤ :=
  if 2*Int.fract x < 1 ∨ 2*Int.fract x = 1 ∧ Even ⌊x⌋ then ⌊x⌋ else ⌊x⌋+1

theorem floor_le_nearestEven (x : K) : ⌊x⌋ ≤ nearestEven x := by
  unfold nearestEven
  split_ifs <;> omega

theorem nearestEven_le_succ (x : K) : nearestEven x ≤ ⌊x⌋+1 := by
  unfold nearestEven
  split_ifs <;> omega

/-- The place of the last of `p` significant digits. -/
def lastPlace (b p : ℕ) (x : K) : ℤ := Int.log b |x|+1-p

theorem lastPlace_neg (b p : ℕ) (x : K) : lastPlace b p (-x) = lastPlace b p x := by
  rw [lastPlace, abs_neg, lastPlace]

variable [IsStrictOrderedRing K]

theorem nearestEven_intCast (n : ℤ) : nearestEven (n : K) = n := by
  simp [nearestEven]

theorem nearestEven_zero : nearestEven (0 : K) = 0 := by
  simpa using nearestEven_intCast (K := K) 0

theorem nearestEven_error (x : K) : 2*|x-nearestEven x| ≤ 1 := by
  have hx := Int.floor_add_fract x
  have h0 := Int.fract_nonneg x
  have h1 := Int.fract_lt_one x
  unfold nearestEven
  split_ifs with h
  · have hle : 2*Int.fract x ≤ 1 := by
      rcases h with h | h
      · exact h.le
      · exact h.1.le
    have he : x-(⌊x⌋ : K) = Int.fract x := by linarith
    rw [he, abs_of_nonneg h0]
    exact hle
  · have hge : 1 ≤ 2*Int.fract x := by
      by_contra hlt
      exact h (.inl (not_le.mp hlt))
    have he : x-((⌊x⌋+1 : ℤ) : K) = -(1-Int.fract x) := by
      push_cast
      linarith
    rw [he, abs_neg, abs_of_nonneg (by linarith)]
    linarith

theorem nearestEven_eq {x : K} {n : ℤ} (h : 2*|x-n| < 1) : nearestEven x = n := by
  have herror := nearestEven_error x
  have htriangle : |(nearestEven x : K)-n| ≤ |x-nearestEven x|+|x-n| := by
    have he : (nearestEven x : K)-n = -(x-nearestEven x)+(x-n) := by ring
    rw [he]
    exact (abs_add_le _ _).trans_eq (by rw [abs_neg])
  have hlt : |(nearestEven x : K)-n| < 1 := by linarith
  have hcast : |nearestEven x-n| < 1 := by exact_mod_cast hlt
  have hzero := Int.abs_lt_one_iff.mp hcast
  omega

theorem nearestEven_half {x : K} {n : ℤ} (h : 2*x = 2*n+1) :
    nearestEven x = if Even n then n else n+1 := by
  have hfloor : ⌊x⌋ = n := by
    rw [Int.floor_eq_iff]
    constructor <;> linarith
  have hfract : 2*Int.fract x = 1 := by
    rw [Int.fract, hfloor]
    linarith
  unfold nearestEven
  rw [hfract, hfloor]
  simp

theorem nearestEven_mono {x y : K} (h : x ≤ y) : nearestEven x ≤ nearestEven y := by
  rcases (Int.floor_mono h).lt_or_eq with hlt | heq
  · have h1 := nearestEven_le_succ x
    have h2 := floor_le_nearestEven y
    omega
  · have hx := Int.floor_add_fract x
    have hy := Int.floor_add_fract y
    have hfract : Int.fract x ≤ Int.fract y := by
      rw [heq] at hx
      linarith
    unfold nearestEven
    rw [heq]
    by_cases hup : 2*Int.fract y < 1 ∨ 2*Int.fract y = 1 ∧ Even ⌊y⌋
    · have hdown : 2*Int.fract x < 1 ∨ 2*Int.fract x = 1 ∧ Even ⌊y⌋ := by
        rcases hup with hup | hup
        · exact .inl (by linarith)
        · by_cases hx1 : 2*Int.fract x = 1
          · exact .inr ⟨hx1, hup.2⟩
          · exact .inl (lt_of_le_of_ne (by linarith [hup.1]) hx1)
      rw [if_pos hup, if_pos hdown]
    · rw [if_neg hup]
      split_ifs <;> omega

theorem nearestEven_nonneg {x : K} (h : 0 ≤ x) : 0 ≤ nearestEven x := by
  rw [← nearestEven_zero (K := K)]
  exact nearestEven_mono h

theorem nearestEven_neg (x : K) : nearestEven (-x) = -nearestEven x := by
  by_cases hhalf : ∃ n : ℤ, 2*x = 2*n+1
  · obtain ⟨n, hn⟩ := hhalf
    have hneg : 2*(-x) = 2*((-n-1 : ℤ) : K)+1 := by
      push_cast
      linarith
    rw [nearestEven_half hn, nearestEven_half hneg]
    by_cases heven : Even n
    · rw [if_pos heven, if_neg (by rw [Int.even_sub_one, even_neg]; exact not_not.mpr heven)]
      omega
    · rw [if_neg heven, if_pos (by rw [Int.even_sub_one, even_neg]; exact heven)]
      omega
  · apply nearestEven_eq
    have herror := nearestEven_error x
    have he : -x-((-nearestEven x : ℤ) : K) = -(x-nearestEven x) := by
      push_cast
      ring
    rw [he, abs_neg]
    apply lt_of_le_of_ne herror
    intro heq
    apply hhalf
    rcases abs_cases (x-nearestEven x) with ⟨habs, -⟩ | ⟨habs, -⟩
    · exact ⟨nearestEven x, by linarith⟩
    · refine ⟨nearestEven x-1, ?_⟩
      push_cast
      linarith

theorem nearestEven_between {x y : K} {m : ℤ} (hx : m < 2*x ∧ 2*x < m+1)
    (hy : m < 2*y ∧ 2*y < m+1) : nearestEven x = nearestEven y := by
  have hround : ∀ z : K, m < 2*z ∧ 2*z < m+1 → nearestEven z = (m+1)/2 := by
    intro z hz
    apply nearestEven_eq
    rcases Int.even_or_odd' m with ⟨n, hn | hn⟩
    · have hdiv : (m+1)/2 = n := by omega
      rw [hdiv, abs_of_nonneg]
      all_goals
        rw [hn] at hz
        push_cast at hz
        linarith [hz.1, hz.2]
    · have hdiv : (m+1)/2 = n+1 := by omega
      rw [hdiv, abs_of_nonpos]
      all_goals
        rw [hn] at hz
        push_cast at hz ⊢
        linarith [hz.1, hz.2]
  rw [hround x hx, hround y hy]

/-- The nearest number of `p` significant digits in base `b`. -/
def nearest (b p : ℕ) (x : K) : K :=
  nearestEven (x/(b : K)^lastPlace b p x)*(b : K)^lastPlace b p x

theorem nearest_zero (b p : ℕ) : nearest b p (0 : K) = 0 := by
  rw [nearest, zero_div, nearestEven_zero, Int.cast_zero, zero_mul]

theorem nearest_neg (b p : ℕ) (x : K) : nearest b p (-x) = -nearest b p x := by
  rw [nearest, lastPlace_neg, neg_div, nearestEven_neg, nearest]
  push_cast
  ring

section Base
variable {b p : ℕ}

theorem zpow_base_pos (hb : 1 < b) (k : ℤ) : (0 : K) < (b : K)^k := by
  have h : (0 : K) < b := by exact_mod_cast Nat.zero_lt_of_lt hb
  exact zpow_pos h k

theorem one_lt_base (hb : 1 < b) : (1 : K) < b := by exact_mod_cast hb

theorem base_ne_zero (hb : 1 < b) : (b : K) ≠ 0 := (zero_lt_one.trans (one_lt_base hb)).ne'

theorem lastPlace_le (hb : 1 < b) {x : K} {k : ℤ} (hx : x ≠ 0) (h : |x| < (b : K)^k) :
    lastPlace b p x ≤ k-p := by
  have hlog := (Int.lt_zpow_iff_log_lt hb (abs_pos.mpr hx)).mp h
  unfold lastPlace
  omega

theorem nearest_error (hb : 1 < b) {x : K} {k : ℤ} (h : |x| < (b : K)^k) :
    2*|x-nearest b p x| ≤ (b : K)^(k-p) := by
  by_cases hx : x = 0
  · rw [hx, nearest_zero, sub_zero, abs_zero, mul_zero]
    exact (zpow_base_pos hb _).le
  · have hpos : (0 : K) < (b : K)^lastPlace b p x := zpow_base_pos hb _
    have herror := nearestEven_error (x/(b : K)^lastPlace b p x)
    have he : x-nearest b p x = (x/(b : K)^lastPlace b p x-
        nearestEven (x/(b : K)^lastPlace b p x))*(b : K)^lastPlace b p x := by
      rw [sub_mul, div_mul_cancel₀ _ hpos.ne', nearest]
    calc 2*|x-nearest b p x|
        = (2*|x/(b : K)^lastPlace b p x-nearestEven (x/(b : K)^lastPlace b p x)|) *
          (b : K)^lastPlace b p x := by rw [he, abs_mul, abs_of_pos hpos, mul_assoc]
      _ ≤ 1*(b : K)^lastPlace b p x := mul_le_mul_of_nonneg_right herror hpos.le
      _ ≤ (b : K)^(k-p) := by
        rw [one_mul]
        exact zpow_le_zpow_right₀ (one_lt_base hb).le (lastPlace_le hb hx h)

theorem nearest_exact (hb : 1 < b) {x : K} {m : ℤ} {j : ℤ} (hm : |m| < (b : ℤ)^p)
    (hx : x = m*(b : K)^j) : nearest b p x = x := by
  by_cases h0 : x = 0
  · rw [h0, nearest_zero]
  · have hj : (0 : K) < (b : K)^j := zpow_base_pos hb j
    have habs : |x| < (b : K)^(p+j : ℤ) := by
      have hcast : |(m : K)| < (b : K)^p := by exact_mod_cast hm
      rw [hx, abs_mul, abs_of_pos hj, zpow_add₀ (base_ne_zero hb), zpow_natCast]
      exact mul_lt_mul_of_pos_right hcast hj
    have hplace := lastPlace_le (p := p) hb h0 habs
    unfold nearest
    generalize lastPlace b p x = l at hplace ⊢
    obtain ⟨n, hn⟩ : ∃ n : ℕ, j = l+n := ⟨(j-l).toNat, by omega⟩
    have hpos : (0 : K) < (b : K)^l := zpow_base_pos hb l
    have hdiv : x/(b : K)^l = ((m*(b : ℤ)^n : ℤ) : K) := by
      rw [div_eq_iff hpos.ne', hx]
      push_cast
      rw [mul_assoc, mul_comm ((b : K)^n), ← zpow_natCast, ← zpow_add₀ (base_ne_zero hb), ← hn]
    rw [hdiv, nearestEven_intCast, ← hdiv, div_mul_cancel₀ _ hpos.ne']

theorem zpow_le_nearest (hb : 1 < b) (hp : 0 < p) {x : K} {k : ℤ} (h : (b : K)^k ≤ x) :
    (b : K)^k ≤ nearest b p x := by
  have hx : 0 < x := (zpow_base_pos hb k).trans_le h
  have hpos : (0 : K) < (b : K)^lastPlace b p x := zpow_base_pos hb _
  have hlog : (b : K)^Int.log b x ≤ x := Int.zpow_log_le_self hb hx
  have hk : k ≤ Int.log b x := (Int.zpow_le_iff_le_log hb hx).mp h
  obtain ⟨n, hn⟩ : ∃ n : ℕ, Int.log b x = lastPlace b p x+n := by
    refine ⟨p-1, ?_⟩
    rw [lastPlace, abs_of_pos hx]
    omega
  have hpow : (b : K)^Int.log b x = (((b : ℤ)^n : ℤ) : K)*(b : K)^lastPlace b p x := by
    rw [hn, zpow_add₀ (base_ne_zero hb), zpow_natCast, mul_comm]
    push_cast
    rfl
  have hround : ((b : ℤ)^n : ℤ) ≤ nearestEven (x/(b : K)^lastPlace b p x) := by
    rw [← nearestEven_intCast (K := K) ((b : ℤ)^n)]
    apply nearestEven_mono
    rw [le_div_iff₀ hpos, ← hpow]
    exact hlog
  calc (b : K)^k ≤ (b : K)^Int.log b x := zpow_le_zpow_right₀ (one_lt_base hb).le hk
    _ = (((b : ℤ)^n : ℤ) : K)*(b : K)^lastPlace b p x := hpow
    _ ≤ nearest b p x := by
      apply mul_le_mul_of_nonneg_right _ hpos.le
      exact_mod_cast hround

theorem nearest_nonneg (hb : 1 < b) {x : K} (h : 0 ≤ x) : 0 ≤ nearest b p x := by
  have hpos : (0 : K) < (b : K)^lastPlace b p x := zpow_base_pos hb _
  have hround : 0 ≤ nearestEven (x/(b : K)^lastPlace b p x) :=
    nearestEven_nonneg (div_nonneg h hpos.le)
  exact mul_nonneg (by exact_mod_cast hround) hpos.le

theorem nearest_nonpos (hb : 1 < b) {x : K} (h : x ≤ 0) : nearest b p x ≤ 0 := by
  have hneg : 0 ≤ nearest b p (-x) := nearest_nonneg hb (by linarith)
  rw [nearest_neg] at hneg
  linarith

theorem nearest_eq_zero (hb : 1 < b) (hp : 0 < p) {x : K} : nearest b p x = 0 ↔ x = 0 := by
  have hpositive : ∀ y : K, 0 < y → nearest b p y ≠ 0 := by
    intro y hy
    have hle := zpow_le_nearest hb hp (Int.zpow_log_le_self hb hy)
    exact ((zpow_base_pos hb _).trans_le hle).ne'
  constructor
  · intro h
    rcases lt_trichotomy x 0 with hx | hx | hx
    · apply absurd _ (hpositive (-x) (by linarith))
      rw [nearest_neg, h, neg_zero]
    · exact hx
    · exact absurd h (hpositive x hx)
  · intro h
    rw [h, nearest_zero]

/-- A rounded number has at most `p` digits. -/
theorem nearest_digits (hb : 1 < b) (hp : 0 < p) (x : K) :
    ∃ (m : ℤ) (j : ℤ), |m| < (b : ℤ)^p ∧ nearest b p x = m*(b : K)^j := by
  by_cases hx : x = 0
  · refine ⟨0, 0, ?_, by rw [hx, nearest_zero, Int.cast_zero, zero_mul]⟩
    rw [abs_zero]
    positivity
  · have hpos : (0 : K) < (b : K)^lastPlace b p x := zpow_base_pos hb _
    have hlog := Int.lt_zpow_succ_log_self hb |x|
    have hsplit : (b : K)^(Int.log b |x|+1) = (((b : ℤ)^p : ℤ) : K)*(b : K)^lastPlace b p x := by
      have he : Int.log b |x|+1 = p+lastPlace b p x := by
        unfold lastPlace
        omega
      rw [he, zpow_add₀ (base_ne_zero hb), zpow_natCast]
      push_cast
      rfl
    rw [hsplit, ← div_lt_iff₀ hpos] at hlog
    have hdiv : |x/(b : K)^lastPlace b p x| < (((b : ℤ)^p : ℤ) : K) := by
      rwa [abs_div, abs_of_pos hpos]
    obtain ⟨h1, h2⟩ := abs_lt.mp hdiv
    have hle : |nearestEven (x/(b : K)^lastPlace b p x)| ≤ (b : ℤ)^p := by
      rw [abs_le]
      constructor
      · rw [← nearestEven_intCast (K := K) (-(b : ℤ)^p)]
        apply nearestEven_mono
        push_cast at h1 ⊢
        exact h1.le
      · rw [← nearestEven_intCast (K := K) ((b : ℤ)^p)]
        exact nearestEven_mono h2.le
    rcases hle.lt_or_eq with hlt | heq
    · exact ⟨_, _, hlt, rfl⟩
    · -- a carry leaves a single digit
      have hone : (1 : ℤ) < (b : ℤ)^p := by exact_mod_cast Nat.one_lt_pow hp.ne' hb
      rw [nearest]
      rcases abs_choice (nearestEven (x/(b : K)^lastPlace b p x)) with habs | habs
      · refine ⟨1, p+lastPlace b p x, by rwa [abs_one], ?_⟩
        rw [← habs, heq, zpow_add₀ (base_ne_zero hb), zpow_natCast]
        push_cast
        ring
      · refine ⟨-1, p+lastPlace b p x, by rwa [abs_neg, abs_one], ?_⟩
        have hneg : nearestEven (x/(b : K)^lastPlace b p x) = -(b : ℤ)^p := by omega
        rw [hneg, zpow_add₀ (base_ne_zero hb), zpow_natCast]
        push_cast
        ring

theorem nearest_idem (hb : 1 < b) (hp : 0 < p) (x : K) :
    nearest b p (nearest b p x) = nearest b p x := by
  obtain ⟨m, j, hm, hx⟩ := nearest_digits hb hp x
  exact nearest_exact hb hm hx

theorem nearest_eq_self (hb : 1 < b) (hp : 0 < p) {x : K} :
    nearest b p x = x ↔ ∃ (m : ℤ) (j : ℤ), |m| < (b : ℤ)^p ∧ x = m*(b : K)^j := by
  constructor
  · intro h
    obtain ⟨m, j, hm, hx⟩ := nearest_digits hb hp x
    exact ⟨m, j, hm, h.symm.trans hx⟩
  · intro h
    obtain ⟨m, j, hm, hx⟩ := h
    exact nearest_exact hb hm hx

end Base

/-- A number of `s` places after the point, of at most `N` units of the last. -/
def Grid (b s N : ℕ) (x : K) : Prop := ∃ m : ℤ, |m| ≤ N ∧ x = m*(b : K)^(-(s : ℤ))

section Grids
variable {b s t N M : ℕ} {x y : K}

theorem Grid.neg (h : Grid b s N x) : Grid b s N (-x) := by
  obtain ⟨m, hm, rfl⟩ := h
  refine ⟨-m, by rwa [abs_neg], ?_⟩
  push_cast
  ring

theorem Grid.add (hx : Grid b s N x) (hy : Grid b s M y) : Grid b s (N+M) (x+y) := by
  obtain ⟨m, hm, rfl⟩ := hx
  obtain ⟨n, hn, rfl⟩ := hy
  refine ⟨m+n, (abs_add_le m n).trans ?_, ?_⟩
  · push_cast
    omega
  · push_cast
    ring

theorem Grid.sub (hx : Grid b s N x) (hy : Grid b s M y) : Grid b s (N+M) (x-y) := by
  rw [sub_eq_add_neg]
  exact hx.add hy.neg

theorem Grid.abs (h : Grid b s N x) : Grid b s N |x| := by
  rcases abs_choice x with habs | habs
  · rwa [habs]
  · rw [habs]
    exact h.neg

theorem Grid.max (hx : Grid b s N x) (hy : Grid b s N y) : Grid b s N (max x y) := by
  rcases max_choice x y with h | h
  · rwa [h]
  · rwa [h]

theorem Grid.mono (h : Grid b s N x) (hle : N ≤ M) : Grid b s M x := by
  obtain ⟨m, hm, hx⟩ := h
  exact ⟨m, hm.trans (by exact_mod_cast hle), hx⟩

theorem Grid.mul (hb : 1 < b) (hx : Grid b s N x) (hy : Grid b t M y) :
    Grid b (s+t) (N*M) (x*y) := by
  obtain ⟨m, hm, rfl⟩ := hx
  obtain ⟨n, hn, rfl⟩ := hy
  refine ⟨m*n, ?_, ?_⟩
  · rw [abs_mul]
    push_cast
    exact mul_le_mul hm hn (abs_nonneg n) (Int.natCast_nonneg N)
  · have hsum : -((s+t : ℕ) : ℤ) = -(s : ℤ)+-(t : ℤ) := by
      push_cast
      ring
    rw [hsum, zpow_add₀ (base_ne_zero hb)]
    push_cast
    ring

theorem Grid.refine (hb : 1 < b) (h : Grid b s N x) (t : ℕ) : Grid b (s+t) (N*b^t) x := by
  obtain ⟨m, hm, rfl⟩ := h
  refine ⟨m*(b : ℤ)^t, ?_, ?_⟩
  · have hbt : (0 : ℤ) ≤ (b : ℤ)^t := by positivity
    rw [abs_mul, abs_of_nonneg hbt]
    push_cast
    exact mul_le_mul_of_nonneg_right hm hbt
  · have hsplit : -(s : ℤ) = (t : ℤ)+-((s+t : ℕ) : ℤ) := by
      push_cast
      ring
    rw [hsplit, zpow_add₀ (base_ne_zero hb), zpow_natCast]
    push_cast
    ring

theorem Grid.nearest {p : ℕ} (hb : 1 < b) (h : Grid b s N x) (hN : N < b^p) :
    Rounding.nearest b p x = x := by
  obtain ⟨m, hm, hx⟩ := h
  exact nearest_exact hb (hm.trans_lt (by exact_mod_cast hN)) hx

end Grids

def HalfWay (x : K) : Prop := ∃ n : ℤ, 2*x = 2*n+1

/-- A computed value keeps to the exact one where that is half way between two
integers, or strays from it to the even one. -/
def Settled (exact computed : K) : Prop :=
  HalfWay exact → computed = exact ∨ (computed < exact ↔ Even ⌊exact⌋)

theorem nearestEven_of_gap {x y δ : K} (hclose : 2*|y-x| < δ)
    (hgap : ∀ n : ℤ, δ ≤ |2*x-(2*n+1)|) : nearestEven y = nearestEven x := by
  have herror := nearestEven_error x
  have hup := hgap (nearestEven x)
  have hdown := hgap (nearestEven x-1)
  generalize nearestEven x = n at *
  obtain ⟨h1, h2⟩ := abs_le.mp (show |x-n| ≤ 1/2 by linarith)
  obtain ⟨h3, h4⟩ := abs_lt.mp (show |y-x| < δ/2 by linarith)
  push_cast at hdown
  rw [abs_of_nonpos (by linarith)] at hup
  rw [abs_of_nonneg (by linarith)] at hdown
  apply nearestEven_eq
  have hlt : |y-n| < 1/2 := abs_lt.mpr ⟨by linarith, by linarith⟩
  linarith

theorem nearestEven_of_halfWay {x y : K} (hclose : 2*|y-x| < 1) (hhalf : HalfWay x) :
    nearestEven y = nearestEven x ↔ y = x ∨ (y < x ↔ Even ⌊x⌋) := by
  obtain ⟨n, hn⟩ := hhalf
  have hfloor : ⌊x⌋ = n := by
    rw [Int.floor_eq_iff]
    constructor <;> linarith
  have hround := nearestEven_half hn
  obtain ⟨h1, h2⟩ := abs_lt.mp (show |y-x| < 1/2 by linarith)
  rw [hfloor, hround]
  rcases lt_trichotomy y x with hlt | heq | hgt
  · have hy : nearestEven y = n := by
      apply nearestEven_eq
      rw [abs_of_pos (by linarith)]
      linarith
    rw [hy]
    by_cases heven : Even n
    · simp [hlt, heven]
    · simp [hlt, hlt.ne, heven]
  · rw [heq, hround]
    simp
  · have hy : nearestEven y = n+1 := by
      apply nearestEven_eq
      push_cast
      rw [abs_of_neg (by linarith)]
      linarith
    rw [hy]
    by_cases heven : Even n
    · simp [hgt.le, hgt.ne', heven]
    · simp [hgt.le, heven]

/-- A computed value that is closer to the exact one than that is to any half
it does not lie on rounds to the same integer exactly when it is settled. -/
theorem nearestEven_settled {x y δ : K} (hδ : δ ≤ 1) (hclose : 2*|y-x| < δ)
    (hgap : ∀ n : ℤ, 2*x ≠ 2*n+1 → δ ≤ |2*x-(2*n+1)|) :
    nearestEven y = nearestEven x ↔ Settled x y := by
  by_cases hhalf : HalfWay x
  · rw [nearestEven_of_halfWay (hclose.trans_le hδ) hhalf, Settled]
    exact ⟨fun h _ => h, fun h => h hhalf⟩
  · have heq := nearestEven_of_gap hclose fun n => hgap n fun hn => hhalf ⟨n, hn⟩
    exact ⟨fun _ h => absurd h hhalf, fun _ => heq⟩

theorem ratio_gap {x : K} {N : ℤ} {B : ℕ} (hB : 0 < B) (hx : x = N/B) (n : ℤ)
    (hne : 2*x ≠ 2*n+1) : 1/(B : K) ≤ |2*x-(2*n+1)| := by
  have hpos : (0 : K) < B := by exact_mod_cast hB
  have he : 2*x-(2*n+1) = ((2*N-(2*n+1)*B : ℤ) : K)/B := by
    rw [hx]
    push_cast
    field_simp
  have hz : 2*N-(2*n+1)*B ≠ 0 := by
    intro h0
    rw [h0] at he
    apply hne
    rw [Int.cast_zero, zero_div] at he
    linarith
  rw [he, abs_div, abs_of_pos hpos]
  apply div_le_div_of_nonneg_right _ hpos.le
  exact_mod_cast Int.one_le_abs hz

end Workbench.Rounding
