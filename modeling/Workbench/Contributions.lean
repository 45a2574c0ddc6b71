import Mathlib.Algebra.Order.Group.MinMax
import Workbench.Nearest
import Workbench.Scores

/-!
# Contributions in exact arithmetic

What a feature contributes in exact rational arithmetic, and what the steps of
the computation contribute when each is rounded to the 80 digits of the
context. The two agree but for half-way contributions that the rounded steps
carry to the odd side.
-/

set_option autoImplicit false

namespace Workbench.Contributions
open Workbench.Listing Workbench.Decimals Workbench.Calendar Workbench.Raising
open Workbench.Records Workbench.Evidence Workbench.Candidates Workbench.Scoring
open Workbench.DecimalRounding Workbench.Rounding Workbench.Nearest Workbench.Scores

def similarity (distance band : ℚ) : ℚ :=
  if band = 0 then if distance = 0 then 1 else 0 else max 0 (1-distance/band)

/-- The same with the quotient and the rest rounded to `p` digits. -/
def roundedSimilarity (p : ℕ) (distance band : ℚ) : ℚ :=
  if band = 0 then if distance = 0 then 1 else 0
  else max 0 (nearest 10 p (1-nearest 10 p (distance/band)))

def share (weight : ℕ) (distance band : ℚ) : ℚ := weight*similarity distance band

def roundedShare (p weight : ℕ) (distance band : ℚ) : ℚ :=
  nearest 10 p (weight*roundedSimilarity p distance band)

theorem similarity_nonneg (distance band : ℚ) : 0 ≤ similarity distance band := by
  unfold similarity
  split_ifs
  · exact zero_le_one
  · exact le_rfl
  · exact le_max_left _ _

theorem similarity_le {distance band : ℚ} (hd : 0 ≤ distance) (hb : 0 ≤ band) :
    similarity distance band ≤ 1 := by
  unfold similarity
  split_ifs
  · exact le_rfl
  · exact zero_le_one
  · apply max_le zero_le_one
    have := div_nonneg hd hb
    linarith

theorem roundedSimilarity_nonneg (p : ℕ) (distance band : ℚ) :
    0 ≤ roundedSimilarity p distance band := by
  unfold roundedSimilarity
  split_ifs
  · exact zero_le_one
  · exact le_rfl
  · exact le_max_left _ _

theorem similarity_past {p : ℕ} (hp : 0 < p) {distance band : ℚ} (hb : 0 < band)
    (h : band ≤ distance) : similarity distance band = 0 ∧
      roundedSimilarity p distance band = 0 := by
  have hone : 1 ≤ distance/band := (one_le_div hb).mpr h
  have hquotient : (1 : ℚ) ≤ nearest 10 p (distance/band) := by
    have := @zpow_le_nearest ℚ _ _ _ _ 10 p ten_base hp (distance/band) 0 (by simpa using hone)
    simpa using this
  have hrest : nearest 10 p (1-nearest 10 p (distance/band)) ≤ 0 :=
    nearest_nonpos ten_base (by linarith)
  constructor
  · rw [similarity, if_neg hb.ne']
    exact max_eq_left (by linarith)
  · rw [roundedSimilarity, if_neg hb.ne']
    exact max_eq_left hrest

theorem rest_within {p : ℕ} {x : ℚ} (h0 : 0 ≤ x) (h1 : x < 1) :
    |max 0 (nearest 10 p (1-nearest 10 p x))-max 0 (1-x)| ≤ (10 : ℚ)^(1-(p : ℤ)) := by
  have hquotient := @nearest_error ℚ _ _ _ _ 10 p ten_base x 0
    (by rw [abs_of_nonneg h0, zpow_zero]; exact h1)
  have hpos := @nearest_nonneg ℚ _ _ _ _ 10 p ten_base _ h0
  generalize nearest 10 p x = q at *
  have hscale : (10 : ℚ)^(1-(p : ℤ)) = 10*10^(0-(p : ℤ)) := by
    rw [← zpow_one_add₀ (by norm_num)]
    congr 1
    ring
  have hsmall : (10 : ℚ)^(0-(p : ℤ)) ≤ 1 := zpow_le_one_of_nonpos₀ (by norm_num) (by omega)
  have hunit : (0 : ℚ) < 10^(0-(p : ℤ)) := by positivity
  push_cast at hquotient
  obtain ⟨h2, h3⟩ := abs_le.mp (show |x-q| ≤ 10^(0-(p : ℤ))/2 by linarith)
  have hrest := @nearest_error ℚ _ _ _ _ 10 p ten_base (1-q) 1
    (by rw [abs_lt, zpow_one]; push_cast; constructor <;> linarith)
  push_cast at hrest
  generalize nearest 10 p (1-q) = s at *
  obtain ⟨h4, h5⟩ := abs_le.mp (show |1-q-s| ≤ 10^(1-(p : ℤ))/2 by linarith)
  have hlip := abs_max_sub_max_le_abs s (1-x) 0
  rw [max_comm 0 s, max_comm 0 (1-x)]
  refine hlip.trans (abs_le.mpr ⟨?_, ?_⟩)
  · linarith
  · linarith

theorem similarity_close {distance band : ℚ} (hd : 0 ≤ distance) (hb : 0 ≤ band) :
    |roundedSimilarity precision distance band-similarity distance band| ≤ (10 : ℚ)^(-79 : ℤ) := by
  rcases hb.eq_or_lt with h0 | hpos
  · rw [roundedSimilarity, similarity, if_pos h0.symm, if_pos h0.symm, sub_self, abs_zero]
    positivity
  · by_cases hpast : band ≤ distance
    · obtain ⟨h1, h2⟩ := @similarity_past precision (by decide) distance band hpos hpast
      rw [h1, h2, sub_self, abs_zero]
      positivity
    · have h := @rest_within precision (distance/band) (div_nonneg hd hb)
        ((div_lt_one hpos).mpr (not_le.mp hpast))
      rw [roundedSimilarity, similarity, if_neg hpos.ne', if_neg hpos.ne']
      exact h

/-- The rounded steps stray far less than a contribution lies from a half that
it does not lie on. -/
theorem share_close {distance band : ℚ} {weight : ℕ} (hd : 0 ≤ distance) (hb : 0 ≤ band)
    (hw : weight ≤ scoreScaleBp) :
    2*|roundedShare precision weight distance band-share weight distance band| <
      (10 : ℚ)^(-62 : ℤ) := by
  have hclose := similarity_close hd hb
  have h0 := similarity_nonneg distance band
  have h1 := similarity_le hd hb
  have hr0 := roundedSimilarity_nonneg precision distance band
  have hw0 : (0 : ℚ) ≤ weight := Nat.cast_nonneg weight
  have hw1 : (weight : ℚ) ≤ 10000 := by exact_mod_cast hw
  unfold roundedShare share
  generalize roundedSimilarity precision distance band = s at *
  generalize similarity distance band = t at *
  have hsmall : (10 : ℚ)^(-79 : ℤ) ≤ 1 := by norm_num
  have hten : 10000*(10 : ℚ)^(-79 : ℤ) = (10 : ℚ)^(-75 : ℤ) := by norm_num
  have hfinal : 3*(10 : ℚ)^(-75 : ℤ) < (10 : ℚ)^(-62 : ℤ) := by norm_num
  generalize (weight : ℚ) = w at *
  obtain ⟨ε, hε⟩ : ∃ ε : ℚ, (10 : ℚ)^(-79 : ℤ) = ε := ⟨_, rfl⟩
  rw [hε] at hclose hsmall hten
  have hproduct : |w*s-w*t| ≤ 10000*ε := by
    rw [← mul_sub, abs_mul, abs_of_nonneg hw0]
    exact mul_le_mul hw1 hclose (by positivity) (by norm_num)
  obtain ⟨h2, h3⟩ := abs_le.mp hclose
  have hpow : ((10 : ℕ) : ℚ)^(5 : ℤ) = 100000 := by norm_num
  have hbound : |w*s| < ((10 : ℕ) : ℚ)^(5 : ℤ) := by
    rw [abs_of_nonneg (mul_nonneg hw0 hr0), hpow]
    have hs : s ≤ 2 := by linarith
    nlinarith
  have hround := @nearest_error ℚ _ _ _ _ 10 precision ten_base _ _ hbound
  generalize nearest 10 precision (w*s) = r at hround ⊢
  have htriangle : |r-w*t| ≤ |r-w*s|+|w*s-w*t| := abs_sub_le _ _ _
  rw [abs_sub_comm r (w*s)] at htriangle
  have hlast : ((10 : ℕ) : ℚ)^(5-(precision : ℤ)) = (10 : ℚ)^(-75 : ℤ) := by norm_num [precision]
  rw [hlast] at hround
  linarith

theorem similarity_ratio {s N M : ℕ} {distance band : ℚ} (hd : Grid 10 s N distance)
    (hb : Grid 10 s M band) (hb0 : 0 ≤ band) :
    ∃ (n : ℤ) (B : ℕ), 0 < B ∧ B ≤ max M 1 ∧ similarity distance band = n/B := by
  by_cases h0 : band = 0
  · refine ⟨if distance = 0 then 1 else 0, 1, one_pos, le_max_right _ _, ?_⟩
    rw [similarity, if_pos h0]
    split_ifs <;> norm_num
  · obtain ⟨d, -, hdd⟩ := hd
    obtain ⟨m, hm, hbm⟩ := hb
    have hz : (0 : ℚ) < (10 : ℕ)^(-(s : ℤ)) := by positivity
    have hmpos : 0 < m := by
      by_contra hle
      apply h0
      apply le_antisymm _ hb0
      rw [hbm]
      apply mul_nonpos_of_nonpos_of_nonneg _ hz.le
      exact_mod_cast not_lt.mp hle
    obtain ⟨B, rfl⟩ := Int.eq_ofNat_of_zero_le hmpos.le
    have hB : 0 < B := by exact_mod_cast hmpos
    have hBq : (B : ℚ) ≠ 0 := by exact_mod_cast hB.ne'
    have hBM : B ≤ max M 1 := by
      apply le_trans _ (le_max_left M 1)
      rw [abs_of_nonneg hmpos.le] at hm
      exact_mod_cast hm
    have hratio : distance/band = d/B := by
      rw [hdd, hbm, mul_div_mul_right _ _ hz.ne', Int.cast_natCast]
    refine ⟨max 0 (B-d), B, hB, hBM, ?_⟩
    rw [similarity, if_neg h0, hratio]
    have hrest : 1-(d : ℚ)/B = ((B-d : ℤ) : ℚ)/B := by
      push_cast
      field_simp
    rw [hrest]
    have hpos : (0 : ℚ) < B := by exact_mod_cast hB
    rcases le_total 0 ((B : ℤ)-d) with h | h
    · rw [max_eq_right h, max_eq_right]
      apply div_nonneg _ hpos.le
      exact_mod_cast h
    · rw [max_eq_left h, max_eq_left]
      · simp
      · apply div_nonpos_of_nonpos_of_nonneg _ hpos.le
        exact_mod_cast h

/-- The rounded steps give the exact contribution exactly when they settle a
half-way one. -/
theorem share_settled {s N M : ℕ} {distance band : ℚ} {weight : ℕ} (hd : Grid 10 s N distance)
    (hb : Grid 10 s M band) (hM : M ≤ 10^62) (hd0 : 0 ≤ distance) (hb0 : 0 ≤ band)
    (hw : weight ≤ scoreScaleBp) :
    nearestEven (roundedShare precision weight distance band) =
        nearestEven (share weight distance band) ↔
      Settled (share weight distance band) (roundedShare precision weight distance band) := by
  have hone : (10 : ℚ)^(-62 : ℤ) ≤ 1 := by norm_num
  apply nearestEven_settled hone (share_close hd0 hb0 hw)
  intro n hn
  obtain ⟨m, B, hB, hBM, hs⟩ := similarity_ratio hd hb hb0
  have hratio : share weight distance band = ((weight*m : ℤ) : ℚ)/B := by
    rw [share, hs]
    push_cast
    ring
  apply le_trans _ (ratio_gap hB hratio n hn)
  have hpos : (0 : ℚ) < B := by exact_mod_cast hB
  have hle : (B : ℚ) ≤ 10^62 := by
    exact_mod_cast hBM.trans (max_le hM (by norm_num))
  rw [zpow_neg, ← one_div]
  exact one_div_le_one_div_of_le hpos hle

theorem value_eq_zero {d : Decimal} : value d = 0 ↔ d.coefficient = 0 := by
  rw [← size_eq_zero, ← abs_value, abs_eq_zero]

theorem value_larger (a b : Decimal) : value (larger a b) = max (value a) (value b) := by
  unfold larger
  split_ifs with h
  · exact (max_eq_right (lt_iff.mp h).le).symm
  · exact (max_eq_left (not_lt.mp fun hlt => h (lt_iff.mpr hlt))).symm

theorem value_zero : value (ofInt 0) = 0 := by simpa using value_ofInt 0

theorem value_one : value (ofInt 1) = 1 := by simpa using value_ofInt 1

def Moderate (d : Decimal) : Prop := -1000 ≤ d.exponent ∧ size d ≤ 10^200

theorem moderate_digits {d : Decimal} (h : Moderate d) (hc : d.coefficient ≠ 0) :
    d.exponent+digits d.coefficient ≤ 201 := by
  have := leading_exponent (k := 200) hc (by exact_mod_cast h.2)
  omega

theorem quotient_value {difference band q : Decimal}
    (h : div precision difference band = some q) (hd : Moderate difference) (hb : Moderate band)
    (hb0 : band.coefficient ≠ 0) (hd0 : 0 ≤ value difference) (hv : 0 ≤ value band) :
    value q = nearest 10 precision (value difference/value band) ∧ -3000 ≤ q.exponent := by
  have hdigits := moderate_digits hb hb0
  have hexp : (-3000 : ℤ) ≤ difference.exponent-band.exponent-digits band.coefficient-precision := by
    have := hd.1
    unfold precision
    omega
  have hsize := div_nearest (by decide) h (le_trans (by norm_num) hexp)
  rw [size_of_nonneg (div_nonneg_value h hd0 hv), size_of_nonneg hd0, size_of_nonneg hv] at hsize
  exact ⟨hsize, div_exponent (by norm_num) h hexp⟩

theorem linearSimilarity_nearest {difference band f : Decimal}
    (h : linearSimilarity difference band = some f) (hd : Moderate difference)
    (hb : Moderate band) (hd0 : 0 ≤ value difference) (hb0 : 0 ≤ value band) :
    value f = roundedSimilarity precision (value difference) (value band) ∧
      -3000 ≤ f.exponent := by
  unfold linearSimilarity at h
  by_cases hband : band.coefficient = 0
  · rw [if_pos hband, Option.some.injEq] at h
    rw [roundedSimilarity, if_pos (value_eq_zero.mpr hband), ← h]
    by_cases hdiff : difference.coefficient = 0
    · rw [if_pos hdiff, if_pos (value_eq_zero.mpr hdiff)]
      exact ⟨value_one, by simp [ofInt]⟩
    · rw [if_neg hdiff, if_neg fun h0 => hdiff (value_eq_zero.mp h0)]
      exact ⟨value_zero, by simp [ofInt]⟩
  · rw [if_neg hband] at h
    simp only [Option.bind_eq_bind, Option.bind_eq_some_iff] at h
    obtain ⟨q, hq, s, hs, hf⟩ := h
    obtain ⟨hqv, hqe⟩ := quotient_value hq hd hb hband hd0 hb0
    have hsv := sub_nearest (by decide) hs (by simp [ofInt]) (le_trans (by norm_num) hqe)
    have hse : -3000 ≤ s.exponent :=
      add_exponent (by norm_num) hs (by simp [ofInt]) hqe
    have hfl : larger (ofInt 0) s = f := Option.some.inj hf
    rw [roundedSimilarity, if_neg fun h0 => hband (value_eq_zero.mp h0), ← hfl, value_larger,
      value_zero, hsv, value_one, hqv]
    exact ⟨rfl, larger_exponent (by simp [ofInt]) hse⟩

theorem quantizeBp_nearest {factor d : Decimal} {m : ℕ} {z : ℤ} {t : ℚ}
    (hd : mul precision (ofInt m) factor = some d) (hz : quantizeBp d = some z)
    (ht : value factor = t) (h0 : 0 ≤ t) (he : -3000 ≤ factor.exponent) :
    z = nearestEven (nearest 10 precision (m*t)) := by
  have hexp : -999999 ≤ (ofInt m).exponent+factor.exponent := by
    have : (ofInt m).exponent = 0 := rfl
    omega
  have hv := mul_nearest (by decide) hd hexp
  rw [value_ofInt, ht] at hv
  have hd0 : 0 ≤ value d := by
    rw [hv]
    exact nearest_nonneg ten_base (by positivity)
  obtain ⟨r, hr, hzr⟩ := Option.map_eq_some_iff.mp hz
  rw [← hzr, quantize_nearest (by decide) hr hd0, hv]

theorem weighted_nearest {difference band : Decimal} {m : ℕ} {s c : ℤ}
    (h : weighted difference band m = some (s, c)) (hd : Moderate difference)
    (hb : Moderate band) (hd0 : 0 ≤ value difference) (hb0 : 0 ≤ value band) :
    c = nearestEven (roundedShare precision m (value difference) (value band)) := by
  simp only [weighted, Option.bind_eq_bind, Option.bind_eq_some_iff] at h
  obtain ⟨f, hf, _, _, _, _, b, hb', c', hc, he⟩ := h
  obtain ⟨hv, hexp⟩ := linearSimilarity_nearest hf hd hb hd0 hb0
  have hcc : c' = c := congrArg Prod.snd (Option.some.inj he)
  rw [← hcc]
  exact quantizeBp_nearest hb' hc hv (roundedSimilarity_nonneg _ _ _) hexp

theorem ordinary_grid {d : Decimal} (h : Ordinary d) : Grid 10 12 (10^50) (value d) := by
  have hexp : 0 ≤ d.exponent+(12 : ℕ) := by
    have := h.1
    omega
  have hunits : units 12 d ≤ 10^50 := by
    have hle : (d.exponent+(12 : ℕ)).toNat ≤ d.exponent.toNat+12 := by omega
    calc units 12 d ≤ d.coefficient*10^(d.exponent.toNat+12) :=
          Nat.mul_le_mul_left _ (Nat.pow_le_pow_right (by norm_num) hle)
      _ = d.coefficient*10^d.exponent.toNat*10^12 := by rw [pow_add, mul_assoc]
      _ ≤ 10^38*10^12 := Nat.mul_le_mul_right _ h.2.le
      _ = 10^50 := by rw [← pow_add]
  have hsize : Grid 10 12 (10^50) (size d) := by
    refine ⟨units 12 d, ?_, ?_⟩
    · rw [abs_of_nonneg (Int.natCast_nonneg _)]
      exact_mod_cast hunits
    · rw [units_size hexp]
      push_cast
      rfl
  rcases value_cases d with ⟨-, hv⟩ | ⟨-, hv⟩
  · rw [hv]
    exact hsize.neg
  · rwa [hv]

theorem Grid.abs_le {s N : ℕ} {x : ℚ} (h : Grid 10 s N x) : |x| ≤ N := by
  obtain ⟨m, hm, rfl⟩ := h
  have hz : ((10 : ℕ) : ℚ)^(-(s : ℤ)) ≤ 1 := zpow_le_one_of_nonpos₀ (by norm_num) (by omega)
  have hz0 : (0 : ℚ) < ((10 : ℕ) : ℚ)^(-(s : ℤ)) := by positivity
  have hcast : |(m : ℚ)| ≤ N := by exact_mod_cast hm
  rw [abs_mul, abs_of_pos hz0]
  calc |(m : ℚ)| * ((10 : ℕ) : ℚ)^(-(s : ℤ)) ≤ N*1 :=
        mul_le_mul hcast hz hz0.le (Nat.cast_nonneg N)
    _ = N := mul_one _

theorem Grid.moderate {s N : ℕ} {d : Decimal} (h : Grid 10 s N (value d)) (hN : N ≤ 10^200)
    (he : -1000 ≤ d.exponent) : Moderate d := by
  refine ⟨he, ?_⟩
  rw [← abs_value]
  exact (Grid.abs_le h).trans (by exact_mod_cast hN)

theorem fraction_grid {d : Decimal} (h : Ordinary d) (h0 : ofInt 0 ≤ d) (h1 : d ≤ ofInt 1) :
    Grid 10 12 (10^12) (value d) := by
  obtain ⟨m, -, hm⟩ := ordinary_grid h
  have hz : (0 : ℚ) < ((10 : ℕ) : ℚ)^(-((12 : ℕ) : ℤ)) := by positivity
  refine ⟨m, ?_, hm⟩
  have hv0 : 0 ≤ value d := nonneg_value h0
  have hv1 : value d ≤ 1 := value_one ▸ le_iff.mp h1
  rw [hm] at hv0 hv1
  have hm0 : (0 : ℚ) ≤ m := nonneg_of_mul_nonneg_left hv0 hz
  have hm1 : (m : ℚ) ≤ 10^12 := by
    norm_num at hv1
    linarith
  rw [abs_of_nonneg (by exact_mod_cast hm0)]
  exact_mod_cast hm1

def numericMeasure (policy : NumericSimilarityPolicy) (left right : Decimal) : ℚ × ℚ :=
  (|value right-value left|,
    max (value policy.absoluteBand)
      (value policy.relativeBand*max |value left| |value right|))

theorem numericMeasure_grid {policy : NumericSimilarityPolicy} {left right : Decimal}
    (hl : Ordinary left) (hr : Ordinary right) (hp : OrdinaryBands policy) :
    Grid 10 24 (10^63) (numericMeasure policy left right).1 ∧
      Grid 10 24 (10^62) (numericMeasure policy left right).2 := by
  constructor
  · have h := (((ordinary_grid hr).sub (ordinary_grid hl)).abs).refine ten_base 12
    exact h.mono (by norm_num)
  · apply Grid.max
    · have h := (ordinary_grid hp.absolute).refine ten_base 12
      exact h.mono (by norm_num)
    · have h := (fraction_grid hp.relative policy.relative_nonneg policy.relative_le).mul ten_base
        ((ordinary_grid hl).abs.max (ordinary_grid hr).abs)
      exact h.mono (by norm_num)

/-- The computed difference and band are exact. -/
theorem numericDifference_exact {left right d b : Decimal} {policy : NumericSimilarityPolicy}
    (h : numericDifference left right policy = some (d, b)) (hl : Ordinary left)
    (hr : Ordinary right) (hp : OrdinaryBands policy) :
    (value d, value b) = numericMeasure policy left right ∧ Moderate d ∧ Moderate b := by
  obtain ⟨hdistance, hband⟩ := numericMeasure_grid hl hr hp
  have hgl := ordinary_grid hl
  have hgr := ordinary_grid hr
  have hle := hl.1
  have hre := hr.1
  have habs := hp.absolute.1
  have hrel := hp.relative.1
  simp only [numericDifference, Option.bind_eq_bind, Option.bind_eq_some_iff] at h
  obtain ⟨x, hx, x', hx', la, hla, ra, hra, m, hm, he⟩ := h
  have hpair := Option.some.inj he
  have hxd : x' = d := congrArg Prod.fst hpair
  have hmb : larger policy.absoluteBand m = b := congrArg Prod.snd hpair
  have hxe : -12 ≤ x.exponent := add_exponent (by norm_num) hx hre hle
  have hxe' : -12 ≤ x'.exponent := abs_exponent (by norm_num) hx' hxe
  have hlae : -12 ≤ la.exponent := abs_exponent (by norm_num) hla hle
  have hrae : -12 ≤ ra.exponent := abs_exponent (by norm_num) hra hre
  have hlarge := larger_exponent hlae hrae
  have hme : -12+-12 ≤ m.exponent := mul_exponent (by norm_num) hm hrel hlarge
  have hbig : 10^63 < 10^precision := by decide
  have hxv : value x = value right-value left := by
    rw [sub_nearest (by decide) hx (by omega) (by omega)]
    exact (hgr.sub hgl).nearest ten_base (lt_of_le_of_lt (by norm_num) hbig)
  have hdv : value d = |value right-value left| := by
    rw [← hxd, abs_nearest (by decide) hx' (by omega), hxv]
    exact hdistance.nearest ten_base hbig
  have hlav : value la = |value left| := by
    rw [abs_nearest (by decide) hla (by omega)]
    exact hgl.abs.nearest ten_base (lt_of_le_of_lt (by norm_num) hbig)
  have hrav : value ra = |value right| := by
    rw [abs_nearest (by decide) hra (by omega)]
    exact hgr.abs.nearest ten_base (lt_of_le_of_lt (by norm_num) hbig)
  have hgm := (fraction_grid hp.relative policy.relative_nonneg policy.relative_le).mul ten_base
    (hgl.abs.max hgr.abs)
  have hmv : value m = value policy.relativeBand*max |value left| |value right| := by
    rw [mul_nearest (by decide) hm (by omega), value_larger, hlav, hrav]
    exact hgm.nearest ten_base (lt_of_le_of_lt (by norm_num) hbig)
  have hbv : value b = max (value policy.absoluteBand)
      (value policy.relativeBand*max |value left| |value right|) := by
    rw [← hmb, value_larger, hmv]
  have hbe : -24 ≤ b.exponent := by
    rw [← hmb]
    exact larger_exponent (by omega) hme
  have hdg : Grid 10 24 (10^63) (value d) := by
    rw [hdv]
    exact hdistance
  have hbg : Grid 10 24 (10^62) (value b) := by
    rw [hbv]
    exact hband
  refine ⟨Prod.ext hdv hbv, ?_, ?_⟩
  · apply Grid.moderate hdg (by norm_num)
    rw [← hxd]
    omega
  · apply Grid.moderate hbg (by norm_num)
    omega

def seconds (microseconds : ℤ) : ℚ := microseconds/1000000

def timestampMeasure (band : Duration) (left right : Instant) : ℚ × ℚ :=
  (|seconds ((right.val : ℤ)-left.val)|, seconds band.microseconds)

theorem seconds_grid {n : ℤ} {N : ℕ} (h : |n| ≤ N) : Grid 10 6 N (seconds n) := by
  refine ⟨n, h, ?_⟩
  unfold seconds
  norm_num
  ring

theorem seconds_abs (n : ℤ) : seconds |n| = |seconds n| := by
  have hz : (0 : ℚ) < 1000000 := by norm_num
  rw [seconds, seconds, abs_div, abs_of_pos hz]
  push_cast
  rfl

theorem seconds_nonneg {n : ℤ} (h : 0 ≤ n) : 0 ≤ seconds n := by
  have hn : (0 : ℚ) ≤ n := by exact_mod_cast h
  unfold seconds
  positivity

theorem value_ofInt_int (z : ℤ) : value (ofInt z) = z := by
  unfold value size ofInt
  rcases lt_or_ge z 0 with h | h
  · have hn : (z.natAbs : ℚ) = -z := by
      rw [Nat.cast_natAbs, abs_of_neg h]
      push_cast
      rfl
    simp [h, hn]
  · have hn : (z.natAbs : ℚ) = z := by rw [Nat.cast_natAbs, abs_of_nonneg h]
    simp [not_lt.mpr h, hn]

/-- The seconds of a duration are exact. -/
theorem timedeltaSeconds_exact {d : Duration} {s : Decimal} (h : timedeltaSeconds d = some s)
    (h0 : 0 ≤ d.microseconds) : value s = seconds d.microseconds ∧ Moderate s := by
  obtain ⟨s', hs', -, hsize, hexp⟩ := timedeltaSeconds_ok h0
  rw [h, Option.some.injEq] at hs'
  subst hs'
  simp only [timedeltaSeconds, Option.bind_eq_bind, Option.bind_eq_some_iff] at h
  obtain ⟨f, hf, hadd⟩ := h
  have hmillion : value (ofInt 1000000) = 1000000 := by
    rw [value_ofInt_int]
    norm_num
  have hmillion0 : 0 ≤ value (ofInt 1000000) := by
    rw [hmillion]
    norm_num
  have hfv0 : 0 ≤ value (ofInt (d.fraction : ℤ)) := by
    rw [value_ofInt_int]
    positivity
  have hdigits : digits (ofInt 1000000).coefficient = 7 := by decide
  have hfe : -1000 ≤ f.exponent := by
    apply div_exponent (by norm_num) hf
    rw [hdigits]
    simp [ofInt, precision]
  have hfs := div_nearest (by decide) hf (by rw [hdigits]; simp [ofInt, precision])
  rw [size_of_nonneg hfv0, size_of_nonneg hmillion0,
    size_of_nonneg (div_nonneg_value hf hfv0 hmillion0), hmillion, value_ofInt_int] at hfs
  have hfraction : |(d.fraction : ℤ)| ≤ ((10^6 : ℕ) : ℤ) := by
    unfold Duration.fraction
    rw [abs_of_nonneg (by omega)]
    push_cast
    omega
  have hfv : value f = seconds d.fraction := by
    rw [hfs]
    exact (seconds_grid hfraction).nearest ten_base (by decide)
  have hsum : ((d.days*86400+d.seconds : ℤ) : ℚ)+seconds d.fraction = seconds d.microseconds := by
    have hparts : d.microseconds = (d.days*86400+d.seconds)*1000000+d.fraction := by
      unfold Duration.days Duration.seconds Duration.fraction
      omega
    unfold seconds
    rw [hparts]
    push_cast
    ring
  have hbound : |d.microseconds| ≤ ((10^20 : ℕ) : ℤ) := by
    have := d.upper
    rw [abs_of_nonneg h0]
    push_cast
    omega
  constructor
  · rw [add_nearest (by decide) hadd (by simp [ofInt]) (by omega), value_ofInt_int, hfv, hsum]
    exact (seconds_grid hbound).nearest ten_base (by decide)
  · exact ⟨by omega, hsize.trans (by norm_num)⟩

def measure (policy : MatchingPolicy) (left right : MatchRecord) : MatchFeature → Option (ℚ × ℚ)
  | .quantity =>
    Option.map₂ (numericMeasure policy.quantitySimilarity) left.quantity right.quantity
  | .timestamp => Option.map₂ (timestampMeasure policy.timestampSimilarity.band) left.executedAt
    right.executedAt
  | .unitPrice =>
    Option.map₂ (numericMeasure policy.unitPriceSimilarity) left.unitPrice right.unitPrice
  | .grossAmount =>
    Option.map₂ (numericMeasure policy.grossAmountSimilarity) left.grossAmount right.grossAmount

/-- The exact share of a feature's weight, rounded half to even. -/
def exactContribution (policy : MatchingPolicy) (left right : MatchRecord) (f : MatchFeature) :
    ℤ :=
  (measure policy left right f).elim 0 fun m =>
    nearestEven (share (policy.weightBp f) m.1 m.2)

def computed (weight : ℕ) (m : Option (ℚ × ℚ)) : ℤ :=
  m.elim 0 fun m => nearestEven (roundedShare precision weight m.1 m.2)

/-- Where the exact share of a feature is half way between two integers, the
steps rounded to the context settle it. -/
def Steady (policy : MatchingPolicy) (left right : MatchRecord) (f : MatchFeature) : Prop :=
  ∀ m ∈ measure policy left right f, Settled (share (policy.weightBp f) m.1 m.2)
    (roundedShare precision (policy.weightBp f) m.1 m.2)

theorem create_contribution {feature : MatchFeature} {left right : ScalarValue}
    {difference : DifferenceValue} {band : Band} {present : Bool}
    {similarity weight contribution : ℤ} {rule : String} {e : FeatureEvidence}
    (h : FeatureEvidence.create feature left right difference band present similarity weight
      contribution rule = .ok e) : (e.contributionBp : ℤ) = contribution := by
  simp only [FeatureEvidence.create, bind_ok, exists_require, pure_ok, requiredText_ok,
    scoreBp_ok, exists_const] at h
  obtain ⟨-, -, hcontribution, -, -, -, -, -, -, rfl⟩ := h
  exact Int.toNat_of_nonneg hcontribution.1

theorem numericEvidence_computed {feature : MatchFeature} {left right : Option Decimal}
    {policy : NumericSimilarityPolicy} {weight : ℕ} {e : FeatureEvidence}
    (h : numericEvidence feature left right policy weight = .ok e)
    (hl : ∀ d ∈ left, Ordinary d) (hr : ∀ d ∈ right, Ordinary d) (hp : OrdinaryBands policy) :
    (e.contributionBp : ℤ) = computed weight (Option.map₂ (numericMeasure policy) left right) := by
  cases left with
  | none => exact create_contribution h
  | some l =>
    cases right with
    | none => exact create_contribution h
    | some r =>
      obtain ⟨d, b, hdb, hd0, -, hb0, -⟩ := numericDifference_ok (hl l rfl) (hr r rfl) hp
      obtain ⟨hexact, hdm, hbm⟩ := numericDifference_exact hdb (hl l rfl) (hr r rfl) hp
      simp only [numericEvidence, hdb, fetch, ok_bind] at h
      cases hw : weighted d b weight with
      | none =>
        rw [hw] at h
        cases h
      | some x =>
        rw [hw] at h
        simp only [ok_bind] at h
        rw [create_contribution h, weighted_nearest hw hdm hbm hd0 hb0, Option.map₂_some_some,
          ← hexact]
        rfl

theorem timestampEvidence_computed {left right : Option Instant} {band : Duration} {weight : ℕ}
    {e : FeatureEvidence} (h : timestampEvidence left right band weight = .ok e)
    (hband : 0 ≤ band.microseconds) :
    (e.contributionBp : ℤ) = computed weight (Option.map₂ (timestampMeasure band) left right) := by
  cases left with
  | none => exact create_contribution h
  | some l =>
    cases right with
    | none => exact create_contribution h
    | some r =>
      obtain ⟨d, hd, hd0, -⟩ := timedeltaSeconds_ok (between l r).microseconds_abs
      obtain ⟨b, hb, hb0, -⟩ := timedeltaSeconds_ok hband
      obtain ⟨hdv, hdm⟩ := timedeltaSeconds_exact hd (between l r).microseconds_abs
      obtain ⟨hbv, hbm⟩ := timedeltaSeconds_exact hb hband
      simp only [timestampEvidence, hd, hb, fetch, ok_bind] at h
      cases hw : weighted d b weight with
      | none =>
        rw [hw] at h
        cases h
      | some x =>
        rw [hw] at h
        simp only [ok_bind] at h
        have hdistance : value d = |seconds ((r.val : ℤ)-l.val)| := by
          rw [hdv, ← seconds_abs]
          rfl
        rw [create_contribution h, weighted_nearest hw hdm hbm hd0 hb0, Option.map₂_some_some,
          hdistance, hbv]
        rfl

theorem features_computed {policy : MatchingPolicy} {left right : MatchRecord}
    {fs : List FeatureEvidence} (h : features left right policy = .ok fs)
    (hl : OrdinaryRecord left) (hr : OrdinaryRecord right) (hp : OrdinaryPolicy policy) :
    ∀ e ∈ fs, (e.contributionBp : ℤ) =
      computed (policy.weightBp e.feature) (measure policy left right e.feature) := by
  simp only [features, bind_ok, pure_ok] at h
  obtain ⟨q, hq, t, ht, u, hu, g, hg, rfl⟩ := h
  simp only [List.forall_mem_cons, List.not_mem_nil, false_imp_iff, implies_true, and_true]
  rw [(numericEvidence_spec hq).1, (timestampEvidence_spec ht).1, (numericEvidence_spec hu).1,
    (numericEvidence_spec hg).1]
  exact ⟨numericEvidence_computed hq hl.quantity hr.quantity hp.quantity,
    timestampEvidence_computed ht policy.timestampSimilarity.band_nonneg,
    numericEvidence_computed hu hl.unitPrice hr.unitPrice hp.unitPrice,
    numericEvidence_computed hg hl.grossAmount hr.grossAmount hp.grossAmount⟩

theorem timestampMeasure_grid (band : Duration) (left right : Instant) :
    Grid 10 6 (10^20) (timestampMeasure band left right).1 ∧
      Grid 10 6 (10^20) (timestampMeasure band left right).2 := by
  have h1 := band.lower
  have h2 := band.upper
  constructor
  · apply (seconds_grid _).abs
    rw [abs_le]
    push_cast
    omega
  · apply seconds_grid
    rw [abs_le]
    push_cast
    omega

section Scores
variable {policy : MatchingPolicy} {left right : MatchRecord}

theorem measure_grid (hl : OrdinaryRecord left) (hr : OrdinaryRecord right)
    (hp : OrdinaryPolicy policy) {f : MatchFeature} {m : ℚ × ℚ}
    (hm : m ∈ measure policy left right f) : ∃ s N M, Grid 10 s N m.1 ∧ Grid 10 s M m.2 ∧
      M ≤ 10^62 ∧ 0 ≤ m.1 ∧ 0 ≤ m.2 := by
  have hnumeric : ∀ {similarity : NumericSimilarityPolicy} {a b : Option Decimal},
      (∀ d ∈ a, Ordinary d) → (∀ d ∈ b, Ordinary d) → OrdinaryBands similarity →
      m ∈ Option.map₂ (numericMeasure similarity) a b → ∃ s N M, Grid 10 s N m.1 ∧
        Grid 10 s M m.2 ∧ M ≤ 10^62 ∧ 0 ≤ m.1 ∧ 0 ≤ m.2 := by
    intro similarity a b ha hb hs hm
    obtain ⟨x, y, hx, hy, rfl⟩ := Option.mem_map₂_iff.mp hm
    obtain ⟨h1, h2⟩ := numericMeasure_grid (ha x hx) (hb y hy) hs
    exact ⟨24, 10^63, 10^62, h1, h2, le_rfl, by unfold numericMeasure; positivity,
      (nonneg_value similarity.absolute_nonneg).trans (le_max_left _ _)⟩
  cases f with
  | quantity => exact hnumeric hl.quantity hr.quantity hp.quantity hm
  | unitPrice => exact hnumeric hl.unitPrice hr.unitPrice hp.unitPrice hm
  | grossAmount => exact hnumeric hl.grossAmount hr.grossAmount hp.grossAmount hm
  | timestamp =>
    obtain ⟨x, y, -, -, rfl⟩ := Option.mem_map₂_iff.mp hm
    obtain ⟨h1, h2⟩ := timestampMeasure_grid policy.timestampSimilarity.band x y
    exact ⟨6, 10^20, 10^20, h1, h2, by norm_num, by unfold timestampMeasure; positivity,
      seconds_nonneg policy.timestampSimilarity.band_nonneg⟩

theorem computed_exact_iff (hl : OrdinaryRecord left) (hr : OrdinaryRecord right)
    (hp : OrdinaryPolicy policy) (f : MatchFeature) :
    computed (policy.weightBp f) (measure policy left right f) =
      exactContribution policy left right f ↔ Steady policy left right f := by
  unfold computed exactContribution Steady
  cases hm : measure policy left right f with
  | none => simp
  | some m =>
    obtain ⟨s, N, M, hd, hb, hM, hd0, hb0⟩ := measure_grid hl hr hp (Option.mem_def.mpr hm)
    simp only [Option.elim_some, Option.mem_def, Option.some.injEq, forall_eq']
    exact share_settled hd hb hM hd0 hb0 (policy.weight_le f)

theorem measure_swap (policy : MatchingPolicy) (left right : MatchRecord) (f : MatchFeature) :
    measure policy right left f = measure policy left right f := by
  have hnumeric : ∀ (similarity : NumericSimilarityPolicy) (a b : Option Decimal),
      Option.map₂ (numericMeasure similarity) b a = Option.map₂ (numericMeasure similarity) a b := by
    intro similarity a b
    apply Option.map₂_comm
    intro x y
    rw [numericMeasure, numericMeasure, abs_sub_comm, max_comm |value x|]
  cases f with
  | quantity => exact hnumeric _ _ _
  | unitPrice => exact hnumeric _ _ _
  | grossAmount => exact hnumeric _ _ _
  | timestamp =>
    apply Option.map₂_comm
    intro x y
    rw [timestampMeasure, timestampMeasure, ← seconds_abs, ← seconds_abs, abs_sub_comm]

theorem scoreCandidate_features {reasons : List String} {complete : Bool} {c : CandidateEvidence}
    (h : scoreCandidate left right reasons complete policy = .ok c) :
    ∃ fs, features left right policy = .ok fs ∧ c.features = sortOn (·.feature.value) fs ∧
      c.scoreBp = (fs.map (·.contributionBp)).sum := by
  simp only [scoreCandidate, bind_ok, candidate_create_ok] at h
  obtain ⟨fs, hfs, -, -, -, -, -, -, -, -, -, -, -, -, rfl⟩ := h
  exact ⟨fs, hfs, rfl, rfl⟩

theorem features_contributions {fs : List FeatureEvidence}
    (h : features left right policy = .ok fs) (hl : OrdinaryRecord left)
    (hr : OrdinaryRecord right) (hp : OrdinaryPolicy policy) :
    fs.map (·.contributionBp) = MatchFeature.all.map fun f =>
      (computed (policy.weightBp f) (measure policy left right f)).toNat := by
  rw [← (features_spec h).1, List.map_map]
  apply List.map_congr_left
  intro e he
  have hc := features_computed h hl hr hp e he
  simp only [Function.comp_apply]
  rw [← hc, Int.toNat_natCast]

/-- Every feature contributes its exact share, rounded half to even. -/
def Exact (policy : MatchingPolicy) (left right : MatchRecord) (c : CandidateEvidence) : Prop :=
  ∀ e ∈ c.features, (e.contributionBp : ℤ) = exactContribution policy left right e.feature

/-- What holds of a score in any case. -/
structure Fair (policy : MatchingPolicy) (left right : MatchRecord) (c : CandidateEvidence) :
    Prop where
  within : ∀ e ∈ c.features, e.contributionBp ≤ policy.weightBp e.feature
  score_le : c.scoreBp ≤ scoreScaleBp
  swapped : ∀ reasons complete c', scoreCandidate right left reasons complete policy = .ok c' →
    c'.scoreBp = c.scoreBp ∧ ∀ e ∈ c.features, ∀ e' ∈ c'.features, e'.feature = e.feature →
      e'.contributionBp = e.contributionBp

theorem score_fair (hl : OrdinaryRecord left) (hr : OrdinaryRecord right)
    (hp : OrdinaryPolicy policy) {reasons : List String} {complete : Bool}
    {c : CandidateEvidence} (h : scoreCandidate left right reasons complete policy = .ok c) :
    Fair policy left right c := by
  obtain ⟨fs, hfs, hfeatures, hscore⟩ := scoreCandidate_features h
  refine ⟨?_, (scoreCandidate_spec h).1.score_le, ?_⟩
  · intro e he
    rw [hfeatures, mem_sortOn] at he
    simp only [features, bind_ok, pure_ok] at hfs
    obtain ⟨q, hq, t, ht, u, hu, g, hg, rfl⟩ := hfs
    obtain ⟨hq1, hq2⟩ := numericEvidence_spec hq
    obtain ⟨ht1, ht2⟩ := timestampEvidence_spec ht
    obtain ⟨hu1, hu2⟩ := numericEvidence_spec hu
    obtain ⟨hg1, hg2⟩ := numericEvidence_spec hg
    simp only [List.mem_cons, List.not_mem_nil, or_false] at he
    rcases he with rfl | rfl | rfl | rfl
    · rwa [hq1]
    · rwa [ht1]
    · rwa [hu1]
    · rwa [hg1]
  · intro reasons' complete' c' h'
    obtain ⟨fs', hfs', hfeatures', hscore'⟩ := scoreCandidate_features h'
    constructor
    · rw [hscore, hscore', features_contributions hfs hl hr hp,
        features_contributions hfs' hr hl hp]
      simp only [measure_swap]
    · intro e he e' he' hsame
      rw [hfeatures, mem_sortOn] at he
      rw [hfeatures', mem_sortOn] at he'
      have hc := features_computed hfs hl hr hp e he
      have hc' := features_computed hfs' hr hl hp e' he'
      rw [hsame, measure_swap, ← hc] at hc'
      exact_mod_cast hc'

/-- Two ordinary records are always scored, fairly, and every contribution is
exact exactly when the rounded steps settle each half-way one. -/
theorem contributions_exact_iff (hl : OrdinaryRecord left) (hr : OrdinaryRecord right)
    (hp : OrdinaryPolicy policy) (reasons : List String) (complete : Bool) :
    (reasons ≠ [] → (∀ s ∈ reasons, nonblank s = true) →
      ∃ c, scoreCandidate left right reasons complete policy = .ok c) ∧
    ∀ c, scoreCandidate left right reasons complete policy = .ok c →
      Fair policy left right c ∧
        (Exact policy left right c ↔ ∀ f, Steady policy left right f) := by
  refine ⟨fun hne htext => scoreCandidate_total (scorable hl hr hp) hne htext complete, ?_⟩
  intro c h
  refine ⟨score_fair hl hr hp h, ?_⟩
  obtain ⟨fs, hfs, hfeatures, -⟩ := scoreCandidate_features h
  have hcomputed := features_computed hfs hl hr hp
  constructor
  · intro hexact f
    have hf : f ∈ fs.map (·.feature) := by
      rw [(features_spec hfs).1]
      cases f <;> decide
    obtain ⟨e, he, rfl⟩ := List.mem_map.mp hf
    rw [← computed_exact_iff hl hr hp, ← hcomputed e he]
    apply hexact
    rw [hfeatures, mem_sortOn]
    exact he
  · intro hsteady e he
    rw [hfeatures, mem_sortOn] at he
    rw [hcomputed e he]
    exact (computed_exact_iff hl hr hp e.feature).mpr (hsteady e.feature)

end Scores

def shareLeft : MatchRecord := sampleRecord "share-left" "share" (by decide) (by decide) 0

/-- Apart from it by 5999. -/
def shareRight : MatchRecord :=
  { sampleRecord "share-right" "share" (by decide) (by decide) 0 with
    unitPrice := some (ofInt 6006)
    unitPrice_nonneg := by decide }

theorem share_constructible : Decimals.Constructible (ofInt 6000) := by decide

/-- Prices are similar across 6000, at a weight of 3000. -/
def sharePolicy : MatchingPolicy :=
  { samplePolicy sampleLimits with
    unitPriceSimilarity := { sampleBand with
      absoluteBand := ofInt 6000
      absolute_constructible := share_constructible
      absolute_nonneg := by decide } }

theorem share_ordinary : OrdinaryRecord shareLeft ∧ OrdinaryRecord shareRight ∧
    OrdinaryPolicy sharePolicy := by
  have hbands : OrdinaryBands sampleBand := ⟨by decide, by decide⟩
  refine ⟨⟨?_, ?_, ?_⟩, ⟨?_, ?_, ?_⟩, ⟨hbands, ⟨by decide, by decide⟩, hbands⟩⟩
  all_goals
    intro d hd
    cases hd
  all_goals decide

/-- The half-way share of the unit price is scored as one. -/
theorem half_way_share_odd : ∃ c,
    scoreCandidate shareLeft shareRight ["time@1"] true sharePolicy = .ok c ∧
      ¬Exact sharePolicy shareLeft shareRight c := by
  have hexact : exactContribution sharePolicy shareLeft shareRight .unitPrice = 0 := by
    decide +kernel
  have hscore : (scoreCandidate shareLeft shareRight ["time@1"] true sharePolicy).toOption.map
      (fun c => c.features.any fun e => e.feature = .unitPrice ∧ e.contributionBp = 1) =
        some true := by decide +kernel
  obtain ⟨c, hc, hany⟩ := Option.map_eq_some_iff.mp hscore
  obtain ⟨e, he, hodd⟩ := List.any_eq_true.mp hany
  obtain ⟨hfeature, hone⟩ := of_decide_eq_true hodd
  cases hs : scoreCandidate shareLeft shareRight ["time@1"] true sharePolicy with
  | error x =>
    rw [hs] at hc
    cases hc
  | ok x =>
    rw [hs] at hc
    refine ⟨x, rfl, fun h => ?_⟩
    have hx := h e (by rwa [Option.some.inj hc])
    rw [hfeature, hexact, hone] at hx
    cases hx

theorem steady_of_whole {policy : MatchingPolicy} {left right : MatchRecord} {f : MatchFeature}
    {n : ℕ} (h : ∀ m ∈ measure policy left right f, share (policy.weightBp f) m.1 m.2 = n) :
    Steady policy left right f := by
  intro m hm hhalf
  obtain ⟨k, hk⟩ := hhalf
  rw [h m hm] at hk
  have hodd : 2*(n : ℤ) = 2*k+1 := by exact_mod_cast hk
  omega

/-- Apart from it by half a unit and by a quarter of an hour. -/
def shareNear : MatchRecord :=
  { sampleRecord "share-near" "share" (by decide) (by decide) 900000000 with
    quantity := some ⟨false, 55, -1⟩
    quantity_nonneg := by decide }

theorem shareNear_ordinary : OrdinaryRecord shareNear := by
  refine ⟨?_, ?_, ?_⟩
  all_goals
    intro d hd
    cases hd
  all_goals decide

theorem contributions_exact_sample : ∃ c,
    scoreCandidate shareLeft shareNear ["time@1"] true (samplePolicy sampleLimits) = .ok c ∧
      Exact (samplePolicy sampleLimits) shareLeft shareNear c ∧
      exactContribution (samplePolicy sampleLimits) shareLeft shareNear .quantity = 2000 ∧
      exactContribution (samplePolicy sampleLimits) shareLeft shareNear .timestamp = 2250 := by
  have hband : OrdinaryBands sampleBand := ⟨by decide, by decide⟩
  have hpolicy : OrdinaryPolicy (samplePolicy sampleLimits) := ⟨hband, hband, hband⟩
  obtain ⟨htotal, hexact⟩ :=
    contributions_exact_iff share_ordinary.1 shareNear_ordinary hpolicy ["time@1"] true
  obtain ⟨c, hc⟩ := htotal (by decide) (by decide)
  refine ⟨c, hc, (hexact c hc).2.mpr fun f => ?_, by decide +kernel, by decide +kernel⟩
  cases f with
  | quantity => exact @steady_of_whole _ _ _ _ 2000 (by decide +kernel)
  | timestamp => exact @steady_of_whole _ _ _ _ 2250 (by decide +kernel)
  | unitPrice => exact @steady_of_whole _ _ _ _ 3000 (by decide +kernel)
  | grossAmount => exact @steady_of_whole _ _ _ _ 0 (by decide +kernel)

end Workbench.Contributions
