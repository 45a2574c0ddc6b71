import Workbench.DecimalTexts

/-!
# A decimal and its string

The string of a decimal is plain notation or scientific notation. The decimal
constructor reads it back to the same sign, coefficient and exponent.
-/

set_option autoImplicit false

namespace Workbench.DecimalStrings
open Workbench.Decimals Workbench.DecimalTexts Workbench.Records

theorem splitDigits_stop {c : Char} {cs : List Char} (h : digitValue c = none) :
    splitDigits (c :: cs) = ([], c :: cs) := by
  rw [splitDigits, h]

theorem digitValue_exponent : digitValue 'E' = none := by decide

theorem readWhole_digits {cs : List Char} (h : ∀ c ∈ cs, c.isDigit = true) (hne : cs ≠ []) :
    readWhole cs = some (Nat.ofDigitChars 10 cs 0) := by
  have hs := splitDigits_digits h (rfl : splitDigits [] = ([], []))
  rw [List.append_nil] at hs
  unfold readWhole
  rw [hs]
  cases cs with
  | nil => exact absurd rfl hne
  | cons c cs =>
    rw [← number_digits]
    rfl

def exponentText (e : ℤ) : List Char :=
  ['E', if e < 0 then '-' else '+'] ++ Nat.toDigits 10 e.natAbs

theorem readExponent_text (e : ℤ) : readExponent (exponentText e) = some e := by
  have hwhole := readWhole_digits (toDigits_digits e.natAbs) Nat.toDigits_ne_nil
  rw [Nat.ofDigitChars_ten_toDigits] at hwhole
  by_cases h : e < 0
  · simp only [exponentText, h, List.cons_append, List.nil_append, readExponent, or_true,
      if_true, hwhole, Option.bind_eq_bind, Option.bind_some, Option.pure_def, Option.map_some]
    congr 1
    omega
  · simp only [exponentText, h, if_false, List.cons_append, List.nil_append, readExponent, or_true,
      if_true, hwhole, Option.bind_eq_bind, Option.bind_some, Option.pure_def, Option.map_some]
    congr 1
    omega

/-- One digit, the others after a point, and an exponent. -/
theorem readFinite_scientific (negative : Bool) (c : ℕ) (e : ℤ) :
    readFinite negative (placed (Nat.toDigits 10 c) 1 ++
      exponentText (e+(Nat.toDigits 10 c).length-1)) = some ⟨negative, c, e⟩ := by
  have hread := Nat.ofDigitChars_ten_toDigits (n := c)
  have hdigits := toDigits_digits c
  have hne : Nat.toDigits 10 c ≠ [] := Nat.toDigits_ne_nil
  generalize Nat.toDigits 10 c = cs at hread hdigits hne ⊢
  generalize hE : exponentText (e+cs.length-1) = tail
  have htail : splitDigits tail = ([], tail) := by
    rw [← hE, exponentText, List.cons_append]
    exact splitDigits_stop digitValue_exponent
  have hexponent : readExponent tail = some (e+cs.length-1) := hE ▸ readExponent_text _
  have hfraction : readFraction tail = ([], tail) := by
    rw [← hE]
    rfl
  obtain ⟨x, xs, rfl⟩ := List.exists_cons_of_ne_nil hne
  unfold placed
  rw [if_neg (by decide : ¬(1 : ℤ) ≤ 0)]
  by_cases hxs : xs = []
  · subst hxs
    have hs := splitDigits_digits hdigits htail
    have hplain : [x] ++ List.replicate ((1 : ℤ)-([x] : List Char).length).toNat '0' = [x] := rfl
    rw [if_pos (by simp), hplain]
    unfold readFinite
    simp only [hs, hfraction, hexponent, List.map_cons, List.cons_ne_nil, false_and, if_false,
      Option.map_some, List.append_nil, List.map_nil]
    have hnumber := number_digits [x]
    rw [hread] at hnumber
    simp only [List.map_cons, List.map_nil] at hnumber
    rw [hnumber]
    simp
  · have hlong : ¬((x :: xs).length : ℤ) ≤ 1 := by
      have hpos := List.length_pos_of_ne_nil hxs
      simp only [List.length_cons]
      omega
    have hhead : ∀ y ∈ [x], y.isDigit = true := fun y hy =>
      hdigits y (List.mem_singleton.mp hy ▸ List.mem_cons_self)
    have hrest : ∀ y ∈ xs, y.isDigit = true := fun y hy => hdigits y (List.mem_cons_of_mem x hy)
    have hpoint : splitDigits ('.' :: (xs ++ tail)) = ([], '.' :: (xs ++ tail)) :=
      splitDigits_stop digitValue_point
    have hs := splitDigits_digits hhead hpoint
    have hf := splitDigits_digits hrest htail
    rw [if_neg hlong]
    have hsplit : (x :: xs).take (1 : ℤ).toNat ++ '.' :: (x :: xs).drop (1 : ℤ).toNat ++ tail =
        [x] ++ '.' :: (xs ++ tail) := by simp
    rw [hsplit]
    unfold readFinite
    simp only [hs, readFraction, hf, hexponent, List.map_cons, List.cons_ne_nil, false_and,
      if_false, Option.map_some, List.map_nil, List.length_map]
    have hnumber := number_digits (x :: xs)
    rw [hread] at hnumber
    simp only [List.map_cons] at hnumber
    simp only [List.cons_append, List.nil_append, hnumber]
    congr 2
    simp only [List.length_cons]
    push_cast
    omega

theorem exponentText_written (e : ℤ) : ∀ c ∈ exponentText e, Written c := by
  intro c hc
  simp only [exponentText, List.cons_append, List.nil_append, List.mem_cons] at hc
  rcases hc with rfl | rfl | hc
  · decide
  · by_cases h : e < 0
    · rw [if_pos h]
      decide
    · rw [if_neg h]
      decide
  · exact plain_written (.inl (toDigits_digits _ c hc))

theorem readFinite_plain (negative : Bool) (c : ℕ) {e : ℤ} (he : e ≤ 0) :
    readFinite negative (placed (Nat.toDigits 10 c) (e+(Nat.toDigits 10 c).length)) =
      some ⟨negative, c, e⟩ := by
  obtain ⟨r, hr, hn, hs, hexp⟩ := readFinite_placed negative c e
  rw [min_eq_left he] at hexp
  have hpow : (10 : ℚ)^e ≠ 0 := zpow_ne_zero e (by norm_num)
  rw [size, hexp] at hs
  have hc : r.coefficient = c := by exact_mod_cast mul_right_cancel₀ hpow hs
  rw [hr]
  obtain ⟨n, k, x⟩ := r
  simp only at hn hexp hc
  rw [hn, hc, hexp]

theorem placed_plus {cs : List Char} (h : ∀ c ∈ cs, c.isDigit = true) (point : ℤ) :
    (placed cs point).head? ≠ some '+' := by
  intro hh
  have hplain := placed_plain h point '+' (List.mem_of_mem_head? hh)
  unfold Plain at hplain
  revert hplain
  decide

theorem placed_ne_nil {cs : List Char} (hne : cs ≠ []) (point : ℤ) : placed cs point ≠ [] := by
  unfold placed
  split_ifs
  · simp
  · simp [hne]
  · simp

theorem readDecimal_text {d : Decimal} (hd : Constructible d) :
    readDecimal (text d) = some (.finite d hd) := by
  have hdigits := toDigits_digits d.coefficient
  have hne : Nat.toDigits 10 d.coefficient ≠ [] := Nat.toDigits_ne_nil
  have hwritten : ∀ point, ∀ c ∈ placed (Nat.toDigits 10 d.coefficient) point, Written c :=
    fun point c hc => plain_written (placed_plain hdigits point c hc)
  have hlength := List.length_pos_of_ne_nil hne
  unfold text
  by_cases hplain : d.exponent ≤ 0 ∧ -6 < d.exponent+(Nat.toDigits 10 d.coefficient).length
  · rw [if_pos hplain]
    exact readDecimal_written (hwritten _) (readFinite_plain d.negative d.coefficient hplain.1)
      (placed_head hdigits hne _) (placed_plus hdigits _) hd
  · have hleft : ¬d.exponent+(Nat.toDigits 10 d.coefficient).length = (1 : ℤ) := by omega
    rw [if_neg hplain, if_neg hleft, List.append_assoc, List.append_assoc]
    obtain ⟨x, xs, hx⟩ := List.exists_cons_of_ne_nil
      (placed_ne_nil hne (1 : ℤ))
    have hhead : ∀ y tail, (placed (Nat.toDigits 10 d.coefficient) 1 ++ tail).head? = some y →
        (placed (Nat.toDigits 10 d.coefficient) 1).head? = some y := by
      intro y tail hy
      rw [hx] at hy ⊢
      exact hy
    refine readDecimal_written (fun c hc => ?_)
      (readFinite_scientific d.negative d.coefficient d.exponent)
      (fun h => placed_head hdigits hne 1 (hhead _ _ h))
      (fun h => placed_plus hdigits 1 (hhead _ _ h)) hd
    rcases List.mem_append.mp hc with hc | hc
    · exact hwritten 1 c hc
    · exact exponentText_written _ c hc

end Workbench.DecimalStrings
