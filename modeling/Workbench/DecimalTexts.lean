import Workbench.Decimals
import Workbench.Records

/-!
# Reading decimals

The texts that denote decimals: an optional sign, digits of any script with at
most one point, and an optional exponent. Underscores and surrounding space do
not count. The plain notation of a decimal reads back to its value.
-/

set_option autoImplicit false

namespace Workbench.DecimalTexts
open Workbench.Decimals Workbench.Records

def digitZeros : List ℕ :=
  [48, 1632, 1776, 1984, 2406, 2534, 2662, 2790, 2918, 3046, 3174, 3302, 3430, 3558, 3664, 3792,
    3872, 4160, 4240, 6112, 6160, 6470, 6608, 6784, 6800, 6992, 7088, 7232, 7248, 42528, 43216,
    43264, 43472, 43504, 43600, 44016, 65296, 66720, 68912, 69734, 69872, 69942, 70096, 70384,
    70736, 70864, 71248, 71360, 71472, 71904, 72016, 72784, 73040, 73120, 73552, 92768, 92864, 93008,
    120782, 120792, 120802, 120812, 120822, 123200, 123632, 124144, 125264, 130032]

def digitValue (c : Char) : Option ℕ :=
  (digitZeros.find? fun z => z ≤ c.toNat && c.toNat < z+10).map (c.toNat-·)

def splitDigits : List Char → List ℕ × List Char
  | [] => ([], [])
  | c :: cs =>
    match digitValue c with
    | some d => (d :: (splitDigits cs).1, (splitDigits cs).2)
    | none => ([], c :: cs)

def number (ds : List ℕ) : ℕ := ds.foldl (fun n d => 10*n+d) 0

inductive Number where
  | finite (d : Decimal) (constructible : Constructible d)
  | special
deriving DecidableEq

def readWhole (cs : List Char) : Option ℕ :=
  match splitDigits cs with
  | (d :: ds, []) => some (number (d :: ds))
  | _ => none

def readExponent : List Char → Option ℤ
  | [] => some 0
  | c :: cs =>
    if c = 'e' ∨ c = 'E' then
      match cs with
      | '-' :: cs => (readWhole cs).map fun n => -(n : ℤ)
      | '+' :: cs => (readWhole cs).map fun n => (n : ℤ)
      | cs => (readWhole cs).map fun n => (n : ℤ)
    else none

def readFraction : List Char → List ℕ × List Char
  | '.' :: cs => splitDigits cs
  | cs => ([], cs)

def readFinite (negative : Bool) (cs : List Char) : Option Decimal :=
  let whole := splitDigits cs
  let fraction := readFraction whole.2
  if whole.1 = [] ∧ fraction.1 = [] then none
  else (readExponent fraction.2).map fun e =>
    ⟨negative, number (whole.1 ++ fraction.1), e-fraction.1.length⟩

def isSpecial (cs : List Char) : Bool :=
  let lower := cs.map Char.toLower
  let name := if lower.head? = some 's' then lower.tail else lower
  lower = ['i', 'n', 'f'] || lower = ['i', 'n', 'f', 'i', 'n', 'i', 't', 'y'] ||
    name.take 3 = ['n', 'a', 'n'] && (splitDigits (name.drop 3)).2 = []

def readMagnitude (negative : Bool) (cs : List Char) : Option Number :=
  match readFinite negative cs with
  | some d => if h : Constructible d then some (.finite d h) else none
  | none => if isSpecial cs then some .special else none

/-- The `Decimal` constructor on a text. -/
def readDecimal (s : String) : Option Number :=
  match (strip s).toList.filter (· ≠ '_') with
  | '-' :: cs => readMagnitude true cs
  | '+' :: cs => readMagnitude false cs
  | cs => readMagnitude false cs

def digitOf (c : Char) : ℕ := c.toNat-48

theorem digitValue_ascii {c : Char} (h : c.isDigit = true) : digitValue c = some (digitOf c) := by
  have hc : 48 ≤ c.toNat ∧ c.toNat < 58 := by
    simp only [Char.isDigit, Bool.and_eq_true, decide_eq_true_eq] at h
    exact ⟨h.1, Nat.lt_succ_of_le h.2⟩
  have hfind : digitZeros.find? (fun z => z ≤ c.toNat && c.toNat < z+10) = some 48 := by
    rw [digitZeros, List.find?_cons_of_pos]
    rw [Bool.and_eq_true, decide_eq_true_eq, decide_eq_true_eq]
    exact hc
  rw [digitValue, hfind]
  rfl

theorem digitValue_point : digitValue '.' = none := by decide

theorem splitDigits_digits {cs rest : List Char} (h : ∀ c ∈ cs, c.isDigit = true)
    (hr : splitDigits rest = ([], rest)) :
    splitDigits (cs ++ rest) = (cs.map digitOf, rest) := by
  induction cs with
  | nil => exact hr
  | cons c cs ih =>
    rw [List.cons_append, splitDigits, digitValue_ascii (h c List.mem_cons_self),
      ih fun x hx => h x (List.mem_cons_of_mem c hx)]
    rfl

theorem number_digits (cs : List Char) : number (cs.map digitOf) = Nat.ofDigitChars 10 cs 0 := by
  rw [number, List.foldl_map]
  rfl

theorem readFinite_whole (negative : Bool) {cs : List Char} (h : ∀ c ∈ cs, c.isDigit = true)
    (hne : cs ≠ []) :
    readFinite negative cs = some ⟨negative, Nat.ofDigitChars 10 cs 0, 0⟩ := by
  have hs := splitDigits_digits h (rfl : splitDigits [] = ([], []))
  rw [List.append_nil] at hs
  unfold readFinite
  simp only [hs, readFraction, readExponent, List.map_eq_nil_iff, hne, false_and, if_false,
    Option.map_some, List.append_nil, number_digits]
  rfl

theorem readFinite_point (negative : Bool) {cs ds : List Char} (hc : ∀ c ∈ cs, c.isDigit = true)
    (hd : ∀ c ∈ ds, c.isDigit = true) (hne : cs ≠ []) :
    readFinite negative (cs ++ '.' :: ds) =
      some ⟨negative, Nat.ofDigitChars 10 (cs ++ ds) 0, -ds.length⟩ := by
  have hp : splitDigits ('.' :: ds) = ([], '.' :: ds) := by
    rw [splitDigits, digitValue_point]
  have hs := splitDigits_digits hc hp
  have hf := splitDigits_digits hd (rfl : splitDigits [] = ([], []))
  rw [List.append_nil] at hf
  unfold readFinite
  simp only [hs, readFraction, hf, readExponent, List.map_eq_nil_iff, hne, false_and, if_false,
    Option.map_some, ← List.map_append, number_digits, List.length_map]
  congr 2
  omega

theorem toDigits_digits (n : ℕ) : ∀ c ∈ Nat.toDigits 10 n, c.isDigit = true :=
  fun _ hc => Nat.isDigit_of_mem_toDigits (by decide) (by decide) hc

theorem zeros_digits (n : ℕ) : ∀ c ∈ List.replicate n '0', c.isDigit = true := by
  intro c hc
  rw [List.eq_of_mem_replicate hc]
  rfl

theorem ofDigitChars_zeros_left (n : ℕ) (cs : List Char) :
    Nat.ofDigitChars 10 (List.replicate n '0' ++ cs) 0 = Nat.ofDigitChars 10 cs 0 := by
  rw [Nat.ofDigitChars_append, Nat.ofDigitChars_replicate_zero, Nat.mul_zero]

/-- What the plain notation of a number without its sign reads back to. -/
theorem readFinite_placed (negative : Bool) (c : ℕ) (e : ℤ) :
    ∃ d, readFinite negative (placed (Nat.toDigits 10 c) (e+(Nat.toDigits 10 c).length)) = some d ∧
      d.negative = negative ∧ size d = c*10^e ∧ d.exponent = min e 0 := by
  have hread := Nat.ofDigitChars_ten_toDigits (n := c)
  generalize hcs : Nat.toDigits 10 c = cs at hread ⊢
  have hdigits : ∀ x ∈ cs, x.isDigit = true := hcs ▸ toDigits_digits c
  have hne : cs ≠ [] := hcs ▸ Nat.toDigits_ne_nil
  have hten : (10 : ℚ) ≠ 0 := by norm_num
  unfold placed
  split_ifs with h1 h2
  · have hz : ∀ x ∈ List.replicate (-(e+cs.length)).toNat '0' ++ cs, x.isDigit = true := by
      intro x hx
      cases List.mem_append.mp hx with
      | inl hx => exact zeros_digits _ x hx
      | inr hx => exact hdigits x hx
    have h0 : ∀ x ∈ ['0'], x.isDigit = true := by
      intro x hx
      rw [List.mem_singleton.mp hx]
      decide
    have hr : readFinite negative (['0', '.'] ++ List.replicate (-(e+cs.length)).toNat '0' ++ cs) =
        some ⟨negative, c, -(List.replicate (-(e+cs.length)).toNat '0' ++ cs).length⟩ := by
      have hval : Nat.ofDigitChars 10
          (['0'] ++ (List.replicate (-(e+cs.length)).toNat '0' ++ cs)) 0 = c := by
        rw [show ['0'] = List.replicate 1 '0' from rfl, ofDigitChars_zeros_left,
          ofDigitChars_zeros_left, hread]
      have h := readFinite_point negative h0 hz (by simp)
      rw [hval] at h
      rw [← h]
      simp
    refine ⟨_, hr, rfl, ?_, ?_⟩
    · unfold size
      simp only [List.length_append, List.length_replicate]
      congr 2
      push_cast
      omega
    · simp only [List.length_append, List.length_replicate]
      push_cast
      omega
  · have hz : ∀ x ∈ cs ++ List.replicate (e+cs.length-cs.length).toNat '0',
        x.isDigit = true := by
      intro x hx
      cases List.mem_append.mp hx with
      | inl hx => exact hdigits x hx
      | inr hx => exact zeros_digits _ x hx
    refine ⟨_, readFinite_whole _ hz (by simp [hne]), rfl, ?_, ?_⟩
    · unfold size
      simp only [Nat.ofDigitChars_append, Nat.ofDigitChars_replicate_zero, hread]
      push_cast
      rw [mul_one, mul_comm, ← zpow_natCast]
      congr 2
      omega
    · simp only
      omega
  · have htake : cs.take (e+cs.length).toNat ≠ [] := by
      intro hnil
      rw [List.take_eq_nil_iff] at hnil
      cases hnil with
      | inl hnil => omega
      | inr hnil => exact hne hnil
    have hr := readFinite_point negative
      (fun x hx => hdigits x (List.mem_of_mem_take hx))
      (fun x hx => hdigits x (List.mem_of_mem_drop (i := (e+cs.length).toNat) hx)) htake
    refine ⟨_, hr, rfl, ?_, ?_⟩
    · unfold size
      simp only [List.take_append_drop, hread, List.length_drop]
      congr 2
      omega
    · simp only [List.length_drop]
      omega

def Plain (c : Char) : Prop := c.isDigit = true ∨ c = '.' ∨ c = '-'

theorem plain_space {c : Char} (h : Plain c) : isSpace c = false ∧ c ≠ '_' := by
  cases h with
  | inl h =>
    have hc : 48 ≤ c.toNat ∧ c.toNat < 58 := by
      simp only [Char.isDigit, Bool.and_eq_true, decide_eq_true_eq] at h
      exact ⟨h.1, Nat.lt_succ_of_le h.2⟩
    constructor
    · simp only [isSpace, List.mem_cons, List.not_mem_nil, or_false, decide_eq_false_iff_not]
      omega
    · intro he
      rw [he] at hc
      exact absurd hc.2 (by decide)
  | inr h =>
    cases h with
    | inl h => subst h; decide
    | inr h => subst h; decide

def Written (c : Char) : Prop := isSpace c = false ∧ c ≠ '_'

instance (c : Char) : Decidable (Written c) := inferInstanceAs (Decidable (_ ∧ _))

theorem plain_written {c : Char} (h : Plain c) : Written c := plain_space h

theorem strip_written {cs : List Char} (h : ∀ c ∈ cs, Written c) :
    (strip (String.ofList cs)).toList.filter (· ≠ '_') = cs := by
  have hdrop : ∀ {l : List Char}, (∀ c ∈ l, Written c) → l.dropWhile isSpace = l := by
    intro l hl
    cases l with
    | nil => rfl
    | cons c l =>
      rw [List.dropWhile_cons_of_neg]
      simp [(hl c List.mem_cons_self).1]
  have hr : ∀ c ∈ cs.reverse, Written c := fun c hc => h c (List.mem_reverse.mp hc)
  rw [Records.strip, String.toList_ofList, String.toList_ofList, hdrop h, hdrop hr,
    List.reverse_reverse, List.filter_eq_self]
  intro c hc
  simp [(h c hc).2]

theorem placed_plain {cs : List Char} (h : ∀ c ∈ cs, c.isDigit = true) (point : ℤ) :
    ∀ c ∈ placed cs point, Plain c := by
  intro c hc
  unfold placed at hc
  split_ifs at hc
  · simp only [List.mem_append, List.mem_cons, List.not_mem_nil, or_false] at hc
    rcases hc with ((rfl | rfl) | hc) | hc
    · exact .inl rfl
    · exact .inr (.inl rfl)
    · exact .inl (zeros_digits _ c hc)
    · exact .inl (h c hc)
  · cases List.mem_append.mp hc with
    | inl hc => exact .inl (h c hc)
    | inr hc => exact .inl (zeros_digits _ c hc)
  · cases List.mem_append.mp hc with
    | inl hc => exact .inl (h c (List.mem_of_mem_take hc))
    | inr hc =>
      cases List.mem_cons.mp hc with
      | inl hc => exact .inr (.inl hc)
      | inr hc => exact .inl (h c (List.mem_of_mem_drop hc))

theorem readDecimal_written {d r : Decimal} {cs : List Char} (hw : ∀ c ∈ cs, Written c)
    (h : readFinite d.negative cs = some r) (hminus : cs.head? ≠ some '-')
    (hplus : cs.head? ≠ some '+') (hr : Constructible r) :
    readDecimal (String.ofList (sign d ++ cs)) = some (.finite r hr) := by
  have hwritten : ∀ c ∈ sign d ++ cs, Written c := by
    intro c hc
    rcases List.mem_append.mp hc with hc | hc
    · unfold sign at hc
      split_ifs at hc
      · rw [List.mem_singleton.mp hc]
        decide
      · cases hc
    · exact hw c hc
  unfold readDecimal
  rw [strip_written hwritten]
  cases hn : d.negative with
  | true =>
    rw [hn] at h
    simp only [sign, hn, if_true, List.cons_append, List.nil_append, readMagnitude, h, hr,
      dif_pos]
  | false =>
    rw [hn] at h
    simp only [sign, hn, Bool.false_eq_true, if_false, List.nil_append]
    split
    · exact absurd rfl hminus
    · exact absurd rfl hplus
    · simp only [readMagnitude, h, hr, dif_pos]

theorem readDecimal_signed {d r : Decimal} {cs : List Char} (hp : ∀ c ∈ cs, Plain c)
    (h : readFinite d.negative cs = some r) (hd : cs.head? ≠ some '-') (hr : Constructible r) :
    readDecimal (String.ofList (sign d ++ cs)) = some (.finite r hr) := by
  refine readDecimal_written (fun c hc => plain_written (hp c hc)) h hd (fun hplus => ?_) hr
  exact absurd (hp '+' (List.mem_of_mem_head? hplus)) (by unfold Plain; decide)

theorem placed_head {cs : List Char} (h : ∀ c ∈ cs, c.isDigit = true) (hne : cs ≠ [])
    (point : ℤ) : (placed cs point).head? ≠ some '-' := by
  intro hh
  have hmem : '-' ∈ placed cs point := List.mem_of_mem_head? hh
  cases cs with
  | nil => exact hne rfl
  | cons c cs =>
    have hc := h c List.mem_cons_self
    unfold placed at hh
    split_ifs at hh with h1 h2
    · cases hh
    · simp only [List.cons_append, List.head?_cons, Option.some.injEq] at hh
      rw [hh] at hc
      cases hc
    · have hpos : point.toNat = point.toNat-1+1 := by omega
      rw [hpos] at hh
      simp only [List.take_succ_cons, List.cons_append, List.head?_cons, Option.some.injEq] at hh
      rw [hh] at hc
      cases hc

/-- The plain notation of a decimal reads back to its value, with the decimals
that it has. -/
theorem readDecimal_fixedText {d : Decimal} (hd : Constructible d) :
    ∃ r hr, readDecimal (fixedText d) = some (.finite r hr) ∧ r.negative = d.negative ∧
      size r = size d ∧ r.exponent = min d.exponent 0 := by
  unfold fixedText
  generalize hde : (if d.coefficient = 0 ∧ 0 < d.exponent then (⟨d.negative, 0, 0⟩ : Decimal)
    else d) = e
  have he : e.negative = d.negative ∧ size e = size d ∧ min e.exponent 0 = min d.exponent 0 := by
    rw [← hde]
    split_ifs with h
    · refine ⟨rfl, ?_, ?_⟩
      · rw [size_eq_zero.mpr rfl, size_eq_zero.mpr h.1]
      · simp only
        omega
    · exact ⟨rfl, rfl, rfl⟩
  have hlimits : ∀ {r : Decimal}, size r = size e → r.exponent = min e.exponent 0 →
      Constructible r := by
    intro r hs hexp
    have hleast := hd.2
    refine hd.of_size (hs.trans he.2.1) ?_ fun _ => ?_
    · unfold minEtiny at hleast ⊢
      omega
    · unfold maxEmax
      omega
  rw [← he.1, ← he.2.1, ← he.2.2]
  have hdigits := toDigits_digits e.coefficient
  by_cases h0 : e.exponent = 0
  · rw [if_pos h0]
    have hr := readFinite_whole e.negative hdigits Nat.toDigits_ne_nil
    rw [Nat.ofDigitChars_ten_toDigits] at hr
    have hs : size ⟨e.negative, e.coefficient, 0⟩ = size e := by rw [size, size, h0]
    have hexp : (0 : ℤ) = min e.exponent 0 := by
      rw [h0]
      rfl
    refine ⟨_, hlimits hs hexp, readDecimal_signed (fun c hc => .inl (hdigits c hc)) hr ?_ _,
      rfl, hs, hexp⟩
    intro hh
    exact absurd (hdigits '-' (List.mem_of_mem_head? hh)) (by decide)
  · rw [if_neg h0]
    obtain ⟨r, hr, hn, hs, hexp⟩ := readFinite_placed e.negative e.coefficient e.exponent
    exact ⟨r, hlimits hs hexp, readDecimal_signed (placed_plain hdigits _) hr
      (placed_head hdigits Nat.toDigits_ne_nil _) _, hn, hs, hexp⟩

end Workbench.DecimalTexts
