import Mathlib.Data.List.Basic
import Mathlib.Data.Char

/-!
# URL-safe base64

Three bytes are four digits of six bits. The strict decoder reads one character
after another, takes the characters of both alphabets and rejects everything
else; what the encoder writes without padding reads back once it is padded.
-/

set_option autoImplicit false

namespace Workbench.Base64

def digitChar (n : ℕ) : Char :=
  if n < 26 then Char.ofNat (65+n)
  else if n < 52 then Char.ofNat (71+n)
  else if n < 62 then Char.ofNat (n-4)
  else if n = 62 then '-' else '_'

def digitValue (c : Char) : Option ℕ :=
  if 'A' ≤ c ∧ c ≤ 'Z' then some (c.toNat-65)
  else if 'a' ≤ c ∧ c ≤ 'z' then some (c.toNat-71)
  else if '0' ≤ c ∧ c ≤ '9' then some (c.toNat+4)
  else if c = '-' ∨ c = '+' then some 62
  else if c = '_' ∨ c = '/' then some 63
  else none

theorem digitValue_digitChar : ∀ n < 64, digitValue (digitChar n) = some n := by decide

theorem digitChar_ne_pad : ∀ n < 64, digitChar n ≠ '=' := by decide

theorem digitChar_ascii : ∀ n < 64, (digitChar n).toNat < 128 := by decide

def digits : List ℕ → List Char
  | a :: b :: c :: rest => digitChar (a/4) :: digitChar (a%4*16+b/16) ::
      digitChar (b%16*4+c/64) :: digitChar (c%64) :: digits rest
  | [a, b] => [digitChar (a/4), digitChar (a%4*16+b/16), digitChar (b%16*4)]
  | [a] => [digitChar (a/4), digitChar (a%4*16)]
  | [] => []

/-- `"=" * (-length % 4)`. -/
def padding (length : ℕ) : List Char := List.replicate ((4-length%4)%4) '='

/-- `urlsafe_b64encode`. -/
def encode (bytes : List ℕ) : List Char := digits bytes ++ padding (digits bytes).length

/-- `rstrip("=")`. -/
def stripPadding (text : List Char) : List Char :=
  (text.reverse.dropWhile (· = '=')).reverse

def Bytes (bytes : List ℕ) : Prop := ∀ b ∈ bytes, b < 256

theorem digits_mem {bytes : List ℕ} (h : Bytes bytes) :
    ∀ c ∈ digits bytes, ∃ n < 64, c = digitChar n := by
  induction bytes using digits.induct with
  | case1 a b c rest ih =>
    obtain ⟨ha, hb, hc, hrest⟩ : a < 256 ∧ b < 256 ∧ c < 256 ∧ Bytes rest := by
      simpa [Bytes] using h
    intro d hd
    simp only [digits, List.mem_cons] at hd
    rcases hd with rfl | rfl | rfl | rfl | hd
    · exact ⟨_, by omega, rfl⟩
    · exact ⟨_, by omega, rfl⟩
    · exact ⟨_, by omega, rfl⟩
    · exact ⟨_, by omega, rfl⟩
    · exact ih hrest d hd
  | case2 a b =>
    obtain ⟨ha, hb⟩ : a < 256 ∧ b < 256 := by simpa [Bytes] using h
    intro d hd
    simp only [digits, List.mem_cons, List.not_mem_nil, or_false] at hd
    rcases hd with rfl | rfl | rfl
    · exact ⟨_, by omega, rfl⟩
    · exact ⟨_, by omega, rfl⟩
    · exact ⟨_, by omega, rfl⟩
  | case3 a =>
    have ha : a < 256 := by simpa [Bytes] using h
    intro d hd
    simp only [digits, List.mem_cons, List.not_mem_nil, or_false] at hd
    rcases hd with rfl | rfl
    · exact ⟨_, by omega, rfl⟩
    · exact ⟨_, by omega, rfl⟩
  | case4 => simp [digits]

theorem digits_ne_pad {bytes : List ℕ} (h : Bytes bytes) : ∀ c ∈ digits bytes, c ≠ '=' := by
  intro c hc
  obtain ⟨n, hn, rfl⟩ := digits_mem h c hc
  exact digitChar_ne_pad n hn

theorem digits_ascii {bytes : List ℕ} (h : Bytes bytes) : ∀ c ∈ digits bytes, c.toNat < 128 := by
  intro c hc
  obtain ⟨n, hn, rfl⟩ := digits_mem h c hc
  exact digitChar_ascii n hn

theorem stripPadding_encode {bytes : List ℕ} (h : Bytes bytes) :
    stripPadding (encode bytes) = digits bytes := by
  have hpad : ∀ n (l : List Char), (List.replicate n '=' ++ l).dropWhile (· = '=') =
      l.dropWhile (· = '=') := by
    intro n l
    induction n with
    | zero => rfl
    | succ n ih => simp [List.replicate_succ, ih]
  have hkeep : (digits bytes).reverse.dropWhile (· = '=') = (digits bytes).reverse := by
    cases hd : (digits bytes).reverse with
    | nil => rfl
    | cons c l =>
      have hc : c ∈ digits bytes := List.mem_reverse.mp (hd ▸ List.mem_cons_self)
      rw [List.dropWhile_cons_of_neg (by simpa using digits_ne_pad h c hc)]
  rw [stripPadding, encode, List.reverse_append, padding, List.reverse_replicate, hpad, hkeep,
    List.reverse_reverse]

/-- Where the decoder is in a group of four digits: `left` holds the bits that
the next digit completes to a byte. -/
structure Reader where
  position : ℕ
  left : ℕ
  pads : ℕ
  padded : Bool
  closed : Bool
  out : List ℕ
deriving DecidableEq

def start : Reader := ⟨0, 0, 0, false, false, []⟩

def Reader.digit (r : Reader) (v : ℕ) : Reader :=
  match r.position with
  | 0 => { r with position := 1, left := v, pads := 0 }
  | 1 => { r with position := 2, left := v%16, pads := 0, out := r.out ++ [r.left*4+v/16] }
  | 2 => { r with position := 3, left := v%4, pads := 0, out := r.out ++ [r.left*16+v/4] }
  | _ => { r with position := 0, left := 0, pads := 0, out := r.out ++ [r.left*64+v] }

def Reader.step (r : Reader) (c : Char) : Option Reader :=
  if r.closed then none
  else if c = '=' then
    if r.position = 0 then none
    else if 2 ≤ r.position ∧ 4 ≤ r.position+(r.pads+1) then
      some { r with padded := true, pads := r.pads+1, closed := true }
    else if 2 ≤ r.position then some { r with padded := true, pads := r.pads+1 }
    else some { r with padded := true }
  else
    match digitValue c with
    | none => none
    | some v => if r.padded then none else some (r.digit v)

def Reader.finish (r : Reader) : Option (List ℕ) :=
  if r.closed ∨ r.position = 0 then some r.out else none

/-- `a2b_base64` in strict mode. -/
def decode (text : List Char) : Option (List ℕ) := do
  let r ← text.foldlM Reader.step start
  r.finish

def between (out : List ℕ) : Reader := ⟨0, 0, 0, false, false, out⟩

theorem step_digit {r : Reader} (hopen : r.closed = false) (hpadded : r.padded = false) {n : ℕ}
    (hn : n < 64) : r.step (digitChar n) = some (r.digit n) := by
  rw [Reader.step, hopen, if_neg (by decide), if_neg (digitChar_ne_pad n hn),
    digitValue_digitChar n hn, hpadded]
  rfl

theorem group_bytes {a b c : ℕ} (hb : b < 256) (hc : c < 256) :
    a/4*4+(a%4*16+b/16)/16 = a ∧ (a%4*16+b/16)%16*16+(b%16*4+c/64)/4 = b ∧
      (b%16*4+c/64)%4*64+c%64 = c := by
  omega

theorem foldlM_group (out : List ℕ) {a b c : ℕ} (ha : a < 256) (hb : b < 256) (hc : c < 256)
    (rest : List Char) :
    (digitChar (a/4) :: digitChar (a%4*16+b/16) :: digitChar (b%16*4+c/64) ::
      digitChar (c%64) :: rest).foldlM Reader.step (between out) =
      rest.foldlM Reader.step (between (out ++ [a, b, c])) := by
  obtain ⟨h1, h2, h3⟩ := @group_bytes a b c hb hc
  simp only [List.foldlM_cons]
  rw [step_digit rfl rfl (by omega)]
  simp only [Option.bind_eq_bind, Option.bind_some, between, Reader.digit]
  rw [step_digit rfl rfl (by omega)]
  simp only [Option.bind_some, Reader.digit]
  rw [step_digit rfl rfl (by omega)]
  simp only [Option.bind_some, Reader.digit]
  rw [step_digit rfl rfl (by omega)]
  simp only [Option.bind_some, Reader.digit, h1, h2, h3, List.append_assoc, List.cons_append,
    List.nil_append]

theorem digits_length_three (a b c : ℕ) (rest : List ℕ) :
    (digits (a :: b :: c :: rest)).length = (digits rest).length+4 := rfl

/-- What was written without its padding reads back once padded. -/
theorem decode_digits {bytes : List ℕ} (h : Bytes bytes) :
    decode (digits bytes ++ padding (digits bytes).length) = some bytes := by
  have hrun : ∀ out, (digits bytes ++ padding (digits bytes).length).foldlM Reader.step
      (between out) >>= Reader.finish = some (out ++ bytes) := by
    induction bytes using digits.induct with
    | case1 a b c rest ih =>
      intro out
      obtain ⟨ha, hb, hc, hrest⟩ : a < 256 ∧ b < 256 ∧ c < 256 ∧ Bytes rest := by
        simpa [Bytes] using h
      have hpad : padding (digits (a :: b :: c :: rest)).length =
          padding (digits rest).length := by
        rw [digits_length_three, padding, padding, Nat.add_mod_right]
      rw [hpad, digits]
      simp only [List.cons_append]
      rw [foldlM_group out ha hb hc, ih hrest]
      simp
    | case2 a b =>
      intro out
      obtain ⟨ha, hb⟩ : a < 256 ∧ b < 256 := by simpa [Bytes] using h
      have hpad : padding (digits [a, b]).length = ['='] := rfl
      have h1 : a/4*4+(a%4*16+b/16)/16 = a := by omega
      rw [hpad, digits]
      simp only [List.cons_append, List.nil_append, List.foldlM_cons, List.foldlM_nil]
      rw [step_digit rfl rfl (by omega)]
      simp only [Option.bind_eq_bind, Option.bind_some, between, Reader.digit]
      rw [step_digit rfl rfl (by omega)]
      simp only [Option.bind_some, Reader.digit]
      rw [step_digit rfl rfl (by omega)]
      simp only [Reader.digit]
      simp [Reader.step, Reader.finish, h1]
      omega
    | case3 a =>
      intro out
      have ha : a < 256 := by simpa [Bytes] using h
      have hpad : padding (digits [a]).length = ['=', '='] := rfl
      rw [hpad, digits]
      simp only [List.cons_append, List.nil_append, List.foldlM_cons, List.foldlM_nil]
      rw [step_digit rfl rfl (by omega)]
      simp only [Option.bind_eq_bind, Option.bind_some, between, Reader.digit]
      rw [step_digit rfl rfl (by omega)]
      simp only [Reader.digit]
      simp [Reader.step, Reader.finish]
      omega
    | case4 =>
      intro out
      simp [digits, padding, between, Reader.finish]
  exact hrun []

end Workbench.Base64
