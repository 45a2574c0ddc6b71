import Workbench.Json
import Mathlib.Data.Rat.Defs
import Mathlib.Algebra.Order.Ring.Unbundled.Rat
import Mathlib.Tactic.NormNum

/-!
# Reading JSON text

`json.loads` as a machine that takes one character after another, with the open
containers on a stack of bounded depth. Texts are lists of code points, since an
escape may name a lone surrogate. What `json.dumps` writes in ASCII of a text
reads back to the code points of the text.
-/

set_option autoImplicit false

namespace Workbench.JsonReading
open Workbench.Json (quote backslash)

inductive Parsed where
  | null
  | bool (b : Bool)
  | integer (z : ℤ)
  | real (q : ℚ)
  /-- `NaN` and the infinities. -/
  | special
  | text (codes : List ℕ)
  | array (items : List Parsed)
  | object (fields : List (List ℕ × Parsed))

inductive ReadError where
  | malformed
  | tooDeep
deriving DecidableEq

inductive Phase where
  | sign
  | zero
  | whole
  | point
  | fraction
  | exponent
  | exponentSign
  | exponentDigits
deriving DecidableEq

structure Numeral where
  phase : Phase
  negative : Bool
  mantissa : ℕ
  count : ℕ
  scale : ℕ
  exponentNegative : Bool
  exponent : ℕ

def isDigit (c : Char) : Bool := '0' ≤ c && c ≤ '9'

def digitOf (c : Char) : ℕ := c.toNat-48

def Numeral.extend (n : Numeral) (c : Char) : Option Numeral :=
  let digit := { n with mantissa := 10*n.mantissa+digitOf c, count := n.count+1 }
  match n.phase with
  | .sign =>
    if c = '0' then some { digit with phase := .zero }
    else if isDigit c then some { digit with phase := .whole } else none
  | .zero => pointOrExponent n c
  | .whole => if isDigit c then some digit else pointOrExponent n c
  | .point =>
    if isDigit c then some { digit with phase := .fraction, scale := n.scale+1 } else none
  | .fraction =>
    if isDigit c then some { digit with scale := n.scale+1 }
    else if c = 'e' ∨ c = 'E' then some { n with phase := .exponent } else none
  | .exponent =>
    if c = '+' then some { n with phase := .exponentSign }
    else if c = '-' then some { n with phase := .exponentSign, exponentNegative := true }
    else exponentDigit n c
  | .exponentSign => exponentDigit n c
  | .exponentDigits => exponentDigit n c
where
  pointOrExponent (n : Numeral) (c : Char) : Option Numeral :=
    if c = '.' then some { n with phase := .point }
    else if c = 'e' ∨ c = 'E' then some { n with phase := .exponent } else none
  exponentDigit (n : Numeral) (c : Char) : Option Numeral :=
    if isDigit c then
      some { n with phase := .exponentDigits, exponent := 10*n.exponent+digitOf c }
    else none

/-- `int` refuses texts of more than 4300 digits. -/
def Numeral.value (n : Numeral) : Option Parsed :=
  let signed : ℤ := if n.negative then -n.mantissa else n.mantissa
  let exponent : ℤ := if n.exponentNegative then -n.exponent else n.exponent
  let power : ℤ := exponent-n.scale
  match n.phase with
  | .zero | .whole => if n.count ≤ 4300 then some (.integer signed) else none
  | .fraction | .exponentDigits => some (.real (signed*(10 : ℚ)^power))
  | _ => none

inductive Frame where
  | array (items : List Parsed)
  | object (fields : List (List ℕ × Parsed)) (key : List ℕ)

inductive Purpose where
  | value
  | key (fields : List (List ℕ × Parsed))

inductive Mode where
  | value
  | first
  | nextItem (items : List Parsed)
  | firstKey
  | key (fields : List (List ℕ × Parsed))
  | colon (fields : List (List ℕ × Parsed)) (key : List ℕ)
  | nextField (fields : List (List ℕ × Parsed))
  | finished (v : Parsed)
  /-- The code points in reverse; `pending` when the last one is a high
  surrogate that the escape just before named. -/
  | text (purpose : Purpose) (codes : List ℕ) (pending : Bool)
  | escape (purpose : Purpose) (codes : List ℕ) (pending : Bool)
  | hex (purpose : Purpose) (codes : List ℕ) (pending : Bool) (left code : ℕ)
  | number (n : Numeral)
  | literal (rest : List Char) (v : Parsed)

structure State where
  stack : List Frame
  mode : Mode

def isBlank (c : Char) : Bool := c ∈ [' ', Char.ofNat 9, Char.ofNat 10, Char.ofNat 13]

def complete (v : Parsed) : List Frame → State
  | [] => ⟨[], .finished v⟩
  | .array items :: stack => ⟨stack, .nextItem (items ++ [v])⟩
  | .object fields key :: stack => ⟨stack, .nextField (fields ++ [(key, v)])⟩

def completeText (purpose : Purpose) (codes : List ℕ) (stack : List Frame) : State :=
  match purpose with
  | .value => complete (.text codes.reverse) stack
  | .key fields => ⟨stack, .colon fields codes.reverse⟩

def beginNumber (negative : Bool) : Numeral := ⟨.sign, negative, 0, 0, 0, false, 0⟩

def beginValue (limit : ℕ) (stack : List Frame) (c : Char) : Except ReadError State :=
  if c = quote then .ok ⟨stack, .text .value [] false⟩
  else if c = Char.ofNat 123 then
    if limit ≤ stack.length then .error .tooDeep else .ok ⟨stack, .firstKey⟩
  else if c = '[' then
    if limit ≤ stack.length then .error .tooDeep else .ok ⟨stack, .first⟩
  else if c = 'n' then .ok ⟨stack, .literal "ull".toList .null⟩
  else if c = 't' then .ok ⟨stack, .literal "rue".toList (.bool true)⟩
  else if c = 'f' then .ok ⟨stack, .literal "alse".toList (.bool false)⟩
  else if c = 'N' then .ok ⟨stack, .literal "aN".toList .special⟩
  else if c = 'I' then .ok ⟨stack, .literal "nfinity".toList .special⟩
  else if c = '-' then .ok ⟨stack, .number (beginNumber true)⟩
  else match (beginNumber false).extend c with
    | some n => .ok ⟨stack, .number n⟩
    | none => .error .malformed

def isHigh (code : ℕ) : Bool := 0xd800 ≤ code && code < 0xdc00

def isLow (code : ℕ) : Bool := 0xdc00 ≤ code && code < 0xe000

def joined (high low : ℕ) : ℕ := (high-0xd800)*0x400+(low-0xdc00)+0x10000

def addUnit (codes : List ℕ) (pending : Bool) (code : ℕ) : List ℕ × Bool :=
  match codes, pending && isLow code with
  | high :: codes, true => (joined high code :: codes, false)
  | codes, _ => (code :: codes, isHigh code)

def hexDigit (c : Char) : Option ℕ :=
  if '0' ≤ c ∧ c ≤ '9' then some (c.toNat-48)
  else if 'a' ≤ c ∧ c ≤ 'f' then some (c.toNat-87)
  else if 'A' ≤ c ∧ c ≤ 'F' then some (c.toNat-55)
  else none

def shortEscape (c : Char) : Option ℕ :=
  if c = quote ∨ c = backslash ∨ c = '/' then some c.toNat
  else if c = 'b' then some 8
  else if c = 'f' then some 12
  else if c = 'n' then some 10
  else if c = 'r' then some 13
  else if c = 't' then some 9
  else none

def stepSettled (limit : ℕ) (st : State) (c : Char) : Except ReadError State :=
  match st.mode with
  | .text purpose codes pending =>
    if c = quote then .ok (completeText purpose codes st.stack)
    else if c = backslash then .ok ⟨st.stack, .escape purpose codes pending⟩
    else if c.toNat < 32 then .error .malformed
    else .ok ⟨st.stack, .text purpose (c.toNat :: codes) false⟩
  | .escape purpose codes pending =>
    if c = 'u' then .ok ⟨st.stack, .hex purpose codes pending 4 0⟩
    else match shortEscape c with
      | some code => .ok ⟨st.stack, .text purpose (code :: codes) false⟩
      | none => .error .malformed
  | .hex purpose codes pending left code =>
    match hexDigit c with
    | none => .error .malformed
    | some d =>
      if left ≤ 1 then
        let (codes, pending) := addUnit codes pending (16*code+d)
        .ok ⟨st.stack, .text purpose codes pending⟩
      else .ok ⟨st.stack, .hex purpose codes pending (left-1) (16*code+d)⟩
  | .literal rest v =>
    match rest with
    | [] => .error .malformed
    | [d] => if c = d then .ok (complete v st.stack) else .error .malformed
    | d :: rest => if c = d then .ok ⟨st.stack, .literal rest v⟩ else .error .malformed
  | .number _ => .error .malformed
  | mode =>
    if isBlank c then .ok st
    else match mode with
      | .value => beginValue limit st.stack c
      | .first =>
        if c = ']' then .ok (complete (.array []) st.stack)
        else beginValue limit (.array [] :: st.stack) c
      | .nextItem items =>
        if c = ',' then .ok ⟨.array items :: st.stack, .value⟩
        else if c = ']' then .ok (complete (.array items) st.stack)
        else .error .malformed
      | .firstKey =>
        if c = quote then .ok ⟨st.stack, .text (.key []) [] false⟩
        else if c = Char.ofNat 125 then .ok (complete (.object []) st.stack)
        else .error .malformed
      | .key fields =>
        if c = quote then .ok ⟨st.stack, .text (.key fields) [] false⟩ else .error .malformed
      | .colon fields key =>
        if c = ':' then .ok ⟨.object fields key :: st.stack, .value⟩ else .error .malformed
      | .nextField fields =>
        if c = ',' then .ok ⟨st.stack, .key fields⟩
        else if c = Char.ofNat 125 then .ok (complete (.object fields) st.stack)
        else .error .malformed
      | _ => .error .malformed

def step (limit : ℕ) (st : State) (c : Char) : Except ReadError State :=
  match st.mode with
  | .number n =>
    match n.extend c with
    | some n => .ok ⟨st.stack, .number n⟩
    | none =>
      if n.phase = .sign ∧ n.negative = true ∧ c = 'I' then
        .ok ⟨st.stack, .literal "nfinity".toList .special⟩
      else match n.value with
        | some v => stepSettled limit (complete v st.stack) c
        | none => .error .malformed
  | _ => stepSettled limit st c

def finish (st : State) : Except ReadError Parsed :=
  match st.mode, st.stack with
  | .finished v, _ => .ok v
  | .number n, [] =>
    match n.value with
    | some v => .ok v
    | none => .error .malformed
  | _, _ => .error .malformed

/-- `json.loads`. -/
def loads (limit : ℕ) (text : List Char) : Except ReadError Parsed := do
  let st ← text.foldlM (step limit) ⟨[], .value⟩
  finish st

def hexChar (n : ℕ) : Char := Nat.digitChar n

def unitEscape (unit : ℕ) : List Char :=
  [backslash, 'u', hexChar (unit/4096), hexChar (unit/256%16), hexChar (unit/16%16),
    hexChar (unit%16)]

/-- A character inside a text that `json.dumps` writes in ASCII. -/
def escapeAscii (c : Char) : List Char :=
  if c = quote then [backslash, quote]
  else if c = backslash then [backslash, backslash]
  else if c = Char.ofNat 10 then [backslash, 'n']
  else if c = Char.ofNat 13 then [backslash, 'r']
  else if c = Char.ofNat 9 then [backslash, 't']
  else if c = Char.ofNat 12 then [backslash, 'f']
  else if c = Char.ofNat 8 then [backslash, 'b']
  else if 32 ≤ c.toNat ∧ c.toNat < 127 then [c]
  else if c.toNat < 0x10000 then unitEscape c.toNat
  else unitEscape (0xd800+(c.toNat-0x10000)/0x400) ++
    unitEscape (0xdc00+(c.toNat-0x10000)%0x400)

def codesOf (s : List Char) : List ℕ := s.map Char.toNat

theorem hexDigit_hexChar : ∀ n < 16, hexDigit (hexChar n) = some n := by decide

section Texts
variable {limit : ℕ} {stack : List Frame} {purpose : Purpose} {codes : List ℕ}

theorem run_cons {st st' : State} {c : Char} (h : step limit st c = .ok st') (s : List Char) :
    (c :: s).foldlM (step limit) st = s.foldlM (step limit) st' := by
  rw [List.foldlM_cons, h]
  rfl

theorem run_one {st st' : State} {c : Char} (h : step limit st c = .ok st') :
    [c].foldlM (step limit) st = .ok st' := run_cons h []

theorem step_digit (pending : Bool) {left code d : ℕ} {c : Char} (h : hexDigit c = some d) :
    step limit ⟨stack, .hex purpose codes pending (left+2) code⟩ c =
      .ok ⟨stack, .hex purpose codes pending (left+1) (16*code+d)⟩ := by
  simp only [step, stepSettled, h]
  rw [if_neg (by omega)]
  rfl

theorem step_lastDigit (pending : Bool) {code d : ℕ} {c : Char} (h : hexDigit c = some d) :
    step limit ⟨stack, .hex purpose codes pending 1 code⟩ c =
      .ok ⟨stack, .text purpose (addUnit codes pending (16*code+d)).1
        (addUnit codes pending (16*code+d)).2⟩ := by
  simp only [step, stepSettled, h]
  rw [if_pos le_rfl]

theorem run_unit (pending : Bool) {unit : ℕ} (hunit : unit < 0x10000) :
    (unitEscape unit).foldlM (step limit) ⟨stack, .text purpose codes pending⟩ =
      .ok ⟨stack, .text purpose (addUnit codes pending unit).1
        (addUnit codes pending unit).2⟩ := by
  have h1 := hexDigit_hexChar (unit/4096) (by omega)
  have h2 := hexDigit_hexChar (unit/256%16) (by omega)
  have h3 := hexDigit_hexChar (unit/16%16) (by omega)
  have h4 := hexDigit_hexChar (unit%16) (by omega)
  have hsum : 16*(16*(16*(16*0+unit/4096)+unit/256%16)+unit/16%16)+unit%16 = unit := by omega
  have hescape : step limit ⟨stack, .text purpose codes pending⟩ backslash =
      .ok ⟨stack, .escape purpose codes pending⟩ := rfl
  have hu : step limit ⟨stack, .escape purpose codes pending⟩ 'u' =
      .ok ⟨stack, .hex purpose codes pending 4 0⟩ := rfl
  rw [unitEscape, run_cons hescape, run_cons hu, run_cons (step_digit pending h1),
    run_cons (step_digit pending h2), run_cons (step_digit pending h3),
    run_one (step_lastDigit pending h4), hsum]

theorem char_range (c : Char) : c.toNat < 0xd800 ∨ 0xdfff < c.toNat ∧ c.toNat < 0x110000 := by
  have hvalid := c.valid
  simp only [UInt32.isValidChar, Nat.isValidChar] at hvalid
  have hval : c.val.toNat = c.toNat := rfl
  omega

theorem char_unit (c : Char) : isHigh c.toNat = false := by
  have hrange := char_range c
  simp only [isHigh, Bool.and_eq_false_iff, decide_eq_false_iff_not]
  omega

theorem char_bound (c : Char) : c.toNat < 0x110000 := by
  have hrange := char_range c
  omega

theorem run_short {c : Char} {code : ℕ} (h : c ≠ 'u' ∧ shortEscape c = some code) :
    [backslash, c].foldlM (step limit) ⟨stack, .text purpose codes false⟩ =
      .ok ⟨stack, .text purpose (code :: codes) false⟩ := by
  have hescape : step limit ⟨stack, .text purpose codes false⟩ backslash =
      .ok ⟨stack, .escape purpose codes false⟩ := rfl
  rw [run_cons hescape]
  refine run_one ?_
  simp only [step, stepSettled, h.2]
  rw [if_neg h.1]

theorem high_unit {n : ℕ} (h : n < 0x110000) : isHigh (0xd800+(n-0x10000)/0x400) = true := by
  simp only [isHigh, Bool.and_eq_true, decide_eq_true_eq]
  omega

theorem low_unit (n : ℕ) : isLow (0xdc00+(n-0x10000)%0x400) = true := by
  simp only [isLow, Bool.and_eq_true, decide_eq_true_eq]
  omega

theorem joined_units {n : ℕ} (h : 0x10000 ≤ n) :
    joined (0xd800+(n-0x10000)/0x400) (0xdc00+(n-0x10000)%0x400) = n := by
  unfold joined
  omega

theorem addUnit_high {unit : ℕ} (h : isHigh unit = true) :
    addUnit codes false unit = (unit :: codes, true) := by
  simp only [addUnit, Bool.false_and, h]

theorem addUnit_pair {high low : ℕ} (h : isLow low = true) :
    addUnit (high :: codes) true low = (joined high low :: codes, false) := by
  simp only [addUnit, Bool.true_and, h]

theorem run_append {st st' : State} {s : List Char} (h : s.foldlM (step limit) st = .ok st')
    (t : List Char) : (s ++ t).foldlM (step limit) st = t.foldlM (step limit) st' := by
  rw [List.foldlM_append, h]
  rfl

theorem run_pair {high low : ℕ} (hhigh : isHigh high = true) (hlow : isLow low = true)
    (hfirst : high < 0x10000) (hsecond : low < 0x10000) :
    (unitEscape high ++ unitEscape low).foldlM (step limit)
        ⟨stack, .text purpose codes false⟩ =
      .ok ⟨stack, .text purpose (joined high low :: codes) false⟩ := by
  rw [run_append (run_unit false hfirst), addUnit_high hhigh, run_unit true hsecond,
    addUnit_pair hlow]

theorem run_char (c : Char) :
    (escapeAscii c).foldlM (step limit) ⟨stack, .text purpose codes false⟩ =
      .ok ⟨stack, .text purpose (c.toNat :: codes) false⟩ := by
  unfold escapeAscii
  split_ifs with h1 h2 h3 h4 h5 h6 h7 h8 h9
  · subst h1
    exact run_short (by decide)
  · subst h2
    exact run_short (by decide)
  · subst h3
    exact run_short (by decide)
  · subst h4
    exact run_short (by decide)
  · subst h5
    exact run_short (by decide)
  · subst h6
    exact run_short (by decide)
  · subst h7
    exact run_short (by decide)
  · refine run_one ?_
    simp only [step, stepSettled]
    rw [if_neg h1, if_neg h2, if_neg (by omega)]
  · rw [run_unit false h9]
    simp only [addUnit, Bool.false_and, char_unit]
  · have hbound := char_bound c
    rw [run_pair (high_unit hbound) (low_unit _) (by omega) (by omega),
      joined_units (Nat.le_of_not_lt h9)]

theorem run_text (s : List Char) :
    (s.flatMap escapeAscii).foldlM (step limit) ⟨stack, .text purpose codes false⟩ =
      .ok ⟨stack, .text purpose ((codesOf s).reverse ++ codes) false⟩ := by
  induction s generalizing codes with
  | nil => rfl
  | cons c s ih =>
    rw [List.flatMap_cons, run_append (run_char c), ih]
    simp [codesOf]

/-- A text that `json.dumps` writes in ASCII. -/
def renderAscii (s : List Char) : List Char := quote :: s.flatMap escapeAscii ++ [quote]

theorem run_rendered {st : State} (h : step limit st quote = .ok ⟨stack, .text purpose [] false⟩)
    (s : List Char) : (renderAscii s).foldlM (step limit) st =
      .ok (completeText purpose (codesOf s).reverse stack) := by
  have hclose : step limit ⟨stack, .text purpose ((codesOf s).reverse ++ []) false⟩ quote =
      .ok (completeText purpose (codesOf s).reverse stack) := by
    rw [List.append_nil]
    rfl
  rw [renderAscii, List.cons_append, run_cons h, run_append (run_text s), run_one hclose]

theorem run_key {fields : List (List ℕ × Parsed)} {st : State}
    (h : step limit st quote = .ok ⟨stack, .text (.key fields) [] false⟩) (name : List Char) :
    (renderAscii name ++ [':']).foldlM (step limit) st =
      .ok ⟨.object fields (codesOf name) :: stack, .value⟩ := by
  have hcolon : step limit (completeText (.key fields) (codesOf name).reverse stack) ':' =
      .ok ⟨.object fields (codesOf name) :: stack, .value⟩ := by
    rw [completeText, List.reverse_reverse]
    rfl
  rw [run_append (run_rendered h name), run_one hcolon]

theorem run_field {fields : List (List ℕ × Parsed)} {st : State}
    (h : step limit st quote = .ok ⟨stack, .text (.key fields) [] false⟩) (name value : List Char) :
    (renderAscii name ++ [':'] ++ renderAscii value).foldlM (step limit) st =
      .ok ⟨stack, .nextField (fields ++ [(codesOf name, .text (codesOf value))])⟩ := by
  have hvalue : (renderAscii value).foldlM (step limit)
      ⟨.object fields (codesOf name) :: stack, .value⟩ =
        .ok (completeText .value (codesOf value).reverse
          (.object fields (codesOf name) :: stack)) := run_rendered rfl value
  rw [run_append (run_key h name), hvalue, completeText, List.reverse_reverse]
  rfl

theorem hexChar_ascii : ∀ n < 16, (hexChar n).toNat < 128 := by decide

theorem unitEscape_ascii {unit : ℕ} (h : unit < 0x10000) :
    ∀ c ∈ unitEscape unit, c.toNat < 128 := by
  intro c hc
  simp only [unitEscape, List.mem_cons, List.not_mem_nil, or_false] at hc
  rcases hc with rfl | rfl | rfl | rfl | rfl | rfl
  · decide
  · decide
  · exact hexChar_ascii _ (by omega)
  · exact hexChar_ascii _ (by omega)
  · exact hexChar_ascii _ (by omega)
  · exact hexChar_ascii _ (by omega)

theorem shortEscape_ascii {c : Char} (h : c.toNat < 128) :
    ∀ d ∈ [backslash, c], d.toNat < 128 := by
  intro d hd
  rcases List.mem_cons.mp hd with rfl | hd
  · decide
  · rwa [List.mem_singleton.mp hd]

theorem escapeAscii_ascii (c : Char) : ∀ d ∈ escapeAscii c, d.toNat < 128 := by
  have hbound := char_bound c
  unfold escapeAscii
  split_ifs with h1 h2 h3 h4 h5 h6 h7 h8 h9
  · exact shortEscape_ascii (by decide)
  · exact shortEscape_ascii (by decide)
  · exact shortEscape_ascii (by decide)
  · exact shortEscape_ascii (by decide)
  · exact shortEscape_ascii (by decide)
  · exact shortEscape_ascii (by decide)
  · exact shortEscape_ascii (by decide)
  · intro d hd
    rw [List.mem_singleton.mp hd]
    omega
  · exact unitEscape_ascii h9
  · intro d hd
    rcases List.mem_append.mp hd with hd | hd
    · exact unitEscape_ascii (by omega) d hd
    · exact unitEscape_ascii (by omega) d hd

theorem renderAscii_ascii (s : List Char) : ∀ c ∈ renderAscii s, c.toNat < 128 := by
  intro c hc
  simp only [renderAscii, List.cons_append, List.mem_cons, List.mem_append, List.mem_flatMap,
    List.not_mem_nil, or_false] at hc
  rcases hc with rfl | ⟨d, -, hd⟩ | rfl
  · decide
  · exact escapeAscii_ascii d c hd
  · decide

end Texts

end Workbench.JsonReading
