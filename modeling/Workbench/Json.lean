import Mathlib.Data.List.Basic
import Mathlib.Data.Char
import Mathlib.Data.String.Basic

/-!
# Compact JSON text

The text that `json.dumps` writes with the separators "," and ":" and
without ASCII escaping. Two values never share a text, and a text followed
by anything that is not a digit is read back in one way only, so digests of
such texts identify the values.
-/

set_option autoImplicit false

namespace Workbench.Json

inductive Value where
  | null
  | bool (b : Bool)
  | number (z : ℤ)
  | text (s : String)
  | array (items : List Value)
  | object (fields : List (String × Value))

def quote : Char := Char.ofNat 34

def backslash : Char := Char.ofNat 92

/-- One character inside a JSON string. Control characters without a short
form are written with four hexadecimal digits. -/
def escape (c : Char) : List Char :=
  if c = quote then [backslash, quote]
  else if c = backslash then [backslash, backslash]
  else if c = Char.ofNat 10 then [backslash, 'n']
  else if c = Char.ofNat 13 then [backslash, 'r']
  else if c = Char.ofNat 9 then [backslash, 't']
  else if c = Char.ofNat 8 then [backslash, 'b']
  else if c = Char.ofNat 12 then [backslash, 'f']
  else if c.toNat < 32 then
    [backslash, 'u', '0', '0', Nat.digitChar (c.toNat/16), Nat.digitChar (c.toNat%16)]
  else [c]

def hexValue (c : Char) : ℕ := if c.toNat < 58 then c.toNat-48 else c.toNat-87

def unescape : List Char → Option (Char × List Char)
  | [] => none
  | c::s =>
    if c = backslash then
      match s with
      | [] => none
      | d::t =>
        if d = 'n' then some (Char.ofNat 10, t)
        else if d = 'r' then some (Char.ofNat 13, t)
        else if d = 't' then some (Char.ofNat 9, t)
        else if d = 'b' then some (Char.ofNat 8, t)
        else if d = 'f' then some (Char.ofNat 12, t)
        else if d = 'u' then
          match t with
          | _::_::a::b::rest => some (Char.ofNat (16*hexValue a+hexValue b), rest)
          | _ => none
        else some (d, t)
    else some (c, s)

theorem control_hex : ∀ n < 32, Char.ofNat (16*hexValue (Nat.digitChar (n/16))+
    hexValue (Nat.digitChar (n%16))) = Char.ofNat n := by
  decide

theorem unescape_escape (c : Char) (s : List Char) :
    unescape (escape c ++ s) = some (c, s) := by
  unfold escape
  split_ifs with h1 h2 h3 h4 h5 h6 h7 h8
  · subst h1
    simp [unescape, quote, backslash]
  · subst h2
    simp [unescape, backslash]
  · subst h3
    simp [unescape, backslash]
  · subst h4
    simp [unescape, backslash]
  · subst h5
    simp [unescape, backslash]
  · subst h6
    simp [unescape, backslash]
  · subst h7
    simp [unescape, backslash]
  · have hh := control_hex c.toNat h8
    rw [Char.ofNat_toNat] at hh
    simp [unescape, backslash, hh]
  · simp [unescape, h2]

theorem escape_inj {c d : Char} {s t : List Char} (h : escape c ++ s = escape d ++ t) :
    c = d ∧ s = t := by
  have he := congrArg unescape h
  rw [unescape_escape, unescape_escape] at he
  simpa using he

theorem escape_ne_quote (c : Char) : ∃ d rest, escape c = d::rest ∧ d ≠ quote := by
  unfold escape
  split_ifs with h1 <;> first
    | exact ⟨_, _, rfl, by decide⟩
    | exact ⟨_, _, rfl, h1⟩

def renderText (s : List Char) : List Char := quote::(s.flatMap escape ++ [quote])

theorem renderText_inj {a b s t : List Char}
    (h : a.flatMap escape ++ quote::s = b.flatMap escape ++ quote::t) : a = b ∧ s = t := by
  induction a generalizing b with
  | nil =>
    cases b with
    | nil => simpa using h
    | cons d b =>
      obtain ⟨x, rest, hx, hne⟩ := escape_ne_quote d
      rw [List.flatMap_cons, hx] at h
      simp only [List.flatMap_nil, List.nil_append, List.cons_append, List.cons.injEq] at h
      exact absurd h.1.symm hne
  | cons c a ih =>
    cases b with
    | nil =>
      obtain ⟨x, rest, hx, hne⟩ := escape_ne_quote c
      rw [List.flatMap_cons, hx] at h
      simp only [List.flatMap_nil, List.nil_append, List.cons_append, List.cons.injEq] at h
      exact absurd h.1 hne
    | cons d b =>
      simp only [List.flatMap_cons, List.append_assoc] at h
      obtain ⟨rfl, h'⟩ := escape_inj h
      obtain ⟨rfl, hs⟩ := ih h'
      exact ⟨rfl, hs⟩

def renderNumber : ℤ → List Char
  | .ofNat n => Nat.toDigits 10 n
  | .negSucc n => '-'::Nat.toDigits 10 (n+1)

def Ends (s : List Char) : Prop := ∀ c ∈ s.head?, c.isDigit = false

theorem digits_split (n : ℕ) {s : List Char} (h : Ends s) :
    (Nat.toDigits 10 n ++ s).takeWhile Char.isDigit = Nat.toDigits 10 n := by
  rw [List.takeWhile_append_of_pos
    (fun c hc => Nat.isDigit_of_mem_toDigits (by decide) (by decide) hc)]
  cases s with
  | nil => simp
  | cons c s => simp [h c (by simp)]

theorem digits_inj {m n : ℕ} {s t : List Char} (hs : Ends s) (ht : Ends t)
    (h : Nat.toDigits 10 m ++ s = Nat.toDigits 10 n ++ t) : m = n ∧ s = t := by
  have hd : Nat.toDigits 10 m = Nat.toDigits 10 n := by
    rw [← digits_split m hs, h, digits_split n ht]
  have hmn : m = n := by
    rw [← Nat.ofDigitChars_ten_toDigits (n := m), hd, Nat.ofDigitChars_ten_toDigits]
  subst hmn
  exact ⟨rfl, List.append_cancel_left h⟩

theorem digits_head (n : ℕ) : ∃ c rest, Nat.toDigits 10 n = c::rest ∧ c.isDigit = true := by
  cases h : Nat.toDigits 10 n with
  | nil => exact absurd h Nat.toDigits_ne_nil
  | cons c rest =>
    refine ⟨c, rest, rfl, ?_⟩
    exact Nat.isDigit_of_mem_toDigits (b := 10) (n := n) (by decide) (by decide) (by simp [h])

theorem renderNumber_inj {y z : ℤ} {s t : List Char} (hs : Ends s) (ht : Ends t)
    (h : renderNumber y ++ s = renderNumber z ++ t) : y = z ∧ s = t := by
  cases y with
  | ofNat m =>
    cases z with
    | ofNat n =>
      obtain ⟨rfl, hst⟩ := digits_inj hs ht h
      exact ⟨rfl, hst⟩
    | negSucc n =>
      obtain ⟨c, rest, hc, hd⟩ := digits_head m
      rw [renderNumber, renderNumber, hc] at h
      simp only [List.cons_append, List.cons.injEq] at h
      rw [h.1] at hd
      exact absurd hd (by decide)
  | negSucc m =>
    cases z with
    | ofNat n =>
      obtain ⟨c, rest, hc, hd⟩ := digits_head n
      rw [renderNumber, renderNumber, hc] at h
      simp only [List.cons_append, List.cons.injEq] at h
      rw [← h.1] at hd
      exact absurd hd (by decide)
    | negSucc n =>
      simp only [renderNumber, List.cons_append, List.cons.injEq, true_and] at h
      obtain ⟨hmn, hst⟩ := digits_inj hs ht h
      exact ⟨by congr 1; omega, hst⟩

mutual

def render : Value → List Char
  | .null => ['n', 'u', 'l', 'l']
  | .bool true => ['t', 'r', 'u', 'e']
  | .bool false => ['f', 'a', 'l', 's', 'e']
  | .number z => renderNumber z
  | .text s => renderText s.toList
  | .array items => '['::renderItems items
  | .object fields => Char.ofNat 123::renderFields fields

def renderItems : List Value → List Char
  | [] => [']']
  | v::rest => render v ++ renderMoreItems rest

def renderMoreItems : List Value → List Char
  | [] => [']']
  | v::rest => ','::(render v ++ renderMoreItems rest)

def renderFields : List (String × Value) → List Char
  | [] => [Char.ofNat 125]
  | (name, v)::rest => renderText name.toList ++ ':'::(render v ++ renderMoreFields rest)

def renderMoreFields : List (String × Value) → List Char
  | [] => [Char.ofNat 125]
  | (name, v)::rest =>
    ','::(renderText name.toList ++ ':'::(render v ++ renderMoreFields rest))

end

def dumps (v : Value) : String := String.ofList (render v)

/-- The first character tells the shape of a value; no value starts with a
closing bracket or a comma. -/
def headTag (c : Char) : ℕ :=
  if c = 'n' then 0 else if c = 't' then 1 else if c = 'f' then 2
  else if c = quote then 4 else if c = '[' then 5 else if c = Char.ofNat 123 then 6
  else if c.isDigit ∨ c = '-' then 3 else 7

def tag : Value → ℕ
  | .null => 0
  | .bool true => 1
  | .bool false => 2
  | .number _ => 3
  | .text _ => 4
  | .array _ => 5
  | .object _ => 6

theorem headTag_digit {c : Char} (h : c.isDigit = true) : headTag c = 3 := by
  have hne : ∀ d : Char, d.isDigit = false → c ≠ d := by
    rintro d hd rfl
    rw [h] at hd
    exact absurd hd (by decide)
  simp [headTag, hne 'n' (by decide), hne 't' (by decide), hne 'f' (by decide),
    hne quote (by decide), hne '[' (by decide), hne (Char.ofNat 123) (by decide), h]

theorem render_head (v : Value) : ∃ c rest, render v = c::rest ∧ headTag c = tag v := by
  cases v with
  | null => exact ⟨'n', ['u', 'l', 'l'], by rw [render], by decide⟩
  | bool b =>
    cases b with
    | false => exact ⟨'f', ['a', 'l', 's', 'e'], by rw [render], by decide⟩
    | true => exact ⟨'t', ['r', 'u', 'e'], by rw [render], by decide⟩
  | number z =>
    cases z with
    | ofNat n =>
      obtain ⟨c, rest, hc, hd⟩ := digits_head n
      exact ⟨c, rest, by rw [render, renderNumber, hc], headTag_digit hd⟩
    | negSucc n =>
      have h : headTag '-' = 3 := by decide
      exact ⟨'-', Nat.toDigits 10 (n+1), by rw [render, renderNumber], h⟩
  | text s =>
    have h : headTag quote = 4 := by decide
    exact ⟨quote, s.toList.flatMap escape ++ [quote], by rw [render, renderText], h⟩
  | array items =>
    have h : headTag '[' = 5 := by decide
    exact ⟨'[', renderItems items, by rw [render], h⟩
  | object fields =>
    have h : headTag (Char.ofNat 123) = 6 := by decide
    exact ⟨Char.ofNat 123, renderFields fields, by rw [render], h⟩

theorem tag_eq_of_render {v w : Value} {s t : List Char}
    (h : render v ++ s = render w ++ t) : tag v = tag w := by
  obtain ⟨c, cs, hc, hct⟩ := render_head v
  obtain ⟨d, ds, hd, hdt⟩ := render_head w
  rw [hc, hd] at h
  simp only [List.cons_append, List.cons.injEq] at h
  rw [← hct, ← hdt, h.1]

theorem tag_lt (v : Value) : tag v < 7 := by
  cases v with
  | bool b => cases b <;> decide
  | _ => simp [tag]

theorem render_ne_close {v : Value} {s t : List Char} {c : Char} (hc : headTag c = 7) :
    render v ++ s ≠ c::t := by
  intro h
  obtain ⟨d, ds, hd, hdt⟩ := render_head v
  have hlt := tag_lt v
  rw [hd] at h
  simp only [List.cons_append, List.cons.injEq] at h
  rw [h.1] at hdt
  omega

theorem text_inj {a b : String} {s t : List Char}
    (h : renderText a.toList ++ s = renderText b.toList ++ t) : a = b ∧ s = t := by
  simp only [renderText, List.cons_append, List.append_assoc, List.cons.injEq, true_and,
    List.nil_append] at h
  obtain ⟨hab, hst⟩ := renderText_inj h
  exact ⟨String.toList_inj.mp hab, hst⟩

theorem ends_cons {c : Char} {s : List Char} (h : c.isDigit = false) : Ends (c::s) := by
  intro d hd
  rw [List.head?_cons, Option.mem_some_iff] at hd
  rw [← hd]
  exact h

theorem moreItems_ends (items : List Value) (s : List Char) :
    Ends (renderMoreItems items ++ s) := by
  cases items <;> exact ends_cons (by decide)

theorem moreFields_ends (fields : List (String × Value)) (s : List Char) :
    Ends (renderMoreFields fields ++ s) := by
  rcases fields with _ | ⟨⟨name, v⟩, rest⟩ <;> exact ends_cons (by decide)

mutual

/-- A rendered value is determined by its text and what follows it. -/
theorem render_inj : ∀ (v w : Value) {s t : List Char}, Ends s → Ends t →
    render v ++ s = render w ++ t → v = w ∧ s = t
  | .null, w, s, t, _, _, h => by
    have ht := tag_eq_of_render h
    cases w with
    | null => exact ⟨rfl, List.append_cancel_left h⟩
    | bool b => cases b <;> simp [tag] at ht
    | _ => simp [tag] at ht
  | .bool b, w, s, t, _, _, h => by
    have ht := tag_eq_of_render h
    cases w with
    | bool c =>
      cases b <;> cases c <;> first
        | exact ⟨rfl, List.append_cancel_left h⟩
        | simp [tag] at ht
    | _ => cases b <;> simp [tag] at ht
  | .number y, w, s, t, hs, he, h => by
    have ht := tag_eq_of_render h
    cases w with
    | number z =>
      simp only [render] at h
      obtain ⟨rfl, hst⟩ := renderNumber_inj hs he h
      exact ⟨rfl, hst⟩
    | bool b => cases b <;> simp [tag] at ht
    | _ => simp [tag] at ht
  | .text a, w, s, t, _, _, h => by
    have ht := tag_eq_of_render h
    cases w with
    | text b =>
      simp only [render] at h
      obtain ⟨rfl, hst⟩ := text_inj h
      exact ⟨rfl, hst⟩
    | bool b => cases b <;> simp [tag] at ht
    | _ => simp [tag] at ht
  | .array xs, w, s, t, hs, he, h => by
    have ht := tag_eq_of_render h
    cases w with
    | array ys =>
      simp only [render, List.cons_append, List.cons.injEq, true_and] at h
      obtain ⟨rfl, hst⟩ := items_inj xs ys hs he h
      exact ⟨rfl, hst⟩
    | bool b => cases b <;> simp [tag] at ht
    | _ => simp [tag] at ht
  | .object xs, w, s, t, hs, he, h => by
    have ht := tag_eq_of_render h
    cases w with
    | object ys =>
      simp only [render, List.cons_append, List.cons.injEq, true_and] at h
      obtain ⟨rfl, hst⟩ := fields_inj xs ys hs he h
      exact ⟨rfl, hst⟩
    | bool b => cases b <;> simp [tag] at ht
    | _ => simp [tag] at ht

theorem items_inj : ∀ (xs ys : List Value) {s t : List Char}, Ends s → Ends t →
    renderItems xs ++ s = renderItems ys ++ t → xs = ys ∧ s = t
  | [], ys, s, t, _, _, h => by
    cases ys with
    | nil => exact ⟨rfl, List.append_cancel_left h⟩
    | cons w ys =>
      simp only [renderItems, List.append_assoc] at h
      exact absurd h.symm (render_ne_close (by decide))
  | v::xs, ys, s, t, hs, he, h => by
    cases ys with
    | nil =>
      simp only [renderItems, List.append_assoc] at h
      exact absurd h (render_ne_close (by decide))
    | cons w ys =>
      simp only [renderItems, List.append_assoc] at h
      obtain ⟨rfl, h'⟩ := render_inj v w (moreItems_ends xs s) (moreItems_ends ys t) h
      obtain ⟨rfl, hst⟩ := moreItems_inj xs ys hs he h'
      exact ⟨rfl, hst⟩

theorem moreItems_inj : ∀ (xs ys : List Value) {s t : List Char}, Ends s → Ends t →
    renderMoreItems xs ++ s = renderMoreItems ys ++ t → xs = ys ∧ s = t
  | [], ys, s, t, _, _, h => by
    cases ys with
    | nil => exact ⟨rfl, List.append_cancel_left h⟩
    | cons w ys => simp [renderMoreItems] at h
  | v::xs, ys, s, t, hs, he, h => by
    cases ys with
    | nil => simp [renderMoreItems] at h
    | cons w ys =>
      simp only [renderMoreItems, List.cons_append, List.append_assoc, List.cons.injEq,
        true_and] at h
      obtain ⟨rfl, h'⟩ := render_inj v w (moreItems_ends xs s) (moreItems_ends ys t) h
      obtain ⟨rfl, hst⟩ := moreItems_inj xs ys hs he h'
      exact ⟨rfl, hst⟩

theorem fields_inj : ∀ (xs ys : List (String × Value)) {s t : List Char}, Ends s → Ends t →
    renderFields xs ++ s = renderFields ys ++ t → xs = ys ∧ s = t
  | [], ys, s, t, _, _, h => by
    rcases ys with _ | ⟨⟨b, w⟩, ys⟩
    · exact ⟨rfl, List.append_cancel_left h⟩
    · simp [renderFields, renderText, quote] at h
  | (a, v)::xs, ys, s, t, hs, he, h => by
    rcases ys with _ | ⟨⟨b, w⟩, ys⟩
    · simp [renderFields, renderText, quote] at h
    · simp only [renderFields, List.append_assoc, List.cons_append] at h
      obtain ⟨rfl, h'⟩ := text_inj h
      simp only [List.cons.injEq, true_and] at h'
      obtain ⟨rfl, h''⟩ := render_inj v w (moreFields_ends xs s) (moreFields_ends ys t) h'
      obtain ⟨rfl, hst⟩ := moreFields_inj xs ys hs he h''
      exact ⟨rfl, hst⟩

theorem moreFields_inj : ∀ (xs ys : List (String × Value)) {s t : List Char},
    Ends s → Ends t → renderMoreFields xs ++ s = renderMoreFields ys ++ t → xs = ys ∧ s = t
  | [], ys, s, t, _, _, h => by
    rcases ys with _ | ⟨⟨b, w⟩, ys⟩
    · exact ⟨rfl, List.append_cancel_left h⟩
    · simp [renderMoreFields] at h
  | (a, v)::xs, ys, s, t, hs, he, h => by
    rcases ys with _ | ⟨⟨b, w⟩, ys⟩
    · simp [renderMoreFields] at h
    · simp only [renderMoreFields, List.append_assoc, List.cons_append, List.cons.injEq,
        true_and] at h
      obtain ⟨rfl, h'⟩ := text_inj h
      simp only [List.cons.injEq, true_and] at h'
      obtain ⟨rfl, h''⟩ := render_inj v w (moreFields_ends xs s) (moreFields_ends ys t) h'
      obtain ⟨rfl, hst⟩ := moreFields_inj xs ys hs he h''
      exact ⟨rfl, hst⟩

end

theorem dumps_injective : Function.Injective dumps := by
  intro v w h
  have hr : render v = render w := String.ofList_injective h
  have hnil : Ends [] := fun c hc => by simp at hc
  exact (render_inj v w hnil hnil (congrArg (· ++ []) hr)).1

def hexDigits : List Char :=
  ['0', '1', '2', '3', '4', '5', '6', '7', '8', '9', 'a', 'b', 'c', 'd', 'e', 'f']

/-- A hash function with 64 hexadecimal digits. -/
structure Digest where
  hexdigest : String → String
  hex_length : ∀ s, (hexdigest s).toList.length = 64
  hex_digits : ∀ s, ∀ c ∈ (hexdigest s).toList, c ∈ hexDigits

def Digest.short (digest : Digest) (s : String) : String :=
  String.ofList ((digest.hexdigest s).toList.take 16)

/-- No two of the given texts share their short digest. -/
def CollisionFree (digest : Digest) (texts : List String) : Prop :=
  ∀ s ∈ texts, ∀ t ∈ texts, digest.short s = digest.short t → s = t

instance (digest : Digest) (texts : List String) : Decidable (CollisionFree digest texts) :=
  inferInstanceAs (Decidable (∀ s ∈ texts, ∀ t ∈ texts, _))

theorem CollisionFree.mono {digest : Digest} {texts texts' : List String}
    (h : CollisionFree digest texts) (hs : ∀ s ∈ texts', s ∈ texts) :
    CollisionFree digest texts' :=
  fun s hs' t ht' => h s (hs s hs') t (hs t ht')

def hexDigit (n : ℕ) : Char := hexDigits.get ⟨n%16, Nat.mod_lt n (by decide)⟩

def zeroDigest : Digest where
  hexdigest _ := String.ofList (List.replicate 64 '0')
  hex_length _ := by rw [String.toList_ofList, List.length_replicate]
  hex_digits _ c hc := by
    rw [String.toList_ofList] at hc
    rw [List.eq_of_mem_replicate hc]
    decide

/-- A checksum written with hexadecimal digits, the least one first. -/
def checksum : Digest where
  hexdigest s :=
    let sum := s.toByteArray.data.toList.foldl (fun acc c => (acc*1000003+c.toNat+1)%16^64) 0
    String.ofList ((List.range 64).map fun i => hexDigit (sum/16^i))
  hex_length s := by simp
  hex_digits s c hc := by
    simp only [String.toList_ofList, List.mem_map] at hc
    obtain ⟨i, -, rfl⟩ := hc
    exact List.get_mem _ _

end Workbench.Json
