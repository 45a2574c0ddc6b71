import Workbench.Json
import Workbench.Raising
import Workbench.DecimalTexts

/-!
# Reading JSON values by their members

The readings of a JSON value that a decoder uses: a member by its key, the items
of an array, a number, a text. A store may keep the members of an object in an
order of its own; what is read through keys does not change.
-/

set_option autoImplicit false

namespace Workbench.JsonMembers
open Workbench.Listing Workbench.Raising Workbench.Json Workbench.DecimalTexts Workbench.Records

theorem text_down {s : String} (h : PLift (nonblank s = true)) : nonblank s = true := h.down

/-- What the readings and the constructors under them raise. A value outside its declared type
that is not checked is `untyped`: what follows from it is left open. -/
inductive ReadFailure where
  | attributeError
  | keyError
  | typeError
  | valueError
  | arithmeticError
  | overflowError
  | domainValidation (message : String)
  | untyped
deriving DecidableEq

abbrev Reading := Except ReadFailure

def constructed {α : Type} : Outcome α → Reading α
  | .ok a => .ok a
  | .error (.domainValidation message) => .error (.domainValidation message)
  | .error .overflow => .error .overflowError
  | .error .arithmetic => .error .arithmeticError
  | .error .missingKey => .error .keyError

@[simp] theorem constructed_ok {α : Type} (a : α) : constructed (.ok a) = .ok a := rfl

def orFail {α : Type} (failure : ReadFailure) : Option α → Reading α
  | some a => .ok a
  | none => .error failure

@[simp] theorem orFail_some {α : Type} (failure : ReadFailure) (a : α) :
    orFail failure (some a) = .ok a := rfl

def found (fields : List (String × Value)) (key : String) : Option Value :=
  (lookup Prod.fst fields key).map Prod.snd

/-- `v[key]`. -/
def item (v : Value) (key : String) : Reading Value :=
  match v with
  | .object fields => orFail .keyError (found fields key)
  | _ => .error .typeError

/-- `v.get(key, default)`. -/
def get (v : Value) (key : String) (default : Value) : Reading Value :=
  match v with
  | .object fields => .ok ((found fields key).getD default)
  | _ => .error .attributeError

def elements : Value → Reading (List Value)
  | .array items => .ok items
  | .text s => .ok (s.toList.map fun c => .text (String.singleton c))
  | .object fields => .ok (fields.map fun f => .text f.1)
  | _ => .error .typeError

def pairOf (v : Value) : Reading (Value × Value) := do
  match ← elements v with
  | [a, b] => .ok (a, b)
  | _ => .error .valueError

/-- `v.items()`. -/
def membersOf : Value → Reading (List (String × Value))
  | .object fields => .ok fields
  | _ => .error .attributeError

def truth : Value → Bool
  | .null => false
  | .bool b => b
  | .number z => z ≠ 0
  | .text s => s ≠ ""
  | .array items => !items.isEmpty
  | .object fields => !fields.isEmpty

def groupedDigits : List Char → Option (List ℕ)
  | [] => none
  | [c] => (digitValue c).map fun d => [d]
  | c :: '_' :: cs => do
    let d ← digitValue c
    let ds ← groupedDigits cs
    return d :: ds
  | c :: cs => do
    let d ← digitValue c
    let ds ← groupedDigits cs
    return d :: ds

/-- The `int` constructor on a text, of at most 4300 digits. -/
def readInt (s : String) : Option ℤ :=
  let whole cs := (groupedDigits cs).bind fun ds =>
    if ds.length ≤ 4300 then some (number ds : ℤ) else none
  match (strip s).toList with
  | '-' :: cs => (whole cs).map fun z => -z
  | '+' :: cs => whole cs
  | cs => whole cs

def asInt : Value → Reading ℤ
  | .number z => .ok z
  | .bool b => .ok (if b then 1 else 0)
  | .text s => orFail .valueError (readInt s)
  | _ => .error .typeError

/-- `str(v)`; how containers are written is left open. -/
def asText (written : Value → String) : Value → String
  | .null => "None"
  | .bool b => if b then "True" else "False"
  | .number z => toString z
  | .text s => s
  | v => written v

def enumOf {α : Type} (members : List α) (value : α → String) : Value → Reading α
  | .text s => orFail .valueError (members.find? fun a => value a = s)
  | _ => .error .valueError

theorem find_value {α : Type} {members : List α} {value : α → String}
    (hi : Function.Injective value) {a : α} (ha : a ∈ members) :
    members.find? (fun b => value b = value a) = some a := by
  induction members with
  | nil => cases ha
  | cons b members ih =>
    by_cases hb : value b = value a
    · rw [List.find?_cons_of_pos (by simp [hb]), hi hb]
    · rw [List.find?_cons_of_neg (by simp [hb])]
      exact ih ((List.mem_cons.mp ha).resolve_left fun h => hb (h ▸ rfl))

theorem enumOf_value {α : Type} {members : List α} {value : α → String}
    (hi : Function.Injective value) {a : α} (ha : a ∈ members) :
    enumOf members value (.text (value a)) = .ok a := by
  rw [enumOf, find_value hi ha, orFail_some]

mutual

/-- The same value with the members of its objects in some order. -/
inductive Kept : Value → Value → Prop
  | null : Kept .null .null
  | bool (b : Bool) : Kept (.bool b) (.bool b)
  | number (z : ℤ) : Kept (.number z) (.number z)
  | text (s : String) : Kept (.text s) (.text s)
  | array {items items' : List Value} : KeptItems items items' → Kept (.array items) (.array items')
  | object {fields ordered fields' : List (String × Value)} : fields.Perm ordered →
    KeptFields ordered fields' → Kept (.object fields) (.object fields')

inductive KeptItems : List Value → List Value → Prop
  | nil : KeptItems [] []
  | cons {v w : Value} {items items' : List Value} : Kept v w → KeptItems items items' →
    KeptItems (v :: items) (w :: items')

inductive KeptFields : List (String × Value) → List (String × Value) → Prop
  | nil : KeptFields [] []
  | cons (key : String) {v w : Value} {fields fields' : List (String × Value)} : Kept v w →
    KeptFields fields fields' → KeptFields ((key, v) :: fields) ((key, w) :: fields')

end

mutual

theorem kept_refl : ∀ v : Value, Kept v v
  | .null => .null
  | .bool b => .bool b
  | .number z => .number z
  | .text s => .text s
  | .array items => .array (keptItems_refl items)
  | .object fields => .object (List.Perm.refl fields) (keptFields_refl fields)

theorem keptItems_refl : ∀ items : List Value, KeptItems items items
  | [] => .nil
  | v :: items => .cons (kept_refl v) (keptItems_refl items)

theorem keptFields_refl : ∀ fields : List (String × Value), KeptFields fields fields
  | [] => .nil
  | (key, v) :: fields => .cons key (kept_refl v) (keptFields_refl fields)

end

section Reading
variable {v w : Value}

theorem kept_null (h : Kept .null w) : w = .null := by
  cases h
  rfl

theorem kept_bool {b : Bool} (h : Kept (.bool b) w) : w = .bool b := by
  cases h
  rfl

theorem kept_number {z : ℤ} (h : Kept (.number z) w) : w = .number z := by
  cases h
  rfl

theorem kept_text {s : String} (h : Kept (.text s) w) : w = .text s := by
  cases h
  rfl

theorem kept_array {items : List Value} (h : Kept (.array items) w) :
    ∃ items', w = .array items' ∧ List.Forall₂ Kept items items' := by
  have hforall : ∀ {l l' : List Value}, KeptItems l l' → List.Forall₂ Kept l l' := by
    intro l
    induction l with
    | nil =>
      intro l' hl
      cases hl
      exact .nil
    | cons v l ih =>
      intro l' hl
      cases hl with
      | cons hv hrest => exact .cons hv (ih hrest)
  cases h with
  | array hitems => exact ⟨_, rfl, hforall hitems⟩

theorem keptFields_found {fields fields' : List (String × Value)} (h : KeptFields fields fields')
    {key : String} (hv : found fields key = some v) : ∃ w, found fields' key = some w ∧ Kept v w := by
  induction fields generalizing fields' with
  | nil => cases hv
  | cons f fields ih =>
    cases h with
    | @cons k x y _ rest hxy hrest =>
      unfold found lookup at hv ⊢
      by_cases hk : k = key
      · rw [List.find?_cons_of_pos (by simp [hk])] at hv ⊢
        cases hv
        exact ⟨y, rfl, hxy⟩
      · rw [List.find?_cons_of_neg (by simp [hk])] at hv ⊢
        exact ih hrest hv

theorem found_at {fields : List (String × Value)} (hd : (fields.map Prod.fst).Nodup) {i : ℕ}
    {key : String} (hi : fields[i]? = some (key, v)) : found fields key = some v := by
  have hmem := List.mem_of_getElem? hi
  rw [found, lookup_mem hd hmem]
  rfl

theorem kept_item {fields : List (String × Value)} (h : Kept (.object fields) w)
    (hd : (fields.map Prod.fst).Nodup) (i : ℕ) {key : String} (hi : fields[i]? = some (key, v)) :
    ∃ x, item w key = .ok x ∧ Kept v x := by
  have hv := found_at hd hi
  cases h with
  | object hperm hfields =>
    rw [found, lookup_perm hperm hd] at hv
    obtain ⟨x, hx, hkept⟩ := keptFields_found hfields hv
    exact ⟨x, by rw [item, hx, orFail_some], hkept⟩

theorem kept_get {fields : List (String × Value)} (h : Kept (.object fields) w)
    (hd : (fields.map Prod.fst).Nodup) (i : ℕ) {key : String} (hi : fields[i]? = some (key, v))
    (default : Value) : ∃ x, get w key default = .ok x ∧ Kept v x := by
  have hv := found_at hd hi
  cases h with
  | object hperm hfields =>
    rw [found, lookup_perm hperm hd] at hv
    obtain ⟨x, hx, hkept⟩ := keptFields_found hfields hv
    exact ⟨x, by rw [get, hx, Option.getD_some], hkept⟩

theorem keptFields_numbers {fields fields' : List (String × Value)} (h : KeptFields fields fields')
    (hn : ∀ f ∈ fields, ∃ z, f.2 = .number z) : fields' = fields := by
  induction fields generalizing fields' with
  | nil =>
    cases h
    rfl
  | cons f fields ih =>
    cases h with
    | @cons key x y _ rest hxy hrest =>
      obtain ⟨z, hz⟩ := hn _ List.mem_cons_self
      have hx : x = .number z := hz
      subst hx
      rw [kept_number hxy, ih hrest fun g hg => hn g (List.mem_cons_of_mem _ hg)]

theorem kept_members {fields : List (String × Value)} (h : Kept (.object fields) w)
    (hn : ∀ f ∈ fields, ∃ z, f.2 = .number z) :
    ∃ fields', membersOf w = .ok fields' ∧ fields.Perm fields' := by
  cases h with
  | object hperm hfields =>
    refine ⟨_, rfl, ?_⟩
    rw [keptFields_numbers hfields fun f hf => hn f (hperm.mem_iff.mpr hf)]
    exact hperm

end Reading

theorem mapM_kept {α : Type} {encode : α → Value} {decode : Value → Reading α} {l : List α}
    (h : ∀ a ∈ l, ∀ w, Kept (encode a) w → decode w = .ok a) {ws : List Value}
    (hk : List.Forall₂ Kept (l.map encode) ws) : ws.mapM decode = .ok l := by
  induction l generalizing ws with
  | nil =>
    cases hk
    rfl
  | cons a l ih =>
    cases hk with
    | @cons v w _ rest hw hrest =>
      rw [List.mapM_cons, h a List.mem_cons_self w hw,
        ih (fun b hb => h b (List.mem_cons_of_mem a hb)) hrest]
      rfl

theorem elements_kept {α : Type} {encode : α → Value} {decode : Value → Reading α} {l : List α}
    (h : ∀ a ∈ l, ∀ w, Kept (encode a) w → decode w = .ok a) {w : Value}
    (hk : Kept (.array (l.map encode)) w) :
    ∃ ws, elements w = .ok ws ∧ ws.mapM decode = .ok l := by
  obtain ⟨ws, rfl, hitems⟩ := kept_array hk
  exact ⟨ws, rfl, mapM_kept h hitems⟩

end Workbench.JsonMembers
