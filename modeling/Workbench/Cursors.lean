import Workbench.Base64
import Workbench.JsonReading
import Workbench.Decisions

/-!
# Pagination cursors

A cursor is the position of a row in a list: an instant and an identity, with
the namespace of the list, as JSON in base64. Decoding reads untrusted text and
turns the exceptions it lists into one error; what it does not list escapes.
-/

set_option autoImplicit false

namespace Workbench.Cursors
open Workbench.Calendar Workbench.Raising Workbench.Records Workbench.JsonReading
open Workbench.Decisions (Uuid)

/-- The exceptions that reading a cursor may raise. -/
inductive Raised where
  | binasciiError
  | unicodeDecodeError
  | jsonDecodeError
  | typeError
  | valueError
  | attributeError
  | overflowError
  | recursionError
  | reviewCursorError
deriving DecidableEq

/-- The except clause. A cursor error is a `ValueError`. -/
def Raised.listed : Raised → Bool
  | .binasciiError | .unicodeDecodeError | .jsonDecodeError | .typeError | .valueError => true
  | .reviewCursorError => true
  | .attributeError | .overflowError | .recursionError => false

/-- What reads the fields of a cursor, on code points: a timestamp with its
offset if it has one, and an identity; `none` is a `ValueError`. JSON may be
nested as deeply as the interpreter's stack allows. -/
structure Parsers where
  fromisoformat : List ℕ → Option (Instant × Option ℤ)
  uuid : List ℕ → Option Uuid
  nesting : ℕ

structure ReviewCursor where
  createdAt : Instant
  publicId : Uuid

def orElseRaise {α : Type} (raised : Raised) : Option α → Except Raised α
  | some a => .ok a
  | none => .error raised

/-- `astimezone(UTC)`. -/
def astimezone (stamp : Instant × ℤ) : Except Raised Instant :=
  orElseRaise .overflowError (shift stamp.1 (-stamp.2))

def openBrace : Char := Char.ofNat 123

def closeBrace : Char := Char.ofNat 125

def keyText (name : List Char) : List Char := renderAscii name ++ [':']

def fieldText (name value : List Char) : List Char := keyText name ++ renderAscii value

def payloadText (space : String) (createdAt : Instant) (publicId : Uuid) : List Char :=
  [openBrace] ++ fieldText ['i'] publicId.text.toList ++ [','] ++
    fieldText ['n'] space.toList ++ [','] ++ fieldText ['t'] (isoformat createdAt).toList ++
    [','] ++ keyText ['v'] ++ ['1'] ++ [closeBrace]

def cursorText (space : String) (createdAt : Instant) (publicId : Uuid) : String :=
  String.ofList (Base64.stripPadding (Base64.encode
    (codesOf (payloadText space createdAt publicId))))

/-- A timestamp without an offset is refused. -/
def encodeReviewCursor (space : String) (createdAt : Instant × Option ℤ) (publicId : Uuid) :
    Except Raised String :=
  match createdAt.2 with
  | none => .error .reviewCursorError
  | some offset => do
    let t ← astimezone (createdAt.1, offset)
    .ok (cursorText space t publicId)

def b64decode (text : List Char) : Except Raised (List ℕ) :=
  if text.all (·.toNat < 128) then orElseRaise .binasciiError (Base64.decode text)
  else .error .valueError

/-- `decode("ascii")`. -/
def decodeAscii (bytes : List ℕ) : Except Raised (List Char) :=
  if bytes.all (· < 128) then .ok (bytes.map Char.ofNat) else .error .unicodeDecodeError

def readErrors : ReadError → Raised
  | .malformed => .jsonDecodeError
  | .tooDeep => .recursionError

def cursorKeys : List (List ℕ) := ["v", "n", "t", "i"].map fun name => codesOf name.toList

def lookup (fields : List (List ℕ × Parsed)) (name : String) : Parsed :=
  ((fields.reverse.find? (·.1 = codesOf name.toList)).map (·.2)).getD .null

/-- `set(payload) == keys`. -/
def HasKeys (fields : List (List ℕ × Parsed)) : Prop :=
  (∀ key ∈ fields.map (·.1), key ∈ cursorKeys) ∧ ∀ key ∈ cursorKeys, key ∈ fields.map (·.1)

instance (fields : List (List ℕ × Parsed)) : Decidable (HasKeys fields) :=
  inferInstanceAs (Decidable (_ ∧ _))

/-- Equal to the integer 1, as `True` is and as a float is that rounds to it. -/
def isOne : Parsed → Bool
  | .integer z => z = 1
  | .bool b => b
  | .real q => 1-1/2^54 ≤ q && q ≤ 1+1/2^53
  | _ => false

def isText (s : String) : Parsed → Bool
  | .text codes => codes = codesOf s.toList
  | _ => false

def Addressed (space : String) (fields : List (List ℕ × Parsed)) : Prop :=
  HasKeys fields ∧ isOne (lookup fields "v") = true ∧ isText space (lookup fields "n") = true

instance (space : String) (fields : List (List ℕ × Parsed)) :
    Decidable (Addressed space fields) :=
  inferInstanceAs (Decidable (_ ∧ _))

section Decoding
variable (parsers : Parsers)

/-- `datetime.fromisoformat`, and the refusal of a timestamp without an offset. -/
def readTimestamp : Parsed → Except Raised (Instant × ℤ)
  | .text codes =>
    match parsers.fromisoformat codes with
    | some (time, some offset) => .ok (time, offset)
    | some (_, none) => .error .valueError
    | none => .error .valueError
  | _ => .error .typeError

/-- `UUID`, which takes what is not `None` for a text. -/
def readIdentity : Parsed → Except Raised Uuid
  | .text codes => orElseRaise .valueError (parsers.uuid codes)
  | .null => .error .typeError
  | _ => .error .attributeError

def readPayload (space : String) : Parsed → Except Raised ((Instant × ℤ) × Uuid)
  | .object fields =>
    if Addressed space fields then do
      let stamp ← readTimestamp parsers (lookup fields "t")
      let publicId ← readIdentity parsers (lookup fields "i")
      .ok (stamp, publicId)
    else .error .valueError
  | _ => .error .valueError

def cursorJson (value : String) : Except Raised (List Char) := do
  let raw ← b64decode (value.toList ++ Base64.padding value.toList.length)
  decodeAscii raw

/-- The body of the `try`. -/
def readCursor (space value : String) : Except Raised ((Instant × ℤ) × Uuid) := do
  let text ← cursorJson value
  let payload ← (loads parsers.nesting text).mapError readErrors
  readPayload parsers space payload

/-- The `except` clause. -/
def attempt {α : Type} : Except Raised α → Except Raised α
  | .ok a => .ok a
  | .error raised => .error (if raised.listed then .reviewCursorError else raised)

def decodeReviewCursor (space : String) : Option String → Except Raised (Option ReviewCursor)
  | none => .ok none
  | some value =>
    if value = "" then .error .reviewCursorError
    else do
      let (stamp, publicId) ← attempt (readCursor parsers space value)
      let createdAt ← astimezone stamp
      .ok (some ⟨createdAt, publicId⟩)

end Decoding

section Escapes
variable {parsers : Parsers}

/-- A cursor, none, or the declared error. -/
def Declared (r : Except Raised (Option ReviewCursor)) : Prop :=
  (∃ cursor, r = .ok cursor) ∨ r = .error .reviewCursorError

def Dated (parsers : Parsers) (fields : List (List ℕ × Parsed)) (time : Instant) (offset : ℤ) :
    Prop :=
  ∃ codes, lookup fields "t" = .text codes ∧
    parsers.fromisoformat codes = some (time, some offset)

/-- The JSON of a cursor is not nested too deeply. Where it has the right keys,
version and namespace and a timestamp with an offset, its identity is a text or
null, and a text that is a UUID comes with an instant of the calendar. -/
def Tame (parsers : Parsers) (space value : String) : Prop :=
  ∀ text, cursorJson value = .ok text → loads parsers.nesting text ≠ .error .tooDeep ∧
    ∀ fields, loads parsers.nesting text = .ok (.object fields) → Addressed space fields →
      ∀ time offset, Dated parsers fields time offset →
        (lookup fields "i" = .null ∨ ∃ codes, lookup fields "i" = .text codes) ∧
        ∀ codes u, lookup fields "i" = .text codes → parsers.uuid codes = some u →
          (shift time (-offset)).isSome = true

theorem orElseRaise_error {α : Type} {raised e : Raised} {x : Option α}
    (h : orElseRaise raised x = .error e) : e = raised := by
  cases x with
  | none => exact (Except.error.inj h).symm
  | some a => cases h

theorem orElseRaise_ok {α : Type} {raised : Raised} {x : Option α} {a : α} :
    orElseRaise raised x = .ok a ↔ x = some a := by
  cases x <;> simp [orElseRaise]

theorem cursorJson_listed {value : String} {e : Raised} (h : cursorJson value = .error e) :
    e.listed = true := by
  have hascii : ∀ bytes, decodeAscii bytes = .error e → e.listed = true := by
    intro bytes he
    unfold decodeAscii at he
    split at he
    · cases he
    · rw [← Except.error.inj he]
      rfl
  unfold cursorJson at h
  cases hraw : b64decode (value.toList ++ Base64.padding value.toList.length) with
  | ok raw =>
    rw [hraw] at h
    exact hascii raw h
  | error e' =>
    rw [hraw] at h
    obtain rfl : e' = e := Except.error.inj h
    unfold b64decode at hraw
    split at hraw
    · rw [orElseRaise_error hraw]
      rfl
    · rw [← Except.error.inj hraw]
      rfl

theorem readTimestamp_ok {payload : Parsed} {stamp : Instant × ℤ} :
    readTimestamp parsers payload = .ok stamp ↔
      ∃ codes, payload = .text codes ∧
        parsers.fromisoformat codes = some (stamp.1, some stamp.2) := by
  cases payload with
  | text codes =>
    obtain ⟨time, offset⟩ := stamp
    simp only [readTimestamp, Parsed.text.injEq, exists_eq_left']
    split
    · rename_i h
      simp [h]
    · rename_i h
      simp [h]
    · rename_i h
      simp [h]
  | _ => simp [readTimestamp]

theorem readTimestamp_listed {payload : Parsed} {e : Raised}
    (h : readTimestamp parsers payload = .error e) : e.listed = true := by
  unfold readTimestamp at h
  split at h
  · split at h
    · cases h
    · rw [← Except.error.inj h]
      rfl
    · rw [← Except.error.inj h]
      rfl
  · rw [← Except.error.inj h]
    rfl

theorem readIdentity_listed {payload : Parsed} :
    (∀ e, readIdentity parsers payload = .error e → e.listed = true) ↔
      payload = .null ∨ ∃ codes, payload = .text codes := by
  cases payload with
  | null => exact iff_of_true (fun e h => Except.error.inj h ▸ rfl) (.inl rfl)
  | text codes =>
    exact iff_of_true (fun e h => orElseRaise_error h ▸ rfl) (.inr ⟨codes, rfl⟩)
  | _ => exact iff_of_false (fun h => by simpa [Raised.listed] using h _ rfl) (by simp)

theorem readIdentity_ok {payload : Parsed} {u : Uuid} :
    readIdentity parsers payload = .ok u ↔
      ∃ codes, payload = .text codes ∧ parsers.uuid codes = some u := by
  cases payload with
  | text codes => simp [readIdentity, orElseRaise_ok]
  | _ => simp [readIdentity]

/-- What the `except` clause leaves is declared or unlisted. -/
theorem decode_declared {space value : String} (hvalue : value ≠ "") :
    Declared (decodeReviewCursor parsers space (some value)) ↔
      (∀ e, readCursor parsers space value = .error e → e.listed = true) ∧
      ∀ stamp u, readCursor parsers space value = .ok (stamp, u) →
        (shift stamp.1 (-stamp.2)).isSome = true := by
  simp only [decodeReviewCursor, if_neg hvalue]
  cases hread : readCursor parsers space value with
  | error e =>
    by_cases he : e.listed = true
    · refine iff_of_true (.inr ?_) (And.intro (fun e' h => ?_) (fun _ _ h => by cases h))
      · simp only [attempt, if_pos he]
        rfl
      · rw [← Except.error.inj h]
        exact he
    · refine iff_of_false ?_ fun h => he (h.1 e rfl)
      simp only [attempt, if_neg he]
      rintro (⟨cursor, h⟩ | h)
      · cases h
      · rw [Except.error.inj h] at he
        exact he rfl
  | ok x =>
    obtain ⟨stamp, u⟩ := x
    simp only [attempt, ok_bind]
    cases hshift : shift stamp.1 (-stamp.2) with
    | none =>
      refine iff_of_false ?_ fun h => ?_
      · simp only [astimezone, hshift, orElseRaise]
        rintro (⟨cursor, h⟩ | h)
        · cases h
        · cases h
      · have hsome := h.2 stamp u rfl
        rw [hshift] at hsome
        cases hsome
    | some t =>
      refine iff_of_true (.inl ⟨some ⟨t, u⟩, ?_⟩)
        (And.intro (fun _ h => by cases h) (fun stamp' u' h => ?_))
      · simp only [astimezone, hshift, orElseRaise, ok_bind]
      · obtain ⟨rfl, rfl⟩ := Prod.mk.inj (Except.ok.inj h)
        rw [hshift]
        rfl

def TamePayload (parsers : Parsers) (space : String) (fields : List (List ℕ × Parsed)) : Prop :=
  Addressed space fields → ∀ time offset, Dated parsers fields time offset →
    (lookup fields "i" = .null ∨ ∃ codes, lookup fields "i" = .text codes) ∧
    ∀ codes u, lookup fields "i" = .text codes → parsers.uuid codes = some u →
      (shift time (-offset)).isSome = true

def Harmless (r : Except Raised ((Instant × ℤ) × Uuid)) : Prop :=
  (∀ e, r = .error e → e.listed = true) ∧
    ∀ stamp u, r = .ok (stamp, u) → (shift stamp.1 (-stamp.2)).isSome = true

theorem harmless_error {e : Raised} : Harmless (.error e) ↔ e.listed = true :=
  Iff.intro (fun h => h.1 e rfl)
    fun h => And.intro (fun _ he => Except.error.inj he ▸ h) (fun _ _ h => by cases h)

theorem harmless_object {space : String} {fields : List (List ℕ × Parsed)} :
    Harmless (readPayload parsers space (.object fields)) ↔ TamePayload parsers space fields := by
  unfold TamePayload
  by_cases haddressed : Addressed space fields
  · simp only [readPayload, haddressed, if_true, true_implies]
    cases hstamp : readTimestamp parsers (lookup fields "t") with
    | error e =>
      refine iff_of_true (harmless_error.mpr (readTimestamp_listed hstamp)) ?_
      intro time offset hdated
      rw [(@readTimestamp_ok parsers _ (time, offset)).mpr hdated] at hstamp
      cases hstamp
    | ok stamp =>
      have hdated : ∀ time offset, Dated parsers fields time offset ↔ stamp = (time, offset) := by
        intro time offset
        rw [show Dated parsers fields time offset ↔ _ from
          (@readTimestamp_ok parsers _ (time, offset)).symm, hstamp, Except.ok.injEq]
      simp only [hdated, ok_bind]
      cases hid : readIdentity parsers (lookup fields "i") with
      | error e =>
        refine Iff.trans harmless_error ?_
        constructor
        · rintro he time offset -
          have hlisted : ∀ e', readIdentity parsers (lookup fields "i") = .error e' →
              e'.listed = true := by
            intro e' h
            rw [hid] at h
            exact Except.error.inj h ▸ he
          refine ⟨readIdentity_listed.mp hlisted, fun codes u hcodes hu => ?_⟩
          · rw [readIdentity_ok.mpr ⟨codes, hcodes, hu⟩] at hid
            cases hid
        · exact fun h => readIdentity_listed.mpr (h stamp.1 stamp.2 rfl).1 e hid
      | ok u =>
        obtain ⟨codes, hcodes, hu⟩ := readIdentity_ok.mp hid
        constructor
        · rintro h time offset rfl
          exact ⟨.inr ⟨codes, hcodes⟩, fun _ _ _ _ => h.2 _ u rfl⟩
        · intro h
          refine And.intro (fun _ h => by cases h) (fun stamp' u' h' => ?_)
          rw [← (Prod.mk.inj (Except.ok.inj h')).1]
          exact (h stamp.1 stamp.2 rfl).2 codes u hcodes hu
  · simp only [readPayload, haddressed, if_false, false_implies, iff_true]
    exact harmless_error.mpr rfl

theorem declared_iff_tame (space : String) {value : String} (hvalue : value ≠ "") :
    Declared (decodeReviewCursor parsers space (some value)) ↔ Tame parsers space value := by
  refine (decode_declared hvalue).trans (?_ : Harmless _ ↔ _)
  unfold readCursor Tame
  cases hjson : cursorJson value with
  | error e =>
    refine iff_of_true (harmless_error.mpr (cursorJson_listed hjson)) ?_
    rintro text ⟨⟩
  | ok text =>
    simp only [Except.ok.injEq, forall_eq', ok_bind]
    cases hloads : loads parsers.nesting text with
    | error e =>
      refine Iff.trans harmless_error ?_
      cases e with
      | malformed => exact iff_of_true rfl ⟨by simp, by simp⟩
      | tooDeep => exact iff_of_false (by decide) fun h => h.1 rfl
    | ok payload =>
      simp only [Except.mapError, ok_bind]
      cases payload with
      | object fields =>
        refine harmless_object.trans ⟨fun h => ⟨by simp, ?_⟩, fun h => h.2 fields rfl⟩
        rintro _ ⟨⟩
        exact h
      | _ => exact iff_of_true (harmless_error.mpr rfl) ⟨by simp, by simp⟩

end Escapes

section Reading
variable {parsers : Parsers} {space : String} {t : Instant} {u : Uuid}

/-- The texts that a cursor holds are read back. -/
structure Reads (parsers : Parsers) (t : Instant) (u : Uuid) : Prop where
  timestamp : parsers.fromisoformat (codesOf (isoformat t).toList) = some (t, some 0)
  identity : parsers.uuid (codesOf u.text.toList) = some u
  nested : 0 < parsers.nesting

def cursorFields (space : String) (t : Instant) (u : Uuid) : List (List ℕ × Parsed) :=
  [(codesOf ['i'], .text (codesOf u.text.toList)), (codesOf ['n'], .text (codesOf space.toList)),
    (codesOf ['t'], .text (codesOf (isoformat t).toList)), (codesOf ['v'], .integer 1)]

theorem loads_payload {limit : ℕ} (h : 0 < limit) (space : String) (t : Instant) (u : Uuid) :
    loads limit (payloadText space t u) = .ok (.object (cursorFields space t u)) := by
  have hopen : step limit ⟨[], .value⟩ openBrace = .ok ⟨[], .firstKey⟩ := by
    show (if limit ≤ 0 then Except.error ReadError.tooDeep
      else .ok (⟨[], .firstKey⟩ : State)) = _
    rw [if_neg (by omega)]
  have hcomma : ∀ fields, step limit ⟨[], .nextField fields⟩ ',' = .ok ⟨[], .key fields⟩ :=
    fun _ => rfl
  have hone : ∀ stack, step limit ⟨stack, .value⟩ '1' =
      .ok ⟨stack, .number ⟨.whole, false, 1, 1, 0, false, 0⟩⟩ := fun _ => rfl
  have hclose : ∀ fields key, step limit
      ⟨[.object fields key], .number ⟨.whole, false, 1, 1, 0, false, 0⟩⟩ closeBrace =
        .ok ⟨[], .finished (.object (fields ++ [(key, .integer 1)]))⟩ := fun _ _ => rfl
  have hkey : ∀ fields, step limit ⟨[], .key fields⟩ Json.quote =
      .ok ⟨[], .text (.key fields) [] false⟩ := fun _ => rfl
  have hfirst : step limit ⟨[], .firstKey⟩ Json.quote = .ok ⟨[], .text (.key []) [] false⟩ := rfl
  have hfield : ∀ {fields st}, step limit st Json.quote =
      .ok ⟨[], .text (.key fields) [] false⟩ → ∀ name value,
        (fieldText name value).foldlM (step limit) st =
          .ok ⟨[], .nextField (fields ++ [(codesOf name, .text (codesOf value))])⟩ :=
    fun hst name value => run_field hst name value
  have hlast : ∀ name fields, (keyText name).foldlM (step limit) ⟨[], .key fields⟩ =
      .ok ⟨[.object fields (codesOf name)], .value⟩ := fun name fields => run_key (hkey fields) name
  have hrun : (payloadText space t u).foldlM (step limit) ⟨[], .value⟩ =
      .ok ⟨[], .finished (.object (cursorFields space t u))⟩ := by
    simp only [payloadText, List.append_assoc]
    rw [run_append (run_one hopen), run_append (hfield hfirst ['i'] _),
      run_append (run_one (hcomma _)), run_append (hfield (hkey _) ['n'] _),
      run_append (run_one (hcomma _)), run_append (hfield (hkey _) ['t'] _),
      run_append (run_one (hcomma _)), run_append (hlast ['v'] _), run_append (run_one (hone _)),
      run_one (hclose _ _)]
    rfl
  rw [loads, hrun]
  rfl

theorem keyText_ascii (name : List Char) : ∀ c ∈ keyText name, c.toNat < 128 := by
  intro c hc
  rcases List.mem_append.mp hc with hc | hc
  · exact renderAscii_ascii name c hc
  · rw [List.mem_singleton.mp hc]
    decide

theorem payloadText_ascii (space : String) (t : Instant) (u : Uuid) :
    ∀ c ∈ payloadText space t u, c.toNat < 128 := by
  have hfield : ∀ name value, ∀ c ∈ fieldText name value, c.toNat < 128 := by
    intro name value c hc
    rcases List.mem_append.mp hc with hc | hc
    · exact keyText_ascii name c hc
    · exact renderAscii_ascii value c hc
  have hmark : ∀ d : Char, d.toNat < 128 → ∀ c ∈ [d], c.toNat < 128 :=
    fun d hd c hc => List.mem_singleton.mp hc ▸ hd
  intro c hc
  simp only [payloadText, List.mem_append] at hc
  rcases hc with ((((((((hc | hc) | hc) | hc) | hc) | hc) | hc) | hc) | hc) | hc
  · exact hmark openBrace (by decide) c hc
  · exact hfield _ _ c hc
  · exact hmark ',' (by decide) c hc
  · exact hfield _ _ c hc
  · exact hmark ',' (by decide) c hc
  · exact hfield _ _ c hc
  · exact hmark ',' (by decide) c hc
  · exact keyText_ascii _ c hc
  · exact hmark '1' (by decide) c hc
  · exact hmark closeBrace (by decide) c hc

theorem cursorJson_encode {text : List Char} (hascii : ∀ c ∈ text, c.toNat < 128) :
    cursorJson (String.ofList (Base64.stripPadding (Base64.encode (codesOf text)))) =
      .ok text := by
  have hsmall : ∀ b ∈ codesOf text, b < 128 := by
    intro b hb
    obtain ⟨c, hc, rfl⟩ := List.mem_map.mp hb
    exact hascii c hc
  have hbytes : Base64.Bytes (codesOf text) := fun b hb => lt_trans (hsmall b hb) (by decide)
  have hmap : (codesOf text).map Char.ofNat = text := by
    rw [codesOf, List.map_map]
    conv_rhs => rw [← List.map_id text]
    exact List.map_congr_left fun c _ => Char.ofNat_toNat c
  have hall : (Base64.digits (codesOf text) ++
      Base64.padding (Base64.digits (codesOf text)).length).all (·.toNat < 128) = true := by
    refine List.all_eq_true.mpr fun c hc => decide_eq_true ?_
    rcases List.mem_append.mp hc with hc | hc
    · exact Base64.digits_ascii hbytes c hc
    · rw [List.eq_of_mem_replicate hc]
      decide
  have hdecode : b64decode (Base64.digits (codesOf text) ++
      Base64.padding (Base64.digits (codesOf text)).length) = .ok (codesOf text) := by
    rw [b64decode, if_pos hall, Base64.decode_digits hbytes, orElseRaise]
  have hread : decodeAscii (codesOf text) = .ok text := by
    rw [decodeAscii, if_pos (List.all_eq_true.mpr fun b hb => decide_eq_true (hsmall b hb)), hmap]
  rw [cursorJson, String.toList_ofList, Base64.stripPadding_encode hbytes, hdecode, ok_bind, hread]

theorem cursorJson_cursorText (space : String) (t : Instant) (u : Uuid) :
    cursorJson (cursorText space t u) = .ok (payloadText space t u) :=
  cursorJson_encode (payloadText_ascii space t u)

theorem cursorText_nonempty (space : String) (t : Instant) (u : Uuid) :
    cursorText space t u ≠ "" := by
  intro hempty
  have hjson := cursorJson_cursorText space t u
  rw [hempty] at hjson
  have hnil : cursorJson "" = .ok [] := rfl
  rw [hnil, Except.ok.injEq] at hjson
  have hlength := congrArg List.length hjson
  simp [payloadText] at hlength

theorem readCursor_cursorText (h : 0 < parsers.nesting) (other : String) :
    readCursor parsers other (cursorText space t u) =
      readPayload parsers other (.object (cursorFields space t u)) := by
  rw [readCursor, cursorJson_cursorText, ok_bind, loads_payload h]
  rfl

theorem addressed_iff {other : String} :
    Addressed other (cursorFields space t u) ↔ other = space := by
  have hkeys : HasKeys (cursorFields space t u) := by
    show HasKeys [(_, _), (_, _), (_, _), (_, _)]
    constructor
    · intro key hkey
      simp only [List.map_cons, List.map_nil, List.mem_cons, List.not_mem_nil, or_false] at hkey
      rcases hkey with rfl | rfl | rfl | rfl <;> decide
    · intro key hkey
      simp only [cursorKeys, List.map_cons, List.map_nil, List.mem_cons, List.not_mem_nil,
        or_false] at hkey
      rcases hkey with rfl | rfl | rfl | rfl
      · exact .tail _ (.tail _ (.tail _ (.head _)))
      · exact .tail _ (.head _)
      · exact .tail _ (.tail _ (.head _))
      · exact .head _
  have hversion : isOne (lookup (cursorFields space t u) "v") = true := rfl
  have hname : lookup (cursorFields space t u) "n" = .text (codesOf space.toList) := rfl
  have hinjective : Function.Injective codesOf :=
    List.map_injective_iff.mpr fun a b hab => Char.toNat_inj.mp hab
  constructor
  · rintro ⟨-, -, htext⟩
    rw [hname] at htext
    exact (String.toList_inj.mp (hinjective (of_decide_eq_true htext))).symm
  · rintro rfl
    exact ⟨hkeys, hversion, by rw [hname]; exact decide_eq_true rfl⟩

theorem astimezone_utc (t : Instant) : astimezone (t, 0) = .ok t :=
  orElseRaise_ok.mpr (shift_some.mpr (by simp))

theorem encode_aware {time : Instant} {offset : ℤ} (h : astimezone (time, offset) = .ok t) :
    encodeReviewCursor space (time, some offset) u = .ok (cursorText space t u) := by
  simp only [encodeReviewCursor, h, ok_bind]

theorem lookup_timestamp : lookup (cursorFields space t u) "t" =
    .text (codesOf (isoformat t).toList) := rfl

theorem lookup_identity : lookup (cursorFields space t u) "i" =
    .text (codesOf u.text.toList) := rfl

theorem decode_of_read {value : String} {stamp : Instant × ℤ} (hvalue : value ≠ "")
    (hread : readCursor parsers space value = .ok (stamp, u)) (hshift : astimezone stamp = .ok t) :
    decodeReviewCursor parsers space (some value) = .ok (some ⟨t, u⟩) := by
  simp only [decodeReviewCursor, if_neg hvalue, hread, attempt, ok_bind, hshift]

theorem payload_of_parts {fields : List (List ℕ × Parsed)} {stamp : Instant × ℤ}
    (haddressed : Addressed space fields)
    (hstamp : readTimestamp parsers (lookup fields "t") = .ok stamp)
    (hidentity : readIdentity parsers (lookup fields "i") = .ok u) :
    readPayload parsers space (.object fields) = .ok (stamp, u) := by
  simp only [readPayload, if_pos haddressed, hstamp, hidentity, ok_bind]

theorem decode_cursorText (h : Reads parsers t u) :
    decodeReviewCursor parsers space (some (cursorText space t u)) = .ok (some ⟨t, u⟩) := by
  have hstamp : readTimestamp parsers (lookup (cursorFields space t u) "t") = .ok (t, 0) :=
    readTimestamp_ok.mpr ⟨_, lookup_timestamp, h.timestamp⟩
  have hidentity : readIdentity parsers (lookup (cursorFields space t u) "i") = .ok u :=
    readIdentity_ok.mpr ⟨_, lookup_identity, h.identity⟩
  have hread := (readCursor_cursorText h.nested space).trans
    (payload_of_parts (addressed_iff.mpr rfl) hstamp hidentity)
  exact decode_of_read (cursorText_nonempty space t u) hread (astimezone_utc t)

theorem decode_foreign (h : 0 < parsers.nesting) {other : String} (hother : other ≠ space) :
    decodeReviewCursor parsers other (some (cursorText space t u)) =
      .error .reviewCursorError := by
  have hread : readCursor parsers other (cursorText space t u) = .error .valueError := by
    rw [readCursor_cursorText h]
    simp only [readPayload, if_neg (mt addressed_iff.mp hother)]
  simp only [decodeReviewCursor, if_neg (cursorText_nonempty space t u), hread, attempt]
  rfl

end Reading

/-- Decoding keeps to its error exactly on the tame texts; a cursor decodes to the
instant and the identity it was made of, and under no other namespace. -/
theorem cursor_errors_iff (parsers : Parsers) :
    (∀ space value, Declared (decodeReviewCursor parsers space value) ↔
      ∀ text, value = some text → Tame parsers space text) ∧
    ∀ space time offset t u, shift time (-offset) = some t → Reads parsers t u →
      ∃ text, encodeReviewCursor space (time, some offset) u = .ok text ∧
        decodeReviewCursor parsers space (some text) = .ok (some ⟨t, u⟩) ∧
        ∀ other, other ≠ space →
          decodeReviewCursor parsers other (some text) = .error .reviewCursorError := by
  constructor
  · intro space value
    cases value with
    | none => exact iff_of_true (.inl ⟨none, rfl⟩) fun text h => by cases h
    | some value =>
      simp only [Option.some.injEq, forall_eq']
      by_cases hvalue : value = ""
      · subst hvalue
        refine iff_of_true (.inr rfl) fun text htext => ?_
        have hnil : cursorJson "" = .ok [] := rfl
        rw [hnil, Except.ok.injEq] at htext
        subst htext
        have hloads : loads parsers.nesting [] = .error .malformed := rfl
        rw [hloads]
        exact ⟨by simp, by simp⟩
      · exact declared_iff_tame space hvalue
  · intro space time offset t u hshift hreads
    exact ⟨cursorText space t u, encode_aware (orElseRaise_ok.mpr hshift),
      decode_cursorText hreads, fun other hother => decode_foreign hreads.nested hother⟩

def sampleTime : Instant := ⟨63839761445000000, sampleTime_bound⟩

theorem sampleId_text : nonblank "8d1c2c1e-6b57-4a0e-9a3f-0f5f3f1f7c11" = true := by decide

theorem sampleId_plain : NulFree "8d1c2c1e-6b57-4a0e-9a3f-0f5f3f1f7c11" := by decide

def sampleId : Uuid := ⟨"8d1c2c1e-6b57-4a0e-9a3f-0f5f3f1f7c11", sampleId_text, sampleId_plain⟩

def sampleParsers : Parsers where
  fromisoformat codes :=
    if codes = codesOf "2024-01-02T03:04:05+00:00".toList then some (sampleTime, some 0) else none
  uuid codes := if codes = codesOf sampleId.text.toList then some sampleId else none
  nesting := 1000

theorem isoformat_sample : isoformat sampleTime = "2024-01-02T03:04:05+00:00" := by
  decide +kernel

theorem sample_reads : Reads sampleParsers sampleTime sampleId :=
  ⟨by simp only [isoformat_sample, sampleParsers, if_true], by simp only [sampleParsers, if_true],
    by decide⟩

theorem cursor_errors_sample : ∃ text,
    encodeReviewCursor "review-decisions-v1" (sampleTime, some 0) sampleId = .ok text ∧
      decodeReviewCursor sampleParsers "review-decisions-v1" (some text) =
        .ok (some ⟨sampleTime, sampleId⟩) ∧
      ∀ other, other ≠ "review-decisions-v1" →
        decodeReviewCursor sampleParsers other (some text) = .error .reviewCursorError :=
  (cursor_errors_iff sampleParsers).2 "review-decisions-v1" sampleTime 0 sampleTime sampleId
    (shift_some.mpr (by simp)) sample_reads

def raisedBy {α : Type} : Except Raised α → Option Raised
  | .ok _ => none
  | .error raised => some raised

/-- The base64 of a cursor whose identity is the number 5. -/
def numericCursor : String :=
  "eyJpIjo1LCJuIjoicmV2aWV3LWRlY2lzaW9ucy12MSIsInQiOiIyMDI0LTAxLTAyVDAzOjA0OjA1KzAwOjAwIiwidiI6MX0"

/-- A number has no `replace`. -/
theorem numeric_identity_escapes :
    ¬Declared (decodeReviewCursor sampleParsers "review-decisions-v1" (some numericCursor)) := by
  have hraised : raisedBy (decodeReviewCursor sampleParsers "review-decisions-v1"
      (some numericCursor)) = some .attributeError := by
    decide +kernel
  rintro (⟨cursor, h⟩ | h)
  · rw [h] at hraised
    cases hraised
  · rw [h] at hraised
    cases hraised

end Workbench.Cursors
