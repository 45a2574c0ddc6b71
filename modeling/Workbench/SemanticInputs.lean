import Workbench.StateHashes

/-!
# What a semantic input hash tells apart

The hash of an interpreted file is made from the digest of its contract, the
sorted header and the sorted records of the rows, each after its length. The
hashed bytes give back the digest, the header up to order and every row with
its fields up to order.
-/

set_option autoImplicit false

namespace Workbench.SemanticInputs
open Workbench.Listing Workbench.Records Workbench.Json Workbench.Ingestion
open Workbench.Fingerprints Workbench.StateHashes

inductive SemanticValueTag where
  | text
  | decimal
  | datetime
  | enum
  | missing
  | null
  | empty
  | raw
deriving DecidableEq

def SemanticValueTag.value : SemanticValueTag → String
  | .text => "TEXT"
  | .decimal => "DECIMAL"
  | .datetime => "DATETIME"
  | .enum => "ENUM"
  | .missing => "MISSING"
  | .null => "NULL"
  | .empty => "EMPTY"
  | .raw => "RAW"

theorem tagValue_injective : Function.Injective SemanticValueTag.value := by
  intro a b h
  cases a <;> cases b <;> first | rfl | exact absurd h (by decide)

/-- A value with its kind. Every kind but a missing value has a text. -/
structure SemanticValue where
  tag : SemanticValueTag
  value : Option String
  payload : value = none ↔ tag = .missing
  empty_text : tag = .empty → value = some ""
deriving DecidableEq

theorem SemanticValue.ext_iff {v w : SemanticValue} :
    v = w ↔ v.tag = w.tag ∧ v.value = w.value := by
  cases v
  cases w
  simp

/-- `SemanticValue.from_raw`. -/
def SemanticValue.fromRaw : RawCell → SemanticValue
  | .missing => ⟨.missing, none, by simp, by simp⟩
  | .null original _ => ⟨.null, some original, by simp, by simp⟩
  | .empty => ⟨.empty, some "", by simp, by simp⟩
  | .value original => ⟨.raw, some original, by simp, by simp⟩

theorem fromRaw_injective : Function.Injective SemanticValue.fromRaw := by
  intro a b h
  rw [SemanticValue.ext_iff] at h
  cases a <;> cases b <;> simp_all [SemanticValue.fromRaw]

structure SemanticInputRow where
  operation : String
  fields : List (String × SemanticValue)
  operation_text : nonblank operation = true
  fields_text : ∀ f ∈ fields, nonblank f.1 = true
  fields_unique : (fields.map Prod.fst).Nodup

/-- A row as its operation and the map from the names of its fields to their
values. -/
def SemanticInputRow.meaning (row : SemanticInputRow) :
    String × (String → Option SemanticValue) :=
  (row.operation, fun name => (lookup Prod.fst row.fields name).map Prod.snd)

theorem field_some {fields : List (String × SemanticValue)}
    (h : (fields.map Prod.fst).Nodup) {name : String} {v : SemanticValue} :
    (lookup Prod.fst fields name).map Prod.snd = some v ↔ (name, v) ∈ fields := by
  rw [Option.map_eq_some_iff]
  constructor
  · rintro ⟨f, hf, rfl⟩
    obtain ⟨hmem, hname⟩ := lookup_some hf
    rwa [← hname]
  · intro hmem
    exact ⟨(name, v), lookup_mem h hmem, rfl⟩

theorem meaning_iff {r s : SemanticInputRow} :
    r.meaning = s.meaning ↔ r.operation = s.operation ∧ r.fields.Perm s.fields := by
  rw [SemanticInputRow.meaning, SemanticInputRow.meaning, Prod.mk.injEq, funext_iff]
  refine and_congr_right fun _ => ?_
  rw [List.perm_ext_iff_of_nodup (List.Nodup.of_map _ r.fields_unique)
    (List.Nodup.of_map _ s.fields_unique)]
  constructor
  · rintro h ⟨name, v⟩
    rw [← field_some r.fields_unique, ← field_some s.fields_unique, h]
  · intro h name
    apply Option.ext
    intro v
    rw [field_some r.fields_unique, field_some s.fields_unique, h]

def fieldRecord (field : String × SemanticValue) : Value :=
  .object [("name", .text field.1), ("tag", .text field.2.tag.value),
    ("value", Ingestion.optionalText field.2.value)]

def rowRecord (row : SemanticInputRow) : List ℕ :=
  canonicalJson (.object [("fields", .array ((sortOn Prod.fst row.fields).map fieldRecord)),
    ("operation", .text row.operation)])

structure SemanticInput where
  contractDigest : String
  header : List String
  rows : List SemanticInputRow

def semanticBytes (input : SemanticInput) : Option (List ℕ) :=
  if validDigest input.contractDigest = true then
    recordBytes "semantic-input" [("contract_digest", .text input.contractDigest),
      ("header", .array ((sortOn id input.header).map .text))] (input.rows.map rowRecord)
  else none

def semanticInputHash (sha : Sha256) (input : SemanticInput) : Option String :=
  (semanticBytes input).map sha.hexdigest

theorem sortOn_id_iff {κ : Type} [LinearOrder κ] {l m : List κ} :
    sortOn id l = sortOn id m ↔ l.Perm m := by
  constructor
  · intro h
    exact (sortOn_perm id l).symm.trans (h ▸ sortOn_perm id m)
  · intro h
    apply @List.Perm.eq_of_pairwise κ fun a b => a ≤ b
    · intro a b _ _
      exact le_antisymm
    · exact sortOn_pairwise id l
    · exact sortOn_pairwise id m
    · exact ((sortOn_perm id l).trans h).trans (sortOn_perm id m).symm

theorem optionalText_injective : Function.Injective Ingestion.optionalText := by
  intro a b h
  cases a <;> cases b <;> simp_all [Ingestion.optionalText]

theorem fieldRecord_injective : Function.Injective fieldRecord := by
  intro f g h
  simp only [fieldRecord, Value.object.injEq, List.cons.injEq, Prod.mk.injEq, Value.text.injEq,
    true_and, and_true] at h
  obtain ⟨hname, htag, hvalue⟩ := h
  exact Prod.ext hname
    (SemanticValue.ext_iff.mpr ⟨tagValue_injective htag, optionalText_injective hvalue⟩)

theorem rowRecord_iff {r s : SemanticInputRow} :
    rowRecord r = rowRecord s ↔ r.meaning = s.meaning := by
  rw [meaning_iff]
  constructor
  · intro h
    have he := canonicalJson_injective h
    simp only [Value.object.injEq, List.cons.injEq, Prod.mk.injEq, Value.array.injEq,
      Value.text.injEq, true_and, and_true] at he
    have hsorted := List.map_injective_iff.mpr fieldRecord_injective he.1
    exact ⟨he.2, (sortOn_perm _ r.fields).symm.trans (hsorted ▸ sortOn_perm _ s.fields)⟩
  · rintro ⟨hoperation, hfields⟩
    rw [rowRecord, rowRecord, hoperation, sortOn_eq_of_perm Prod.fst hfields r.fields_unique]

theorem perm_map_iff {α β γ : Type} {f : α → β} {g : α → γ} (h : ∀ a b, f a = f b ↔ g a = g b)
    {l m : List α} : (l.map f).Perm (m.map f) ↔ (l.map g).Perm (m.map g) := by
  have hmap : ∀ {β γ : Type} {f : α → β} {g : α → γ}, (∀ a b, f a = f b → g a = g b) →
      (l.map f).Perm (m.map f) → (l.map g).Perm (m.map g) := by
    intro β γ f g h hp
    cases l with
    | nil =>
      rw [List.map_nil, List.nil_perm] at hp
      rw [List.map_eq_nil_iff.mp hp]
    | cons a l =>
      have : Nonempty γ := ⟨g a⟩
      obtain ⟨e, rfl⟩ := (Function.factorsThrough_iff g).mp (fun a b hab => h a b hab)
      have he := hp.map e
      rwa [List.map_map, List.map_map] at he
  exact ⟨hmap fun a b => (h a b).mp, hmap fun a b => (h a b).mpr⟩

theorem record_envelope_inj {kind : String} {metadata metadata' : List (String × Value)}
    {records records' : List (List ℕ)} {bytes : List ℕ}
    (h : recordBytes kind metadata records = some bytes)
    (h' : recordBytes kind metadata' records' = some bytes) : metadata = metadata' := by
  simp only [recordBytes, Option.bind_eq_bind, Option.bind_eq_some_iff, Option.some.injEq] at h h'
  obtain ⟨envelope, he, framed, _, hbytes⟩ := h
  obtain ⟨envelope', he', framed', _, hbytes'⟩ := h'
  have hframe := (frame_inj he he' (hbytes.trans hbytes'.symm)).1
  have hobject := canonicalJson_injective hframe
  simp only [Value.object.injEq, List.cons.injEq, Prod.mk.injEq, true_and, and_true] at hobject
  exact hobject

/-- The same input up to the order of the columns, the rows and the fields. -/
structure SameInput (x y : SemanticInput) : Prop where
  contractDigest : x.contractDigest = y.contractDigest
  header : x.header.Perm y.header
  rows : (x.rows.map SemanticInputRow.meaning).Perm (y.rows.map SemanticInputRow.meaning)

theorem same_bytes {x y : SemanticInput} (h : SameInput x y) :
    semanticBytes x = semanticBytes y := by
  rw [semanticBytes, semanticBytes, h.contractDigest, sortOn_id_iff.mpr h.header, recordBytes,
    recordBytes, sortOn_id_iff.mpr ((perm_map_iff fun _ _ => rowRecord_iff).mpr h.rows)]

theorem bytes_same {x y : SemanticInput} {bytes : List ℕ} (hx : semanticBytes x = some bytes)
    (hy : semanticBytes y = some bytes) : SameInput x y := by
  unfold semanticBytes at hx hy
  split at hx
  · split at hy
    · have hmeta := record_envelope_inj hx hy
      have hrest := hmeta
      simp only [List.cons.injEq, Prod.mk.injEq, Value.text.injEq, Value.array.injEq, true_and,
        and_true] at hrest
      obtain ⟨hdigest, hheader⟩ := hrest
      rw [hmeta] at hx
      exact ⟨hdigest, sortOn_id_iff.mp (List.map_injective_iff.mpr
          (fun _ _ => Value.text.inj) hheader),
        (perm_map_iff fun _ _ => rowRecord_iff).mp (recordBytes_inj hx hy)⟩
    · cases hy
  · cases hx

def cellName (c : (String × RawCell) × ℕ) : String := toString c.2 ++ ":" ++ c.1.1

theorem cellName_inj {c d : (String × RawCell) × ℕ} (h : cellName c = cellName d) :
    c.2 = d.2 ∧ c.1.1 = d.1.1 := by
  have hl := congrArg String.toList h
  simp only [cellName, String.toList_append, List.append_assoc] at hl
  have hc : (":" : String).toList = [':'] := rfl
  rw [hc, List.singleton_append, List.singleton_append] at hl
  have hends : ∀ rest : List Char, Ends (':' :: rest) := fun rest => ends_cons (by decide)
  have hsplit := digits_inj (hends c.1.1.toList) (hends d.1.1.toList) (by simpa using hl)
  refine ⟨hsplit.1, ?_⟩
  have hcolumn := hsplit.2
  rw [List.cons.injEq] at hcolumn
  exact String.toList_inj.mp hcolumn.2

theorem cellNames_nodup (cells : List (String × RawCell)) :
    (cells.zipIdx.map cellName).Nodup := by
  have hindices : (cells.zipIdx.map Prod.snd).Nodup := by
    rw [List.zipIdx_map_snd]
    exact List.nodup_range'
  rw [List.nodup_map_iff_inj_on (List.Nodup.of_map _ hindices)]
  intro c hc d hd h
  exact List.inj_on_of_nodup_map hindices hc hd (cellName_inj h).1

/-- `_semantic_row` on a row that has neither a canonical row nor a complete
preview: its cells as they were read. A row that is left out because its key
occurs twice keeps a complete preview and is hashed by its fields. -/
def unresolvedRow (cells : List (String × RawCell)) : SemanticInputRow where
  operation := "UNRESOLVED"
  fields := cells.zipIdx.map fun c => (cellName c, .fromRaw c.1.2)
  operation_text := by decide
  fields_text := by
    intro f hf
    obtain ⟨c, _, rfl⟩ := List.mem_map.mp hf
    exact nonblank_append_left (nonblank_append_right (by decide))
  fields_unique := by
    rw [List.map_map]
    exact cellNames_nodup cells

theorem unresolvedRow_iff {cells cells' : List (String × RawCell)} :
    (unresolvedRow cells).meaning = (unresolvedRow cells').meaning ↔ cells = cells' := by
  refine ⟨fun h => ?_, fun h => by rw [h]⟩
  have hfields := (meaning_iff.mp h).2
  have hmem : ∀ {cells cells' : List (String × RawCell)},
      (unresolvedRow cells).fields.Perm (unresolvedRow cells').fields →
      ∀ c ∈ cells.zipIdx, c ∈ cells'.zipIdx := by
    intro cells cells' hp c hc
    obtain ⟨d, hd, he⟩ := List.mem_map.mp (hp.mem_iff.mp (List.mem_map_of_mem hc))
    rw [Prod.mk.injEq] at he
    obtain ⟨hindex, hcolumn⟩ := cellName_inj he.1
    rwa [← Prod.ext (Prod.ext hcolumn (fromRaw_injective he.2)) hindex]
  apply List.ext_getElem?
  intro i
  apply Option.ext
  intro c
  rw [← List.mk_mem_zipIdx_iff_getElem?, ← List.mk_mem_zipIdx_iff_getElem?]
  exact ⟨hmem hfields (c, i), hmem hfields.symm (c, i)⟩

/-- Two inputs have one hash exactly when they are the same up to the order of
columns, rows and fields; an input with a row repeated has another one, and so
has a row with a value missing, null or empty instead. -/
theorem semantic_hash_iff (sha : Sha256) (x y : SemanticInput) {hash hash' : String}
    (hx : semanticInputHash sha x = some hash) (hy : semanticInputHash sha y = some hash')
    (hapart : ∀ b ∈ semanticBytes x, ∀ b' ∈ semanticBytes y, sha.Apart b b') :
    (hash = hash' ↔ SameInput x y) ∧
    (∀ row, y.rows.Perm (row :: x.rows) → hash ≠ hash') ∧
    Function.Injective SemanticValue.fromRaw ∧
    ∀ cells cells', (unresolvedRow cells).meaning = (unresolvedRow cells').meaning ↔
      cells = cells' := by
  obtain ⟨bytes, hb, rfl⟩ := Option.map_eq_some_iff.mp hx
  obtain ⟨bytes', hb', rfl⟩ := Option.map_eq_some_iff.mp hy
  have hsame : sha.hexdigest bytes = sha.hexdigest bytes' ↔ SameInput x y := by
    constructor
    · intro h
      obtain rfl := hapart bytes hb bytes' hb' h
      exact bytes_same hb hb'
    · intro h
      rw [same_bytes h, hb', Option.some.injEq] at hb
      rw [hb]
  refine ⟨hsame, fun row hrows h => ?_, fromRaw_injective, fun _ _ => unresolvedRow_iff⟩
  have hlength := (hsame.mp h).rows.length_eq
  rw [List.length_map, List.length_map, hrows.length_eq, List.length_cons] at hlength
  omega

/-- A digest that ends in the length of the bytes. -/
def lengthDigest : Sha256 := endingIn List.length

/-- A line of one cell under a contract. -/
def oneCell (cell : RawCell) : SemanticInput :=
  ⟨Json.checksum.hexdigest "", ["quantity"], [unresolvedRow [("quantity", cell)]]⟩

theorem semantic_hash_sample : ∃ hash hash',
    semanticInputHash lengthDigest (oneCell .missing) = some hash ∧
      semanticInputHash lengthDigest (oneCell .empty) = some hash' ∧ hash ≠ hash' := by
  have hsome : (semanticInputHash lengthDigest (oneCell .missing)).isSome = true ∧
      (semanticInputHash lengthDigest (oneCell .empty)).isSome = true ∧
      semanticInputHash lengthDigest (oneCell .missing) ≠
        semanticInputHash lengthDigest (oneCell .empty) := by
    decide +kernel
  obtain ⟨hm, he, hne⟩ := hsome
  obtain ⟨hash, hx⟩ := Option.isSome_iff_exists.mp hm
  obtain ⟨hash', hy⟩ := Option.isSome_iff_exists.mp he
  have hapart : ∀ b ∈ semanticBytes (oneCell .missing), ∀ b' ∈ semanticBytes (oneCell .empty),
      lengthDigest.Apart b b' := by
    intro b hb b' hb' h
    rw [semanticInputHash, semanticInputHash, Option.mem_def.mp hb, Option.mem_def.mp hb',
      Option.map_some, Option.map_some, h] at hne
    exact absurd rfl hne
  obtain ⟨hiff, _, _, hcells⟩ := semantic_hash_iff lengthDigest _ _ hx hy hapart
  refine ⟨hash, hash', hx, hy, fun h => ?_⟩
  have hrows := (hiff.mp h).rows
  rw [oneCell, oneCell, List.map_singleton, List.map_singleton, List.singleton_perm_singleton,
    hcells] at hrows
  cases hrows

end Workbench.SemanticInputs
