import Workbench.Defects

/-!
# Fields and their cells

A row of a file whose header has no issues is read field by field: each bound
field is what its parser makes of the cell that its binding names, or the issue
that the parser raises there. A column whose name is reserved for values past
the header is not read.
-/

set_option autoImplicit false

namespace Workbench.BoundFields
open Workbench.Listing Workbench.Raising Workbench.Records Workbench.Ingestion
open Workbench.Interpretation Workbench.Columns Workbench.Bindings Workbench.Defects
open Workbench.Observations
open Workbench.Tables (forall₂_mem_left)

def InterpretedRow.provenance (i : InterpretedRow) : List FieldProvenance :=
  match i.canonical, i.preview with
  | some row, _ => row.provenance
  | none, some (.retraction _ _ provenance) => provenance
  | none, _ => []

def Retracts (i : InterpretedRow) : Prop :=
  ∃ key provenance, i.preview = some (.retraction i.rowNumber key provenance)

def boundCell (cell : String → RawCell) : FieldBinding → RawCell
  | .column name _ => cell name
  | .constant value => .fromSource value []

def Read (reader : DatetimeReader) (contract : SourceContract) (row : CanonicalFields)
    (cell : RawCell) (field : CanonicalField) : Prop :=
  match field with
  | .sourceRecordKey =>
    parseRequiredText row.rowNumber field.value cell = .ok row.sourceRecordKey
  | .businessReference => ∃ text, row.businessReference = some text ∧
    parseRequiredText row.rowNumber field.value cell = .ok text
  | .executedAtUtc =>
    parseDatetimeValue row.rowNumber field.value reader contract cell = .ok row.executedAtUtc
  | .instrument => parseRequiredText row.rowNumber field.value cell = .ok row.instrument
  | .side => parseEnumValue row.rowNumber field.value contract.sides.values cell = .ok row.side
  | .quantity => parseDecimalValue row.rowNumber field.value cell = .ok row.quantity
  | .unitPrice => parseDecimalValue row.rowNumber field.value cell = .ok row.unitPrice
  | .grossAmount => parseDecimalValue row.rowNumber field.value cell = .ok row.grossAmount
  | .currency => parseRequiredText row.rowNumber field.value cell = .ok row.currency
  | .state => parseEnumValue row.rowNumber field.value contract.states.values cell = .ok row.state

def ItemOf (field : CanonicalField) (binding : FieldBinding) (cell : RawCell)
    (item : FieldProvenance) : Prop :=
  item.canonicalField = field.value ∧ item.sourceColumn = binding.sourceColumn ∧
    item.rawCell = cell

section Rows
variable (reader : DatetimeReader) (contract : SourceContract) (cell : String → RawCell)
  (number : ℕ)

def operationOf : Except RowIssue IngestionOperation :=
  match contract.operations with
  | none => .ok .snapshot
  | some operations =>
    match parseEnumValue number "operation" operations.mapping (cell operations.field) with
    | .ok operation => .ok operation
    | .error issue => .error { issue with code := .invalidOperation }

def keyOf : Except RowIssue String :=
  parseRequiredText number CanonicalField.sourceRecordKey.value
    (boundCell cell (contract.binding .sourceRecordKey key_always))

/-- A line that fits its header and names a retraction and a key has no other
field. -/
def retraction (fits : Bool) : Bool :=
  match fits, operationOf contract cell number, keyOf contract cell number with
  | true, .ok .retract, .ok _ => true
  | _, _, _ => false

/-- An item of a provenance is that of a bound field, the key for a retraction, or
of the operation. -/
def Origin (fits : Bool) (item : FieldProvenance) : Prop :=
  (∃ field binding, contract.bindings field = some binding ∧
    (retraction contract cell number fits = true → field = .sourceRecordKey) ∧
    ItemOf field binding (boundCell cell binding) item) ∨
  ∃ operations, contract.operations = some operations ∧ item.canonicalField = "operation" ∧
    item.sourceColumn = some operations.field ∧ item.rawCell = cell operations.field

/-- A row is what the bound cells of its line say: its fields, its operation and
its key are what the parsers make of them, its provenance names them, and its
issues are those that the parsers raise there, that of a line longer than the
header or that of a repeated key. -/
structure BoundRow (fits : Bool) (i : InterpretedRow) : Prop where
  numbered : i.rowNumber = number
  fields : ∀ row, i.canonical = some row → row.rowNumber = number ∧
    ∀ field binding, contract.bindings field = some binding →
      Read reader contract row.toCanonicalFields (boundCell cell binding) field ∧
      ∃ item ∈ row.provenance, ItemOf field binding (boundCell cell binding) item
  unbound : ∀ row, i.canonical = some row → contract.bindings .businessReference = none →
    row.businessReference = none
  operation : ∀ row, i.canonical = some row →
    operationOf contract cell number = .ok row.operation
  retracts : Retracts i → retraction contract cell number fits = true
  key : ∀ key, i.preview.bind Preview.sourceRecordKey = some key →
    keyOf contract cell number = .ok key
  answered : i.issues = [] → if retraction contract cell number fits then Retracts i
    else i.canonical.isSome = true
  issues : retraction contract cell number fits = false →
    (∀ issue ∈ issueOf (operationOf contract cell number), issue ∈ i.issues) ∧
    ∀ field binding, contract.bindings field = some binding →
      ∀ issue ∈ cellIssues reader contract number (boundCell cell binding) field,
        issue ∈ i.issues
  raised : ∀ issue ∈ i.issues, issue.code = .duplicateSourceKey ∨
    retraction contract cell number fits = false ∧ (issue.field = "_row" ∨
      issue ∈ issueOf (operationOf contract cell number) ∨
      ∃ field binding, contract.bindings field = some binding ∧
        issue ∈ cellIssues reader contract number (boundCell cell binding) field)
  recorded : ∀ item ∈ InterpretedRow.provenance i, Origin contract cell number fits item

end Rows

section Lines
variable (contract : SourceContract) (header values : List String) (number : ℕ)

def fitting : Bool := values.length ≤ header.length

/-- The columns that a line is read from: a retraction has its operation and its
key only. -/
def readColumns : List String :=
  if retraction contract (columnCell header values contract.nullTokens) number
      (fitting header values) then
    ((contract.bindings .sourceRecordKey).bind FieldBinding.sourceColumn).toList ++
      (contract.operations.map (·.field)).toList
  else sourceColumns contract

end Lines

/-- Every row of a preview is what the bound cells of its line say, and the keys
of a ready preview are not blank and distinct. -/
structure BoundExactly (reader : DatetimeReader) (contract : SourceContract)
    (header : List String) (lines : List (List String)) (p : InterpretedPreview) : Prop where
  rows : List.Forall₂ (fun line i => BoundRow reader contract
    (columnCell header line.1 contract.nullTokens) (line.2+2) (fitting header line.1) i)
    lines.zipIdx p.rows
  keys : p.errorCount = 0 → ∃ keys : List String,
    p.rows.map (fun i => i.preview.bind Preview.sourceRecordKey) = keys.map some ∧
      (∀ key ∈ keys, nonblank key = true) ∧ (keys.map strip).Nodup

/-- No line has a value in a column that it is read from and whose name is
reserved. -/
def NothingReserved (contract : SourceContract) (header : List String)
    (lines : List (List String)) : Prop :=
  ∀ line ∈ lines.zipIdx, ∀ column ∈ readColumns contract header line.1 (line.2+2),
    reserved column = true → columnCell header line.1 contract.nullTokens column = .missing

section Parsed
variable {reader : DatetimeReader} {contract : SourceContract} {number : ℕ}
  {cells : List (String × RawCell)} {fits : Bool}

theorem readCell_bound (binding : FieldBinding) :
    readCell cells binding = boundCell (cellOf cells) binding := by
  cases binding <;> rfl

theorem parseBinding_item {α : Type} {field : CanonicalField} {binding : FieldBinding}
    {parser : RawCell → Except RowIssue α} {v : α × FieldProvenance}
    (h : parseBinding cells field binding parser = .ok v) :
    parser (boundCell (cellOf cells) binding) = .ok v.1 ∧
      ItemOf field binding (boundCell (cellOf cells) binding) v.2 := by
  rw [parseBinding_eq, readCell_bound] at h
  obtain ⟨value, hvalue, rfl⟩ := map_ok.mp h
  exact ⟨hvalue, rfl, rfl, rfl⟩

theorem operationOf_parsed : operationOf contract (cellOf cells) number =
    (parseOperation number contract cells).map Prod.fst := by
  unfold operationOf parseOperation
  cases contract.operations with
  | none => rfl
  | some operations =>
    simp only
    cases parseEnumValue number "operation" operations.mapping (cellOf cells operations.field) <;>
      rfl

theorem keyOf_parsed : keyOf contract (cellOf cells) number =
    (parseText contract number cells .sourceRecordKey key_always).map Prod.fst := by
  rw [parseText, parseBinding_eq, readCell_bound, keyOf]
  cases parseRequiredText number CanonicalField.sourceRecordKey.value
    (boundCell (cellOf cells) (contract.binding .sourceRecordKey key_always)) <;> rfl

theorem parseOperation_origin {operation : IngestionOperation} {origin : List FieldProvenance}
    (h : parseOperation number contract cells = .ok (operation, origin)) :
    ∀ item ∈ origin, Origin contract (cellOf cells) number fits item := by
  unfold parseOperation at h
  cases hoperations : contract.operations with
  | none =>
    rw [hoperations] at h
    obtain ⟨_, rfl⟩ := Prod.mk.inj (Except.ok.inj h)
    simp
  | some operations =>
    rw [hoperations] at h
    simp only at h
    split at h
    · obtain ⟨_, rfl⟩ := Prod.mk.inj (Except.ok.inj h)
      intro item hitem
      rw [List.mem_singleton.mp hitem]
      exact .inr ⟨operations, hoperations, rfl, rfl, rfl⟩
    · cases h

theorem parseReference_item {reference : Option (String × FieldProvenance)}
    (h : parseReference contract number cells = .ok reference) :
    match contract.bindings .businessReference with
    | none => reference = none
    | some binding => ∃ v, reference = some v ∧
      parseRequiredText number CanonicalField.businessReference.value
        (boundCell (cellOf cells) binding) = .ok v.1 ∧
      ItemOf .businessReference binding (boundCell (cellOf cells) binding) v.2 := by
  unfold parseReference at h
  cases hbinding : contract.bindings .businessReference with
  | none =>
    rw [hbinding] at h
    exact (Except.ok.inj h).symm
  | some binding =>
    rw [hbinding] at h
    obtain ⟨v, hv, rfl⟩ := map_ok.mp h
    exact ⟨v, rfl, parseBinding_item hv⟩

variable {operation : IngestionOperation} {origin : List FieldProvenance}
  {key : String × FieldProvenance} {fields : CanonicalFields}

/-- The fields of a canonical row are what their parsers make of their cells. -/
theorem canonicalOf_read (hkey : parseText contract number cells .sourceRecordKey key_always = .ok key)
    (h : canonicalOf reader contract number cells operation origin key = .ok fields) :
    fields.rowNumber = number ∧ ∀ field binding, contract.bindings field = some binding →
      Read reader contract fields (boundCell (cellOf cells) binding) field ∧
      ∃ item ∈ fields.provenance, ItemOf field binding (boundCell (cellOf cells) binding) item := by
  unfold canonicalOf at h
  simp only at h
  split at h
  case h_2 => cases h
  case h_1 instrument currency reference executedAt quantity unitPrice grossAmount side state
      hinstrument hcurrency hreference hexecutedAt hquantity hunitPrice hgrossAmount hside hstate =>
    have hbinding : ∀ {field : CanonicalField} {binding : FieldBinding}
        (hf : field ≠ .businessReference), contract.bindings field = some binding →
        contract.binding field hf = binding :=
      fun hf hb => Option.some.inj ((binding_some hf).symm.trans hb)
    obtain rfl := Except.ok.inj h
    refine ⟨rfl, fun field binding hb => ?_⟩
    cases field with
    | businessReference =>
      have hitem := parseReference_item hreference
      rw [hb] at hitem
      obtain ⟨v, rfl, hread, hitem⟩ := hitem
      exact ⟨⟨v.1, rfl, hread⟩, v.2, by simp, hitem⟩
    | sourceRecordKey =>
      obtain ⟨hread, hitem⟩ := parseBinding_item hkey
      rw [hbinding _ hb] at hread hitem
      exact ⟨hread, key.2, by simp, hitem⟩
    | executedAtUtc =>
      obtain ⟨hread, hitem⟩ := parseBinding_item hexecutedAt
      rw [hbinding _ hb] at hread hitem
      exact ⟨hread, executedAt.2, by simp, hitem⟩
    | instrument =>
      obtain ⟨hread, hitem⟩ := parseBinding_item hinstrument
      rw [hbinding _ hb] at hread hitem
      exact ⟨hread, instrument.2, by simp, hitem⟩
    | side =>
      obtain ⟨hread, hitem⟩ := parseBinding_item hside
      rw [hbinding _ hb] at hread hitem
      exact ⟨hread, side.2, by simp, hitem⟩
    | quantity =>
      obtain ⟨hread, hitem⟩ := parseBinding_item hquantity
      rw [hbinding _ hb] at hread hitem
      exact ⟨hread, quantity.2, by simp, hitem⟩
    | unitPrice =>
      obtain ⟨hread, hitem⟩ := parseBinding_item hunitPrice
      rw [hbinding _ hb] at hread hitem
      exact ⟨hread, unitPrice.2, by simp, hitem⟩
    | grossAmount =>
      obtain ⟨hread, hitem⟩ := parseBinding_item hgrossAmount
      rw [hbinding _ hb] at hread hitem
      exact ⟨hread, grossAmount.2, by simp, hitem⟩
    | currency =>
      obtain ⟨hread, hitem⟩ := parseBinding_item hcurrency
      rw [hbinding _ hb] at hread hitem
      exact ⟨hread, currency.2, by simp, hitem⟩
    | state =>
      obtain ⟨hread, hitem⟩ := parseBinding_item hstate
      rw [hbinding _ hb] at hread hitem
      exact ⟨hread, state.2, by simp, hitem⟩

theorem parseBinding_origin {α : Type} {field : CanonicalField} {hf : field ≠ .businessReference}
    {parser : RawCell → Except RowIssue α} {v : α × FieldProvenance}
    (hfield : retraction contract (cellOf cells) number fits = true → field = .sourceRecordKey)
    (h : parseBinding cells field (contract.binding field hf) parser = .ok v) :
    Origin contract (cellOf cells) number fits v.2 :=
  .inl ⟨field, contract.binding field hf, binding_some hf, hfield, (parseBinding_item h).2⟩

/-- A canonical row has the operation it was read with and no reference that is
not bound, and every item of its provenance is of a field or of the operation. -/
theorem canonicalOf_recorded (hretracted : retraction contract (cellOf cells) number fits = false)
    (hoperation : parseOperation number contract cells = .ok (operation, origin))
    (hkey : parseText contract number cells .sourceRecordKey key_always = .ok key)
    (h : canonicalOf reader contract number cells operation origin key = .ok fields) :
    (contract.bindings .businessReference = none → fields.businessReference = none) ∧
      fields.operation = operation ∧
      ∀ item ∈ fields.provenance, Origin contract (cellOf cells) number fits item := by
  unfold canonicalOf at h
  simp only at h
  split at h
  case h_2 => cases h
  case h_1 instrument currency reference executedAt quantity unitPrice grossAmount side state
      hinstrument hcurrency hreference hexecutedAt hquantity hunitPrice hgrossAmount hside hstate =>
    obtain rfl := Except.ok.inj h
    have hother : ∀ field : CanonicalField, retraction contract (cellOf cells) number fits = true →
        field = .sourceRecordKey := fun _ h => by rw [hretracted] at h; cases h
    have hitem := parseReference_item hreference
    refine ⟨fun hnone => ?_, rfl, fun item hmem => ?_⟩
    · rw [hnone] at hitem
      simp only at hitem
      rw [hitem]
      rfl
    · simp only [List.mem_append, List.mem_cons, List.not_mem_nil, or_false, Option.mem_toList,
        Option.map_eq_some_iff] at hmem
      rcases hmem with ((hmem | rfl | rfl | rfl) | ⟨v, rfl, rfl⟩) | rfl | rfl | rfl | rfl | rfl | rfl
      · exact parseOperation_origin hoperation item hmem
      · exact parseBinding_origin (hother _) hkey
      · exact parseBinding_origin (hother _) hinstrument
      · exact parseBinding_origin (hother _) hcurrency
      · cases hb : contract.bindings .businessReference with
        | none =>
          rw [hb] at hitem
          cases hitem
        | some binding =>
          rw [hb] at hitem
          obtain ⟨w, hw, _, hitem⟩ := hitem
          obtain rfl := Option.some.inj hw
          exact .inl ⟨.businessReference, binding, hb, hother _, hitem⟩
      · exact parseBinding_origin (hother _) hexecutedAt
      · exact parseBinding_origin (hother _) hquantity
      · exact parseBinding_origin (hother _) hunitPrice
      · exact parseBinding_origin (hother _) hgrossAmount
      · exact parseBinding_origin (hother _) hside
      · exact parseBinding_origin (hother _) hstate

variable {header values : List String}

theorem retraction_parsed :
    retraction contract (cellOf (rawValues header values contract.nullTokens)) number
      (fitting header values) = retracted contract number header values := by
  unfold retraction retracted earlyIssues
  rw [operationOf_parsed, keyOf_parsed, fitting]
  simp only
  by_cases hlong : header.length < values.length
  · rw [if_pos hlong, decide_eq_false (by omega)]
    rfl
  · rw [if_neg hlong, decide_eq_true (by omega)]
    cases parseOperation number contract (rawValues header values contract.nullTokens) with
    | error _ => rfl
    | ok operation =>
      obtain ⟨operation, origin⟩ := operation
      cases parseText contract number (rawValues header values contract.nullTokens)
        .sourceRecordKey key_always <;> cases operation <;> rfl

end Parsed

section Interpreted
variable {reader : DatetimeReader} {contract : SourceContract} {number : ℕ}
  {header values : List String} {i : InterpretedRow}

theorem all_fields (field : CanonicalField) : field = .sourceRecordKey ∨ field ∈ laterFields := by
  cases field <;> decide

theorem key_bound {binding : FieldBinding} (h : contract.bindings .sourceRecordKey = some binding) :
    contract.binding .sourceRecordKey key_always = binding :=
  Option.some.inj ((binding_some key_always).symm.trans h)

section Early
variable {issue : RowIssue}

theorem early_operation (h : issue ∈ issueOf
    (parseOperation number contract (rawValues header values contract.nullTokens))) :
    issue ∈ earlyIssues contract number header values :=
  List.mem_append_left _ (List.mem_append_right _ h)

theorem early_key (h : issue ∈ issueOf (parseText contract number
    (rawValues header values contract.nullTokens) .sourceRecordKey key_always)) :
    issue ∈ earlyIssues contract number header values :=
  List.mem_append_right _ h

theorem key_issues {cells : List (String × RawCell)} :
    issueOf (parseText contract number cells .sourceRecordKey key_always) =
      cellIssues reader contract number
        (boundCell (cellOf cells) (contract.binding .sourceRecordKey key_always))
        .sourceRecordKey := by
  rw [parseText_issues, readCell_bound]
  rfl

theorem early_cases (h : issue ∈ earlyIssues contract number header values) :
    issue.field = "_row" ∨
      issue ∈ issueOf
        (parseOperation number contract (rawValues header values contract.nullTokens)) ∨
      issue ∈ issueOf (parseText contract number (rawValues header values contract.nullTokens)
        .sourceRecordKey key_always) := by
  rcases List.mem_append.mp h with h | h
  · rcases List.mem_append.mp h with h | h
    · split_ifs at h
      · rw [List.mem_singleton.mp h]
        exact .inl rfl
      · cases h
    · exact .inr (.inl h)
  · exact .inr (.inr h)

end Early

/-- The issues of a row are those that its parsers raise on the cells it reads. -/
theorem interpretRow_raised
    (h : interpretRow reader contract header false number values = .ok i) :
    (retracted contract number header values = false →
      (∀ issue ∈ issueOf (operationOf contract
        (cellOf (rawValues header values contract.nullTokens)) number), issue ∈ i.issues) ∧
      ∀ field binding, contract.bindings field = some binding →
        ∀ issue ∈ cellIssues reader contract number
          (boundCell (cellOf (rawValues header values contract.nullTokens)) binding) field,
          issue ∈ i.issues) ∧
    ∀ issue ∈ i.issues, issue.field = "_row" ∨
      issue ∈ issueOf (operationOf contract
        (cellOf (rawValues header values contract.nullTokens)) number) ∨
      ∃ field binding, contract.bindings field = some binding ∧
        issue ∈ cellIssues reader contract number
          (boundCell (cellOf (rawValues header values contract.nullTokens)) binding) field := by
  obtain ⟨_, hissues⟩ := interpretRow_issues h
  rw [operationOf_parsed, issueOf_map, hissues]
  constructor
  · intro hretracted
    rw [hretracted, if_neg (by decide)]
    refine ⟨fun issue hissue => List.mem_append_left _ (early_operation hissue),
      fun field binding hbinding issue hissue => ?_⟩
    rcases all_fields field with rfl | hlater
    · refine List.mem_append_left _ (early_key ?_)
      rw [@key_issues reader, key_bound hbinding]
      exact hissue
    · refine List.mem_append_right _ (List.mem_flatMap.mpr ⟨field, hlater, ?_⟩)
      rw [fieldIssues, hbinding]
      simp only [readCell_bound]
      exact hissue
  · intro issue hissue
    rcases List.mem_append.mp hissue with hissue | hissue
    · rcases early_cases hissue with hrow | hoperation | hkey
      · exact .inl hrow
      · exact .inr (.inl hoperation)
      · rw [@key_issues reader] at hkey
        exact .inr (.inr ⟨.sourceRecordKey, _, binding_some key_always, hkey⟩)
    · split_ifs at hissue
      · cases hissue
      · obtain ⟨field, _, hfield⟩ := List.mem_flatMap.mp hissue
        unfold fieldIssues at hfield
        split at hfield
        · cases hfield
        · rename_i binding hbinding
          rw [readCell_bound] at hfield
          exact .inr (.inr ⟨field, binding, hbinding, hfield⟩)

theorem payload_key {row : CanonicalRow} {key : String}
    (h : ((canonicalToPayload row).map Preview.complete).bind Preview.sourceRecordKey = some key) :
    row.sourceRecordKey = key := by
  obtain ⟨t⟩ := Fingerprints.exists_texts row
  rw [canonicalToPayload, t.quantity_eq, t.unitPrice_eq, t.grossAmount_eq] at h
  exact Option.some.inj h

/-- A row is a retraction, a canonical row or has issues. -/
theorem interpretRow_cases (h : interpretRow reader contract header false number values = .ok i) :
    let cells := rawValues header values contract.nullTokens
    (∃ origin key, retracted contract number header values = true ∧
      parseOperation number contract cells = .ok (.retract, origin) ∧
      parseText contract number cells .sourceRecordKey key_always = .ok key ∧
      i = ⟨number, none, some (.retraction number key.1 (origin ++ [key.2])), []⟩) ∨
    (∃ operation origin key row, retracted contract number header values = false ∧
      parseOperation number contract cells = .ok (operation, origin) ∧
      parseText contract number cells .sourceRecordKey key_always = .ok key ∧
      canonicalOf reader contract number cells operation origin key =
        .ok row.toCanonicalFields ∧
      i = ⟨number, some row, (canonicalToPayload row).map .complete, []⟩) ∨
    ∃ key issues, retracted contract number header values = false ∧
      (∀ text, key = some text → keyOf contract (cellOf cells) number = .ok text) ∧
      issues ≠ [] ∧ i = ⟨number, none, some (.incomplete number key), issues⟩ := by
  intro cells
  obtain ⟨_, hissues⟩ := interpretRow_issues h
  unfold Interpretation.interpretRow at h
  rw [if_neg (by decide)] at h
  simp only at h
  split at h
  · rename_i origin key hearly hoperation hkey
    have hearly : earlyIssues contract number header values = [] := hearly
    refine .inl ⟨origin, key, ?_, hoperation, hkey, (Except.ok.inj h).symm⟩
    rw [retracted, hearly, hoperation]
  · rename_i operation origin key hnot hearly hoperation hkey
    have hearly : earlyIssues contract number header values = [] := hearly
    have hretracted : retracted contract number header values = false := by
      rw [retracted, hearly, hoperation]
      cases operation with
      | retract => exact absurd rfl hnot
      | _ => rfl
    split at h
    · rename_i fields hfields
      obtain ⟨row, hrow, hi⟩ := bind_ok.mp h
      rw [← create_row hrow] at hfields
      exact .inr (.inl ⟨operation, origin, key, row, hretracted, hoperation, hkey, hfields,
        (Except.ok.inj hi).symm⟩)
    · rename_i issues herror
      refine .inr (.inr ⟨some key.1, issues, hretracted, fun text htext => ?_,
        canonicalOf_error herror, (Except.ok.inj h).symm⟩)
      obtain rfl := Option.some.inj htext
      rw [keyOf_parsed, hkey]
      rfl
  · rename_i hretract hcanonical
    have hi := (Except.ok.inj h).symm
    have hretracted : retracted contract number header values = false := by
      unfold retracted
      split
      · rename_i origin hearly hoperation
        obtain ⟨key, hkey⟩ := issueOf_nil (List.append_eq_nil_iff.mp hearly).2
        exact absurd hkey (hretract origin key hearly hoperation)
      · rfl
    refine .inr (.inr ⟨_, _, hretracted, fun text htext => ?_, fun hnil => ?_, hi⟩)
    · rw [keyOf_parsed]
      split at htext
      · rename_i key hkey
        rw [hkey, ← Option.some.inj htext]
        rfl
      · cases htext
    · obtain ⟨hearly, _⟩ := List.append_eq_nil_iff.mp hnil
      obtain ⟨hfirst, hk⟩ := List.append_eq_nil_iff.mp hearly
      obtain ⟨_, ho⟩ := List.append_eq_nil_iff.mp hfirst
      obtain ⟨⟨operation, origin⟩, hoperation⟩ := issueOf_nil ho
      obtain ⟨key, hkey⟩ := issueOf_nil hk
      exact hcanonical operation origin key hearly hoperation hkey

/-- A row is what the cells that it looks up say. -/
theorem interpretRow_bound
    (h : interpretRow reader contract header false number values = .ok i) :
    BoundRow reader contract (cellOf (rawValues header values contract.nullTokens)) number
      (fitting header values) i := by
  obtain ⟨hraises, hraised⟩ := interpretRow_raised h
  rcases interpretRow_cases h with ⟨origin, key, hretracted, hoperation, hkey, rfl⟩ |
    ⟨operation, origin, key, row, hretracted, hoperation, hkey, hfields, rfl⟩ |
    ⟨key, issues, hretracted, hkey, hissues, rfl⟩
  · rw [← retraction_parsed] at hretracted hraises
    refine ⟨rfl, fun _ h => ?_, fun _ h => ?_, fun _ h => ?_, fun _ => hretracted,
      fun text htext => ?_, fun _ => ?_, hraises, fun _ h => ?_, fun item hitem => ?_⟩
    · cases h
    · cases h
    · cases h
    · rw [keyOf_parsed, hkey, ← Option.some.inj htext]
      rfl
    · rw [if_pos hretracted]
      exact ⟨_, _, rfl⟩
    · cases h
    · rcases List.mem_append.mp hitem with hitem | hitem
      · exact parseOperation_origin hoperation item hitem
      · rw [List.mem_singleton.mp hitem]
        exact parseBinding_origin (fun _ => rfl) hkey
  · obtain ⟨hnumber, hread⟩ := canonicalOf_read hkey hfields
    rw [← retraction_parsed] at hretracted hraises
    obtain ⟨hunbound, hrow, hrecorded⟩ :=
      canonicalOf_recorded hretracted hoperation hkey hfields
    refine ⟨rfl, fun _ h => ?_, fun _ h => ?_, fun _ h => ?_, fun hretracts => ?_,
      fun text htext => ?_, fun _ => ?_, hraises,
      fun _ h => ?_, hrecorded⟩
    · obtain rfl := Option.some.inj h
      exact ⟨hnumber, hread⟩
    · obtain rfl := Option.some.inj h
      exact hunbound
    · obtain rfl := Option.some.inj h
      rw [operationOf_parsed, hoperation, hrow]
      rfl
    · obtain ⟨_, _, hretracts⟩ := hretracts
      obtain ⟨_, _, hnone⟩ := Option.map_eq_some_iff.mp hretracts
      cases hnone
    · rw [keyOf_parsed, hkey]
      exact congrArg Except.ok ((canonicalOf_key hfields).symm.trans (payload_key htext))
    · rw [hretracted, if_neg (by decide)]
      rfl
    · cases h
  · rw [← retraction_parsed] at hretracted hraises
    refine ⟨rfl, fun _ h => ?_, fun _ h => ?_, fun _ h => ?_, fun h => ?_, hkey,
      fun hnone => absurd hnone hissues, hraises,
      fun issue hissue => .inr ⟨hretracted, hraised issue hissue⟩, fun _ h => ?_⟩
    · cases h
    · cases h
    · cases h
    · obtain ⟨_, _, h⟩ := h
      cases h
    · cases h

end Interpreted

section Lookups
variable {reader : DatetimeReader} {contract : SourceContract} {number : ℕ} {fits : Bool}
  {cell cell' : String → RawCell} {i : InterpretedRow}

/-- A row stays what its cells say when it is found to repeat a key. -/
theorem marked_bound {count : ℕ} {key : String} (hkey : i.key = some key)
    (h : BoundRow reader contract cell number fits i) :
    BoundRow reader contract cell number fits
      (if 1 < count then
        ⟨i.rowNumber, none, some (.incomplete i.rowNumber (some key)),
          i.issues ++ [⟨i.rowNumber, "source_record_key", .duplicateSourceKey, some key,
            "a unique source record key"⟩]⟩
      else i) := by
  split_ifs
  · have hbound : i.preview.bind Preview.sourceRecordKey = some key :=
      (Option.filter_eq_some_iff.mp hkey).1
    refine ⟨h.numbered, fun _ h => ?_, fun _ h => ?_, fun _ h => ?_, fun h => ?_, fun text htext => ?_,
      fun hnone => ?_, fun hretracted => ?_, fun issue hissue => ?_, fun _ h => ?_⟩
    · cases h
    · cases h
    · cases h
    · obtain ⟨_, _, h⟩ := h
      cases h
    · exact h.key text (hbound.trans htext)
    · exact absurd (List.append_eq_nil_iff.mp hnone).2 (List.cons_ne_nil _ _)
    · obtain ⟨hoperation, hfields⟩ := h.issues hretracted
      exact ⟨fun issue hissue => List.mem_append_left _ (hoperation issue hissue),
        fun field binding hb issue hissue =>
          List.mem_append_left _ (hfields field binding hb issue hissue)⟩
    · rcases List.mem_append.mp hissue with hissue | hissue
      · exact h.raised issue hissue
      · rw [List.mem_singleton.mp hissue]
        exact .inl rfl
    · cases h
  · exact h

theorem operationOf_congr
    (h : ∀ operations, contract.operations = some operations →
      cell operations.field = cell' operations.field) :
    operationOf contract cell number = operationOf contract cell' number := by
  unfold operationOf
  cases hoperations : contract.operations with
  | none => rfl
  | some operations => simp only [h operations hoperations]

/-- A row is what two lookups say when they agree on the cells that it is read
from. -/
theorem BoundRow.congr
    (hoperation : ∀ operations, contract.operations = some operations →
      cell operations.field = cell' operations.field)
    (hcell : ∀ field binding, contract.bindings field = some binding →
      (retraction contract cell number fits = true → field = .sourceRecordKey) →
      boundCell cell binding = boundCell cell' binding)
    (h : BoundRow reader contract cell number fits i) :
    BoundRow reader contract cell' number fits i := by
  have hop : operationOf contract cell number = operationOf contract cell' number :=
    operationOf_congr hoperation
  have hkey : keyOf contract cell number = keyOf contract cell' number := by
    rw [keyOf, keyOf, hcell .sourceRecordKey _ (binding_some key_always) fun _ => rfl]
  have hret : retraction contract cell number fits = retraction contract cell' number fits := by
    unfold retraction
    rw [hop, hkey]
  have hnot : ∀ {field : CanonicalField}, retraction contract cell' number fits = false →
      retraction contract cell number fits = true → field = .sourceRecordKey :=
    fun hfalse htrue => by rw [hret, hfalse] at htrue; cases htrue
  have hobserved : ∀ row, i.canonical = some row →
      retraction contract cell' number fits = false := by
    intro row hrow
    have hobserved := row.operation_observed
    rw [← hret]
    unfold retraction
    rw [h.operation row hrow]
    split
    · rename_i hretract _
      exact absurd (Except.ok.inj hretract) hobserved
    · rfl
  refine ⟨h.numbered, fun row hrow => ⟨(h.fields row hrow).1, fun field binding hb => ?_⟩,
    h.unbound, hop ▸ h.operation, hret ▸ h.retracts, hkey ▸ h.key, hret ▸ h.answered,
    fun hretracted => ⟨hop ▸ (h.issues (hret ▸ hretracted)).1, fun field binding hb => ?_⟩,
    fun issue hissue => ?_, fun item hitem => ?_⟩
  · rw [← hcell field binding hb (hnot (hobserved row hrow))]
    exact (h.fields row hrow).2 field binding hb
  · rw [← hcell field binding hb (hnot hretracted)]
    exact (h.issues (hret ▸ hretracted)).2 field binding hb
  · rcases h.raised issue hissue with hissue | ⟨hretracted, hissue⟩
    · exact .inl hissue
    · rw [hret] at hretracted
      refine .inr ⟨hretracted, hissue.imp_right fun hissue => ?_⟩
      rcases hissue with hissue | ⟨field, binding, hb, hissue⟩
      · exact .inl (hop ▸ hissue)
      · rw [hcell field binding hb (hnot hretracted)] at hissue
        exact .inr ⟨field, binding, hb, hissue⟩
  · rcases h.recorded item hitem with ⟨field, binding, hb, hfield, hitem⟩ |
      ⟨operations, ho, hname, hcolumn, hraw⟩
    · rw [hcell field binding hb hfield] at hitem
      exact .inl ⟨field, binding, hb, hret ▸ hfield, hitem⟩
    · exact .inr ⟨operations, ho, hname, hcolumn, hraw.trans (hoperation operations ho)⟩

end Lookups

section Raised
variable {number : ℕ} {field : String} {cell : RawCell} {issue : RowIssue}

def RaisedFrom (field : String) (cell : RawCell) (issue : RowIssue) : Prop :=
  issue.field = field ∧ issue.originalValue = cell.original

theorem raiseIssue_from {α : Type} {code : RowErrorCode} {expected : String}
    (h : (raiseIssue number field code cell expected : Except RowIssue α) = .error issue) :
    RaisedFrom field cell issue := by
  rw [← Except.error.inj h]
  exact ⟨rfl, rfl⟩

theorem requiredSourceValue_from (h : requiredSourceValue number field cell = .error issue) :
    RaisedFrom field cell issue := by
  cases cell with
  | value _ => cases h
  | _ => exact raiseIssue_from h

theorem bind_from {α : Type} {f : String → Except RowIssue α}
    (hf : ∀ source, f source = .error issue → RaisedFrom field cell issue)
    (h : (requiredSourceValue number field cell >>= f) = .error issue) :
    RaisedFrom field cell issue := by
  cases hs : requiredSourceValue number field cell with
  | error e =>
    rw [hs] at h
    exact requiredSourceValue_from (hs.trans (congrArg Except.error (Except.error.inj h)))
  | ok source =>
    rw [hs, ok_bind] at h
    exact hf source h

theorem parseRequiredText_from (h : parseRequiredText number field cell = .error issue) :
    RaisedFrom field cell issue := by
  refine bind_from (fun source hsource => ?_) h
  split_ifs at hsource
  exact raiseIssue_from hsource

theorem parseDecimalValue_from (h : parseDecimalValue number field cell = .error issue) :
    RaisedFrom field cell issue := by
  refine bind_from (fun source hsource => ?_) h
  split at hsource
  · exact raiseIssue_from hsource
  · exact raiseIssue_from hsource
  · split_ifs at hsource
    exact raiseIssue_from hsource

theorem parseEnumValue_from {α : Type} {mapping : List (String × α)}
    (h : parseEnumValue number field mapping cell = .error issue) :
    RaisedFrom field cell issue := by
  refine bind_from (fun source hsource => ?_) h
  split at hsource
  · cases hsource
  · exact raiseIssue_from hsource

theorem parseDatetimeValue_from {reader : DatetimeReader} {contract : SourceContract}
    (h : parseDatetimeValue number field reader contract cell = .error issue) :
    RaisedFrom field cell issue := by
  refine bind_from (fun source hsource => ?_) h
  split at hsource
  · cases hsource
  · exact raiseIssue_from hsource

theorem cellIssues_from {reader : DatetimeReader} {contract : SourceContract}
    {field : CanonicalField} (h : issue ∈ cellIssues reader contract number cell field) :
    RaisedFrom field.value cell issue := by
  unfold cellIssues at h
  split at h
  · exact parseDatetimeValue_from (mem_issueOf h)
  · exact parseDecimalValue_from (mem_issueOf h)
  · exact parseDecimalValue_from (mem_issueOf h)
  · exact parseDecimalValue_from (mem_issueOf h)
  · exact parseEnumValue_from (mem_issueOf h)
  · exact parseEnumValue_from (mem_issueOf h)
  all_goals exact parseRequiredText_from (mem_issueOf h)

theorem operationOf_from {contract : SourceContract} {lookup : String → RawCell}
    (h : issue ∈ issueOf (operationOf contract lookup number)) :
    ∃ operations, contract.operations = some operations ∧
      RaisedFrom "operation" (lookup operations.field) issue ∧
      issue.code = .invalidOperation := by
  have h := mem_issueOf h
  unfold operationOf at h
  cases hoperations : contract.operations with
  | none =>
    rw [hoperations] at h
    cases h
  | some operations =>
    rw [hoperations] at h
    simp only at h
    split at h
    · cases h
    · rename_i e he
      obtain ⟨hfield, horiginal⟩ := parseEnumValue_from he
      rw [← Except.error.inj h]
      exact ⟨operations, rfl, ⟨hfield, horiginal⟩, rfl⟩

theorem missing_issue {reader : DatetimeReader} {contract : SourceContract}
    {field : CanonicalField} :
    ⟨number, field.value, .missingField, none, "a present required field"⟩ ∈
      cellIssues reader contract number .missing field := by
  cases field <;> exact List.mem_singleton.mpr rfl

theorem original_missing (h : cell.original = none) : cell = .missing := by
  cases cell with
  | missing => rfl
  | _ => cases h

end Raised

section Files
variable {reader : DatetimeReader} {contract : SourceContract} {header : List String}
  {lines : List (List String)} {p : InterpretedPreview}

theorem preview_bound (hheader : headerIssues header contract = [])
    (hp : Interpretation.interpretCsv reader contract header lines = .ok p) :
    List.Forall₂ (fun line i => BoundRow reader contract
      (cellOf (rawValues header line.1 contract.nullTokens)) (line.2+2) (fitting header line.1) i)
      lines.zipIdx p.rows := by
  obtain ⟨rows, hrows, he⟩ := bind_ok.mp hp
  rw [← Except.ok.inj he]
  rw [hheader] at hrows
  unfold markDuplicateSourceKeys
  rw [List.forall₂_map_right_iff]
  refine (mapM_ok.mp hrows).imp fun line i hi => ?_
  have hbound := interpretRow_bound hi
  split
  · rename_i key hkey
    exact marked_bound hkey hbound
  · exact hbound

theorem readColumns_source {values : List String} {number : ℕ} {column : String}
    (h : column ∈ readColumns contract header values number) : column ∈ sourceColumns contract := by
  unfold readColumns at h
  split_ifs at h
  · rcases List.mem_append.mp h with h | h
    · obtain ⟨binding, hbinding, hcolumn⟩ := Option.bind_eq_some_iff.mp (Option.mem_toList.mp h)
      exact List.mem_append_left _ (List.mem_filterMap.mpr ⟨.sourceRecordKey, by decide, by
        rw [hbinding]
        exact hcolumn⟩)
    · exact List.mem_append_right _ h
  · exact h

theorem operation_readColumns {values : List String} {number : ℕ} {operations : OperationMapping}
    (h : contract.operations = some operations) :
    operations.field ∈ readColumns contract header values number := by
  have hmem : operations.field ∈ (contract.operations.map (·.field)).toList := by
    rw [h]
    exact List.mem_singleton_self _
  unfold readColumns
  split_ifs
  · exact List.mem_append_right _ hmem
  · exact List.mem_append_right _ hmem

theorem field_readColumns {values : List String} {number : ℕ} {field : CanonicalField}
    {name : String} {text : nonblank name = true}
    (h : contract.bindings field = some (.column name text))
    (hfield : retraction contract (columnCell header values contract.nullTokens) number
      (fitting header values) = true → field = .sourceRecordKey) :
    name ∈ readColumns contract header values number := by
  unfold readColumns
  split_ifs with hretraction
  · obtain rfl := hfield hretraction
    refine List.mem_append_left _ (Option.mem_toList.mpr ?_)
    rw [h]
    rfl
  · exact column_read h

/-- The cells that a row looks up are those of the columns that it is read from
when none of these is reserved and has a value. -/
theorem lookup_agrees (hheader : headerIssues header contract = []) {values : List String}
    {number : ℕ} (h : ∀ column ∈ readColumns contract header values number,
      reserved column = true → columnCell header values contract.nullTokens column = .missing)
    {i : InterpretedRow} (hi : BoundRow reader contract
      (cellOf (rawValues header values contract.nullTokens)) number (fitting header values) i) :
    BoundRow reader contract (columnCell header values contract.nullTokens) number
      (fitting header values) i := by
  obtain ⟨hunique, hcolumns⟩ := header_clean hheader
  have hcell : ∀ column ∈ readColumns contract header values number,
      cellOf (rawValues header values contract.nullTokens) column =
        columnCell header values contract.nullTokens column :=
    fun column hcolumn => cell_agrees hunique (hcolumns column (readColumns_source hcolumn))
      (h column hcolumn)
  have hoperation : ∀ operations, contract.operations = some operations →
      cellOf (rawValues header values contract.nullTokens) operations.field =
        columnCell header values contract.nullTokens operations.field :=
    fun operations hop => hcell _ (operation_readColumns hop)
  have hbound : ∀ field binding, contract.bindings field = some binding →
      (retraction contract (columnCell header values contract.nullTokens) number
        (fitting header values) = true → field = .sourceRecordKey) →
      boundCell (cellOf (rawValues header values contract.nullTokens)) binding =
        boundCell (columnCell header values contract.nullTokens) binding := by
    intro field binding hb hfield
    cases binding with
    | column name text => exact hcell name (field_readColumns hb hfield)
    | constant value => rfl
  -- Both lookups tell a retraction from the operation and the key alone.
  have hret : retraction contract (cellOf (rawValues header values contract.nullTokens)) number
      (fitting header values) = retraction contract
        (columnCell header values contract.nullTokens) number (fitting header values) := by
    unfold retraction keyOf
    rw [operationOf_congr hoperation,
      hbound .sourceRecordKey _ (binding_some key_always) fun _ => rfl]
  exact hi.congr hoperation fun field binding hb hfield => hbound field binding hb (hret ▸ hfield)

end Files

section Unread
variable {reader : DatetimeReader} {contract : SourceContract} {number : ℕ}
  {cell cell' : String → RawCell} {fits : Bool} {i : InterpretedRow}

theorem field_unread {field : CanonicalField} {column : String} {text : nonblank column = true}
    (hretracted : retraction contract cell number fits = false) (hmissing : cell column = .missing)
    (hb : contract.bindings field = some (.column column text))
    (h : BoundRow reader contract cell number fits i)
    (h' : BoundRow reader contract cell' number fits i) : cell' column = .missing := by
  have hissue := (h.issues hretracted).2 field _ hb
    ⟨number, field.value, .missingField, none, "a present required field"⟩
    (by rw [boundCell, hmissing]; exact missing_issue)
  rcases h'.raised _ hissue with hcode | ⟨_, hrow | hoperation | ⟨field', binding, hb', hfrom⟩⟩
  · cases hcode
  · exact absurd hrow (canonicalField_value_apart field).2
  · obtain ⟨_, _, hfrom, _⟩ := operationOf_from hoperation
    exact absurd hfrom.1 (canonicalField_value_apart field).1
  · obtain ⟨hfield, horiginal⟩ := cellIssues_from hfrom
    obtain rfl := canonicalField_value_injective hfield
    obtain rfl := Option.some.inj (hb.symm.trans hb')
    exact original_missing horiginal.symm

theorem operation_unread {operations : OperationMapping}
    (hretracted : retraction contract cell number fits = false)
    (hmissing : cell operations.field = .missing) (ho : contract.operations = some operations)
    (h : BoundRow reader contract cell number fits i)
    (h' : BoundRow reader contract cell' number fits i) :
    cell' operations.field = .missing := by
  have hissue := (h.issues hretracted).1
    ⟨number, "operation", .invalidOperation, none, "a present required field"⟩
    (by
      unfold operationOf
      rw [ho]
      simp only [hmissing]
      exact List.mem_singleton.mpr rfl)
  rcases h'.raised _ hissue with hcode | ⟨_, hrow | hoperation | ⟨field, binding, _, hfrom⟩⟩
  · cases hcode
  · exact absurd hrow (show "operation" ≠ "_row" by decide)
  · obtain ⟨operations', ho', hfrom, _⟩ := operationOf_from hoperation
    obtain rfl := Option.some.inj (ho.symm.trans ho')
    exact original_missing hfrom.2.symm
  · exact absurd (cellIssues_from hfrom).1.symm (canonicalField_value_apart field).1

theorem retraction_parts (h : retraction contract cell number fits = true) :
    operationOf contract cell number = .ok .retract ∧
      ∃ key, keyOf contract cell number = .ok key := by
  unfold retraction at h
  split at h
  · rename_i hoperation hkey
    exact ⟨hoperation, _, hkey⟩
  · cases h

theorem operation_unreserved {header values : List String}
    (h : retraction contract (cellOf (rawValues header values contract.nullTokens)) number fits =
      true) {operations : OperationMapping} (ho : contract.operations = some operations) :
    reserved operations.field = false := by
  obtain ⟨hoperation, _⟩ := retraction_parts h
  by_contra hreserved
  rw [Bool.not_eq_false] at hreserved
  unfold operationOf at hoperation
  rw [ho] at hoperation
  simp only [cellOf_reserved hreserved] at hoperation
  cases hoperation

theorem key_unreserved {header values : List String}
    (h : retraction contract (cellOf (rawValues header values contract.nullTokens)) number fits =
      true) {name : String} {text : nonblank name = true}
    (hb : contract.bindings .sourceRecordKey = some (.column name text)) :
    reserved name = false := by
  obtain ⟨_, key, hkey⟩ := retraction_parts h
  by_contra hreserved
  rw [Bool.not_eq_false] at hreserved
  rw [keyOf, key_bound hb, boundCell, cellOf_reserved hreserved] at hkey
  cases hkey

/-- A line that is looked up as a retraction is one, and is read from no column of
a reserved name. -/
theorem retraction_unreserved {header values : List String}
    (hheader : headerIssues header contract = [])
    (h : retraction contract (cellOf (rawValues header values contract.nullTokens)) number
      (fitting header values) = true) {column : String}
    (hcolumn : column ∈ readColumns contract header values number) : ¬reserved column = true := by
  obtain ⟨hunique, hcolumns⟩ := header_clean hheader
  have hoperation : ∀ operations, contract.operations = some operations →
      cellOf (rawValues header values contract.nullTokens) operations.field =
        columnCell header values contract.nullTokens operations.field :=
    fun operations ho => cellOf_column hunique (hcolumns _ (operation_read ho))
      (operation_unreserved h ho)
  have hkey : boundCell (cellOf (rawValues header values contract.nullTokens))
      (contract.binding .sourceRecordKey key_always) =
      boundCell (columnCell header values contract.nullTokens)
        (contract.binding .sourceRecordKey key_always) := by
    cases hb : contract.binding .sourceRecordKey key_always with
    | column name text =>
      have hb' := (binding_some key_always).trans (congrArg some hb)
      exact cellOf_column hunique (hcolumns _ (column_read hb')) (key_unreserved h hb')
    | constant value => rfl
  have hretraction : retraction contract (columnCell header values contract.nullTokens) number
      (fitting header values) = true := by
    rw [← h]
    unfold retraction keyOf
    rw [operationOf_congr hoperation, hkey]
  unfold readColumns at hcolumn
  rw [if_pos hretraction] at hcolumn
  rw [Bool.not_eq_true]
  rcases List.mem_append.mp hcolumn with hcolumn | hcolumn
  · obtain ⟨binding, hb, hname⟩ := Option.bind_eq_some_iff.mp (Option.mem_toList.mp hcolumn)
    cases binding with
    | column name text =>
      obtain rfl := Option.some.inj hname
      exact key_unreserved h hb
    | constant value => cases hname
  · obtain ⟨operations, ho, rfl⟩ := Option.map_eq_some_iff.mp (Option.mem_toList.mp hcolumn)
    exact operation_unreserved h ho

end Unread

/-- Every row is what the cells that its contract binds say, and records them,
exactly when no line has a value in a column that it is read from and whose name
starts like those of the values past the header. The keys of a ready preview are
distinct in any case. -/
theorem bound_exactly_iff (reader : DatetimeReader) (contract : SourceContract)
    (header : List String) (lines : List (List String)) {p : InterpretedPreview}
    (hheader : headerIssues header contract = [])
    (hp : Interpretation.interpretCsv reader contract header lines = .ok p) :
    BoundExactly reader contract header lines p ↔ NothingReserved contract header lines := by
  have hbound := preview_bound hheader hp
  constructor
  · intro h line hline column hcolumn hreserved
    obtain ⟨i, _, hread, hrow⟩ := forall₂_mem_left
      (List.Forall₂.mp (fun _ _ hread hrow => And.intro hread hrow) hbound h.rows) hline
    have hmissing : cellOf (rawValues header line.1 contract.nullTokens) column = .missing :=
      cellOf_reserved hreserved
    cases hretracted : retraction contract (cellOf (rawValues header line.1 contract.nullTokens))
        (line.2+2) (fitting header line.1) with
    | false =>
      rcases mem_sourceColumns (readColumns_source hcolumn) with ⟨field, text, hb⟩ |
        ⟨operations, ho, rfl⟩
      · exact field_unread hretracted hmissing hb hread hrow
      · exact operation_unread hretracted hmissing ho hread hrow
    | true => exact absurd hreserved (retraction_unreserved hheader hretracted hcolumn)
  · intro h
    refine ⟨?_, ready_keys hp⟩
    exact ((List.forall₂_and_left _ _).mpr ⟨h, hbound⟩).imp fun line i ⟨hline, hi⟩ =>
      lookup_agrees hheader hline hi

theorem identifier_text : nonblank "id" = true := by decide

/-- The key and the quantity are in columns. -/
def columnContract (column : String) (text : nonblank column = true) : SourceContract :=
  { sampleContract with
    bindings := fun field => some (match field with
      | .sourceRecordKey => .column "id" identifier_text
      | .quantity => .column column text
      | _ => .constant (sampleConstant field))
    bound := fun _ _ => rfl
    reference_bound := fun _ => rfl }

theorem extra_text : nonblank "__extra_1" = true := by decide

theorem quantity_text : nonblank "quantity" = true := by decide

theorem extra_unread : reserved "__extra_1" = true := extra_reserved 1

theorem preview_exists {reader : DatetimeReader} {contract : SourceContract}
    {header : List String} {lines : List (List String)}
    (h : (Interpretation.interpretCsv reader contract header lines).toOption.isSome = true) :
    ∃ p, Interpretation.interpretCsv reader contract header lines = .ok p := by
  obtain ⟨p, hp⟩ := Option.isSome_iff_exists.mp h
  exact ⟨p, toOption_ok hp⟩

/-- The cell is there and is read as missing. -/
theorem reserved_column_unread :
    headerIssues ["id", "__extra_1"] (columnContract "__extra_1" extra_text) = [] ∧
    ∃ p, Interpretation.interpretCsv sampleReader (columnContract "__extra_1" extra_text)
        ["id", "__extra_1"] [["A-1", "1"]] = .ok p ∧
      ¬BoundExactly sampleReader (columnContract "__extra_1" extra_text) ["id", "__extra_1"]
        [["A-1", "1"]] p := by
  have hheader : headerIssues ["id", "__extra_1"] (columnContract "__extra_1" extra_text) = [] := by
    decide
  obtain ⟨p, hp⟩ := @preview_exists sampleReader (columnContract "__extra_1" extra_text)
    ["id", "__extra_1"] [["A-1", "1"]] (by decide +kernel)
  refine ⟨hheader, p, hp, fun h => ?_⟩
  obtain ⟨i, _, hread, hrow⟩ := forall₂_mem_left
    (List.Forall₂.mp (fun _ _ hread hrow => And.intro hread hrow) (preview_bound hheader hp) h.rows)
    (List.mem_singleton.mpr rfl)
  have hmissing : columnCell ["id", "__extra_1"] ["A-1", "1"] [] "__extra_1" = .missing :=
    @field_unread sampleReader (columnContract "__extra_1" extra_text) _ _ _ _ _ .quantity _
      extra_text (by decide) (cellOf_reserved extra_unread) rfl hread hrow
  exact absurd hmissing (by decide)

/-- One line is read and one is not, each as its cells say. -/
theorem bound_exactly_sample : ∃ p,
    Interpretation.interpretCsv sampleReader (columnContract "quantity" quantity_text)
        ["quantity", "id"] [["1", "A-1"], ["x", "A-2"]] = .ok p ∧
      BoundExactly sampleReader (columnContract "quantity" quantity_text)
        ["quantity", "id"] [["1", "A-1"], ["x", "A-2"]] p := by
  obtain ⟨p, hp⟩ := @preview_exists sampleReader (columnContract "quantity" quantity_text)
    ["quantity", "id"] [["1", "A-1"], ["x", "A-2"]] (by decide +kernel)
  refine ⟨p, hp, (bound_exactly_iff sampleReader (columnContract "quantity" quantity_text)
    ["quantity", "id"] [["1", "A-1"], ["x", "A-2"]] (by decide) hp).mpr ?_⟩
  have hfree : ∀ column ∈ sourceColumns (columnContract "quantity" quantity_text),
      reserved column = false := by
    have hcolumns : sourceColumns (columnContract "quantity" quantity_text) = ["id", "quantity"] := by
      decide
    rw [hcolumns]
    unfold reserved String.isPrefixOf
    simp
  intro line _ column hcolumn hreserved
  rw [hfree column (readColumns_source hcolumn)] at hreserved
  cases hreserved

end Workbench.BoundFields
