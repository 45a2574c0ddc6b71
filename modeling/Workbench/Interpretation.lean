import Workbench.Ingestion

/-!
# Interpretation of a file

A source contract says where each canonical field of a row comes from and how
its text is read. Reading a row collects an issue for every field that cannot
be read; a row without issues has a canonical row or is a retraction.
-/

set_option autoImplicit false

namespace Workbench.Interpretation
open Workbench.Listing Workbench.Decimals Workbench.DecimalTexts Workbench.DecimalRounding
open Workbench.Calendar Workbench.Raising Workbench.Records Workbench.Ingestion

inductive CanonicalField where
  | sourceRecordKey
  | businessReference
  | executedAtUtc
  | instrument
  | side
  | quantity
  | unitPrice
  | grossAmount
  | currency
  | state
deriving DecidableEq, Repr

def CanonicalField.value : CanonicalField → String
  | .sourceRecordKey => "source_record_key"
  | .businessReference => "business_reference"
  | .executedAtUtc => "executed_at_utc"
  | .instrument => "instrument"
  | .side => "side"
  | .quantity => "quantity"
  | .unitPrice => "unit_price"
  | .grossAmount => "gross_amount"
  | .currency => "currency"
  | .state => "state"

def CanonicalField.all : List CanonicalField :=
  [.sourceRecordKey, .businessReference, .executedAtUtc, .instrument, .side, .quantity,
    .unitPrice, .grossAmount, .currency, .state]

theorem canonicalField_text (field : CanonicalField) : nonblank field.value = true := by
  cases field <;> decide

inductive FieldBinding where
  | column (name : String) (text : nonblank name = true)
  | constant (value : String)

def FieldBinding.sourceColumn : FieldBinding → Option String
  | .column name _ => some name
  | .constant _ => none

def FieldBinding.rule : FieldBinding → String
  | .column .. => "declared mapping"
  | .constant _ => "constant"

theorem fieldBinding_rule (binding : FieldBinding) : nonblank binding.rule = true := by
  cases binding with
  | column _ _ =>
    show nonblank "declared mapping" = true
    decide
  | constant _ =>
    show nonblank "constant" = true
    decide

inductive DateFoldPolicy where
  | reject
  | earlier
  | later
deriving DecidableEq, Repr

structure EnumMapping (α : Type) where
  values : List (String × α)
  nonempty : values ≠ []
  texts : ∀ v ∈ values, nonblank v.1 = true
  unique : (values.map (·.1)).Nodup

structure OperationMapping where
  field : String
  field_text : nonblank field = true
  mapping : List (String × IngestionOperation)
  texts : ∀ v ∈ mapping, nonblank v.1 = true
  unique : (mapping.map (·.1)).Nodup
  covers : ∀ o, o ∈ mapping.map (·.2) ↔ o ≠ .snapshot

/-- A contract that `_validated_contract` accepts. Every field but the business
reference is bound, and a delta has an operation mapping. -/
structure SourceContract where
  adapterKey : String
  parserVersion : String
  mode : DatasetMode
  identityNamespace : String
  referenceSemantics : ReferenceSemantics
  timestampFormat : String
  timezoneName : Option String
  bindings : CanonicalField → Option FieldBinding
  sides : EnumMapping CanonicalSide
  states : EnumMapping CanonicalState
  nullTokens : List String
  operations : Option OperationMapping
  foldPolicy : DateFoldPolicy
  adapter_known : adapterKey ∈ ["atlas-ledger-v1", "atlas-counterparty-v1", "configurable-v1"]
  parserVersion_text : nonblank parserVersion = true
  identityNamespace_text : nonblank identityNamespace = true
  timestampFormat_text : nonblank timestampFormat = true
  bound : ∀ field, field ≠ .businessReference → (bindings field).isSome = true
  reference_bound : referenceSemantics ≠ .none → (bindings .businessReference).isSome = true
  nullTokens_text : "" ∉ nullTokens
  nullTokens_unique : nullTokens.Nodup
  operations_delta : operations.isSome = true ↔ mode = .delta

def SourceContract.binding (contract : SourceContract) (field : CanonicalField)
    (h : field ≠ .businessReference) : FieldBinding :=
  (contract.bindings field).get (contract.bound field h)

inductive RowErrorCode where
  | missingColumn
  | duplicateHeader
  | unexpectedColumn
  | missingField
  | nullRequired
  | emptyRequired
  | unknownEnum
  | invalidDecimal
  | nonFiniteDecimal
  | unsupportedPrecision
  | invalidDatetime
  | missingTimezone
  | ambiguousDatetime
  | nonexistentDatetime
  | duplicateSourceKey
  | invalidOperation
deriving DecidableEq, Repr

structure RowIssue where
  rowNumber : ℕ
  field : String
  code : RowErrorCode
  originalValue : Option String
  expected : String
deriving DecidableEq

section Fields
variable (rowNumber : ℕ) (field : String)

def raiseIssue {α : Type} (code : RowErrorCode) (cell : RawCell) (expected : String) :
    Except RowIssue α :=
  .error ⟨rowNumber, field, code, cell.original, expected⟩

def requiredSourceValue (cell : RawCell) : Except RowIssue String :=
  match cell with
  | .missing => raiseIssue rowNumber field .missingField cell "a present required field"
  | .null _ _ => raiseIssue rowNumber field .nullRequired cell "a non-null value"
  | .empty => raiseIssue rowNumber field .emptyRequired cell "a nonempty value"
  | .value original => .ok original

def parseRequiredText (cell : RawCell) : Except RowIssue String := do
  let source ← requiredSourceValue rowNumber field cell
  if strip source = "" then
    raiseIssue rowNumber field .emptyRequired cell "a nonempty text value"
  else .ok (strip source)

def parseDecimalValue (cell : RawCell) : Except RowIssue Decimal := do
  let source ← requiredSourceValue rowNumber field cell
  match readDecimal (strip source) with
  | none => raiseIssue rowNumber field .invalidDecimal cell "a base-10 decimal"
  | some .special => raiseIssue rowNumber field .nonFiniteDecimal cell "a finite decimal"
  | some (.finite d _) =>
    if Numeric d then .ok d
    else
      raiseIssue rowNumber field .unsupportedPrecision cell
        "at most 38 total digits and 12 fractional digits"

def parseEnumValue {α : Type} (mapping : List (String × α)) (cell : RawCell) :
    Except RowIssue α := do
  let source ← requiredSourceValue rowNumber field cell
  match lookup Prod.fst mapping (strip source) with
  | some found => .ok found.2
  | none =>
    raiseIssue rowNumber field .unknownEnum cell
      ("one of: " ++ String.intercalate ", " (sortOn id (mapping.map (·.1))))

/-- How a timestamp text is read under a format, a time zone and a fold policy:
the instant, or the failure with what was expected. -/
abbrev DatetimeReader :=
  String → Option String → DateFoldPolicy → String → Except (RowErrorCode × String) Instant

def parseDatetimeValue (reader : DatetimeReader) (contract : SourceContract) (cell : RawCell) :
    Except RowIssue Instant := do
  let source ← requiredSourceValue rowNumber field cell
  match reader contract.timestampFormat contract.timezoneName contract.foldPolicy
      (strip source) with
  | .ok t => .ok t
  | .error e => raiseIssue rowNumber field e.1 cell e.2

end Fields

inductive Preview where
  | complete (payload : CanonicalPayload)
  | retraction (rowNumber : ℕ) (sourceRecordKey : String) (provenance : List FieldProvenance)
  | incomplete (rowNumber : ℕ) (sourceRecordKey : Option String)

def Preview.sourceRecordKey : Preview → Option String
  | .complete payload => some payload.sourceRecordKey
  | .retraction _ key _ => some key
  | .incomplete _ key => key

def Preview.rowNumber : Preview → ℕ
  | .complete payload => payload.rowNumber
  | .retraction rowNumber _ _ => rowNumber
  | .incomplete rowNumber _ => rowNumber

structure InterpretedRow where
  rowNumber : ℕ
  canonical : Option CanonicalRow
  preview : Option Preview
  issues : List RowIssue

/-- The cells of a row by column; a value past the header has a column of its
own, a column past the values is missing. -/
def rawValues (header values nullTokens : List String) : List (String × RawCell) :=
  (List.range (max header.length values.length)).map fun i =>
    (header.getD i ("__extra_" ++ toString (i-header.length+1)),
      match values[i]? with
      | some value => .fromSource value nullTokens
      | none => .missing)

def cellOf (cells : List (String × RawCell)) (column : String) : RawCell :=
  match lookup Prod.fst (cells.filter fun c => !("__extra_".isPrefixOf c.1)) column with
  | some found => found.2
  | none => .missing

def issueOf {α : Type} : Except RowIssue α → List RowIssue
  | .ok _ => []
  | .error issue => [issue]

def parseBinding {α : Type} (cells : List (String × RawCell)) (field : CanonicalField)
    (binding : FieldBinding) (parser : RawCell → Except RowIssue α) :
    Except RowIssue (α × FieldProvenance) := do
  let cell := match binding with
    | .column name _ => cellOf cells name
    | .constant value => .fromSource value []
  let value ← parser cell
  .ok (value, ⟨field.value, binding.sourceColumn, cell, binding.rule, canonicalField_text field,
    fieldBinding_rule binding⟩)

def parseOperation (rowNumber : ℕ) (contract : SourceContract) (cells : List (String × RawCell)) :
    Except RowIssue (IngestionOperation × List FieldProvenance) :=
  match contract.operations with
  | none => .ok (.snapshot, [])
  | some operations =>
    let cell := cellOf cells operations.field
    match parseEnumValue rowNumber "operation" operations.mapping cell with
    | .ok operation => .ok (operation, [⟨"operation", some operations.field, cell,
        "declared operation mapping", by decide, by decide⟩])
    | .error issue => .error { issue with code := .invalidOperation }

section Row
variable (reader : DatetimeReader) (contract : SourceContract) (rowNumber : ℕ)
  (cells : List (String × RawCell))

def parseText (field : CanonicalField) (h : field ≠ .businessReference) :
    Except RowIssue (String × FieldProvenance) :=
  parseBinding cells field (contract.binding field h) (parseRequiredText rowNumber field.value)

def parseDecimal (field : CanonicalField) (h : field ≠ .businessReference) :
    Except RowIssue (Decimal × FieldProvenance) :=
  parseBinding cells field (contract.binding field h) (parseDecimalValue rowNumber field.value)

def parseReference : Except RowIssue (Option (String × FieldProvenance)) :=
  match contract.bindings .businessReference with
  | none => .ok none
  | some binding => some <$> parseBinding cells .businessReference binding
      (parseRequiredText rowNumber CanonicalField.businessReference.value)

/-- The canonical row of a row that is no retraction, or what the row was found
to lack. -/
def canonicalOf (operation : IngestionOperation) (origin : List FieldProvenance)
    (key : String × FieldProvenance) : Except (List RowIssue) CanonicalFields :=
  let instrument := parseText contract rowNumber cells .instrument (by decide)
  let currency := parseText contract rowNumber cells .currency (by decide)
  let reference := parseReference contract rowNumber cells
  let executedAt := parseBinding cells .executedAtUtc
    (contract.binding .executedAtUtc (by decide))
    (parseDatetimeValue rowNumber CanonicalField.executedAtUtc.value reader contract)
  let quantity := parseDecimal contract rowNumber cells .quantity (by decide)
  let unitPrice := parseDecimal contract rowNumber cells .unitPrice (by decide)
  let grossAmount := parseDecimal contract rowNumber cells .grossAmount (by decide)
  let side := parseBinding cells .side (contract.binding .side (by decide))
    (parseEnumValue rowNumber CanonicalField.side.value contract.sides.values)
  let state := parseBinding cells .state (contract.binding .state (by decide))
    (parseEnumValue rowNumber CanonicalField.state.value contract.states.values)
  match instrument, currency, reference, executedAt, quantity, unitPrice, grossAmount, side,
      state with
  | .ok instrument, .ok currency, .ok reference, .ok executedAt, .ok quantity, .ok unitPrice,
      .ok grossAmount, .ok side, .ok state => .ok
    ⟨rowNumber, key.1, reference.map (·.1), executedAt.1, instrument.1, side.1, quantity.1,
      unitPrice.1, grossAmount.1, currency.1, state.1, operation,
      origin ++ [key.2, instrument.2, currency.2] ++ (reference.map (·.2)).toList ++
        [executedAt.2, quantity.2, unitPrice.2, grossAmount.2, side.2, state.2]⟩
  | instrument, currency, reference, executedAt, quantity, unitPrice, grossAmount, side, state =>
    .error (issueOf instrument ++ issueOf currency ++ issueOf reference ++ issueOf executedAt ++
      issueOf quantity ++ issueOf unitPrice ++ issueOf grossAmount ++ issueOf side ++
      issueOf state)

end Row

/-- `_interpret_row`. -/
def interpretRow (reader : DatetimeReader) (contract : SourceContract) (header : List String)
    (blocked : Bool) (rowNumber : ℕ) (values : List String) : Outcome InterpretedRow :=
  if blocked then .ok ⟨rowNumber, none, none, []⟩
  else
    let cells := rawValues header values contract.nullTokens
    let extra : List RowIssue :=
      if header.length < values.length then
        [⟨rowNumber, "_row", .unexpectedColumn, none,
          "at most " ++ toString header.length ++ " values"⟩]
      else []
    let operation := parseOperation rowNumber contract cells
    let key := parseText contract rowNumber cells .sourceRecordKey (by decide)
    let early := extra ++ issueOf operation ++ issueOf key
    match early, operation, key with
    | [], .ok (.retract, origin), .ok key =>
      .ok ⟨rowNumber, none, some (.retraction rowNumber key.1 (origin ++ [key.2])), []⟩
    | [], .ok (operation, origin), .ok key =>
      match canonicalOf reader contract rowNumber cells operation origin key with
      | .ok fields => do
        let row ← fields.create
        .ok ⟨rowNumber, some row, (canonicalToPayload row).map .complete, []⟩
      | .error issues => .ok ⟨rowNumber, none, some (.incomplete rowNumber (some key.1)), issues⟩
    | early, operation, key =>
      let placeholder : FieldProvenance :=
        ⟨"source_record_key", none, .missing, "declared mapping", by decide, by decide⟩
      let later := match canonicalOf reader contract rowNumber cells .snapshot []
          ("", placeholder) with
        | .ok _ => []
        | .error issues => issues
      .ok ⟨rowNumber, none, some (.incomplete rowNumber (match key with
        | .ok key => some key.1
        | .error _ => none)), early ++ later⟩

def headerIssues (header : List String) (contract : SourceContract) : List RowIssue :=
  let duplicates := header.eraseDups.filter fun name => 1 < header.count name
  let columns := CanonicalField.all.filterMap fun field =>
    (contract.bindings field).bind FieldBinding.sourceColumn
  let required := columns ++ (contract.operations.map (·.field)).toList
  duplicates.map (fun name => ⟨1, if name = "" then "_header" else name, .duplicateHeader,
    some name, "a unique column header"⟩) ++
  ((sortedSet required).filter fun name => name ∉ header).map fun name =>
    ⟨1, name, .missingColumn, none, "source column " ++ name⟩

def InterpretedRow.key (row : InterpretedRow) : Option String :=
  (row.preview.bind Preview.sourceRecordKey).filter (· ≠ "")

/-- `_mark_duplicate_source_keys`. -/
def markDuplicateSourceKeys (rows : List InterpretedRow) : List InterpretedRow :=
  rows.map fun row =>
    match row.key with
    | some key =>
      if 1 < (rows.filterMap InterpretedRow.key).count key then
        ⟨row.rowNumber, none, some (.incomplete row.rowNumber (some key)),
          row.issues ++ [⟨row.rowNumber, "source_record_key", .duplicateSourceKey, some key,
            "a unique source record key"⟩]⟩
      else row
    | none => row

structure InterpretedPreview where
  rows : List InterpretedRow
  issues : List RowIssue

def InterpretedPreview.errorCount (p : InterpretedPreview) : ℕ :=
  p.issues.length+(p.rows.map fun row => row.issues.length).sum

/-- `interpret_csv` on the header and the lines of a file. -/
def interpretCsv (reader : DatetimeReader) (contract : SourceContract) (header : List String)
    (lines : List (List String)) : Outcome InterpretedPreview := do
  let issues := headerIssues header contract
  let rows ← lines.zipIdx.mapM fun line =>
    interpretRow reader contract header (issues ≠ []) (line.2+2) line.1
  .ok ⟨markDuplicateSourceKeys rows, issues⟩

theorem interpretRow_preview {reader : DatetimeReader} {contract : SourceContract}
    {header : List String} {blocked : Bool} {rowNumber : ℕ} {values : List String}
    {i : InterpretedRow}
    (h : interpretRow reader contract header blocked rowNumber values = .ok i)
    {row : CanonicalRow} (hrow : i.canonical = some row) :
    i.preview = (canonicalToPayload row).map .complete := by
  unfold interpretRow at h
  split at h
  · rw [← Except.ok.inj h] at hrow
    cases hrow
  · simp only at h
    split at h
    · rw [← Except.ok.inj h] at hrow
      cases hrow
    · split at h
      · simp only [bind_ok, Except.ok.injEq] at h
        obtain ⟨c, _, rfl⟩ := h
        rw [← Option.some.inj hrow]
      · rw [← Except.ok.inj h] at hrow
        cases hrow
    · rw [← Except.ok.inj h] at hrow
      cases hrow

theorem interpretRow_complete {reader : DatetimeReader} {contract : SourceContract}
    {header : List String} {blocked : Bool} {rowNumber : ℕ} {values : List String}
    {i : InterpretedRow}
    (h : interpretRow reader contract header blocked rowNumber values = .ok i)
    (hc : ∃ payload, i.preview = some (.complete payload)) : ∃ row, i.canonical = some row := by
  obtain ⟨payload, hc⟩ := hc
  unfold interpretRow at h
  split at h
  · rw [← Except.ok.inj h] at hc
    cases hc
  · simp only at h
    split at h
    · rw [← Except.ok.inj h] at hc
      cases hc
    · split at h
      · simp only [bind_ok, Except.ok.injEq] at h
        obtain ⟨c, _, rfl⟩ := h
        exact ⟨c, rfl⟩
      · rw [← Except.ok.inj h] at hc
        cases hc
    · rw [← Except.ok.inj h] at hc
      cases hc

theorem mem_markDuplicateSourceKeys {rows : List InterpretedRow} {i : InterpretedRow}
    (h : i ∈ markDuplicateSourceKeys rows) :
    i ∈ rows ∨ i.canonical = none ∧ ∀ payload, i.preview ≠ some (.complete payload) := by
  unfold markDuplicateSourceKeys at h
  obtain ⟨j, hj, rfl⟩ := List.mem_map.mp h
  cases j.key with
  | none => exact .inl hj
  | some key =>
    simp only
    split
    · exact .inr ⟨rfl, fun _ h => by cases h⟩
    · exact .inl hj

theorem interpretCsv_preview {reader : DatetimeReader} {contract : SourceContract}
    {header : List String} {lines : List (List String)} {p : InterpretedPreview}
    (h : interpretCsv reader contract header lines = .ok p) {i : InterpretedRow} (hi : i ∈ p.rows)
    {row : CanonicalRow} (hrow : i.canonical = some row) :
    i.preview = (canonicalToPayload row).map .complete := by
  simp only [interpretCsv, bind_ok, Except.ok.injEq] at h
  obtain ⟨rows, hrows, rfl⟩ := h
  rcases mem_markDuplicateSourceKeys hi with hmem | ⟨hnone, _⟩
  · obtain ⟨line, _, hline⟩ := mapM_mem_right hrows hmem
    exact interpretRow_preview hline hrow
  · rw [hnone] at hrow
    cases hrow

theorem interpretCsv_complete {reader : DatetimeReader} {contract : SourceContract}
    {header : List String} {lines : List (List String)} {p : InterpretedPreview}
    (h : interpretCsv reader contract header lines = .ok p) {i : InterpretedRow} (hi : i ∈ p.rows)
    (hc : ∃ payload, i.preview = some (.complete payload)) : ∃ row, i.canonical = some row := by
  simp only [interpretCsv, bind_ok, Except.ok.injEq] at h
  obtain ⟨rows, hrows, rfl⟩ := h
  rcases mem_markDuplicateSourceKeys hi with hmem | ⟨_, hnone⟩
  · obtain ⟨line, _, hline⟩ := mapM_mem_right hrows hmem
    exact interpretRow_complete hline hc
  · obtain ⟨payload, hc⟩ := hc
    exact absurd hc (hnone payload)

end Workbench.Interpretation
