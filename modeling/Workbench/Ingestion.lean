import Workbench.DecimalRounding
import Workbench.CivilTime
import Workbench.Json

/-!
# Canonical rows and their digests

A canonical row is one accepted line of an import. Its preview payload keeps
the decimals as canonical texts; what activation reads back from the payload is
what the fingerprint and the stored observation are made from.
-/

set_option autoImplicit false

namespace Workbench.Ingestion
open Workbench.Listing Workbench.Decimals Workbench.DecimalTexts Workbench.DecimalRounding
open Workbench.Calendar Workbench.CivilTime Workbench.Raising Workbench.Records Workbench.Json

inductive DatasetMode where
  | fullSnapshot
  | delta
deriving DecidableEq, Repr

inductive IngestionOperation where
  | snapshot
  | upsert
  | cancel
  | retract
deriving DecidableEq, Repr

def IngestionOperation.value : IngestionOperation → String
  | .snapshot => "SNAPSHOT"
  | .upsert => "UPSERT"
  | .cancel => "CANCEL"
  | .retract => "RETRACT"

inductive ReferenceSemantics where
  | trustedShared
  | secondary
  | none
deriving DecidableEq, Repr

inductive RawCell where
  | missing
  | null (original : String) (nonempty : original ≠ "")
  | empty
  | value (original : String)
deriving DecidableEq

def RawCell.kind : RawCell → String
  | .missing => "MISSING"
  | .null _ _ => "NULL"
  | .empty => "EMPTY"
  | .value _ => "VALUE"

def RawCell.original : RawCell → Option String
  | .missing => none
  | .null s _ => some s
  | .empty => some ""
  | .value s => some s

def RawCell.fromSource (value : String) (nullTokens : List String) : RawCell :=
  if h : value = "" then .empty
  else if value ∈ nullTokens then .null value h
  else .value value

structure FieldProvenance where
  canonicalField : String
  sourceColumn : Option String
  rawCell : RawCell
  transformation : String
  canonicalField_text : nonblank canonicalField = true
  transformation_text : nonblank transformation = true

structure CanonicalFields where
  rowNumber : ℕ
  sourceRecordKey : String
  businessReference : Option String
  executedAtUtc : Instant
  instrument : String
  side : CanonicalSide
  quantity : Decimal
  unitPrice : Decimal
  grossAmount : Decimal
  currency : String
  state : CanonicalState
  operation : IngestionOperation
  provenance : List FieldProvenance

structure CanonicalRow extends CanonicalFields where
  rowNumber_pos : 1 ≤ rowNumber
  sourceRecordKey_text : nonblank sourceRecordKey = true
  instrument_text : nonblank instrument = true
  currency_text : nonblank currency = true
  businessReference_text : OptionalText businessReference
  quantity_numeric : Numeric quantity
  unitPrice_numeric : Numeric unitPrice
  grossAmount_numeric : Numeric grossAmount
  operation_observed : operation ≠ .retract
  cancel_cancelled : operation = .cancel → state = .cancelled
  provenance_unique : (provenance.map (·.canonicalField)).Nodup

def numericMessage (name : String) : String := name ++ " exceeds NUMERIC(38,12)"

/-- The checks of a new `CanonicalRow`. -/
def CanonicalFields.create (f : CanonicalFields) : Outcome CanonicalRow := do
  let rowNumber ← check (1 ≤ f.rowNumber) "row_number must be a positive integer"
  let key ← check (nonblank f.sourceRecordKey = true) "source_record_key must not be blank"
  let instrument ← check (nonblank f.instrument = true) "instrument must not be blank"
  let currency ← check (nonblank f.currency = true) "currency must not be blank"
  let reference ← check (OptionalText f.businessReference)
    "business_reference must be nonblank or None"
  let quantity ← check (Numeric f.quantity) (numericMessage "quantity")
  let unitPrice ← check (Numeric f.unitPrice) (numericMessage "unit_price")
  let grossAmount ← check (Numeric f.grossAmount) (numericMessage "gross_amount")
  let observed ← check (f.operation ≠ .retract)
    "a retraction does not create a canonical observation"
  let cancelled ← check (f.operation = .cancel → f.state = .cancelled)
    "a cancellation operation requires cancelled state"
  let provenance ← check (f.provenance.map (·.canonicalField)).Nodup
    "provenance fields must be unique"
  .ok ⟨f, rowNumber.down, key.down, instrument.down, currency.down, reference.down,
    quantity.down, unitPrice.down, grossAmount.down, observed.down, cancelled.down,
    provenance.down⟩

theorem create_row {f : CanonicalFields} {row : CanonicalRow} (h : f.create = .ok row) :
    row.toCanonicalFields = f := by
  simp only [CanonicalFields.create, bind_ok, Except.ok.injEq] at h
  obtain ⟨_, _, _, _, _, _, _, _, _, _, _, _, _, _, _, _, _, _, _, _, _, _, rfl⟩ := h
  rfl

/-- The stored preview of a complete row. The instant is kept by its canonical
text, which has every microsecond; the decimals by theirs. -/
structure CanonicalPayload where
  rowNumber : ℕ
  sourceRecordKey : String
  businessReference : Option String
  executedAtUtc : Instant
  instrument : String
  side : CanonicalSide
  quantity : String
  unitPrice : String
  grossAmount : String
  currency : String
  state : CanonicalState
  operation : IngestionOperation
  provenance : List FieldProvenance

def canonicalToPayload (row : CanonicalRow) : Option CanonicalPayload := do
  let quantity ← canonicalDecimal row.quantity
  let unitPrice ← canonicalDecimal row.unitPrice
  let grossAmount ← canonicalDecimal row.grossAmount
  some ⟨row.rowNumber, row.sourceRecordKey, row.businessReference, row.executedAtUtc,
    row.instrument, row.side, quantity, unitPrice, grossAmount, row.currency, row.state,
    row.operation, row.provenance⟩

def payloadDecimal (text : String) : Option Decimal :=
  match readDecimal text with
  | some (.finite d _) => some d
  | _ => none

def canonicalFromPayload (p : CanonicalPayload) : Option CanonicalRow := do
  let quantity ← payloadDecimal p.quantity
  let unitPrice ← payloadDecimal p.unitPrice
  let grossAmount ← payloadDecimal p.grossAmount
  (CanonicalFields.create ⟨p.rowNumber, p.sourceRecordKey, p.businessReference, p.executedAtUtc,
    p.instrument, p.side, quantity, unitPrice, grossAmount, p.currency, p.state, p.operation,
    p.provenance⟩).toOption

/-- A hash of bytes with 64 lowercase hexadecimal digits. -/
structure Sha256 where
  hexdigest : List ℕ → String
  hex_length : ∀ bytes, (hexdigest bytes).toList.length = 64
  hex_digits : ∀ bytes, ∀ c ∈ (hexdigest bytes).toList, c ∈ hexDigits

/-- A hash that ends in two digits of a number. -/
def endingIn (number : List ℕ → ℕ) : Sha256 where
  hexdigest bytes := String.ofList
    (List.replicate 62 '0' ++ [hexDigit (number bytes/16), hexDigit (number bytes)])
  hex_length bytes := by
    rw [String.toList_ofList, List.length_append, List.length_replicate]
    rfl
  hex_digits bytes c hc := by
    rw [String.toList_ofList, List.mem_append] at hc
    rcases hc with hc | hc
    · rw [List.eq_of_mem_replicate hc]
      decide
    · rcases List.mem_cons.mp hc with rfl | hc
      · exact List.get_mem _ _
      · rw [List.mem_singleton.mp hc]
        exact List.get_mem _ _

/-- The bytes that `bytes.fromhex` skips. -/
def asciiSpace (c : Char) : Bool := c = ' ' || (9 ≤ c.toNat && c.toNat ≤ 13)

/-- The texts without capitals that `bytes.fromhex` reads. -/
def fromhex : List Char → Bool
  | [] => true
  | c :: rest =>
    if asciiSpace c then fromhex rest
    else match rest with
      | [] => false
      | d :: rest => decide (c ∈ hexDigits) && decide (d ∈ hexDigits) && fromhex rest

/-- `_validate_digest`. -/
def validDigest (text : String) : Bool := text.toList.length = 64 && fromhex text.toList

def utf8 (s : String) : List ℕ := s.toUTF8.data.toList.map UInt8.toNat

theorem utf8_injective : Function.Injective utf8 := by
  intro s t h
  have hbytes := List.map_injective_iff.mpr (fun a b => UInt8.toNat_inj.mp) h
  have harray := Array.toList_inj.mp hbytes
  exact String.toByteArray_inj.mp (ByteArray.ext harray)

/-- Neither of two texts shares its digest with the other by accident. -/
def Sha256.Apart (sha : Sha256) (a b : List ℕ) : Prop :=
  sha.hexdigest a = sha.hexdigest b → a = b

def canonicalJson (v : Value) : List ℕ := utf8 (dumps v)

def hashSchemeVersion : String := "reconciliation-sha256-v1"

/-- What `_digest` hashes. -/
def digestBytes (kind : String) (payload : Value) : List ℕ :=
  canonicalJson (.object [("kind", .text kind), ("payload", payload),
    ("version", .text hashSchemeVersion)])

def optionalText : Option String → Value
  | none => .null
  | some s => .text s

def fieldValue (name tag value : String) : Value :=
  .object [("name", .text name), ("tag", .text tag), ("value", .text value)]

/-- The fields of `semantic_row_from_canonical`, sorted by name. -/
def semanticFields (row : CanonicalRow) : Option (List Value) := do
  let grossAmount ← canonicalDecimal row.grossAmount
  let quantity ← canonicalDecimal row.quantity
  let unitPrice ← canonicalDecimal row.unitPrice
  some [fieldValue "business_reference" "TEXT" (row.businessReference.getD ""),
    fieldValue "currency" "TEXT" row.currency,
    fieldValue "executed_at_utc" "DATETIME" (canonicalDatetime row.executedAtUtc),
    fieldValue "gross_amount" "DECIMAL" grossAmount,
    fieldValue "instrument" "TEXT" row.instrument,
    fieldValue "quantity" "DECIMAL" quantity,
    fieldValue "side" "ENUM" row.side.value,
    fieldValue "source_record_key" "TEXT" row.sourceRecordKey,
    fieldValue "state" "ENUM" row.state.value,
    fieldValue "unit_price" "DECIMAL" unitPrice]

def provenanceValue (p : FieldProvenance) : Value :=
  .object [("canonical_field", .text p.canonicalField),
    ("source_column", optionalText p.sourceColumn), ("source_kind", .text p.rawCell.kind),
    ("transformation", .text p.transformation)]

/-- What `observation_fingerprint` hashes. -/
def fingerprintBytes (contractDigest : String) (row : CanonicalRow) : Option (List ℕ) := do
  let fields ← semanticFields row
  some (digestBytes "observation" (.object [("contract_digest", .text contractDigest),
    ("fields", .array fields), ("operation", .text row.operation.value),
    ("provenance", .array ((sortOn (·.canonicalField) row.provenance).map provenanceValue))]))

def observationFingerprint (sha : Sha256) (contractDigest : String) (row : CanonicalRow) :
    Option String :=
  (fingerprintBytes contractDigest row).map sha.hexdigest

def lengthPrefix (bytes : List ℕ) : Option (List ℕ) :=
  if bytes.length < 256^8 then
    some ((List.range 8).reverse.map (fun i => bytes.length/256^i%256) ++ bytes)
  else none

/-- What `_record_digest` hashes: the envelope and the sorted records, each with
its length. -/
def recordBytes (kind : String) (metadata : List (String × Value)) (records : List (List ℕ)) :
    Option (List ℕ) := do
  let envelope ← lengthPrefix (canonicalJson (.object [("kind", .text kind),
    ("metadata", .object metadata), ("version", .text hashSchemeVersion)]))
  let framed ← (sortOn id records).mapM lengthPrefix
  some (envelope ++ framed.flatten)

def memberRecord (member : String × String) : List ℕ :=
  canonicalJson (.object [("identity", .text member.1),
    ("observation_fingerprint", .text member.2)])

/-- What `resolved_state_hash` hashes; its members are distinct and not blank. -/
def stateBytes (members : List (String × String)) : Option (List ℕ) :=
  if (∀ m ∈ members, nonblank m.1 = true) ∧ (members.map (·.1)).Nodup then
    recordBytes "resolved-state" [] (members.map memberRecord)
  else none

def resolvedStateHash (sha : Sha256) (members : List (String × String)) : Option String :=
  (stateBytes members).map sha.hexdigest

end Workbench.Ingestion
