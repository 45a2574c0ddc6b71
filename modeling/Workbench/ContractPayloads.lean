import Workbench.Fingerprints
import Workbench.Interpretation
import Workbench.JsonMembers

/-!
# Stored source contracts

A revision of a source keeps its contract as JSON. Preview and activation read
the contract back, construct it again and validate it again before they
interpret a row.
-/

set_option autoImplicit false

namespace Workbench.ContractPayloads
open Workbench.Listing Workbench.Raising Workbench.Records Workbench.Ingestion Workbench.Json
open Workbench.JsonMembers
open Workbench.Interpretation (CanonicalField DateFoldPolicy)

structure FieldBinding where
  canonicalField : String
  sourceColumn : Option String
  constant : Option String
  canonicalField_text : nonblank canonicalField = true
  exactly_one : ¬(sourceColumn = none ↔ constant = none)
  sourceColumn_text : ∀ c ∈ sourceColumn, nonblank c = true

def createFieldBinding (canonicalField : String) (sourceColumn constant : Option String) :
    Outcome FieldBinding := do
  let fieldText ← check (nonblank canonicalField = true) "canonical_field must not be blank"
  let one ← check (¬(sourceColumn = none ↔ constant = none))
    "a field binding requires exactly one source column or constant"
  let columnText ← check (∀ c ∈ sourceColumn, nonblank c = true) "source_column must not be blank"
  return ⟨canonicalField, sourceColumn, constant, text_down fieldText, one.down, columnText.down⟩

structure EnumMapping where
  canonicalField : String
  values : List (String × String)
  canonicalField_text : nonblank canonicalField = true
  sources : values ≠ [] ∧ (∀ v ∈ values, nonblank v.1 = true) ∧ (values.map Prod.fst).Nodup
  targets_text : ∀ v ∈ values, nonblank v.2 = true

def createEnumMapping (canonicalField : String) (values : List (String × String)) :
    Outcome EnumMapping := do
  let fieldText ← check (nonblank canonicalField = true) "canonical_field must not be blank"
  let sources ← check
    (values ≠ [] ∧ (∀ v ∈ values, nonblank v.1 = true) ∧ (values.map Prod.fst).Nodup)
    "enum source values must be nonempty and unique"
  let targets ← check (∀ v ∈ values, nonblank v.2 = true) "enum canonical values must not be blank"
  return ⟨canonicalField, values, text_down fieldText, sources.down, targets.down⟩

structure ContractFields where
  adapterKey : String
  parserVersion : String
  mode : DatasetMode
  identityNamespace : String
  referenceSemantics : ReferenceSemantics
  timestampFormat : String
  timezoneName : Option String
  bindings : List FieldBinding
  enumMappings : List EnumMapping
  nullTokens : List String
  operationField : Option String
  operationMapping : List (String × IngestionOperation)
  foldPolicy : DateFoldPolicy

/-- What `ZoneInfo` does with a key: it has the zone, has no such zone, or raises `ValueError`. -/
inductive ZoneLookup where
  | zone
  | notFound
  | malformed
deriving DecidableEq

section Contracts
variable (zoneInfo : String → ZoneLookup)

def textChecked (value name : String) : Outcome Unit :=
  require (nonblank value = true) (name ++ " must not be blank")

def collectionsChecked (c : ContractFields) : Outcome Unit := do
  require (c.bindings ≠ [] ∧ (c.bindings.map (·.canonicalField)).Nodup)
    "contract bindings must be nonempty and canonical fields unique"
  require (c.enumMappings.map (·.canonicalField)).Nodup "enum mappings must target unique fields"
  require ("" ∉ c.nullTokens ∧ c.nullTokens.Nodup) "null tokens must be nonempty and unique"

def timezoneChecked : Option String → Reading Unit
  | none => .ok ()
  | some name => do
    constructed (require (nonblank name = true) "timezone_name must be None or a valid IANA zone")
    match zoneInfo name with
    | .zone => .ok ()
    | .notFound => .error (.domainValidation "timezone_name must be a valid IANA zone")
    | .malformed => .error .valueError

def operationsChecked (c : ContractFields) : Outcome Unit := do
  require ((∀ v ∈ c.operationMapping, nonblank v.1 = true) ∧
      (c.operationMapping.map Prod.fst).Nodup)
    "operation source values must be nonempty and unique"
  match c.mode with
  | .fullSnapshot =>
    require (c.operationField = none ∧ c.operationMapping = [])
      "a full snapshot cannot declare delta operation mapping"
  | .delta => do
    require ((∃ field ∈ c.operationField, nonblank field = true) ∧ c.operationMapping ≠ [])
      "a delta contract requires an operation field and mapping"
    require (.snapshot ∉ c.operationMapping.map Prod.snd) "a delta operation cannot map to SNAPSHOT"
    require (∀ o ∈ [IngestionOperation.upsert, .cancel, .retract],
        o ∈ c.operationMapping.map Prod.snd)
      "a delta contract must distinguish upsert, cancel, and retract"

/-- `SourceContract.__post_init__`. -/
def postInit (c : ContractFields) : Reading Unit := do
  constructed (textChecked c.adapterKey "adapter_key")
  constructed (textChecked c.parserVersion "parser_version")
  constructed (textChecked c.identityNamespace "identity_namespace")
  constructed (textChecked c.timestampFormat "timestamp_format")
  constructed (collectionsChecked c)
  timezoneChecked zoneInfo c.timezoneName
  constructed (operationsChecked c)

structure SourceContract extends ContractFields where
  accepted : postInit zoneInfo toContractFields = .ok ()

def createSourceContract (c : ContractFields) : Reading (SourceContract zoneInfo) :=
  match h : postInit zoneInfo c with
  | .ok () => .ok ⟨c, h⟩
  | .error failure => .error failure

theorem createSourceContract_own (c : SourceContract zoneInfo) :
    createSourceContract zoneInfo c.toContractFields = .ok c := by
  unfold createSourceContract
  split
  · rfl
  · next failure h => rw [c.accepted] at h; cases h

end Contracts

inductive ContractFailure where
  | invalidSourceContract (message : String)
  | untyped
deriving DecidableEq

abbrev Validation := Except ContractFailure

def demand (p : Prop) [Decidable p] (message : String) : Validation Unit :=
  if p then .ok () else .error (.invalidSourceContract message)

def adapterKeys : List String := ["atlas-ledger-v1", "atlas-counterparty-v1", "configurable-v1"]

def canonicalFields : List String := CanonicalField.all.map CanonicalField.value

def requiredCanonicalFields : List String := canonicalFields.erase "business_reference"

section Validation
variable {zoneInfo : String → ZoneLookup}

def SourceContract.fields (c : SourceContract zoneInfo) : List String :=
  c.bindings.map (·.canonicalField)

def SourceContract.enumFields (c : SourceContract zoneInfo) : List String :=
  c.enumMappings.map (·.canonicalField)

def SourceContract.enumTargets (c : SourceContract zoneInfo) (field : String) : List String :=
  ((lookup (·.canonicalField) c.enumMappings field).elim [] (·.values)).map Prod.snd

def validatedContract (c : SourceContract zoneInfo) : Validation (SourceContract zoneInfo) := do
  demand (c.adapterKey ∈ adapterKeys) "contract uses an unsupported adapter"
  demand (∀ field ∈ c.fields, field ∈ canonicalFields)
    "contract contains an unsupported canonical field"
  demand (∀ field ∈ requiredCanonicalFields, field ∈ c.fields)
    "contract is missing a required canonical field"
  demand (c.referenceSemantics ≠ .none → "business_reference" ∈ c.fields)
    "contract reference semantics require a business-reference binding"
  demand (∀ field ∈ ["side", "state"], field ∈ c.enumFields)
    "contract requires side and state enum mappings"
  demand (∀ field ∈ c.enumFields, field ∈ ["side", "state"])
    "contract contains an unsupported enum mapping"
  demand ((∀ target ∈ c.enumTargets "side", target ∈ [CanonicalSide.buy, .sell].map (·.value)) ∧
      ∀ target ∈ c.enumTargets "state", target ∈ [CanonicalState.settled, .cancelled].map (·.value))
    "contract enum mapping has an invalid target"
  return c

end Validation

def DatasetMode.value : DatasetMode → String
  | .fullSnapshot => "FULL_SNAPSHOT"
  | .delta => "DELTA"

def ReferenceSemantics.value : ReferenceSemantics → String
  | .trustedShared => "TRUSTED_SHARED"
  | .secondary => "SECONDARY"
  | .none => "NONE"

def DateFoldPolicy.value : DateFoldPolicy → String
  | .reject => "REJECT"
  | .earlier => "EARLIER"
  | .later => "LATER"

def bindingPayload (b : FieldBinding) : Value :=
  .object [("canonical_field", .text b.canonicalField),
    ("source_column", Ingestion.optionalText b.sourceColumn), ("constant", Ingestion.optionalText b.constant)]

def textPair (p : String × String) : Value := .array [.text p.1, .text p.2]

def enumPayload (m : EnumMapping) : Value :=
  .object [("canonical_field", .text m.canonicalField), ("values", .array (m.values.map textPair))]

def operationPayload (p : String × IngestionOperation) : Value :=
  .array [.text p.1, .text p.2.value]

def payload (c : ContractFields) : Value :=
  .object [("adapter_key", .text c.adapterKey), ("parser_version", .text c.parserVersion),
    ("mode", .text (DatasetMode.value c.mode)), ("identity_namespace", .text c.identityNamespace),
    ("reference_semantics", .text (ReferenceSemantics.value c.referenceSemantics)),
    ("timestamp_format", .text c.timestampFormat), ("timezone_name", Ingestion.optionalText c.timezoneName),
    ("bindings", .array (c.bindings.map bindingPayload)),
    ("enum_mappings", .array (c.enumMappings.map enumPayload)),
    ("null_tokens", .array (c.nullTokens.map .text)),
    ("operation_field", Ingestion.optionalText c.operationField),
    ("operation_mapping", .array (c.operationMapping.map operationPayload)),
    ("fold_policy", .text (DateFoldPolicy.value c.foldPolicy))]

def contractToPayload {zoneInfo : String → ZoneLookup} (c : SourceContract zoneInfo) :
    Validation Value := do
  let _ ← validatedContract c
  return payload c.toContractFields

section Decoders
variable (zoneInfo : String → ZoneLookup) (written : Value → String)

/-- A value that is stripped later: what is neither absent nor a text has no `strip`. -/
def strippable : Value → Reading (Option String)
  | .null => .ok none
  | .text s => .ok (some s)
  | _ => .error .attributeError

def constantOf : Value → Reading (Option String)
  | .null => .ok none
  | .text s => .ok (some s)
  | _ => .error .untyped

def bindingFromPayload (v : Value) : Reading FieldBinding := do
  let canonicalField ← strippable (← item v "canonical_field")
  let sourceColumn ← strippable (← get v "source_column" .null)
  let constant ← constantOf (← get v "constant" .null)
  let canonicalField ← orFail .attributeError canonicalField
  constructed (createFieldBinding canonicalField sourceColumn constant)

def textPairFromPayload (v : Value) : Reading (String × String) := do
  let (source, target) ← pairOf v
  return (asText written source, asText written target)

def enumFromPayload (v : Value) : Reading EnumMapping := do
  let canonicalField ← strippable (← item v "canonical_field")
  let values ← (← elements (← item v "values")).mapM (textPairFromPayload written)
  let canonicalField ← orFail .attributeError canonicalField
  constructed (createEnumMapping canonicalField values)

def operationFromPayload (v : Value) : Reading (String × IngestionOperation) := do
  let (source, operation) ← pairOf v
  let operation ← enumOf [.snapshot, .upsert, .cancel, .retract] IngestionOperation.value operation
  return (asText written source, operation)

/-- The constructor call in `contract_from_payload`. -/
def contractRead (v : Value) : Reading (SourceContract zoneInfo) := do
  let adapterKey ← item v "adapter_key"
  let parserVersion ← item v "parser_version"
  let mode ← enumOf [.fullSnapshot, .delta] DatasetMode.value (← item v "mode")
  let identityNamespace ← item v "identity_namespace"
  let referenceSemantics ← enumOf [.trustedShared, .secondary, .none] ReferenceSemantics.value
    (← item v "reference_semantics")
  let timestampFormat ← item v "timestamp_format"
  let timezoneName ← strippable (← get v "timezone_name" .null)
  let bindings ← (← elements (← item v "bindings")).mapM bindingFromPayload
  let enumMappings ← (← elements (← get v "enum_mappings" (.array []))).mapM
    (enumFromPayload written)
  let nullTokens ← elements (← get v "null_tokens" (.array []))
  let operationField ← strippable (← get v "operation_field" .null)
  let operationMapping ← (← elements (← get v "operation_mapping" (.array []))).mapM
    (operationFromPayload written)
  let foldPolicy ← enumOf [.reject, .earlier, .later] DateFoldPolicy.value
    (← get v "fold_policy" (.text "REJECT"))
  createSourceContract zoneInfo {
    adapterKey := asText written adapterKey
    parserVersion := asText written parserVersion
    mode := mode
    identityNamespace := asText written identityNamespace
    referenceSemantics := referenceSemantics
    timestampFormat := asText written timestampFormat
    timezoneName := timezoneName
    bindings := bindings
    enumMappings := enumMappings
    nullTokens := nullTokens.map (asText written)
    operationField := operationField
    operationMapping := operationMapping
    foldPolicy := foldPolicy }

def contractFromPayload (v : Value) : Validation (SourceContract zoneInfo) :=
  match contractRead zoneInfo written v with
  | .ok contract => validatedContract contract
  | .error .untyped => .error .untyped
  | .error _ => .error (.invalidSourceContract "stored source contract is invalid")

end Decoders

theorem optionalText_kept {o : Option String} {w : Value} (h : Kept (Ingestion.optionalText o) w) :
    w = Ingestion.optionalText o := by
  cases o with
  | none => exact kept_null h
  | some s => exact kept_text h

theorem strippable_optionalText (o : Option String) : strippable (Ingestion.optionalText o) = .ok o := by
  cases o <;> rfl

theorem strippable_text (s : String) : strippable (.text s) = .ok (some s) := rfl

theorem constantOf_optionalText (o : Option String) : constantOf (Ingestion.optionalText o) = .ok o := by
  cases o <;> rfl

theorem binding_kept {b : FieldBinding} {w : Value} (h : Kept (bindingPayload b) w) :
    bindingFromPayload w = .ok b := by
  have hkeys : (["canonical_field", "source_column", "constant"] : List String).Nodup := by decide
  obtain ⟨_, hfield, hkfield⟩ := kept_item h hkeys 0 rfl
  obtain ⟨_, hcolumn, hkcolumn⟩ := kept_get h hkeys 1 rfl .null
  obtain ⟨_, hconstant, hkconstant⟩ := kept_get h hkeys 2 rfl .null
  cases kept_text hkfield
  cases optionalText_kept hkcolumn
  cases optionalText_kept hkconstant
  simp only [bindingFromPayload, hfield, hcolumn, hconstant, ok_bind, strippable_text,
    strippable_optionalText, constantOf_optionalText, orFail_some, createFieldBinding,
    check_true b.canonicalField_text, check_true b.exactly_one, check_true b.sourceColumn_text]
  rfl

section Parts
variable (written : Value → String)

theorem textPair_kept {p : String × String} {w : Value} (h : Kept (textPair p) w) :
    textPairFromPayload written w = .ok p := by
  obtain ⟨ws, rfl, hitems⟩ := kept_array h
  cases hitems with
  | cons hsource hrest =>
    cases hrest with
    | cons htarget hnil =>
      cases hnil
      cases kept_text hsource
      cases kept_text htarget
      rfl

theorem enum_kept {m : EnumMapping} {w : Value} (h : Kept (enumPayload m) w) :
    enumFromPayload written w = .ok m := by
  have hkeys : (["canonical_field", "values"] : List String).Nodup := by decide
  obtain ⟨_, hfield, hkfield⟩ := kept_item h hkeys 0 rfl
  obtain ⟨_, hvalues, hkvalues⟩ := kept_item h hkeys 1 rfl
  obtain ⟨values, hitems, hread⟩ :=
    elements_kept (fun p _ _ hp => textPair_kept written hp) hkvalues
  cases kept_text hkfield
  simp only [enumFromPayload, hfield, hvalues, hitems, hread, ok_bind, strippable_text,
    orFail_some, createEnumMapping, check_true m.canonicalField_text, check_true m.sources,
    check_true m.targets_text]
  rfl

theorem operation_kept {p : String × IngestionOperation} {w : Value}
    (h : Kept (operationPayload p) w) : operationFromPayload written w = .ok p := by
  have hmem : p.2 ∈ [IngestionOperation.snapshot, .upsert, .cancel, .retract] := by
    cases p.2 <;> decide
  obtain ⟨ws, rfl, hitems⟩ := kept_array h
  cases hitems with
  | cons hsource hrest =>
    cases hrest with
    | cons hoperation hnil =>
      cases hnil
      cases kept_text hsource
      cases kept_text hoperation
      simp only [operationFromPayload, pairOf, elements, ok_bind,
        enumOf_value Fingerprints.operationValue_injective hmem]
      rfl

theorem texts_kept {texts : List String} {w : Value} (h : Kept (.array (texts.map .text)) w) :
    ∃ ws, elements w = .ok ws ∧ ws.map (asText written) = texts := by
  obtain ⟨ws, rfl, hitems⟩ := kept_array h
  refine ⟨ws, rfl, ?_⟩
  clear h
  induction texts generalizing ws with
  | nil =>
    cases hitems
    rfl
  | cons s texts ih =>
    cases hitems with
    | cons hs hrest =>
      rw [kept_text hs, List.map_cons, ih _ hrest]
      rfl

end Parts

section Reloaded
variable (zoneInfo : String → ZoneLookup) (written : Value → String)

theorem mode_read (mode : DatasetMode) :
    enumOf [.fullSnapshot, .delta] DatasetMode.value (.text (DatasetMode.value mode)) = .ok mode := by
  cases mode <;> rfl

theorem semantics_read (semantics : ReferenceSemantics) :
    enumOf [.trustedShared, .secondary, .none] ReferenceSemantics.value
      (.text (ReferenceSemantics.value semantics)) = .ok semantics := by
  cases semantics <;> rfl

theorem foldPolicy_read (policy : DateFoldPolicy) :
    enumOf [.reject, .earlier, .later] DateFoldPolicy.value
      (.text (DateFoldPolicy.value policy)) = .ok policy := by
  cases policy <;> rfl

/-- The constructor call reads back what the payload was made of. -/
theorem contract_kept {c : SourceContract zoneInfo} {w : Value}
    (h : Kept (payload c.toContractFields) w) : contractRead zoneInfo written w = .ok c := by
  have hkeys : (["adapter_key", "parser_version", "mode", "identity_namespace",
    "reference_semantics", "timestamp_format", "timezone_name", "bindings", "enum_mappings",
    "null_tokens", "operation_field", "operation_mapping", "fold_policy"] : List String).Nodup := by
    decide
  obtain ⟨_, hadapter, hkadapter⟩ := kept_item h hkeys 0 rfl
  obtain ⟨_, hparser, hkparser⟩ := kept_item h hkeys 1 rfl
  obtain ⟨_, hmode, hkmode⟩ := kept_item h hkeys 2 rfl
  obtain ⟨_, hnamespace, hknamespace⟩ := kept_item h hkeys 3 rfl
  obtain ⟨_, hsemantics, hksemantics⟩ := kept_item h hkeys 4 rfl
  obtain ⟨_, hformat, hkformat⟩ := kept_item h hkeys 5 rfl
  obtain ⟨_, htimezone, hktimezone⟩ := kept_get h hkeys 6 rfl .null
  obtain ⟨_, hbindings, hkbindings⟩ := kept_item h hkeys 7 rfl
  obtain ⟨_, henums, hkenums⟩ := kept_get h hkeys 8 rfl (.array [])
  obtain ⟨_, htokens, hktokens⟩ := kept_get h hkeys 9 rfl (.array [])
  obtain ⟨_, hfield, hkfield⟩ := kept_get h hkeys 10 rfl .null
  obtain ⟨_, hmapping, hkmapping⟩ := kept_get h hkeys 11 rfl (.array [])
  obtain ⟨_, hfold, hkfold⟩ := kept_get h hkeys 12 rfl (.text "REJECT")
  obtain ⟨bindings, hbindingItems, hbindingsRead⟩ :=
    elements_kept (fun b _ _ hb => binding_kept hb) hkbindings
  obtain ⟨enums, henumItems, henumsRead⟩ :=
    elements_kept (fun m _ _ hm => enum_kept written hm) hkenums
  obtain ⟨tokens, htokenItems, htokensRead⟩ := texts_kept written hktokens
  obtain ⟨operations, hoperationItems, hoperationsRead⟩ :=
    elements_kept (fun p _ _ hp => operation_kept written hp) hkmapping
  cases kept_text hkadapter
  cases kept_text hkparser
  cases kept_text hkmode
  cases kept_text hknamespace
  cases kept_text hksemantics
  cases kept_text hkformat
  cases optionalText_kept hktimezone
  cases optionalText_kept hkfield
  cases kept_text hkfold
  simp only [contractRead, hadapter, hparser, hmode, hnamespace, hsemantics, hformat, htimezone,
    hbindings, henums, htokens, hfield, hmapping, hfold, ok_bind, mode_read, semantics_read,
    foldPolicy_read, strippable_optionalText, hbindingItems, hbindingsRead, henumItems, henumsRead,
    htokenItems, htokensRead, hoperationItems, hoperationsRead, asText]
  exact createSourceContract_own zoneInfo c

theorem validatedContract_self {c c' : SourceContract zoneInfo}
    (h : validatedContract c = .ok c') : c' = c := by
  simp only [validatedContract, bind_ok, pure_ok] at h
  obtain ⟨_, -, _, -, _, -, _, -, _, -, _, -, _, -, rfl⟩ := h
  rfl

/-- A contract that validation accepts has a payload, and the payload is read back as that
contract, in whatever order a store keeps the members of an object. -/
theorem contract_reloaded {c : SourceContract zoneInfo} (h : validatedContract c = .ok c) :
    ∃ v, contractToPayload c = .ok v ∧ contractFromPayload zoneInfo written v = .ok c ∧
      ∀ w, Kept v w → contractFromPayload zoneInfo written w = .ok c := by
  have hread : ∀ w, Kept (payload c.toContractFields) w →
      contractFromPayload zoneInfo written w = .ok c := by
    intro w hw
    rw [contractFromPayload, contract_kept zoneInfo written hw]
    exact h
  refine ⟨payload c.toContractFields, ?_, hread _ (kept_refl _), hread⟩
  rw [contractToPayload, h]
  rfl

end Reloaded

theorem constructed_eq_ok {α : Type} {x : Outcome α} {a : α} :
    constructed x = .ok a ↔ x = .ok a := by
  cases x with
  | ok b => rw [constructed_ok, Except.ok.injEq, Except.ok.injEq]
  | error failure => cases failure <;> exact ⟨fun h => (by cases h), fun h => (by cases h)⟩

theorem demand_ok {p : Prop} [Decidable p] {message : String} {u : Unit} :
    demand p message = .ok u ↔ p := by
  unfold demand
  by_cases hp : p
  · simp [hp]
  · simp [hp]

section Interpreted
variable {zoneInfo : String → ZoneLookup}

structure Checked (c : ContractFields) : Prop where
  parserVersion : nonblank c.parserVersion = true
  identityNamespace : nonblank c.identityNamespace = true
  timestampFormat : nonblank c.timestampFormat = true
  bindings_unique : (c.bindings.map (·.canonicalField)).Nodup
  enums_unique : (c.enumMappings.map (·.canonicalField)).Nodup
  tokens_text : "" ∉ c.nullTokens
  tokens_unique : c.nullTokens.Nodup
  operations : (∀ v ∈ c.operationMapping, nonblank v.1 = true) ∧
    (c.operationMapping.map Prod.fst).Nodup
  delta : c.mode = .delta → (∃ field ∈ c.operationField, nonblank field = true) ∧
    .snapshot ∉ c.operationMapping.map Prod.snd ∧
    ∀ o ∈ [IngestionOperation.upsert, .cancel, .retract], o ∈ c.operationMapping.map Prod.snd

theorem SourceContract.checked (c : SourceContract zoneInfo) : Checked c.toContractFields := by
  have h := c.accepted
  simp only [postInit, bind_ok, constructed_eq_ok] at h
  obtain ⟨_, -, _, hparser, _, hnamespace, _, hformat, _, hcollections, _, -, hoperations⟩ := h
  simp only [textChecked, require_ok] at hparser hnamespace hformat
  simp only [collectionsChecked, bind_ok, require_ok] at hcollections
  simp only [operationsChecked, exists_require, bind_ok] at hoperations
  obtain ⟨_, ⟨-, hbindings⟩, _, henums, htokens, hunique⟩ := hcollections
  refine ⟨hparser, hnamespace, hformat, hbindings, henums, htokens, hunique, hoperations.1, ?_⟩
  intro hmode
  have hdelta := hoperations.2
  rw [hmode] at hdelta
  simp only [bind_ok, require_ok] at hdelta
  obtain ⟨_, ⟨hfield, -⟩, _, hsnapshot, hcovers⟩ := hdelta
  exact ⟨hfield, hsnapshot, hcovers⟩

structure Validated (c : SourceContract zoneInfo) : Prop where
  adapter : c.adapterKey ∈ adapterKeys
  known : ∀ field ∈ c.fields, field ∈ canonicalFields
  required : ∀ field ∈ requiredCanonicalFields, field ∈ c.fields
  reference : c.referenceSemantics ≠ .none → "business_reference" ∈ c.fields
  enums : ∀ field ∈ ["side", "state"], field ∈ c.enumFields
  enums_known : ∀ field ∈ c.enumFields, field ∈ ["side", "state"]
  sides : ∀ target ∈ c.enumTargets "side", target ∈ [CanonicalSide.buy, .sell].map (·.value)
  states : ∀ target ∈ c.enumTargets "state",
    target ∈ [CanonicalState.settled, .cancelled].map (·.value)

theorem validatedContract_iff {c : SourceContract zoneInfo} :
    validatedContract c = .ok c ↔ Validated c := by
  simp only [validatedContract, bind_ok, demand_ok, pure_ok]
  constructor
  · rintro ⟨_, h1, _, h2, _, h3, _, h4, _, h5, _, h6, _, h7, -⟩
    exact ⟨h1, h2, h3, h4, h5, h6, h7.1, h7.2⟩
  · rintro ⟨h1, h2, h3, h4, h5, h6, h7, h8⟩
    exact ⟨(), h1, (), h2, (), h3, (), h4, (), h5, (), h6, (), ⟨h7, h8⟩, trivial⟩

def FieldBinding.interpreted (b : FieldBinding) : Interpretation.FieldBinding :=
  match h : b.sourceColumn with
  | some name => .column name (b.sourceColumn_text name h)
  | none => .constant (b.constant.getD "")

def SourceContract.bindingOf (c : SourceContract zoneInfo) (field : CanonicalField) :
    Option Interpretation.FieldBinding :=
  (lookup (·.canonicalField) c.bindings field.value).map (·.interpreted)

theorem bindingOf_iff (c : SourceContract zoneInfo) {field : CanonicalField}
    {b : Interpretation.FieldBinding} : c.bindingOf field = some b ↔
      ∃ binding ∈ c.bindings, binding.canonicalField = field.value ∧ binding.interpreted = b := by
  simp only [SourceContract.bindingOf, Option.map_eq_some_iff]
  constructor
  · rintro ⟨binding, hfound, rfl⟩
    obtain ⟨hmem, hfield⟩ := lookup_some hfound
    exact ⟨binding, hmem, hfield, rfl⟩
  · rintro ⟨binding, hmem, hfield, rfl⟩
    exact ⟨binding, hfield ▸ lookup_mem c.checked.bindings_unique hmem, rfl⟩

theorem bindingOf_isSome (c : SourceContract zoneInfo) {field : CanonicalField}
    (h : field.value ∈ c.fields) : (c.bindingOf field).isSome = true := by
  obtain ⟨binding, hmem, hfield⟩ := List.mem_map.mp h
  exact Option.isSome_iff_exists.mpr ⟨_, (bindingOf_iff c).mpr ⟨binding, hmem, hfield, rfl⟩⟩

def memberOf {α : Type} (members : List α) (value : α → String) (other : α) (s : String) : α :=
  (members.find? fun a => value a = s).getD other

def enumTable {α : Type} (read : String → α) (m : EnumMapping) : Interpretation.EnumMapping α where
  values := m.values.map fun v => (v.1, read v.2)
  nonempty h := m.sources.1 (List.map_eq_nil_iff.mp h)
  texts v hv := by
    obtain ⟨u, hu, rfl⟩ := List.mem_map.mp hv
    exact m.sources.2.1 u hu
  unique := by
    rw [List.map_map]
    exact m.sources.2.2

theorem enumTable_iff {α : Type} {members : List α} {value : α → String} (other : α)
    (hi : Function.Injective value) {m : EnumMapping}
    (ht : ∀ target ∈ m.values.map Prod.snd, target ∈ members.map value) {source : String} {a : α}
    (ha : a ∈ members) :
    (source, a) ∈ (enumTable (memberOf members value other) m).values ↔
      (source, value a) ∈ m.values := by
  have hread : ∀ b ∈ members, memberOf members value other (value b) = b := by
    intro b hb
    rw [memberOf, find_value hi hb, Option.getD_some]
  constructor
  · intro h
    obtain ⟨⟨s, target⟩, hv, he⟩ := List.mem_map.mp h
    obtain ⟨b, hb, rfl⟩ := List.mem_map.mp (ht target (List.mem_map_of_mem hv))
    obtain ⟨rfl, hba⟩ := Prod.mk.inj he
    rw [hread b hb] at hba
    exact hba ▸ hv
  · intro h
    exact List.mem_map.mpr ⟨_, h, Prod.ext rfl (hread a ha)⟩

def SourceContract.enumOf (c : SourceContract zoneInfo) (field : String)
    (h : field ∈ c.enumFields) : EnumMapping :=
  (lookup (·.canonicalField) c.enumMappings field).get (by
    obtain ⟨m, hm, rfl⟩ := List.mem_map.mp h
    rw [lookup_mem c.checked.enums_unique hm]
    rfl)

def ContractFields.operationTable (c : ContractFields) (h : Checked c) (hmode : c.mode = .delta) :
    Interpretation.OperationMapping where
  field := c.operationField.getD ""
  field_text := by
    obtain ⟨field, hfield, htext⟩ := (h.delta hmode).1
    rw [Option.mem_def.mp hfield]
    exact htext
  mapping := c.operationMapping
  texts := h.operations.1
  unique := h.operations.2
  covers o := by
    obtain ⟨-, hsnapshot, hcovers⟩ := h.delta hmode
    refine ⟨fun ho hs => hsnapshot (hs ▸ ho), fun ho => hcovers o ?_⟩
    cases o <;> simp_all

theorem required_field {field : CanonicalField} (h : field ≠ .businessReference) :
    field.value ∈ requiredCanonicalFields := by
  cases field <;> first | exact absurd rfl h | decide

def SourceContract.interpreted (c : SourceContract zoneInfo) (h : Validated c) :
    Interpretation.SourceContract where
  adapterKey := c.adapterKey
  parserVersion := c.parserVersion
  mode := c.mode
  identityNamespace := c.identityNamespace
  referenceSemantics := c.referenceSemantics
  timestampFormat := c.timestampFormat
  timezoneName := c.timezoneName
  bindings := c.bindingOf
  sides := enumTable (memberOf [.buy, .sell] CanonicalSide.value .buy)
    (c.enumOf "side" (h.enums "side" List.mem_cons_self))
  states := enumTable (memberOf [.settled, .cancelled] CanonicalState.value .settled)
    (c.enumOf "state" (h.enums "state" (List.mem_cons_of_mem _ List.mem_cons_self)))
  nullTokens := c.nullTokens
  operations :=
    if hmode : c.mode = .delta then some (c.operationTable c.checked hmode) else none
  foldPolicy := c.foldPolicy
  adapter_known := h.adapter
  parserVersion_text := c.checked.parserVersion
  identityNamespace_text := c.checked.identityNamespace
  timestampFormat_text := c.checked.timestampFormat
  bound field hfield := bindingOf_isSome c (h.required _ (required_field hfield))
  reference_bound hreference := bindingOf_isSome c (h.reference hreference)
  nullTokens_text := c.checked.tokens_text
  nullTokens_unique := c.checked.tokens_unique
  operations_delta := by
    split_ifs with hmode
    · simp [hmode]
    · simp [hmode]

theorem enumTargets_eq (c : SourceContract zoneInfo) {field : String} (h : field ∈ c.enumFields) :
    c.enumTargets field = (c.enumOf field h).values.map Prod.snd := by
  obtain ⟨m, hm, rfl⟩ := List.mem_map.mp h
  have hfound := lookup_mem c.checked.enums_unique hm
  simp only [SourceContract.enumTargets, SourceContract.enumOf, hfound, Option.elim_some,
    Option.get_some]

theorem interpreted_tables (c : SourceContract zoneInfo) (h : Validated c) (source : String) :
    (∀ side, (source, side) ∈ (c.interpreted h).sides.values ↔
      (source, side.value) ∈ (c.enumOf "side" (h.enums "side" List.mem_cons_self)).values) ∧
    ∀ state, (source, state) ∈ (c.interpreted h).states.values ↔ (source, state.value) ∈
      (c.enumOf "state" (h.enums "state" (List.mem_cons_of_mem _ List.mem_cons_self))).values := by
  refine ⟨fun side => enumTable_iff _ Fingerprints.sideValue_injective ?_ ?_,
    fun state => enumTable_iff _ CanonicalState.value_injective ?_ ?_⟩
  · rw [← enumTargets_eq]
    exact h.sides
  · cases side <;> decide
  · rw [← enumTargets_eq]
    exact h.states
  · cases state <;> decide

theorem reloaded_interpreted (written : Value → String) {c : SourceContract zoneInfo}
    (h : Validated c) {v w : Value} (hv : contractToPayload c = .ok v) (hw : Kept v w) :
    ∃ c', ∃ h' : Validated c', contractFromPayload zoneInfo written w = .ok c' ∧
      c'.interpreted h' = c.interpreted h := by
  have hc := validatedContract_iff.mpr h
  simp only [contractToPayload, hc, ok_bind, pure_ok] at hv
  subst hv
  refine ⟨c, h, ?_, rfl⟩
  rw [contractFromPayload, contract_kept zoneInfo written hw]
  exact hc

end Interpreted

def columnBinding (canonicalField column : String) : Outcome FieldBinding :=
  createFieldBinding canonicalField (some column) none

def ledgerContract : Outcome ContractFields := do
  let key ← columnBinding "source_record_key" "trade_id"
  let reference ← columnBinding "business_reference" "trade_id"
  let executed ← columnBinding "executed_at_utc" "traded_at"
  let instrument ← columnBinding "instrument" "instrument"
  let side ← columnBinding "side" "side"
  let quantity ← columnBinding "quantity" "quantity"
  let unitPrice ← columnBinding "unit_price" "price"
  let grossAmount ← columnBinding "gross_amount" "gross_amount"
  let currency ← createFieldBinding "currency" none (some "USD")
  let state ← columnBinding "state" "state"
  let sides ← createEnumMapping "side" [("BUY", "BUY"), ("SELL", "SELL")]
  let states ← createEnumMapping "state" [("SETTLED", "SETTLED"), ("CANCELLED", "CANCELLED")]
  return {
    adapterKey := "atlas-ledger-v1"
    parserVersion := "1"
    mode := .fullSnapshot
    identityNamespace := "atlas-ledger-trade"
    referenceSemantics := .trustedShared
    timestampFormat := "ISO8601"
    timezoneName := none
    bindings := [key, reference, executed, instrument, side, quantity, unitPrice, grossAmount,
      currency, state]
    enumMappings := [sides, states]
    nullTokens := []
    operationField := none
    operationMapping := []
    foldPolicy := .reject }

def ledgerSource : Validation (SourceContract fun _ => .zone) :=
  match ledgerContract with
  | .ok fields =>
    match createSourceContract (fun _ => .zone) fields with
    | .ok c => validatedContract c
    | .error _ => .error .untyped
  | .error _ => .error .untyped

theorem ledgerSource_accepted : ledgerSource.toOption.isSome = true := by decide +kernel

theorem ledgerSource_validated {c : SourceContract fun _ => .zone} (h : ledgerSource = .ok c) :
    validatedContract c = .ok c := by
  unfold ledgerSource at h
  split at h
  · split at h
    · rwa [← validatedContract_self _ h] at h
    · cases h
  · cases h

/-- The contract of the ledger is what is read back of its payload. -/
theorem contract_reloaded_sample : ∃ c v, ledgerSource = .ok c ∧ contractToPayload c = .ok v ∧
    contractFromPayload (fun _ => .zone) (fun _ => "") v = .ok c := by
  obtain ⟨c, hc⟩ := Option.isSome_iff_exists.mp ledgerSource_accepted
  obtain ⟨v, hv, hread, -⟩ := contract_reloaded (fun _ => .zone) (fun _ => "")
    (ledgerSource_validated (toOption_ok hc))
  exact ⟨c, v, toOption_ok hc, hv, hread⟩

end Workbench.ContractPayloads
