import Workbench.Interpretation
import Workbench.Decisions

/-!
# What the engine accepts of an activated row

The numeric columns of an observation keep twelve decimals and twenty-six
digits before them. A run turns each observation of its inputs into a record,
whose amounts may not be negative.
-/

set_option autoImplicit false

namespace Workbench.Observations
open Workbench.Listing Workbench.Decimals Workbench.DecimalTexts Workbench.DecimalRounding
open Workbench.Calendar Workbench.Raising Workbench.Records Workbench.Ingestion
open Workbench.Interpretation Workbench.Decisions

def storedText (maxLength : ℕ) (s : String) : Option String :=
  if s.toList.length ≤ maxLength ∧ Char.ofNat 0 ∉ s.toList then some s else none

/-- A `NUMERIC(38, 12)` column: every value has the scale of the column. -/
def storedDecimal (d : Decimal) : Option Decimal :=
  if units 12 d < 10^38 then
    some ⟨d.negative && decide (units 12 d ≠ 0), units 12 d, -12⟩
  else none

structure StoredRow where
  businessReference : Option String
  executedAtUtc : Instant
  instrument : String
  side : CanonicalSide
  quantity : Decimal
  unitPrice : Decimal
  grossAmount : Decimal
  currency : String
  state : CanonicalState
deriving DecidableEq

/-- An observation with its logical transaction. -/
structure Observation extends StoredRow where
  id : Uuid
  logicalTransaction : Uuid
  sourceRecordKey : String

def storedReference : Option String → Option (Option String)
  | none => some none
  | some s => (storedText 240 s).map some

def storeRow (row : CanonicalRow) : Option StoredRow := do
  let businessReference ← storedReference row.businessReference
  let instrument ← storedText 120 row.instrument
  let quantity ← storedDecimal row.quantity
  let unitPrice ← storedDecimal row.unitPrice
  let grossAmount ← storedDecimal row.grossAmount
  let currency ← storedText 12 row.currency
  some ⟨businessReference, row.executedAtUtc, instrument, row.side, quantity, unitPrice,
    grossAmount, currency, row.state⟩

def storeObservation (id logicalTransaction : Uuid) (row : CanonicalRow) :
    Option Observation := do
  let sourceRecordKey ← storedText 240 row.sourceRecordKey
  let stored ← storeRow row
  some ⟨stored, id, logicalTransaction, sourceRecordKey⟩

/-- The observation that activation makes from an interpreted row: from what
its preview payload reads back to. -/
def activatedObservation (id logicalTransaction : Uuid) (row : InterpretedRow) :
    Option Observation :=
  match row.preview with
  | some (.complete payload) => do
    let canonical ← canonicalFromPayload payload
    storeObservation id logicalTransaction canonical
  | _ => none

def textMessage (name : String) : String := name ++ " must be nonblank text"

def nonnegativeMessage (name : String) : String := name ++ " must be nonnegative"

/-- `_match_record`: the reference is an alias only when the contract trusts it,
and a reference in any case. -/
def matchRecord (semantics : ReferenceSemantics) (o : Observation) : Outcome MatchRecord := do
  let sharedAlias := if semantics = .trustedShared then o.businessReference else none
  let observationId ← check (nonblank o.id.text = true) (textMessage "observation_id")
  let logicalId ← check (nonblank o.logicalTransaction.text = true)
    (textMessage "logical_transaction_id")
  let key ← check (nonblank o.sourceRecordKey = true) (textMessage "source_record_key")
  let instrument ← check (OptionalText (some o.instrument)) (textMessage "instrument")
  let currency ← check (OptionalText (some o.currency)) (textMessage "currency")
  let reference ← check (OptionalText o.businessReference) (textMessage "reference_value")
  let shared ← check (OptionalText sharedAlias) (textMessage "shared_reference_alias")
  let quantity ← check (Nonnegative (some o.quantity)) (nonnegativeMessage "quantity")
  let unitPrice ← check (Nonnegative (some o.unitPrice)) (nonnegativeMessage "unit_price")
  let grossAmount ← check (Nonnegative (some o.grossAmount)) (nonnegativeMessage "gross_amount")
  .ok ⟨o.id.text, o.logicalTransaction.text, o.sourceRecordKey, o.state, some o.instrument,
    some o.side, some o.currency, some o.quantity, some o.executedAtUtc, some o.unitPrice,
    some o.grossAmount, o.businessReference, sharedAlias, observationId.down, logicalId.down,
    key.down, instrument.down, currency.down, reference.down, shared.down, quantity.down,
    unitPrice.down, grossAmount.down⟩

theorem nonnegative_some {d : Decimal} : Nonnegative (some d) ↔ 0 ≤ value d := by
  have hz : value (ofInt 0) = 0 := by
    unfold value size ofInt
    simp
  unfold Nonnegative
  simp only [Option.mem_some_iff, forall_eq', le_iff, hz]

theorem kept_nonneg {d : Decimal} (h : Numeric d) : 0 ≤ kept d ↔ 0 ≤ value d := by
  by_cases hc : d.coefficient = 0
  · rw [kept_zero hc, value_nonneg]
    simp [hc]
  · obtain ⟨r, c, e, hr, hce, hs, hn, _⟩ := canonicalDecimal_nonzero h hc
    have hrc : r.coefficient ≠ 0 := by
      intro h0
      rw [size_eq_zero.mpr h0] at hs
      have hpos : 0 < c := by omega
      have hq : (0 : ℚ) < c := by exact_mod_cast hpos
      have hz : (0 : ℚ) < 10^e := by positivity
      exact absurd hs (mul_pos hq hz).ne'
    have hk : kept d = value r := by
      rw [kept, hr]
      rfl
    rw [hk, value_nonneg, value_nonneg, hn]
    simp [hc, hrc]

theorem storedDecimal_nonneg {d s : Decimal} (h : storedDecimal d = some s) :
    0 ≤ value s ↔ 0 ≤ value d := by
  unfold storedDecimal at h
  have hu : units 12 d = 0 ↔ d.coefficient = 0 := by
    unfold units
    simp
  by_cases hb : units 12 d < 10^38
  · rw [if_pos hb, Option.some.injEq] at h
    subst h
    rw [value_nonneg, value_nonneg]
    cases d.negative <;> simp [hu]
  · rw [if_neg hb] at h
    cases h

theorem stored_sign {d r s : Decimal} {text : String} (h : Numeric d)
    (ht : canonicalDecimal d = some text) (hr : payloadDecimal text = some r)
    (hs : storedDecimal r = some s) : Nonnegative (some s) ↔ 0 ≤ value d := by
  obtain ⟨t, x, _, hx, hread, hv⟩ := canonicalDecimal_read h
  rw [ht, Option.some.injEq] at hx
  subst hx
  unfold payloadDecimal at hr
  rw [hread] at hr
  have hxr : x = r := Option.some.inj hr
  rw [nonnegative_some, storedDecimal_nonneg hs, ← hxr, hv, kept_nonneg h]

theorem storedText_eq {n : ℕ} {s t : String} (h : storedText n s = some t) : t = s := by
  unfold storedText at h
  split at h
  · exact (Option.some.inj h).symm
  · cases h

theorem storedReference_eq {s t : Option String} (h : storedReference s = some t) : t = s := by
  cases s with
  | none => exact (Option.some.inj h).symm
  | some s =>
    simp only [storedReference, Option.map_eq_some_iff] at h
    obtain ⟨x, hx, rfl⟩ := h
    rw [storedText_eq hx]

/-- The texts of a stored observation are those of a canonical row, so only the
signs of the amounts decide. -/
theorem matchRecord_returns {semantics : ReferenceSemantics} {o : Observation}
    (hkey : nonblank o.sourceRecordKey = true) (hinstrument : nonblank o.instrument = true)
    (hcurrency : nonblank o.currency = true) (href : OptionalText o.businessReference) :
    (∃ record, matchRecord semantics o = .ok record) ↔ Nonnegative (some o.quantity) ∧
      Nonnegative (some o.unitPrice) ∧ Nonnegative (some o.grossAmount) := by
  constructor
  · intro hr
    obtain ⟨record, hr⟩ := hr
    simp only [matchRecord, bind_ok, Except.ok.injEq] at hr
    obtain ⟨_, _, _, _, _, _, _, _, _, _, _, _, _, _, q, _, u, _, g, _, _⟩ := hr
    exact ⟨q.down, u.down, g.down⟩
  · intro hn
    have hi : OptionalText (some o.instrument) := fun _ h => Option.some.inj h ▸ hinstrument
    have hc : OptionalText (some o.currency) := fun _ h => Option.some.inj h ▸ hcurrency
    have ha : OptionalText (if semantics = .trustedShared then o.businessReference else none) := by
      split
      · exact href
      · exact fun _ h => (Option.not_mem_none _ h).elim
    unfold matchRecord
    simp only [check_true o.id.text_nonblank, check_true o.logicalTransaction.text_nonblank,
      check_true hkey, check_true hi, check_true hc, check_true href, check_true ha,
      check_true hn.1, check_true hn.2.1, check_true hn.2.2, ok_bind]
    exact ⟨_, rfl⟩

theorem canonicalToPayload_some {row : CanonicalRow} {payload : CanonicalPayload}
    (h : canonicalToPayload row = some payload) : ∃ q u g,
    canonicalDecimal row.quantity = some q ∧ canonicalDecimal row.unitPrice = some u ∧
      canonicalDecimal row.grossAmount = some g ∧
      payload = ⟨row.rowNumber, row.sourceRecordKey, row.businessReference, row.executedAtUtc,
        row.instrument, row.side, q, u, g, row.currency, row.state, row.operation,
        row.provenance⟩ := by
  simp only [canonicalToPayload, Option.bind_eq_bind, Option.bind_eq_some_iff,
    Option.some.injEq] at h
  obtain ⟨q, hq, u, hu, g, hg, rfl⟩ := h
  exact ⟨q, u, g, hq, hu, hg, rfl⟩

theorem canonicalFromPayload_some {payload : CanonicalPayload} {c : CanonicalRow}
    (h : canonicalFromPayload payload = some c) : ∃ q u g,
    payloadDecimal payload.quantity = some q ∧ payloadDecimal payload.unitPrice = some u ∧
      payloadDecimal payload.grossAmount = some g ∧
      c.toCanonicalFields = ⟨payload.rowNumber, payload.sourceRecordKey,
        payload.businessReference, payload.executedAtUtc, payload.instrument, payload.side, q, u,
        g, payload.currency, payload.state, payload.operation, payload.provenance⟩ := by
  simp only [canonicalFromPayload, Option.bind_eq_bind, Option.bind_eq_some_iff] at h
  obtain ⟨q, hq, u, hu, g, hg, hc⟩ := h
  refine ⟨q, u, g, hq, hu, hg, create_row ?_⟩
  cases hcreate : CanonicalFields.create ⟨payload.rowNumber, payload.sourceRecordKey,
    payload.businessReference, payload.executedAtUtc, payload.instrument, payload.side, q, u, g,
    payload.currency, payload.state, payload.operation, payload.provenance⟩ with
  | error e =>
    rw [hcreate] at hc
    cases hc
  | ok x =>
    rw [hcreate] at hc
    rw [Option.some.inj hc]

theorem storeObservation_some {id logical : Uuid} {c : CanonicalRow} {o : Observation}
    (h : storeObservation id logical c = some o) :
    o.sourceRecordKey = c.sourceRecordKey ∧ o.businessReference = c.businessReference ∧
      o.instrument = c.instrument ∧ o.currency = c.currency ∧
      storedDecimal c.quantity = some o.quantity ∧ storedDecimal c.unitPrice = some o.unitPrice ∧
      storedDecimal c.grossAmount = some o.grossAmount := by
  simp only [storeObservation, storeRow, Option.bind_eq_bind, Option.bind_eq_some_iff,
    Option.some.injEq] at h
  obtain ⟨key, hkey, _, ⟨ref, href, instrument, hi, q, hq, u, hu, g, hg, currency, hc, rfl⟩,
    rfl⟩ := h
  exact ⟨storedText_eq hkey, storedReference_eq href, storedText_eq hi, storedText_eq hc, hq, hu,
    hg⟩

theorem activatedObservation_complete {id logical : Uuid} {i : InterpretedRow} {o : Observation}
    (h : activatedObservation id logical i = some o) :
    ∃ payload, i.preview = some (.complete payload) := by
  unfold activatedObservation at h
  split at h
  · exact ⟨_, by assumption⟩
  · cases h

theorem activated_returns {id logical : Uuid} {i : InterpretedRow} {row : CanonicalRow}
    {o : Observation} (hp : i.preview = (canonicalToPayload row).map .complete)
    (ho : activatedObservation id logical i = some o) (semantics : ReferenceSemantics) :
    (∃ record, matchRecord semantics o = .ok record) ↔
      0 ≤ value row.quantity ∧ 0 ≤ value row.unitPrice ∧ 0 ≤ value row.grossAmount := by
  unfold activatedObservation at ho
  cases hpayload : canonicalToPayload row with
  | none =>
    rw [hp, hpayload] at ho
    cases ho
  | some payload =>
    rw [hp, hpayload] at ho
    obtain ⟨c, hc, hstore⟩ := Option.bind_eq_some_iff.mp ho
    obtain ⟨q, u, g, hq, hu, hg, rfl⟩ := canonicalToPayload_some hpayload
    obtain ⟨q', u', g', hq', hu', hg', hfields⟩ := canonicalFromPayload_some hc
    obtain ⟨hkey, href, hinstrument, hcurrency, hsq, hsu, hsg⟩ := storeObservation_some hstore
    have hcq : c.quantity = q' := congrArg CanonicalFields.quantity hfields
    have hcu : c.unitPrice = u' := congrArg CanonicalFields.unitPrice hfields
    have hcg : c.grossAmount = g' := congrArg CanonicalFields.grossAmount hfields
    rw [hcq] at hsq
    rw [hcu] at hsu
    rw [hcg] at hsg
    rw [matchRecord_returns (hkey ▸ c.sourceRecordKey_text) (hinstrument ▸ c.instrument_text)
      (hcurrency ▸ c.currency_text) (href ▸ c.businessReference_text),
      stored_sign row.quantity_numeric hq hq' hsq, stored_sign row.unitPrice_numeric hu hu' hsu,
      stored_sign row.grossAmount_numeric hg hg' hsg]

/-- An observation made by activating a row of a ready preview. -/
def Activated (p : InterpretedPreview) (i : InterpretedRow) (o : Observation) : Prop :=
  p.errorCount = 0 ∧ i ∈ p.rows ∧ ∃ id logical, activatedObservation id logical i = some o

/-- A row of a ready preview, once activated, is a record of the engine exactly
when its quantity, its unit price and its gross amount are not negative. -/
theorem activated_row_acceptable_iff {reader : DatetimeReader} {contract : SourceContract}
    {header : List String} {lines : List (List String)} {p : InterpretedPreview}
    {i : InterpretedRow} {o : Observation}
    (hp : interpretCsv reader contract header lines = .ok p) (ho : Activated p i o) :
    ∃ row, i.canonical = some row ∧
      ((∃ record, matchRecord contract.referenceSemantics o = .ok record) ↔
        0 ≤ value row.quantity ∧ 0 ≤ value row.unitPrice ∧ 0 ≤ value row.grossAmount) := by
  obtain ⟨_, hi, id, logical, hstored⟩ := ho
  obtain ⟨row, hrow⟩ := interpretCsv_complete hp hi (activatedObservation_complete hstored)
  exact ⟨row, hrow, activated_returns (interpretCsv_preview hp hi hrow) hstored _⟩

/-- A reader of one timestamp, 2024-01-02T03:04:05 in UTC. -/
def sampleReader : DatetimeReader := fun _ _ _ text =>
  if text = "2024-01-02T03:04:05" then .ok ⟨63839761445000000, by decide⟩
  else .error (.invalidDatetime, "a timestamp")

def sampleConstant : CanonicalField → String
  | .executedAtUtc => "2024-01-02T03:04:05"
  | .side => "BUY"
  | .state => "SETTLED"
  | _ => "1"

/-- A contract that reads the quantity from a column. -/
def sampleContract : SourceContract where
  adapterKey := "configurable-v1"
  parserVersion := "1.0"
  mode := .fullSnapshot
  identityNamespace := "sample"
  referenceSemantics := .none
  timestampFormat := "%Y-%m-%dT%H:%M:%S"
  timezoneName := some "UTC"
  bindings := fun field => some (if field = .quantity then .column "quantity" (by decide)
    else .constant (sampleConstant field))
  sides := ⟨[("BUY", .buy)], by decide, by decide, by decide⟩
  states := ⟨[("SETTLED", .settled)], by decide, by decide, by decide⟩
  nullTokens := []
  operations := none
  foldPolicy := .reject
  adapter_known := by decide
  parserVersion_text := by decide
  identityNamespace_text := by decide
  timestampFormat_text := by decide
  bound := fun _ _ => rfl
  reference_bound := fun _ => rfl
  nullTokens_text := by decide
  nullTokens_unique := by decide
  operations_delta := by decide

def sampleId : Uuid := ⟨"00000000-0000-0000-0000-000000000001", by decide, by decide⟩

def sampleActivation (quantity : String) :
    Option (InterpretedPreview × InterpretedRow × Observation) := do
  let p ← (interpretCsv sampleReader sampleContract ["quantity"] [[quantity]]).toOption
  let i ← p.rows.head?
  let o ← activatedObservation sampleId sampleId i
  if p.errorCount = 0 then some (p, i, o) else none

theorem sampleActivation_some {quantity : String} {p : InterpretedPreview} {i : InterpretedRow}
    {o : Observation} (h : sampleActivation quantity = some (p, i, o)) :
    interpretCsv sampleReader sampleContract ["quantity"] [[quantity]] = .ok p ∧
      Activated p i o := by
  simp only [sampleActivation, Option.bind_eq_bind, Option.bind_eq_some_iff] at h
  obtain ⟨p', hp, i', hi, o', ho, h⟩ := h
  split at h
  · rename_i hready
    simp only [Option.some.injEq, Prod.mk.injEq] at h
    obtain ⟨rfl, rfl, rfl⟩ := h
    cases hcsv : interpretCsv sampleReader sampleContract ["quantity"] [[quantity]] with
    | error e =>
      rw [hcsv] at hp
      cases hp
    | ok x =>
      rw [hcsv] at hp
      rw [← Option.some.inj hp]
      rw [← Option.some.inj hp] at hready hi
      exact ⟨rfl, hready, List.mem_of_head? hi, _, _, ho⟩
  · cases h

theorem activated_row_acceptable_sample : ∃ p i o,
    interpretCsv sampleReader sampleContract ["quantity"] [["1"]] = .ok p ∧ Activated p i o ∧
      ∃ record, matchRecord sampleContract.referenceSemantics o = .ok record := by
  have hs : ((sampleActivation "1").bind fun t => t.2.1.canonical.map fun row =>
      decide (Nonnegative (some row.quantity) ∧ Nonnegative (some row.unitPrice) ∧
        Nonnegative (some row.grossAmount))) = some true := by decide +kernel
  obtain ⟨⟨p, i, o⟩, ht, hrow⟩ := Option.bind_eq_some_iff.mp hs
  obtain ⟨row, hrow, hsigns⟩ := Option.map_eq_some_iff.mp hrow
  obtain ⟨hp, ho⟩ := sampleActivation_some ht
  obtain ⟨row', hrow', hiff⟩ := activated_row_acceptable_iff hp ho
  rw [hrow, Option.some.injEq] at hrow'
  subst hrow'
  simp only [decide_eq_true_eq, nonnegative_some] at hsigns
  exact ⟨p, i, o, hp, ho, hiff.mpr hsigns⟩

/-- A ready row with a negative quantity is activated and then refused by every
run. -/
theorem negative_quantity_refused : ∃ p i o,
    interpretCsv sampleReader sampleContract ["quantity"] [["-1"]] = .ok p ∧ Activated p i o ∧
      matchRecord sampleContract.referenceSemantics o =
        .error (.domainValidation (nonnegativeMessage "quantity")) := by
  have hs : ((sampleActivation "-1").map fun t =>
      decide (matchRecord sampleContract.referenceSemantics t.2.2 =
        .error (.domainValidation (nonnegativeMessage "quantity")))) = some true := by decide +kernel
  obtain ⟨⟨p, i, o⟩, ht, hr⟩ := Option.map_eq_some_iff.mp hs
  obtain ⟨hp, ho⟩ := sampleActivation_some ht
  exact ⟨p, i, o, hp, ho, of_decide_eq_true hr⟩

end Workbench.Observations
