import Workbench.Ingestion

/-!
# What a fingerprint tells apart

A fingerprint keeps every text, the instant and the enumerations of a row. Its
decimals are canonical texts, and these are rounded to the digits of the
default context: a change of a large amount past that digit leaves the
fingerprint as it was.
-/

set_option autoImplicit false

namespace Workbench.Fingerprints
open Workbench.Listing Workbench.Decimals Workbench.DecimalRounding Workbench.CivilTime
open Workbench.Records Workbench.Json Workbench.Ingestion

/-- The same transaction in every value a reviewer sees. -/
structure SameValues (row row' : CanonicalRow) : Prop where
  quantity : value row.quantity = value row'.quantity
  unitPrice : value row.unitPrice = value row'.unitPrice
  grossAmount : value row.grossAmount = value row'.grossAmount
  sourceRecordKey : row.sourceRecordKey = row'.sourceRecordKey
  businessReference : row.businessReference = row'.businessReference
  executedAtUtc : row.executedAtUtc = row'.executedAtUtc
  instrument : row.instrument = row'.instrument
  side : row.side = row'.side
  currency : row.currency = row'.currency
  state : row.state = row'.state
  operation : row.operation = row'.operation

structure Texts (row : CanonicalRow) where
  quantity : String
  unitPrice : String
  grossAmount : String
  quantity_eq : canonicalDecimal row.quantity = some quantity
  unitPrice_eq : canonicalDecimal row.unitPrice = some unitPrice
  grossAmount_eq : canonicalDecimal row.grossAmount = some grossAmount

theorem exists_texts (row : CanonicalRow) : Nonempty (Texts row) := by
  obtain ⟨q, _, _, hq, _⟩ := canonicalDecimal_read row.quantity_numeric
  obtain ⟨u, _, _, hu, _⟩ := canonicalDecimal_read row.unitPrice_numeric
  obtain ⟨g, _, _, hg, _⟩ := canonicalDecimal_read row.grossAmount_numeric
  exact ⟨⟨q, u, g, hq, hu, hg⟩⟩

def fingerprintPayload (contractDigest : String) (row : CanonicalRow) (t : Texts row) : Value :=
  .object [("contract_digest", .text contractDigest),
    ("fields", .array [fieldValue "business_reference" "TEXT" (row.businessReference.getD ""),
      fieldValue "currency" "TEXT" row.currency,
      fieldValue "executed_at_utc" "DATETIME" (canonicalDatetime row.executedAtUtc),
      fieldValue "gross_amount" "DECIMAL" t.grossAmount,
      fieldValue "instrument" "TEXT" row.instrument,
      fieldValue "quantity" "DECIMAL" t.quantity,
      fieldValue "side" "ENUM" row.side.value,
      fieldValue "source_record_key" "TEXT" row.sourceRecordKey,
      fieldValue "state" "ENUM" row.state.value,
      fieldValue "unit_price" "DECIMAL" t.unitPrice]),
    ("operation", .text row.operation.value),
    ("provenance", .array ((sortOn (·.canonicalField) row.provenance).map provenanceValue))]

theorem fingerprintBytes_eq (contractDigest : String) (row : CanonicalRow) (t : Texts row) :
    fingerprintBytes contractDigest row =
      some (digestBytes "observation" (fingerprintPayload contractDigest row t)) := by
  unfold fingerprintBytes semanticFields fingerprintPayload
  rw [t.quantity_eq, t.unitPrice_eq, t.grossAmount_eq]
  rfl

theorem canonicalJson_injective : Function.Injective canonicalJson := by
  intro v w h
  exact dumps_injective (utf8_injective h)

theorem digestBytes_inj {kind kind' : String} {v w : Value}
    (h : digestBytes kind v = digestBytes kind' w) : kind = kind' ∧ v = w := by
  have he := canonicalJson_injective h
  simp only [Value.object.injEq, List.cons.injEq, Prod.mk.injEq, Value.text.injEq] at he
  exact ⟨he.1.2, he.2.1.2⟩

theorem sideValue_injective : Function.Injective CanonicalSide.value := by
  intro a b h
  cases a <;> cases b <;> first | rfl | exact absurd h (by decide)

theorem operationValue_injective : Function.Injective IngestionOperation.value := by
  intro a b h
  cases a <;> cases b <;> first | rfl | exact absurd h (by decide)

theorem reference_inj {a b : Option String} (ha : OptionalText a) (hb : OptionalText b)
    (h : a.getD "" = b.getD "") : a = b := by
  have hempty : nonblank "" = false := by decide
  cases a with
  | none =>
    cases b with
    | none => rfl
    | some t =>
      have ht := hb t rfl
      rw [← show "" = t from h, hempty] at ht
      cases ht
  | some s =>
    cases b with
    | none =>
      have hs := ha s rfl
      rw [show s = "" from h, hempty] at hs
      cases hs
    | some t => exact congrArg some h

theorem payload_inj {contractDigest contractDigest' : String} {row row' : CanonicalRow}
    {t : Texts row} {t' : Texts row'}
    (h : fingerprintPayload contractDigest row t = fingerprintPayload contractDigest' row' t') :
    t.quantity = t'.quantity ∧ t.unitPrice = t'.unitPrice ∧ t.grossAmount = t'.grossAmount ∧
      row.sourceRecordKey = row'.sourceRecordKey ∧
      row.businessReference = row'.businessReference ∧
      row.executedAtUtc = row'.executedAtUtc ∧ row.instrument = row'.instrument ∧
      row.side = row'.side ∧ row.currency = row'.currency ∧ row.state = row'.state ∧
      row.operation = row'.operation := by
  simp only [fingerprintPayload, fieldValue, Value.object.injEq, Value.array.injEq,
    Value.text.injEq, List.cons.injEq, Prod.mk.injEq, true_and, and_true] at h
  obtain ⟨_, ⟨href, hcurrency, htime, hgross, hinstrument, hquantity, hside, hkey, hstate, hprice⟩,
    hoperation, _⟩ := h
  exact ⟨hquantity, hprice, hgross, hkey,
    reference_inj row.businessReference_text row'.businessReference_text href,
    canonicalDatetime_injective htime, hinstrument, sideValue_injective hside, hcurrency,
    CanonicalState.value_injective hstate, operationValue_injective hoperation⟩

/-- Rows with one fingerprint have the canonical amounts and every other value in
common. -/
theorem fingerprint_inj {sha : Sha256} {contractDigest contractDigest' : String}
    {row row' : CanonicalRow}
    (hapart : ∀ b ∈ fingerprintBytes contractDigest row,
      ∀ b' ∈ fingerprintBytes contractDigest' row', sha.Apart b b')
    (h : observationFingerprint sha contractDigest row =
      observationFingerprint sha contractDigest' row') :
    canonicalDecimal row.quantity = canonicalDecimal row'.quantity ∧
      canonicalDecimal row.unitPrice = canonicalDecimal row'.unitPrice ∧
      canonicalDecimal row.grossAmount = canonicalDecimal row'.grossAmount ∧
      row.sourceRecordKey = row'.sourceRecordKey ∧
      row.businessReference = row'.businessReference ∧
      row.executedAtUtc = row'.executedAtUtc ∧ row.instrument = row'.instrument ∧
      row.side = row'.side ∧ row.currency = row'.currency ∧ row.state = row'.state ∧
      row.operation = row'.operation := by
  obtain ⟨t⟩ := exists_texts row
  obtain ⟨t'⟩ := exists_texts row'
  have hb := fingerprintBytes_eq contractDigest row t
  have hb' := fingerprintBytes_eq contractDigest' row' t'
  unfold observationFingerprint at h
  rw [hb, hb', Option.map_some, Option.map_some, Option.some.injEq] at h
  have hbytes := hapart _ hb _ hb' h
  obtain ⟨hquantity, hprice, hgross, hrest⟩ := payload_inj (digestBytes_inj hbytes).2
  exact ⟨by rw [t.quantity_eq, t'.quantity_eq, hquantity],
    by rw [t.unitPrice_eq, t'.unitPrice_eq, hprice],
    by rw [t.grossAmount_eq, t'.grossAmount_eq, hgross], hrest⟩

def withAmounts (row : CanonicalRow) (quantity unitPrice grossAmount : Decimal)
    (hquantity : Numeric quantity) (hprice : Numeric unitPrice) (hgross : Numeric grossAmount) :
    CanonicalRow :=
  { row with
    quantity := quantity
    unitPrice := unitPrice
    grossAmount := grossAmount
    quantity_numeric := hquantity
    unitPrice_numeric := hprice
    grossAmount_numeric := hgross }

theorem withAmounts_bytes (contractDigest : String) {row : CanonicalRow}
    {quantity unitPrice grossAmount : Decimal} (hq : Numeric quantity) (hu : Numeric unitPrice)
    (hg : Numeric grossAmount)
    (hquantity : canonicalDecimal row.quantity = canonicalDecimal quantity)
    (hprice : canonicalDecimal row.unitPrice = canonicalDecimal unitPrice)
    (hgross : canonicalDecimal row.grossAmount = canonicalDecimal grossAmount) :
    fingerprintBytes contractDigest (withAmounts row quantity unitPrice grossAmount hq hu hg) =
      fingerprintBytes contractDigest row := by
  unfold fingerprintBytes semanticFields
  rw [hquantity, hprice, hgross]
  rfl

theorem withAmounts_same (sha : Sha256) (contractDigest : String) {row : CanonicalRow}
    (hall : ∀ row' : CanonicalRow,
      (∀ b ∈ fingerprintBytes contractDigest row, ∀ b' ∈ fingerprintBytes contractDigest row',
        sha.Apart b b') →
      observationFingerprint sha contractDigest row =
        observationFingerprint sha contractDigest row' → SameValues row row')
    {quantity unitPrice grossAmount : Decimal} (hq : Numeric quantity) (hu : Numeric unitPrice)
    (hg : Numeric grossAmount)
    (hquantity : canonicalDecimal row.quantity = canonicalDecimal quantity)
    (hprice : canonicalDecimal row.unitPrice = canonicalDecimal unitPrice)
    (hgross : canonicalDecimal row.grossAmount = canonicalDecimal grossAmount) :
    SameValues row (withAmounts row quantity unitPrice grossAmount hq hu hg) := by
  have hb := withAmounts_bytes contractDigest hq hu hg hquantity hprice hgross
  apply hall
  · intro b h b' h'
    rw [hb, Option.mem_def.mp h] at h'
    exact fun _ => Option.some.inj h'
  · rw [observationFingerprint, observationFingerprint, hb]

/-- A fingerprint determines the values of a row exactly when its amounts are
below `10^16`: beyond, sixteen digits before the point and twelve after it do
not fit the 28 of the default context. -/
theorem fingerprint_determines_iff (sha : Sha256) (contractDigest : String) (row : CanonicalRow) :
    (∀ row' : CanonicalRow,
      (∀ b ∈ fingerprintBytes contractDigest row, ∀ b' ∈ fingerprintBytes contractDigest row',
        sha.Apart b b') →
      observationFingerprint sha contractDigest row =
        observationFingerprint sha contractDigest row' → SameValues row row') ↔
      size row.quantity < 10^16 ∧ size row.unitPrice < 10^16 ∧ size row.grossAmount < 10^16 := by
  constructor
  · intro hall
    refine ⟨?_, ?_, ?_⟩
    · apply (canonicalDecimal_determines_iff row.quantity_numeric).mp
      intro d hd he
      exact (withAmounts_same sha contractDigest hall hd row.unitPrice_numeric
        row.grossAmount_numeric he rfl rfl).quantity
    · apply (canonicalDecimal_determines_iff row.unitPrice_numeric).mp
      intro d hd he
      exact (withAmounts_same sha contractDigest hall row.quantity_numeric hd
        row.grossAmount_numeric rfl he rfl).unitPrice
    · apply (canonicalDecimal_determines_iff row.grossAmount_numeric).mp
      intro d hd he
      exact (withAmounts_same sha contractDigest hall row.quantity_numeric row.unitPrice_numeric
        hd rfl rfl he).grossAmount
  · intro hsmall row' hapart h
    obtain ⟨hquantity, hprice, hgross, hkey, href, htime, hinstrument, hside, hcurrency, hstate,
      hoperation⟩ := fingerprint_inj hapart h
    obtain ⟨hsq, hsu, hsg⟩ := hsmall
    exact ⟨(canonicalDecimal_determines_iff row.quantity_numeric).mpr hsq _
        row'.quantity_numeric hquantity,
      (canonicalDecimal_determines_iff row.unitPrice_numeric).mpr hsu _
        row'.unitPrice_numeric hprice,
      (canonicalDecimal_determines_iff row.grossAmount_numeric).mpr hsg _
        row'.grossAmount_numeric hgross,
      hkey, href, htime, hinstrument, hside, hcurrency, hstate, hoperation⟩

def largeRow : CanonicalRow where
  rowNumber := 2
  sourceRecordKey := "row-1"
  businessReference := none
  executedAtUtc := ⟨0, by decide⟩
  instrument := "bond"
  side := .buy
  quantity := ⟨false, 10^16, 0⟩
  unitPrice := ⟨false, 1, 0⟩
  grossAmount := ⟨false, 1, 0⟩
  currency := "EUR"
  state := .settled
  operation := .snapshot
  provenance := []
  rowNumber_pos := Nat.two_pos
  sourceRecordKey_text := by decide
  instrument_text := by decide
  currency_text := by decide
  businessReference_text := by decide
  quantity_numeric := by decide
  unitPrice_numeric := by decide
  grossAmount_numeric := by decide
  operation_observed := by decide
  cancel_cancelled := by decide
  provenance_unique := by decide

/-- Its quantity corrected in the last place a column keeps. -/
def correctedRow : CanonicalRow :=
  withAmounts largeRow ⟨false, 10^28+1, -12⟩ ⟨false, 1, 0⟩ ⟨false, 1, 0⟩ (by decide) (by decide)
    (by decide)

theorem correction_fingerprint (sha : Sha256) (contractDigest : String) :
    observationFingerprint sha contractDigest correctedRow =
      observationFingerprint sha contractDigest largeRow := by
  unfold observationFingerprint
  have hd : canonicalDecimal largeRow.quantity = canonicalDecimal ⟨false, 10^28+1, -12⟩ := by
    decide +kernel
  exact congrArg (Option.map sha.hexdigest) (withAmounts_bytes contractDigest _ _ _ hd rfl rfl)

theorem correction_differs : value correctedRow.quantity ≠ value largeRow.quantity := by
  unfold value size correctedRow withAmounts largeRow
  norm_num

/-- Under no digest does a fingerprint tell every correction from what it
corrects. -/
theorem correction_unnoticed : ¬∃ (sha : Sha256) (contractDigest : String),
    ∀ row row' : CanonicalRow,
      (∀ b ∈ fingerprintBytes contractDigest row, ∀ b' ∈ fingerprintBytes contractDigest row',
        sha.Apart b b') →
      observationFingerprint sha contractDigest row =
        observationFingerprint sha contractDigest row' → SameValues row row' := by
  intro hall
  obtain ⟨sha, contractDigest, hall⟩ := hall
  have hd : canonicalDecimal largeRow.quantity = canonicalDecimal ⟨false, 10^28+1, -12⟩ := by
    decide +kernel
  have hb : fingerprintBytes contractDigest correctedRow =
      fingerprintBytes contractDigest largeRow :=
    withAmounts_bytes contractDigest _ _ _ hd rfl rfl
  apply correction_differs
  apply (hall correctedRow largeRow _ (correction_fingerprint sha contractDigest)).quantity
  intro b h b' h' _
  rw [Option.mem_def, hb] at h
  exact Option.some.inj (h.symm.trans h')

end Workbench.Fingerprints
