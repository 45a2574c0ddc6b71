import Workbench.Fingerprints
import Workbench.Observations
import Workbench.Timestamps

/-!
# What a stored payload keeps

The payload of a row holds texts, numbers and lists of texts. Everything but
the amounts reads back as it was written; an amount does exactly when its
significant digits fit the default context.
-/

set_option autoImplicit false

namespace Workbench.Payloads
open Workbench.Listing Workbench.Decimals Workbench.DecimalTexts Workbench.DecimalRounding
open Workbench.Calendar Workbench.CivilTime Workbench.Timestamps Workbench.Raising
open Workbench.Records Workbench.Ingestion Workbench.Fingerprints Workbench.Observations

def member {α : Type} (members : List α) (value : α → String) (s : String) : Option α :=
  members.find? fun a => value a = s

def sides : List CanonicalSide := [.buy, .sell]

def states : List CanonicalState := [.settled, .cancelled]

def ingestionOperations : List IngestionOperation := [.snapshot, .upsert, .cancel, .retract]

theorem side_member (side : CanonicalSide) :
    member sides CanonicalSide.value side.value = some side := by
  cases side <;> decide

theorem state_member (state : CanonicalState) :
    member states CanonicalState.value state.value = some state := by
  cases state <;> decide

theorem operation_member (operation : IngestionOperation) :
    member ingestionOperations IngestionOperation.value operation.value = some operation := by
  cases operation <;> decide

structure ProvenanceItem where
  canonicalField : String
  sourceColumn : Option String
  kind : String
  original : Option String
  transformation : String

def provenanceItem (p : FieldProvenance) : ProvenanceItem :=
  ⟨p.canonicalField, p.sourceColumn, p.rawCell.kind, p.rawCell.original, p.transformation⟩

/-- `RawCell(RawCellKind(kind), original)` with the checks of a new cell. -/
def rawCellOf (kind : String) (original : Option String) : Option RawCell :=
  if kind = "MISSING" then if original = none then some .missing else none
  else if kind = "NULL" then
    match original with
    | some s => if h : s = "" then none else some (.null s h)
    | none => none
  else if kind = "EMPTY" then if original = some "" then some .empty else none
  else if kind = "VALUE" then original.map .value
  else none

def ProvenanceItem.read (item : ProvenanceItem) : Option FieldProvenance := do
  let rawCell ← rawCellOf item.kind item.original
  if h : nonblank item.canonicalField = true ∧ nonblank item.transformation = true then
    some ⟨item.canonicalField, item.sourceColumn, rawCell, item.transformation, h.1, h.2⟩
  else none

theorem rawCellOf_kind (cell : RawCell) : rawCellOf cell.kind cell.original = some cell := by
  cases cell with
  | missing => rfl
  | null s h => simp [rawCellOf, RawCell.kind, RawCell.original, h]
  | empty => rfl
  | value s => rfl

theorem read_provenanceItem (p : FieldProvenance) : (provenanceItem p).read = some p := by
  simp [ProvenanceItem.read, provenanceItem, rawCellOf_kind, p.canonicalField_text,
    p.transformation_text]

theorem read_provenanceItems (ps : List FieldProvenance) :
    (ps.map provenanceItem).mapM ProvenanceItem.read = some ps := by
  induction ps with
  | nil => rfl
  | cons p ps ih =>
    rw [List.map_cons, List.mapM_cons, read_provenanceItem, ih]
    rfl

structure RowPayload where
  complete : Bool
  rowNumber : ℕ
  sourceRecordKey : String
  businessReference : Option String
  executedAtUtc : String
  instrument : String
  side : String
  quantity : String
  unitPrice : String
  grossAmount : String
  currency : String
  state : String
  eligibleForMatching : Bool
  operation : String
  provenance : List ProvenanceItem

def payloadTexts (p : CanonicalPayload) : RowPayload where
  complete := true
  rowNumber := p.rowNumber
  sourceRecordKey := p.sourceRecordKey
  businessReference := p.businessReference
  executedAtUtc := canonicalDatetime p.executedAtUtc
  instrument := p.instrument
  side := p.side.value
  quantity := p.quantity
  unitPrice := p.unitPrice
  grossAmount := p.grossAmount
  currency := p.currency
  state := p.state.value
  eligibleForMatching := decide (p.state ≠ .cancelled)
  operation := p.operation.value
  provenance := p.provenance.map provenanceItem

def RowPayload.read (t : RowPayload) : Option CanonicalPayload := do
  let provenance ← t.provenance.mapM ProvenanceItem.read
  let executedAtUtc ← fromisoformat (replaceZulu t.executedAtUtc)
  let side ← member sides CanonicalSide.value t.side
  let state ← member states CanonicalState.value t.state
  let operation ← member ingestionOperations IngestionOperation.value t.operation
  some ⟨t.rowNumber, t.sourceRecordKey, t.businessReference, executedAtUtc, t.instrument, side,
    t.quantity, t.unitPrice, t.grossAmount, t.currency, state, operation, provenance⟩

/-- `canonical_to_payload`. -/
def rowToPayload (row : CanonicalRow) : Option RowPayload :=
  (canonicalToPayload row).map payloadTexts

/-- `canonical_from_payload`. -/
def rowFromPayload (t : RowPayload) : Option CanonicalRow :=
  if t.complete then t.read.bind canonicalFromPayload else none

theorem read_payloadTexts (p : CanonicalPayload) : (payloadTexts p).read = some p := by
  unfold RowPayload.read payloadTexts
  rw [read_provenanceItems]
  simp [fromisoformat_canonical, side_member, state_member, operation_member]

theorem rowFromPayload_texts (p : CanonicalPayload) :
    rowFromPayload (payloadTexts p) = canonicalFromPayload p := by
  rw [rowFromPayload, read_payloadTexts]
  rfl

/-- A number of at most `p` significant digits. -/
def Significant (p : ℕ) (d : Decimal) : Prop :=
  ∃ (m : ℕ) (j : ℤ), m < 10^p ∧ size d = m*10^j

theorem kept_of_significant {d : Decimal} (h : Numeric d) (hs : Significant 28 d) :
    kept d = value d := by
  by_cases hc : d.coefficient = 0
  · rw [kept_zero hc, value, size_eq_zero.mpr hc]
    simp
  · obtain ⟨m, j, hm, hsize⟩ := hs
    have hexp : 0 ≤ d.exponent+(12 : ℕ) := by
      have := h.bounds
      omega
    have hunits := units_size hexp
    have hq : (units 12 d : ℚ) = m*10^(j+12) := by
      rw [zpow_add₀ (by norm_num), ← mul_assoc, ← hsize, hunits, mul_assoc]
      norm_num
    have hfit : ∃ m' i : ℕ, m' ≤ 10^28 ∧ units 12 d = m'*10^i := by
      by_cases hj : 0 ≤ j+12
      · refine ⟨m, (j+12).toNat, hm.le, ?_⟩
        have hz : (10 : ℚ)^(j+12) = 10^(j+12).toNat := by
          rw [← zpow_natCast, Int.toNat_of_nonneg hj]
        rw [hz] at hq
        exact_mod_cast hq
      · refine ⟨units 12 d, 0, ?_, by rw [pow_zero, mul_one]⟩
        have hle : (10 : ℚ)^(j+12) ≤ 1 := zpow_le_one_of_nonpos₀ (by norm_num) (by omega)
        have hm0 : (0 : ℚ) ≤ m := Nat.cast_nonneg m
        have hle' : (units 12 d : ℚ) ≤ m := by
          rw [hq]
          nlinarith
        exact (Nat.cast_le.mp hle').trans hm.le
    obtain ⟨m', i, hm', hu⟩ := hfit
    obtain ⟨r, hr, hv⟩ := fix_exact h hc hm' hu
    rw [kept, hr]
    exact hv

theorem significant_of_kept {d : Decimal} (h : Numeric d) (hk : kept d = value d) :
    Significant 28 d := by
  by_cases hc : d.coefficient = 0
  · exact ⟨0, 0, by norm_num, by rw [size_eq_zero.mpr hc]; simp⟩
  · obtain ⟨r, hr, -, hs⟩ := fix_numeric h hc
    have hsize : size d = size r := by
      rw [kept, hr] at hk
      rw [← abs_value, ← abs_value, ← hk]
      rfl
    have hle : halfEven d.coefficient (digits d.coefficient-28) ≤ 10^28 := by
      by_cases hbig : digits d.coefficient ≤ 28
      · rw [show digits d.coefficient-28 = 0 by omega, halfEven_zero]
        exact ((lt_pow_digits _).trans_le (Nat.pow_le_pow_right (by norm_num) hbig)).le
      · apply halfEven_lt
        rw [show 28+(digits d.coefficient-28) = digits d.coefficient by omega]
        exact lt_pow_digits _
    generalize d.exponent+(digits d.coefficient-28 : ℕ) = j at hs
    by_cases htop : halfEven d.coefficient (digits d.coefficient-28) < 10^28
    · exact ⟨_, j, htop, hsize.trans hs⟩
    · refine ⟨1, 28+j, by norm_num, ?_⟩
      have heq := le_antisymm hle (not_lt.mp htop)
      rw [hsize, hs, heq, zpow_add₀ (by norm_num)]
      norm_num

/-- The text of a number that the context keeps reads back to an admitted
number of its value. -/
theorem payload_reads {d : Decimal} (h : Numeric d) (hk : kept d = value d) :
    ∃ t r, canonicalDecimal d = some t ∧ payloadDecimal t = some r ∧ Numeric r ∧
      value r = value d := by
  by_cases hc : d.coefficient = 0
  · refine ⟨"0", ⟨false, 0, 0⟩, by rw [canonicalDecimal, if_pos hc], by decide, by decide, ?_⟩
    rw [← hk, kept_zero hc]
    unfold value size
    simp
  · obtain ⟨r, c, e, hr, hce, hs, hn, ht⟩ := canonicalDecimal_nonzero h hc
    obtain ⟨x, _, hx, hxn, hxs, hxe⟩ := readDecimal_fixedText (stripped_constructible hr hce hs)
    rw [kept, hr] at hk
    have hrd : value r = value d := hk
    have hxd : size x = size d := by
      rw [hxs, ← abs_value d, ← hrd, abs_value, ← hs]
      rfl
    have hsd : (c : ℚ)*10^e = d.coefficient*10^d.exponent := by
      rw [hs, ← size, ← abs_value, hrd, abs_value]
    have hle : d.exponent ≤ e := by
      by_contra hlt
      obtain ⟨-, heq⟩ := stripped_le hce (not_le.mp hlt).le hsd
      omega
    have hxc : x.coefficient ≠ 0 := by
      intro h0
      rw [size_eq_zero.mpr h0] at hxd
      exact hc (size_eq_zero.mp hxd.symm)
    have hlead := leading_unique hxc hc hxd
    refine ⟨_, x, ht, by rw [payloadDecimal, hx], ?_, value_eq (hxn.trans hn) hxd⟩
    unfold Numeric scale integerDigits at h ⊢
    rw [hlead, hxe]
    simp only
    omega

structure ReadBack (row back : CanonicalRow) : Prop where
  quantity : value back.quantity = value row.quantity
  unitPrice : value back.unitPrice = value row.unitPrice
  grossAmount : value back.grossAmount = value row.grossAmount
  rest : back.toCanonicalFields = { row.toCanonicalFields with
    quantity := back.quantity
    unitPrice := back.unitPrice
    grossAmount := back.grossAmount }

def Returns (row : CanonicalRow) : Prop :=
  ∃ t back, rowToPayload row = some t ∧ rowFromPayload t = some back ∧ ReadBack row back

theorem payload_value {d r : Decimal} {t : String} (h : Numeric d)
    (ht : canonicalDecimal d = some t) (hr : payloadDecimal t = some r) : value r = kept d := by
  obtain ⟨t', r', _, ht', hr', hv⟩ := canonicalDecimal_read h
  rw [ht, Option.some.injEq] at ht'
  subst ht'
  rw [payloadDecimal, hr', Option.some.injEq] at hr
  rw [← hr, hv]

theorem create_amounts (row : CanonicalRow) {q u g : Decimal} (hq : Numeric q) (hu : Numeric u)
    (hg : Numeric g) : ∃ back, CanonicalFields.create { row.toCanonicalFields with
      quantity := q
      unitPrice := u
      grossAmount := g } = .ok back := by
  unfold CanonicalFields.create
  simp only [check_true row.rowNumber_pos, check_true row.sourceRecordKey_text,
    check_true row.instrument_text, check_true row.currency_text,
    check_true row.businessReference_text, check_true hq, check_true hu, check_true hg,
    check_true row.operation_observed, check_true row.cancel_cancelled,
    check_true row.provenance_unique, ok_bind]
  exact ⟨_, rfl⟩

theorem significant_of_returns {row : CanonicalRow} (h : Returns row) :
    Significant 28 row.quantity ∧ Significant 28 row.unitPrice ∧
      Significant 28 row.grossAmount := by
  obtain ⟨t, back, ht, hback, hread⟩ := h
  obtain ⟨p, hp, rfl⟩ := Option.map_eq_some_iff.mp ht
  rw [rowFromPayload_texts] at hback
  obtain ⟨q, u, g, hq, hu, hg, rfl⟩ := canonicalToPayload_some hp
  obtain ⟨q', u', g', hq', hu', hg', hfields⟩ := canonicalFromPayload_some hback
  have hbq : back.quantity = q' := congrArg CanonicalFields.quantity hfields
  have hbu : back.unitPrice = u' := congrArg CanonicalFields.unitPrice hfields
  have hbg : back.grossAmount = g' := congrArg CanonicalFields.grossAmount hfields
  refine ⟨significant_of_kept row.quantity_numeric ?_,
    significant_of_kept row.unitPrice_numeric ?_, significant_of_kept row.grossAmount_numeric ?_⟩
  · rw [← payload_value row.quantity_numeric hq hq', ← hbq]
    exact hread.quantity
  · rw [← payload_value row.unitPrice_numeric hu hu', ← hbu]
    exact hread.unitPrice
  · rw [← payload_value row.grossAmount_numeric hg hg', ← hbg]
    exact hread.grossAmount

theorem canonical_returns {row : CanonicalRow} (hq : Significant 28 row.quantity)
    (hu : Significant 28 row.unitPrice) (hg : Significant 28 row.grossAmount) :
    ∃ p back, canonicalToPayload row = some p ∧ canonicalFromPayload p = some back ∧
      ReadBack row back := by
  obtain ⟨q, q', hq, hq', hnq, hvq⟩ :=
    payload_reads row.quantity_numeric (kept_of_significant row.quantity_numeric hq)
  obtain ⟨u, u', hu, hu', hnu, hvu⟩ :=
    payload_reads row.unitPrice_numeric (kept_of_significant row.unitPrice_numeric hu)
  obtain ⟨g, g', hg, hg', hng, hvg⟩ :=
    payload_reads row.grossAmount_numeric (kept_of_significant row.grossAmount_numeric hg)
  obtain ⟨back, hback⟩ := create_amounts row hnq hnu hng
  have hfields := create_row hback
  have hp : canonicalToPayload row = some ⟨row.rowNumber, row.sourceRecordKey,
      row.businessReference, row.executedAtUtc, row.instrument, row.side, q, u, g, row.currency,
      row.state, row.operation, row.provenance⟩ := by
    simp only [canonicalToPayload, hq, hu, hg, Option.bind_eq_bind, Option.bind_some]
  refine ⟨_, back, hp, ?_, ?_⟩
  · simp only [canonicalFromPayload, hq', hu', hg', Option.bind_eq_bind, Option.bind_some, hback]
    rfl
  · have hbq : back.quantity = q' := congrArg CanonicalFields.quantity hfields
    have hbu : back.unitPrice = u' := congrArg CanonicalFields.unitPrice hfields
    have hbg : back.grossAmount = g' := congrArg CanonicalFields.grossAmount hfields
    refine ⟨hbq ▸ hvq, hbu ▸ hvu, hbg ▸ hvg, ?_⟩
    rw [hbq, hbu, hbg]
    exact hfields

/-- A stored payload reads back to its row exactly when each of the amounts
has at most 28 significant digits. -/
theorem payload_returns_iff (row : CanonicalRow) : Returns row ↔
    Significant 28 row.quantity ∧ Significant 28 row.unitPrice ∧
      Significant 28 row.grossAmount := by
  constructor
  · exact significant_of_returns
  · intro h
    obtain ⟨hq, hu, hg⟩ := h
    obtain ⟨p, back, hp, hback, hread⟩ := canonical_returns hq hu hg
    refine ⟨payloadTexts p, back, by rw [rowToPayload, hp, Option.map_some], ?_, hread⟩
    rw [rowFromPayload_texts, hback]

/-- A quantity of 29 digits is not the one its payload reads back to. -/
theorem corrected_row_lost : ¬Returns correctedRow := by
  intro h
  obtain ⟨t, back, ht, hback, hread⟩ := h
  obtain ⟨p, hp, rfl⟩ := Option.map_eq_some_iff.mp ht
  rw [rowFromPayload_texts] at hback
  obtain ⟨q, _, _, hq, _, _, rfl⟩ := canonicalToPayload_some hp
  obtain ⟨q', _, _, hq', _, _, hfields⟩ := canonicalFromPayload_some hback
  have hbq : back.quantity = q' := congrArg CanonicalFields.quantity hfields
  have hv := payload_value correctedRow.quantity_numeric hq hq'
  have hlost : canonicalDecimal correctedRow.quantity = canonicalDecimal largeRow.quantity := by
    decide +kernel
  have hkept := (canonicalDecimal_eq_iff correctedRow.quantity_numeric
    largeRow.quantity_numeric).mp hlost
  have hlarge : kept largeRow.quantity = value largeRow.quantity := by
    apply kept_of_significant largeRow.quantity_numeric
    refine ⟨1, 16, by norm_num, ?_⟩
    unfold size largeRow
    norm_num
  apply correction_differs
  rw [← hread.quantity, hbq, hv, hkept, hlarge]

end Workbench.Payloads
