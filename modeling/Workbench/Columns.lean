import Workbench.Payloads

/-!
# What the columns of an observation hold

A row is stored through its payload into columns of limited width. Which rows
are stored as their file has them.
-/

set_option autoImplicit false

namespace Workbench.Columns
open Workbench.Decimals Workbench.DecimalTexts Workbench.DecimalRounding Workbench.Records
open Workbench.Decisions Workbench.Ingestion Workbench.Interpretation Workbench.Observations
open Workbench.Payloads Workbench.Raising

def TextFits (maxLength : ℕ) (s : String) : Prop :=
  s.toList.length ≤ maxLength ∧ Char.ofNat 0 ∉ s.toList

def AmountFits (d : Decimal) : Prop := size d < 10^26 ∧ Significant 28 d

structure Storable (row : CanonicalRow) : Prop where
  sourceRecordKey : TextFits 240 row.sourceRecordKey
  businessReference : ∀ s ∈ row.businessReference, TextFits 240 s
  instrument : TextFits 120 row.instrument
  currency : TextFits 12 row.currency
  quantity : AmountFits row.quantity
  unitPrice : AmountFits row.unitPrice
  grossAmount : AmountFits row.grossAmount

structure Stores (row : CanonicalRow) (o : Observation) : Prop where
  sourceRecordKey : o.sourceRecordKey = row.sourceRecordKey
  businessReference : o.businessReference = row.businessReference
  executedAtUtc : o.executedAtUtc = row.executedAtUtc
  instrument : o.instrument = row.instrument
  side : o.side = row.side
  currency : o.currency = row.currency
  state : o.state = row.state
  quantity : value o.quantity = value row.quantity
  unitPrice : value o.unitPrice = value row.unitPrice
  grossAmount : value o.grossAmount = value row.grossAmount

theorem storedText_some {n : ℕ} {s t : String} :
    storedText n s = some t ↔ TextFits n s ∧ s = t := by
  unfold storedText TextFits
  split_ifs with h
  · simp [h]
  · simp [h]

theorem storedReference_some {s t : Option String} :
    storedReference s = some t ↔ (∀ x ∈ s, TextFits 240 x) ∧ s = t := by
  cases s with
  | none => simp [storedReference]
  | some s =>
    simp only [storedReference, Option.map_eq_some_iff, storedText_some, Option.mem_def,
      Option.some.injEq, forall_eq']
    constructor
    · intro h
      obtain ⟨x, ⟨hx, rfl⟩, rfl⟩ := h
      exact ⟨hx, rfl⟩
    · intro h
      exact ⟨s, ⟨h.1, rfl⟩, h.2⟩

theorem storedDecimal_some {d : Decimal} (h : Numeric d) :
    (∃ s, storedDecimal d = some s) ↔ size d < 10^26 := by
  rw [units_le h]
  unfold storedDecimal
  split_ifs with hb
  · exact iff_of_true ⟨_, rfl⟩ hb
  · exact iff_of_false (fun h => by obtain ⟨s, hs⟩ := h; cases hs) hb

theorem storedDecimal_value {d s : Decimal} (h : Numeric d) (hs : storedDecimal d = some s) :
    value s = value d := by
  have hexp : 0 ≤ d.exponent+(12 : ℕ) := by
    have := h.bounds
    omega
  have hunits := units_size hexp
  unfold storedDecimal at hs
  split_ifs at hs
  rw [← Option.some.inj hs]
  by_cases h0 : units 12 d = 0
  · have hd : value d = 0 := by
      rw [← abs_eq_zero, abs_value, hunits, h0]
      simp
    rw [hd, h0]
    unfold value size
    simp
  · have hn : (d.negative && decide (units 12 d ≠ 0)) = d.negative := by simp [h0]
    rw [hn]
    have hsize : size ⟨d.negative, units 12 d, -12⟩ = size d := by
      rw [hunits]
      rfl
    exact value_eq rfl hsize

theorem storeObservation_stores {id logical : Uuid} {row : CanonicalRow} {o : Observation}
    (h : storeObservation id logical row = some o) : Stores row o := by
  simp only [storeObservation, storeRow, Option.bind_eq_bind, Option.bind_eq_some_iff,
    Option.some.injEq] at h
  obtain ⟨key, hkey, _, ⟨ref, href, instrument, hi, q, hq, u, hu, g, hg, currency, hc, rfl⟩,
    rfl⟩ := h
  exact ⟨(storedText_eq hkey), storedReference_eq href, rfl, storedText_eq hi, rfl,
    storedText_eq hc, rfl, storedDecimal_value row.quantity_numeric hq,
    storedDecimal_value row.unitPrice_numeric hu, storedDecimal_value row.grossAmount_numeric hg⟩

/-- A row has an observation exactly when its texts are short enough and its
amounts below 10^26. -/
theorem storeObservation_some_iff (id logical : Uuid) (row : CanonicalRow) :
    (∃ o, storeObservation id logical row = some o) ↔
      TextFits 240 row.sourceRecordKey ∧ (∀ s ∈ row.businessReference, TextFits 240 s) ∧
      TextFits 120 row.instrument ∧ TextFits 12 row.currency ∧ size row.quantity < 10^26 ∧
      size row.unitPrice < 10^26 ∧ size row.grossAmount < 10^26 := by
  rw [← storedDecimal_some row.quantity_numeric, ← storedDecimal_some row.unitPrice_numeric,
    ← storedDecimal_some row.grossAmount_numeric]
  constructor
  · intro h
    obtain ⟨o, ho⟩ := h
    simp only [storeObservation, storeRow, Option.bind_eq_bind, Option.bind_eq_some_iff,
      Option.some.injEq] at ho
    obtain ⟨key, hkey, _, ⟨ref, href, instrument, hi, q, hq, u, hu, g, hg, currency, hc, rfl⟩,
      rfl⟩ := ho
    exact ⟨(storedText_some.mp hkey).1, (storedReference_some.mp href).1,
      (storedText_some.mp hi).1, (storedText_some.mp hc).1, ⟨q, hq⟩, ⟨u, hu⟩, ⟨g, hg⟩⟩
  · intro h
    obtain ⟨hkey, href, hi, hc, ⟨q, hq⟩, ⟨u, hu⟩, ⟨g, hg⟩⟩ := h
    simp only [storeObservation, storeRow, storedText_some.mpr ⟨hkey, rfl⟩,
      storedReference_some.mpr ⟨href, rfl⟩, storedText_some.mpr ⟨hi, rfl⟩,
      storedText_some.mpr ⟨hc, rfl⟩, hq, hu, hg, Option.bind_eq_bind, Option.bind_some]
    exact ⟨_, rfl⟩

theorem size_of_value {d d' : Decimal} (h : value d = value d') : size d = size d' := by
  rw [← abs_value, ← abs_value, h]

theorem readBack_texts {row back : CanonicalRow} (h : ReadBack row back) :
    back.sourceRecordKey = row.sourceRecordKey ∧ back.businessReference = row.businessReference ∧
      back.executedAtUtc = row.executedAtUtc ∧ back.instrument = row.instrument ∧
      back.side = row.side ∧ back.currency = row.currency ∧ back.state = row.state := by
  have hrest := h.rest
  exact ⟨by rw [hrest], by rw [hrest], by rw [hrest], by rw [hrest], by rw [hrest], by rw [hrest],
    by rw [hrest]⟩

theorem stores_back {row back : CanonicalRow} {o : Observation} (hback : ReadBack row back)
    (h : Stores back o) : Stores row o := by
  obtain ⟨hkey, href, htime, hinstrument, hside, hcurrency, hstate⟩ := readBack_texts hback
  exact ⟨h.sourceRecordKey.trans hkey, h.businessReference.trans href,
    h.executedAtUtc.trans htime, h.instrument.trans hinstrument, h.side.trans hside,
    h.currency.trans hcurrency, h.state.trans hstate, h.quantity.trans hback.quantity,
    h.unitPrice.trans hback.unitPrice, h.grossAmount.trans hback.grossAmount⟩

/-- An activated row is stored as it is exactly when it is storable. -/
theorem activated_stores_iff {i : InterpretedRow} {row : CanonicalRow}
    (hp : i.preview = (canonicalToPayload row).map .complete) (id logical : Uuid) :
    (∃ o, activatedObservation id logical i = some o ∧ Stores row o) ↔ Storable row := by
  constructor
  · intro h
    obtain ⟨o, ho, hstores⟩ := h
    unfold activatedObservation at ho
    cases hpayload : canonicalToPayload row with
    | none =>
      rw [hp, hpayload] at ho
      cases ho
    | some p =>
      rw [hp, hpayload] at ho
      obtain ⟨c, hc, hstore⟩ := Option.bind_eq_some_iff.mp ho
      have hcstores := storeObservation_stores hstore
      obtain ⟨q, u, g, hq, hu, hg, rfl⟩ := canonicalToPayload_some hpayload
      obtain ⟨q', u', g', hq', hu', hg', hfields⟩ := canonicalFromPayload_some hc
      have hback : ReadBack row c := by
        have hcq : c.quantity = q' := congrArg CanonicalFields.quantity hfields
        have hcu : c.unitPrice = u' := congrArg CanonicalFields.unitPrice hfields
        have hcg : c.grossAmount = g' := congrArg CanonicalFields.grossAmount hfields
        refine ⟨hcstores.quantity.symm.trans hstores.quantity,
          hcstores.unitPrice.symm.trans hstores.unitPrice,
          hcstores.grossAmount.symm.trans hstores.grossAmount, ?_⟩
        rw [hcq, hcu, hcg]
        exact hfields
      have hreturns : Returns row :=
        ⟨_, c, by rw [rowToPayload, hpayload, Option.map_some], by rw [rowFromPayload_texts, hc],
          hback⟩
      obtain ⟨hsq, hsu, hsg⟩ := significant_of_returns hreturns
      obtain ⟨hkey, href, hi, hcur, hbq, hbu, hbg⟩ :=
        (storeObservation_some_iff id logical c).mp ⟨o, hstore⟩
      have hckey := hcstores.sourceRecordKey.symm.trans hstores.sourceRecordKey
      have hcref := hcstores.businessReference.symm.trans hstores.businessReference
      have hci := hcstores.instrument.symm.trans hstores.instrument
      have hcc := hcstores.currency.symm.trans hstores.currency
      rw [size_of_value hback.quantity] at hbq
      rw [size_of_value hback.unitPrice] at hbu
      rw [size_of_value hback.grossAmount] at hbg
      exact ⟨hckey ▸ hkey, hcref ▸ href, hci ▸ hi, hcc ▸ hcur, ⟨hbq, hsq⟩, ⟨hbu, hsu⟩,
        ⟨hbg, hsg⟩⟩
  · intro h
    obtain ⟨p, back, hpayload, hback, hread⟩ :=
      canonical_returns h.quantity.2 h.unitPrice.2 h.grossAmount.2
    obtain ⟨hkey, href, _, hinstrument, _, hcurrency, _⟩ := readBack_texts hread
    obtain ⟨o, ho⟩ := (storeObservation_some_iff id logical back).mpr
      ⟨hkey ▸ h.sourceRecordKey, href ▸ h.businessReference, hinstrument ▸ h.instrument,
        hcurrency ▸ h.currency, size_of_value hread.quantity ▸ h.quantity.1,
        size_of_value hread.unitPrice ▸ h.unitPrice.1,
        size_of_value hread.grossAmount ▸ h.grossAmount.1⟩
    refine ⟨o, ?_, stores_back hread (storeObservation_stores ho)⟩
    rw [activatedObservation, hp, hpayload]
    simp only [Option.map_some, hback, Option.bind_eq_bind, Option.bind_some]
    exact ho

section Cells
variable (contract : SourceContract) (rowNumber : ℕ) (cells : List (String × RawCell))

def TextCell (field : CanonicalField) (maxLength : ℕ) : Prop :=
  ∀ h v, parseText contract rowNumber cells field h = .ok v → TextFits maxLength v.1

def AmountCell (field : CanonicalField) : Prop :=
  ∀ h v, parseDecimal contract rowNumber cells field h = .ok v → AmountFits v.1

structure CellsFit : Prop where
  sourceRecordKey : TextCell contract rowNumber cells .sourceRecordKey 240
  businessReference : ∀ v, parseReference contract rowNumber cells = .ok (some v) →
    TextFits 240 v.1
  instrument : TextCell contract rowNumber cells .instrument 120
  currency : TextCell contract rowNumber cells .currency 12
  quantity : AmountCell contract rowNumber cells .quantity
  unitPrice : AmountCell contract rowNumber cells .unitPrice
  grossAmount : AmountCell contract rowNumber cells .grossAmount

def Retracts : Prop :=
  ∃ origin, parseOperation rowNumber contract cells = .ok (.retract, origin)

end Cells

variable {reader : DatetimeReader} {contract : SourceContract} {rowNumber : ℕ}
  {cells : List (String × RawCell)}

theorem textCell_of_ok {field : CanonicalField} {h : field ≠ .businessReference} {n : ℕ}
    {v : String × FieldProvenance} (hv : parseText contract rowNumber cells field h = .ok v) :
    TextCell contract rowNumber cells field n ↔ TextFits n v.1 := by
  constructor
  · intro hcell
    exact hcell h v hv
  · intro hfits _ v' hv'
    rw [hv, Except.ok.injEq] at hv'
    rw [← hv']
    exact hfits

theorem amountCell_of_ok {field : CanonicalField} {h : field ≠ .businessReference}
    {v : Decimal × FieldProvenance} (hv : parseDecimal contract rowNumber cells field h = .ok v) :
    AmountCell contract rowNumber cells field ↔ AmountFits v.1 := by
  constructor
  · intro hcell
    exact hcell h v hv
  · intro hfits _ v' hv'
    rw [hv, Except.ok.injEq] at hv'
    rw [← hv']
    exact hfits

/-- A canonical row is storable exactly when the cells it was read from fit. -/
theorem storable_iff_cells {operation : IngestionOperation} {origin : List FieldProvenance}
    {key : String × FieldProvenance} {row : CanonicalRow}
    (hkey : parseText contract rowNumber cells .sourceRecordKey (by decide) = .ok key)
    (h : canonicalOf reader contract rowNumber cells operation origin key =
      .ok row.toCanonicalFields) :
    Storable row ↔ CellsFit contract rowNumber cells := by
  unfold canonicalOf at h
  simp only at h
  split at h
  case h_2 => cases h
  case h_1 instrument currency reference executedAt quantity unitPrice grossAmount side state
      hinstrument hcurrency hreference _ hquantity hunitPrice hgrossAmount _ _ =>
    have hfields := (Except.ok.inj h).symm
    have hk : row.sourceRecordKey = key.1 := by rw [hfields]
    have hr : row.businessReference = reference.map (·.1) := by rw [hfields]
    have hi : row.instrument = instrument.1 := by rw [hfields]
    have hc : row.currency = currency.1 := by rw [hfields]
    have hq : row.quantity = quantity.1 := by rw [hfields]
    have hu : row.unitPrice = unitPrice.1 := by rw [hfields]
    have hg : row.grossAmount = grossAmount.1 := by rw [hfields]
    constructor
    · intro hrow
      constructor
      · exact (textCell_of_ok hkey).mpr (hk ▸ hrow.sourceRecordKey)
      · intro v hv
        rw [hreference, Except.ok.injEq] at hv
        exact hrow.businessReference v.1 (by rw [hr, hv]; rfl)
      · exact (textCell_of_ok hinstrument).mpr (hi ▸ hrow.instrument)
      · exact (textCell_of_ok hcurrency).mpr (hc ▸ hrow.currency)
      · exact (amountCell_of_ok hquantity).mpr (hq ▸ hrow.quantity)
      · exact (amountCell_of_ok hunitPrice).mpr (hu ▸ hrow.unitPrice)
      · exact (amountCell_of_ok hgrossAmount).mpr (hg ▸ hrow.grossAmount)
    · intro hcells
      constructor
      · rw [hk]
        exact (textCell_of_ok hkey).mp hcells.sourceRecordKey
      · intro s hs
        rw [hr] at hs
        obtain ⟨v, hv, rfl⟩ := Option.map_eq_some_iff.mp hs
        exact hcells.businessReference v (by rw [hreference, hv])
      · rw [hi]
        exact (textCell_of_ok hinstrument).mp hcells.instrument
      · rw [hc]
        exact (textCell_of_ok hcurrency).mp hcells.currency
      · rw [hq]
        exact (amountCell_of_ok hquantity).mp hcells.quantity
      · rw [hu]
        exact (amountCell_of_ok hunitPrice).mp hcells.unitPrice
      · rw [hg]
        exact (amountCell_of_ok hgrossAmount).mp hcells.grossAmount

theorem issueOf_nil {α : Type} {x : Except RowIssue α} (h : issueOf x = []) :
    ∃ a, x = .ok a := by
  cases x with
  | ok a => exact ⟨a, rfl⟩
  | error e => cases h

theorem canonicalOf_error {operation : IngestionOperation} {origin : List FieldProvenance}
    {key : String × FieldProvenance} {issues : List RowIssue}
    (h : canonicalOf reader contract rowNumber cells operation origin key = .error issues) :
    issues ≠ [] := by
  intro hempty
  subst hempty
  unfold canonicalOf at h
  simp only at h
  split at h
  · cases h
  · rename_i hnot
    simp only [Except.error.injEq, List.append_eq_nil_iff] at h
    obtain ⟨⟨⟨⟨⟨⟨⟨⟨hi, hc⟩, hr⟩, he⟩, hq⟩, hu⟩, hg⟩, hs⟩, ht⟩ := h
    obtain ⟨i, hi⟩ := issueOf_nil hi
    obtain ⟨c, hc⟩ := issueOf_nil hc
    obtain ⟨r, hr⟩ := issueOf_nil hr
    obtain ⟨e, he⟩ := issueOf_nil he
    obtain ⟨q, hq⟩ := issueOf_nil hq
    obtain ⟨u, hu⟩ := issueOf_nil hu
    obtain ⟨g, hg⟩ := issueOf_nil hg
    obtain ⟨s, hs⟩ := issueOf_nil hs
    obtain ⟨t, ht⟩ := issueOf_nil ht
    exact hnot i c r e q u g s t hi hc hr he hq hu hg hs ht

/-- A row without issues is a retraction or has a canonical row. -/
theorem interpretRow_clean {header values : List String} {i : InterpretedRow}
    (hcells : cells = rawValues header values contract.nullTokens)
    (h : interpretRow reader contract header false rowNumber values = .ok i)
    (hclean : i.issues = []) :
    (Retracts contract rowNumber cells ∧ i.canonical = none) ∨
      ¬ Retracts contract rowNumber cells ∧ ∃ operation origin key row,
        parseText contract rowNumber cells .sourceRecordKey (by decide) = .ok key ∧
        canonicalOf reader contract rowNumber cells operation origin key =
          .ok row.toCanonicalFields ∧ i.canonical = some row := by
  unfold interpretRow at h
  rw [if_neg (by decide)] at h
  simp only [← hcells] at h
  split at h
  · rename_i origin key _ hoperation hkey
    rw [← Except.ok.inj h]
    exact .inl ⟨⟨origin, hoperation⟩, rfl⟩
  · rename_i operation origin key hnot _ hoperation hkey
    split at h
    · rename_i fields hfields
      obtain ⟨row, hrow, hi⟩ := bind_ok.mp h
      rw [← Except.ok.inj hi]
      refine .inr ⟨?_, operation, origin, key, row, hkey, ?_, rfl⟩
      · intro hr
        obtain ⟨origin', hr⟩ := hr
        rw [hoperation, Except.ok.injEq, Prod.mk.injEq] at hr
        exact hnot hr.1
      · rw [hfields, create_row hrow]
    · rename_i issues herror
      rw [← Except.ok.inj h] at hclean
      exact absurd hclean (canonicalOf_error herror)
  · rename_i hretract hcanonical
    rw [← Except.ok.inj h] at hclean
    have hearly := (List.append_eq_nil_iff.mp hclean).1
    obtain ⟨hfirst, hk⟩ := List.append_eq_nil_iff.mp hearly
    obtain ⟨_, ho⟩ := List.append_eq_nil_iff.mp hfirst
    obtain ⟨⟨operation, origin⟩, hoperation⟩ := issueOf_nil ho
    obtain ⟨key, hkey⟩ := issueOf_nil hk
    exact absurd hkey (hcanonical operation origin key hearly hoperation)

/-- Every row of a preview is stored as its file has it. -/
def StoresAll (p : InterpretedPreview) (id logical : Uuid) : Prop :=
  ∀ i ∈ p.rows, ∀ row, i.canonical = some row →
    ∃ o, activatedObservation id logical i = some o ∧ Stores row o

theorem ready_rows {header : List String} {lines : List (List String)} {p : InterpretedPreview}
    (hp : interpretCsv reader contract header lines = .ok p) (hready : p.errorCount = 0) :
    lines.zipIdx.mapM (fun line => interpretRow reader contract header false (line.2+2) line.1) =
      .ok p.rows ∧ ∀ i ∈ p.rows, i.issues = [] := by
  obtain ⟨rows, hrows, hp⟩ := bind_ok.mp hp
  have hp := Except.ok.inj hp
  rw [← hp] at hready
  obtain ⟨hheader, hissues⟩ := Nat.add_eq_zero_iff.mp hready
  have hheader : headerIssues header contract = [] := List.length_eq_zero_iff.mp hheader
  have hclean : ∀ i ∈ markDuplicateSourceKeys rows, i.issues = [] := by
    intro i hi
    have := List.sum_eq_zero_iff.mp hissues i.issues.length (List.mem_map.mpr ⟨i, hi, rfl⟩)
    exact List.length_eq_zero_iff.mp this
  have hsame : markDuplicateSourceKeys rows = rows := by
    unfold markDuplicateSourceKeys at hclean ⊢
    conv_rhs => rw [← List.map_id rows]
    apply List.map_congr_left
    intro i hi
    have hi := hclean _ (List.mem_map.mpr ⟨i, hi, rfl⟩)
    revert hi
    split
    · split_ifs
      · intro hi
        simp at hi
      · exact fun _ => rfl
    · exact fun _ => rfl
  rw [hsame] at hp hclean
  rw [← hp]
  refine ⟨?_, hclean⟩
  rw [hheader] at hrows
  exact hrows

/-- The cells of the lines that retract nothing fit the columns. -/
def LinesFit (contract : SourceContract) (header : List String) (lines : List (List String)) :
    Prop :=
  ∀ line ∈ lines.zipIdx,
    Retracts contract (line.2+2) (rawValues header line.1 contract.nullTokens) ∨
      CellsFit contract (line.2+2) (rawValues header line.1 contract.nullTokens)

/-- A ready preview is stored without failure or rounding exactly when the
cells of its file fit the columns. -/
theorem preview_stored_iff {header : List String} {lines : List (List String)}
    {p : InterpretedPreview} (hp : interpretCsv reader contract header lines = .ok p)
    (hready : p.errorCount = 0) (id logical : Uuid) :
    StoresAll p id logical ↔ LinesFit contract header lines := by
  obtain ⟨hrows, hclean⟩ := ready_rows hp hready
  constructor
  · intro h line hline
    obtain ⟨i, hi, hrow⟩ := mapM_mem hrows hline
    rcases interpretRow_clean rfl hrow (hclean i hi) with hretract | hcanonical
    · exact .inl hretract.1
    · obtain ⟨_, operation, origin, key, row, hkey, hfields, hcanonical⟩ := hcanonical
      have hstored := h i hi row hcanonical
      rw [activated_stores_iff (interpretCsv_preview hp hi hcanonical)] at hstored
      exact .inr ((storable_iff_cells hkey hfields).mp hstored)
  · intro h i hi row hcanonical
    rw [activated_stores_iff (interpretCsv_preview hp hi hcanonical)]
    obtain ⟨line, hline, hrow⟩ := mapM_mem_right hrows hi
    rcases interpretRow_clean rfl hrow (hclean i hi) with hretract | hcells
    · rw [hretract.2] at hcanonical
      cases hcanonical
    · obtain ⟨hnot, operation, origin, key, row', hkey, hfields, hrow'⟩ := hcells
      rw [hcanonical, Option.some.injEq] at hrow'
      subst hrow'
      exact (storable_iff_cells hkey hfields).mpr ((h line hline).resolve_left hnot)

theorem preview_stored_sample : ∃ p,
    interpretCsv sampleReader sampleContract ["quantity"] [["1"]] = .ok p ∧
      (StoresAll p sampleId sampleId ↔ LinesFit sampleContract ["quantity"] [["1"]]) := by
  obtain ⟨p, i, o, hp, ⟨hready, _⟩, _⟩ := activated_row_acceptable_sample
  exact ⟨p, hp, preview_stored_iff hp hready sampleId sampleId⟩

def widePreview : Option (InterpretedPreview × InterpretedRow × CanonicalRow) := do
  let p ← (interpretCsv sampleReader sampleContract ["quantity"]
    [["100000000000000000000000000"]]).toOption
  let i ← p.rows.head?
  let row ← i.canonical
  some (p, i, row)

/-- 10^26 has 27 digits, as an amount of a ready row may have, and the column
does not hold it. -/
theorem wide_amount_not_stored : ∃ p i row,
    interpretCsv sampleReader sampleContract ["quantity"] [["100000000000000000000000000"]] =
        .ok p ∧
      p.errorCount = 0 ∧ i ∈ p.rows ∧ i.canonical = some row ∧
      activatedObservation sampleId sampleId i = none := by
  have hs : (widePreview.map fun t => decide (t.1.errorCount = 0 ∧
      (activatedObservation sampleId sampleId t.2.1).isNone)) = some true := by decide +kernel
  obtain ⟨⟨p, i, row⟩, ht, hr⟩ := Option.map_eq_some_iff.mp hs
  obtain ⟨hready, hnone⟩ := of_decide_eq_true hr
  simp only [widePreview, Option.bind_eq_bind, Option.bind_eq_some_iff, Option.some.injEq,
    Prod.mk.injEq] at ht
  obtain ⟨p', hp, i', hi, row', hrow, rfl, rfl, rfl⟩ := ht
  refine ⟨p', i', row', ?_, hready, List.mem_of_head? hi, hrow, Option.isNone_iff_eq_none.mp hnone⟩
  cases hcsv : interpretCsv sampleReader sampleContract ["quantity"]
      [["100000000000000000000000000"]] with
  | error e =>
    rw [hcsv] at hp
    cases hp
  | ok x =>
    rw [hcsv] at hp
    rw [Option.some.inj hp]

end Workbench.Columns
