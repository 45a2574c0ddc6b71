import Workbench.CsvReader
import Workbench.DecimalStrings
import Workbench.ExactDecimals
import Workbench.JsonMembers
import Workbench.Observations

/-!
# Case exports

A case export shows the amounts of the observations of its cases as decimal
strings, once as JSON and once as CSV, where a cell that a spreadsheet could
take for a formula gets a prefix.
-/

set_option autoImplicit false

namespace Workbench.CaseExports
open Workbench.Listing Workbench.Decimals Workbench.DecimalTexts Workbench.ExactDecimals
open Workbench.DecimalStrings Workbench.Calendar Workbench.Records Workbench.Ingestion
open Workbench.Observations Workbench.Decisions Workbench.Json Workbench.JsonMembers
open Workbench.CsvReader (writeTable readTable readTable_writeTable)

/-- A value read from a `NUMERIC(38, 12)` column. -/
def Column (d : Decimal) : Prop :=
  d.exponent = -12 ∧ d.coefficient < 10^38 ∧ (d.coefficient = 0 → d.negative = false)

theorem Column.constructible {d : Decimal} (h : Column d) : Constructible d := by
  obtain ⟨he, hc, -⟩ := h
  have hdigits := digits_le (by norm_num) hc
  unfold Constructible adjusted maxEmax minEtiny
  omega

/-- An observation as the database returns it. -/
structure StoredObservation extends Observation where
  quantity_column : Column quantity
  unitPrice_column : Column unitPrice
  grossAmount_column : Column grossAmount

inductive OccurrenceResult where
  | pair (left right : StoredObservation) (origin : String)
  | unpaired (side : RecordSide) (observation : StoredObservation)
  | ambiguity

structure Occurrence where
  caseId : Uuid
  caseKind : String
  runId : Uuid
  runFreshness : String
  runCreatedAt : Instant
  resultKind : String
  result : OccurrenceResult

structure Projection where
  currentOccurrence : Occurrence
  reviewHealth : Option String
  attention : List String
  updatedAt : Instant

structure CaseExportRow where
  exportView : String
  runId : String
  runFreshness : String
  runCreatedAtUtc : String
  caseId : String
  caseKind : String
  resultKind : String
  leftReference : String
  leftExecutedAtUtc : String
  leftQuantity : String
  leftUnitPrice : String
  leftGrossAmount : String
  leftCurrency : String
  rightReference : String
  rightExecutedAtUtc : String
  rightQuantity : String
  rightUnitPrice : String
  rightGrossAmount : String
  rightCurrency : String
  pairOrigin : String
  reviewHealth : String
  reviewAttention : String
  reviewStateAsOfUtc : String

def CaseExportRow.asdict (row : CaseExportRow) : List (String × String) :=
  [("export_view", row.exportView), ("run_id", row.runId), ("run_freshness", row.runFreshness),
    ("run_created_at_utc", row.runCreatedAtUtc), ("case_id", row.caseId),
    ("case_kind", row.caseKind), ("result_kind", row.resultKind),
    ("left_reference", row.leftReference), ("left_executed_at_utc", row.leftExecutedAtUtc),
    ("left_quantity", row.leftQuantity), ("left_unit_price", row.leftUnitPrice),
    ("left_gross_amount", row.leftGrossAmount), ("left_currency", row.leftCurrency),
    ("right_reference", row.rightReference), ("right_executed_at_utc", row.rightExecutedAtUtc),
    ("right_quantity", row.rightQuantity), ("right_unit_price", row.rightUnitPrice),
    ("right_gross_amount", row.rightGrossAmount), ("right_currency", row.rightCurrency),
    ("pair_origin", row.pairOrigin), ("review_health", row.reviewHealth),
    ("review_attention", row.reviewAttention),
    ("review_state_as_of_utc", row.reviewStateAsOfUtc)]

def exportFields : List String :=
  ["export_view", "run_id", "run_freshness", "run_created_at_utc", "case_id", "case_kind",
    "result_kind", "left_reference", "left_executed_at_utc", "left_quantity", "left_unit_price",
    "left_gross_amount", "left_currency", "right_reference", "right_executed_at_utc",
    "right_quantity", "right_unit_price", "right_gross_amount", "right_currency", "pair_origin",
    "review_health", "review_attention", "review_state_as_of_utc"]

structure ObservationValues where
  reference : String
  executedAtUtc : String
  quantity : String
  unitPrice : String
  grossAmount : String
  currency : String

def observationValues : Option StoredObservation → ObservationValues
  | none => ⟨"", "", "", "", "", ""⟩
  | some o => ⟨o.sourceRecordKey, isoformat o.executedAtUtc, text o.quantity, text o.unitPrice,
      text o.grossAmount, o.currency⟩

def OccurrenceResult.left : OccurrenceResult → Option StoredObservation
  | .pair left _ _ => some left
  | .unpaired .left observation => some observation
  | _ => none

def OccurrenceResult.right : OccurrenceResult → Option StoredObservation
  | .pair _ right _ => some right
  | .unpaired .right observation => some observation
  | _ => none

def OccurrenceResult.pairOrigin : OccurrenceResult → String
  | .pair _ _ origin => origin
  | _ => ""

def caseRow (occurrence : Occurrence) (exportView reviewHealth reviewAttention : String)
    (reviewStateAsOf : Option Instant) : CaseExportRow :=
  let left := observationValues occurrence.result.left
  let right := observationValues occurrence.result.right
  { exportView := exportView
    runId := occurrence.runId.text
    runFreshness := occurrence.runFreshness
    runCreatedAtUtc := isoformat occurrence.runCreatedAt
    caseId := occurrence.caseId.text
    caseKind := occurrence.caseKind
    resultKind := occurrence.resultKind
    leftReference := left.reference
    leftExecutedAtUtc := left.executedAtUtc
    leftQuantity := left.quantity
    leftUnitPrice := left.unitPrice
    leftGrossAmount := left.grossAmount
    leftCurrency := left.currency
    rightReference := right.reference
    rightExecutedAtUtc := right.executedAtUtc
    rightQuantity := right.quantity
    rightUnitPrice := right.unitPrice
    rightGrossAmount := right.grossAmount
    rightCurrency := right.currency
    pairOrigin := occurrence.result.pairOrigin
    reviewHealth := reviewHealth
    reviewAttention := reviewAttention
    reviewStateAsOfUtc := (reviewStateAsOf.map isoformat).getD "" }

structure CaseExportDocument where
  view : String
  timezone : String
  decimalEncoding : String
  runId : String
  rows : List CaseExportRow

/-- What a view of a scope selects: the projections under its current run, or the occurrences
of one completed run. -/
inductive Selection where
  | currentReview (currentRun : Option Uuid) (projections : List Projection)
  | runFacts (run : Uuid) (occurrences : List Occurrence)

def Selection.occurrences : Selection → List Occurrence
  | .currentReview _ projections => projections.map (·.currentOccurrence)
  | .runFacts _ occurrences => occurrences

def document (view runId : String) (rows : List CaseExportRow) : CaseExportDocument :=
  ⟨view, "UTC (+00:00)", "canonical decimal strings", runId, rows⟩

/-- `item.review_health or "UNREVIEWED"`. -/
def shownHealth : Option String → String
  | none => "UNREVIEWED"
  | some health => if health = "" then "UNREVIEWED" else health

/-- The current view is unavailable while the scope has no current run. -/
def build : Selection → Option CaseExportDocument
  | .currentReview none _ => none
  | .currentReview (some run) projections =>
    some (document "current_review" run.text (projections.map fun item =>
      caseRow item.currentOccurrence "current_review" (shownHealth item.reviewHealth)
        (", ".intercalate item.attention) (some item.updatedAt)))
  | .runFacts run occurrences =>
    some (document "run_facts" run.text (occurrences.map fun item =>
      caseRow item "run_facts" "" "" none))

def CaseExportDocument.jsonPayload (d : CaseExportDocument) : Value :=
  .object [("view", .text d.view), ("timezone", .text d.timezone),
    ("decimal_encoding", .text d.decimalEncoding), ("run_id", .text d.runId),
    ("total", .number d.rows.length),
    ("rows", .array (d.rows.map fun row => .object (row.asdict.map fun f => (f.1, .text f.2))))]

def formulaSafeCsvCell (s : String) : String :=
  if s.toList.head? ∈ ['=', '+', '-', '@', '\t', '\r'].map some then "'" ++ s else s

/-- The row of a `DictWriter`. -/
def dictRow (fieldnames : List String) (cells : List (String × String)) : List String :=
  fieldnames.map fun key => ((lookup Prod.fst cells key).map Prod.snd).getD ""

def CaseExportDocument.csvText (d : CaseExportDocument) : String :=
  writeTable ',' (exportFields :: d.rows.map fun row =>
    dictRow exportFields (row.asdict.map fun f => (f.1, formulaSafeCsvCell f.2)))

inductive Amount where
  | quantity
  | unitPrice
  | grossAmount

def Amount.value : Amount → StoredObservation → Decimal
  | .quantity, o => o.quantity
  | .unitPrice, o => o.unitPrice
  | .grossAmount, o => o.grossAmount

def column : RecordSide → Amount → String
  | .left, .quantity => "left_quantity"
  | .left, .unitPrice => "left_unit_price"
  | .left, .grossAmount => "left_gross_amount"
  | .right, .quantity => "right_quantity"
  | .right, .unitPrice => "right_unit_price"
  | .right, .grossAmount => "right_gross_amount"

def OccurrenceResult.observation (result : OccurrenceResult) : RecordSide → Option StoredObservation
  | .left => result.left
  | .right => result.right

def jsonCell (payload : Value) (i : ℕ) (key : String) : Option Value := do
  let rows ← (item payload "rows").toOption
  let rows ← (elements rows).toOption
  let row ← rows[i]?
  (item row key).toOption

/-- The cell under a name of the header line. -/
def csvCell (csv : String) (i : ℕ) (key : String) : Option String :=
  match readTable ',' csv with
  | header :: rows => do
    let row ← rows[i]?
    row[header.idxOf key]?
  | [] => none

section Cells

def cellOf (row : CaseExportRow) (key : String) : String :=
  ((lookup Prod.fst row.asdict key).map Prod.snd).getD ""

theorem asdict_keys (row : CaseExportRow) : row.asdict.map Prod.fst = exportFields := rfl

theorem asdict_cell (row : CaseExportRow) {key : String} (hk : key ∈ exportFields) :
    lookup Prod.fst row.asdict key = some (key, cellOf row key) := by
  rw [← asdict_keys row] at hk
  obtain ⟨f, hf, rfl⟩ := List.mem_map.mp hk
  have hd : (row.asdict.map Prod.fst).Nodup := by
    rw [asdict_keys]
    decide
  have hfound := lookup_mem hd hf
  rw [hfound, cellOf, hfound]
  rfl

theorem lookup_map_snd {α : Type} (cells : List (String × α)) {β : Type} (f : α → β) (key : String) :
    (lookup Prod.fst (cells.map fun c => (c.1, f c.2)) key) =
      (lookup Prod.fst cells key).map fun c => (c.1, f c.2) := by
  unfold lookup
  rw [List.find?_map]
  rfl

theorem jsonRows (d : CaseExportDocument) : item d.jsonPayload "rows" = .ok (.array
    (d.rows.map fun row => .object (row.asdict.map fun f => (f.1, .text f.2)))) := by
  have hkeys : (["view", "timezone", "decimal_encoding", "run_id", "total", "rows"] :
      List String).Nodup := by decide
  obtain ⟨fields, hfields⟩ : ∃ fields, d.jsonPayload = .object fields := ⟨_, rfl⟩
  have hd : fields.map Prod.fst =
      ["view", "timezone", "decimal_encoding", "run_id", "total", "rows"] := by
    cases hfields
    rfl
  have hrows : fields[5]? = some ("rows", .array
      (d.rows.map fun row => .object (row.asdict.map fun f => (f.1, .text f.2)))) := by
    cases hfields
    rfl
  rw [hfields, item, found_at (hd ▸ hkeys) hrows, orFail_some]

theorem jsonCell_row {d : CaseExportDocument} {i : ℕ} {row : CaseExportRow}
    (hrow : d.rows[i]? = some row) {key : String} (hk : key ∈ exportFields) :
    jsonCell d.jsonPayload i key = some (.text (cellOf row key)) := by
  have hcell : item (.object (row.asdict.map fun f => (f.1, .text f.2))) key =
      .ok (.text (cellOf row key)) := by
    rw [item, found, lookup_map_snd row.asdict Value.text, asdict_cell row hk, Option.map_some,
      Option.map_some, orFail_some]
  have hget : (d.rows.map fun row => Value.object (row.asdict.map fun f => (f.1, .text f.2)))[i]? =
      some (.object (row.asdict.map fun f => (f.1, .text f.2))) := by
    rw [List.getElem?_map, hrow, Option.map_some]
  simp only [jsonCell, jsonRows, elements, Except.toOption, Option.bind_eq_bind, Option.bind_some,
    hget, hcell]

theorem dictRow_cell {fieldnames : List String} {cells : List (String × String)}
    {key cell : String} (hk : key ∈ fieldnames)
    (h : (lookup Prod.fst cells key).map Prod.snd = some cell) :
    (dictRow fieldnames cells)[fieldnames.idxOf key]? = some cell := by
  rw [dictRow, List.getElem?_map, List.getElem?_idxOf hk, Option.map_some, h, Option.getD_some]

theorem csvCell_at {csv : String} {header row : List String} {rows : List (List String)} {i : ℕ}
    {key cell : String} (htext : readTable ',' csv = header::rows) (hrow : rows[i]? = some row)
    (hcell : row[header.idxOf key]? = some cell) : csvCell csv i key = some cell := by
  rw [csvCell, htext]
  simp only [hrow, Option.bind_eq_bind, Option.bind_some, hcell]

theorem csvCell_row {d : CaseExportDocument} {i : ℕ} {row : CaseExportRow}
    (hrow : d.rows[i]? = some row) {key : String} (hk : key ∈ exportFields) :
    csvCell d.csvText i key = some (formulaSafeCsvCell (cellOf row key)) := by
  have htext := @readTable_writeTable ',' (by decide) (by decide)
    (exportFields :: d.rows.map fun row =>
      dictRow exportFields (row.asdict.map fun f => (f.1, formulaSafeCsvCell f.2)))
  have hcell : (dictRow exportFields (row.asdict.map fun f =>
      (f.1, formulaSafeCsvCell f.2)))[exportFields.idxOf key]? =
        some (formulaSafeCsvCell (cellOf row key)) := by
    refine dictRow_cell hk ?_
    rw [lookup_map_snd row.asdict formulaSafeCsvCell, asdict_cell row hk, Option.map_some,
      Option.map_some]
  refine csvCell_at htext ?_ hcell
  rw [List.getElem?_map, hrow, Option.map_some]

theorem build_row {selection : Selection} {d : CaseExportDocument} (h : build selection = some d)
    {i : ℕ} (hi : i < d.rows.length) :
    ∃ occurrence row, selection.occurrences[i]? = some occurrence ∧ d.rows[i]? = some row ∧
      ∃ view health attention stateAsOf, row = caseRow occurrence view health attention stateAsOf := by
  cases selection with
  | currentReview currentRun projections =>
    cases currentRun with
    | none => cases h
    | some run =>
      cases h
      have hlt : i < projections.length := by simpa [document] using hi
      have hget := List.getElem?_eq_getElem hlt
      exact ⟨_, _, by rw [Selection.occurrences, List.getElem?_map, hget, Option.map_some],
        by rw [document, List.getElem?_map, hget, Option.map_some], _, _, _, _, rfl⟩
  | runFacts run occurrences =>
    cases h
    have hlt : i < occurrences.length := by simpa [document] using hi
    have hget := List.getElem?_eq_getElem hlt
    exact ⟨_, _, hget, by rw [document, List.getElem?_map, hget, Option.map_some], _, _, _, _, rfl⟩

theorem observationValues_amounts (o : Option StoredObservation) :
    (observationValues o).quantity = (o.map fun o => text o.quantity).getD "" ∧
    (observationValues o).unitPrice = (o.map fun o => text o.unitPrice).getD "" ∧
    (observationValues o).grossAmount = (o.map fun o => text o.grossAmount).getD "" := by
  cases o <;> exact ⟨rfl, rfl, rfl⟩

theorem caseRow_cell (occurrence : Occurrence) (view health attention : String)
    (stateAsOf : Option Instant) (side : RecordSide) (amount : Amount) :
    cellOf (caseRow occurrence view health attention stateAsOf) (column side amount) =
      ((occurrence.result.observation side).map fun o => text (amount.value o)).getD "" := by
  obtain ⟨hlq, hlu, hlg⟩ := observationValues_amounts occurrence.result.left
  obtain ⟨hrq, hru, hrg⟩ := observationValues_amounts occurrence.result.right
  cases side with
  | left =>
    cases amount with
    | quantity => exact hlq
    | unitPrice => exact hlu
    | grossAmount => exact hlg
  | right =>
    cases amount with
    | quantity => exact hrq
    | unitPrice => exact hru
    | grossAmount => exact hrg

theorem column_exported (side : RecordSide) (amount : Amount) : column side amount ∈ exportFields := by
  cases side <;> cases amount <;> decide

end Cells

/-- An optional sign, digits, a point and this many digits. -/
def Positional (decimals : ℕ) (s : String) : Prop :=
  ∃ (negative : Bool) (whole fraction : List Char),
    s.toList = (if negative then ['-'] else []) ++ whole ++ '.' :: fraction ∧ whole ≠ [] ∧
      (∀ c ∈ whole ++ fraction, c.isDigit = true) ∧ fraction.length = decimals

theorem placed_decimals {cs : List Char} (h : ∀ c ∈ cs, c.isDigit = true) {decimals : ℕ}
    (hpos : 0 < decimals) :
    ∃ whole fraction, placed cs (-decimals+cs.length) = whole ++ '.' :: fraction ∧ whole ≠ [] ∧
      (∀ c ∈ whole ++ fraction, c.isDigit = true) ∧ fraction.length = decimals := by
  by_cases hsmall : (-decimals+cs.length : ℤ) ≤ 0
  · have hzeros : (-(-decimals+cs.length : ℤ)).toNat = decimals-cs.length := by omega
    refine ⟨['0'], List.replicate (decimals-cs.length) '0' ++ cs, ?_, List.cons_ne_nil _ _, ?_, ?_⟩
    · rw [placed, if_pos hsmall, hzeros, List.append_assoc]
      rfl
    · intro c hc
      simp only [List.mem_append, List.mem_cons, List.not_mem_nil, or_false] at hc
      rcases hc with rfl | hz | hc
      · decide
      · exact zeros_digits _ c hz
      · exact h c hc
    · rw [List.length_append, List.length_replicate]
      omega
  · have hwhole : ¬(cs.length : ℤ) ≤ -decimals+cs.length := by omega
    have hpoint : (-decimals+cs.length : ℤ).toNat = cs.length-decimals := by omega
    refine ⟨cs.take (cs.length-decimals), cs.drop (cs.length-decimals), ?_, ?_, ?_, ?_⟩
    · rw [placed, if_neg hsmall, if_neg hwhole, hpoint]
    · rw [← List.length_pos_iff, List.length_take]
      omega
    · rw [List.take_append_drop]
      exact h
    · rw [List.length_drop]
      omega

theorem text_positional {d : Decimal} (hc : Column d) (hlarge : 10^6 ≤ d.coefficient) :
    Positional 12 (text d) := by
  have hlength : 6 < (Nat.toDigits 10 d.coefficient).length := by
    by_contra hle
    have hlt := (Nat.length_toDigits_le_iff (by decide) (by decide)).mp (Nat.le_of_not_lt hle)
    omega
  have hplain : d.exponent ≤ 0 ∧ -6 < d.exponent+(Nat.toDigits 10 d.coefficient).length := by
    rw [hc.1]
    omega
  obtain ⟨whole, fraction, hplaced, hparts⟩ :=
    placed_decimals (toDigits_digits d.coefficient) (show 0 < 12 by decide)
  refine ⟨d.negative, whole, fraction, ?_, hparts⟩
  have hexponent : d.exponent = -((12 : ℕ) : ℤ) := hc.1
  rw [text, if_pos hplain, String.toList_ofList, hexponent, hplaced, sign, List.append_assoc]

example : text ⟨false, 0, -12⟩ = "0E-12" := by decide +kernel

theorem column_large {d : Decimal} (hc : Column d) (h : 1/1000000 ≤ |value d|) :
    10^6 ≤ d.coefficient := by
  rw [abs_value, size, hc.1] at h
  have hunits : ((10^6 : ℕ) : ℚ) ≤ d.coefficient := by
    rw [zpow_neg, ← div_eq_mul_inv, div_le_div_iff₀ (by norm_num) (by positivity), one_mul] at h
    rw [Nat.cast_pow, Nat.cast_ofNat]
    have hplace : (10 : ℚ)^(12 : ℤ) = 10^6*1000000 := by norm_num
    rw [hplace] at h
    exact le_of_mul_le_mul_right h (by norm_num)
  exact Nat.cast_le.mp hunits

/-- The positional decimal string of a value without zeros at its end. -/
def canonicalText (d : Decimal) : String := fixedText (reduced d)

/-- Every numeric cell is that of an occurrence at the row's place: empty where the occurrence
has no observation on its side, else the decimal string of the stored value with its twelve
decimals, the same in both formats but for the prefix. -/
theorem numeric_cells {selection : Selection} {d : CaseExportDocument}
    (h : build selection = some d) {i : ℕ} (hi : i < d.rows.length) (side : RecordSide)
    (amount : Amount) :
    ∃ occurrence cell, selection.occurrences[i]? = some occurrence ∧
      jsonCell d.jsonPayload i (column side amount) = some (.text cell) ∧
      csvCell d.csvText i (column side amount) = some (formulaSafeCsvCell cell) ∧
      match occurrence.result.observation side with
      | none => cell = ""
      | some o => (∃ h, readDecimal cell = some (.finite (amount.value o) h)) ∧
        (1/1000000 ≤ |value (amount.value o)| → Positional 12 cell) := by
  obtain ⟨occurrence, row, hoccurrence, hrow, view, health, attention, stateAsOf, rfl⟩ :=
    build_row h hi
  have hcell := caseRow_cell occurrence view health attention stateAsOf side amount
  refine ⟨occurrence, _, hoccurrence, jsonCell_row hrow (column_exported side amount),
    csvCell_row hrow (column_exported side amount), ?_⟩
  rw [hcell]
  cases occurrence.result.observation side with
  | none => rfl
  | some o =>
    have hcolumn : Column (amount.value o) := by
      cases amount with
      | quantity => exact o.quantity_column
      | unitPrice => exact o.unitPrice_column
      | grossAmount => exact o.grossAmount_column
    exact ⟨⟨_, readDecimal_text hcolumn.constructible⟩,
      fun hlarge => text_positional hcolumn (column_large hcolumn hlarge)⟩

def storedUnits (units : ℕ) : Decimal := ⟨false, units, -12⟩

theorem storedUnits_column {units : ℕ} (h : units < 10^38) : Column (storedUnits units) :=
  ⟨rfl, h, fun _ => rfl⟩

def tradeSeen : Observation where
  businessReference := some "TX-1"
  executedAtUtc := noon
  instrument := "BTC-USD"
  side := .buy
  quantity := storedUnits 500000000000
  unitPrice := storedUnits 62000000000000000
  grossAmount := storedUnits 31000000000000000
  currency := "USD"
  state := .settled
  id := sampleId
  logicalTransaction := sampleId
  sourceRecordKey := "TX-1"

theorem tradeSeen_quantity : Column tradeSeen.quantity := storedUnits_column (by decide)

theorem tradeSeen_unitPrice : Column tradeSeen.unitPrice := storedUnits_column (by decide)

theorem tradeSeen_grossAmount : Column tradeSeen.grossAmount := storedUnits_column (by decide)

def tradeStored : StoredObservation :=
  ⟨tradeSeen, tradeSeen_quantity, tradeSeen_unitPrice, tradeSeen_grossAmount⟩

def tradeCase : Occurrence where
  caseId := sampleId
  caseKind := "PAIR"
  runId := sampleId
  runFreshness := "FRESH"
  runCreatedAt := noon
  resultKind := "PAIR"
  result := .pair tradeStored tradeStored "ASSIGNMENT"

theorem numeric_cells_sample : ∃ d occurrence cell,
    build (.runFacts sampleId [tradeCase]) = some d ∧ [tradeCase][0]? = some occurrence ∧
      jsonCell d.jsonPayload 0 (column .left .quantity) = some (.text cell) ∧
      csvCell d.csvText 0 (column .left .quantity) = some (formulaSafeCsvCell cell) := by
  obtain ⟨occurrence, cell, hoccurrence, hjson, hcsv, -⟩ :=
    numeric_cells (show build (.runFacts sampleId [tradeCase]) = some _ from rfl) Nat.zero_lt_one .left
      .quantity
  exact ⟨_, occurrence, cell, rfl, hoccurrence, hjson, hcsv⟩

/-- The cell of a half is 0.500000000000 and not 0.5. -/
theorem scale_kept : ¬∀ (selection : Selection) (d : CaseExportDocument) (i : ℕ)
    (side : RecordSide) (amount : Amount) (occurrence : Occurrence) (o : StoredObservation),
    build selection = some d → selection.occurrences[i]? = some occurrence →
      occurrence.result.observation side = some o →
        jsonCell d.jsonPayload i (column side amount) =
          some (.text (canonicalText (amount.value o))) := by
  intro h
  have hcell := h (.runFacts sampleId [tradeCase]) _ 0 .left .quantity tradeCase tradeStored rfl rfl
    rfl
  rw [jsonCell_row rfl (column_exported _ _), caseRow_cell] at hcell
  have htext := Value.text.inj (Option.some.inj hcell)
  exact absurd htext (by decide +kernel)

end Workbench.CaseExports
