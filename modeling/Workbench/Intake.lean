import Workbench.CsvReader
import Workbench.Tables

/-!
# Reading an uploaded file

An upload is scanned within structural limits before it is kept. When the file
is read again for a preview it is scanned again and then read whole, and what is
read is what the scan saw.
-/

set_option autoImplicit false

namespace Workbench.Intake
open Workbench.Tables Workbench.CsvReader
open Workbench.Raising (bind_ok demand demand_ok)

inductive ArtifactFailureCode where
  | byteLimit
  | rowLimit
  | columnLimit
  | fieldLimit
  | invalidEncoding
  | unsupportedDelimiter
  | emptyFile
  | malformedCsv
  | invalidChunk
deriving DecidableEq, Repr

structure ArtifactIntakeError where
  code : ArtifactFailureCode
  limit : Option ℕ
deriving DecidableEq

structure IntakeLimits where
  maxBytes : ℕ
  maxRows : ℕ
  maxColumns : ℕ
  maxFieldCharacters : ℕ
  bytes_pos : 1 ≤ maxBytes
  rows_pos : 1 ≤ maxRows
  columns_pos : 1 ≤ maxColumns
  field_pos : 1 ≤ maxFieldCharacters

/-- `SUPPORTED_DELIMITERS`, each as the character the reader splits at. -/
def delimiterChar (delimiter : String) : Option Char :=
  if delimiter = "," then some ','
  else if delimiter = ";" then some ';'
  else if delimiter = "\t" then some '\t'
  else none

/-- `csv.reader` with the field size limit that is set around a scan. -/
def dialect (delimiter : Char) (limits : IntakeLimits) : Dialect :=
  ⟨delimiter, limits.maxFieldCharacters⟩

theorem dialect_proper {delimiter : String} {c : Char} (h : delimiterChar delimiter = some c)
    (limits : IntakeLimits) : (dialect c limits).Proper := by
  have hc : c ≠ mark ∧ ¬LineFeed c := by
    unfold delimiterChar at h
    split_ifs at h <;> cases h <;> decide
  exact ⟨hc.1, hc.2⟩

abbrev Row := List String

def texts (row : List (List Char)) : Row := row.map String.ofList

structure CsvScan where
  delimiter : Char
  header : Row
  rowCount : ℕ
  maximumColumnCount : ℕ
deriving DecidableEq

structure CsvContent where
  scan : CsvScan
  rows : List Row

/-- The error that a failure of the reader is reported as. Of the messages of
`csv.Error` only the one of the field limit names it. -/
def intakeError (limits : IntakeLimits) : Failure → ArtifactIntakeError
  | .undecodable => ⟨.invalidEncoding, none⟩
  | .malformed .fieldLimit => ⟨.fieldLimit, some limits.maxFieldCharacters⟩
  | .malformed _ => ⟨.malformedCsv, none⟩

def checkColumnLimit (row : Row) (maximum : ℕ) : Except ArtifactIntakeError Unit :=
  demand (row.length ≤ maximum) ⟨.columnLimit, some maximum⟩

/-- The loop over the rows after the header; a failure of the reader comes after
the rows it has read. -/
def scanRows (limits : IntakeLimits) (failure : Option Failure) :
    ℕ → ℕ → List Row → Except ArtifactIntakeError (ℕ × ℕ)
  | rowCount, widest, [] =>
    match failure with
    | some failure => .error (intakeError limits failure)
    | none => .ok (rowCount, widest)
  | rowCount, widest, row :: rows => do
    demand (rowCount+1 ≤ limits.maxRows) ⟨.rowLimit, some limits.maxRows⟩
    checkColumnLimit row limits.maxColumns
    scanRows limits failure (rowCount+1) (max widest row.length) rows

def scanReading (delimiter : Char) (limits : IntakeLimits) (reading : Reading) :
    Except ArtifactIntakeError CsvScan :=
  match reading.rows with
  | [] =>
    match reading.failure with
    | some failure => .error (intakeError limits failure)
    | none => .error ⟨.emptyFile, none⟩
  | first :: rest => do
    let header := texts first
    checkColumnLimit header limits.maxColumns
    let (rowCount, widest) ← scanRows limits reading.failure 0 header.length (rest.map texts)
    return ⟨delimiter, header, rowCount, widest⟩

/-- `_scan_locked` on what the file yields as text. -/
def scanLocked (stream : TextStream) (delimiter : Char) (limits : IntakeLimits) :
    Except ArtifactIntakeError CsvScan :=
  scanReading delimiter limits ((dialect delimiter limits).read stream)

inductive ReadError where
  | intake (error : ArtifactIntakeError)
  /-- Raised by the reader itself. -/
  | raised (failure : Failure)
  | stopIteration
deriving DecidableEq

/-- The second pass over the file: `next(reader)`, then all that is left. -/
def restOfFile (reading : Reading) : Except ReadError (List Row) :=
  match reading.rows, reading.failure with
  | [], none => .error .stopIteration
  | _, some failure => .error (.raised failure)
  | _ :: rest, none => .ok (rest.map texts)

def readBoundedCsv (stream : TextStream) (delimiter : String) (limits : IntakeLimits) :
    Except ReadError CsvContent :=
  match delimiterChar delimiter with
  | none => .error (.intake ⟨.unsupportedDelimiter, none⟩)
  | some c =>
    match scanLocked stream c limits with
    | .error error => .error (.intake error)
    | .ok scan => do
      let rows ← restOfFile ((dialect c limits).read stream)
      return ⟨scan, rows⟩

def widestOf (rows : List Row) : ℕ := (rows.map List.length).foldl max 0

/-- The rows of a file within the limits. -/
structure Within (limits : IntakeLimits) (header : Row) (rows : List Row) : Prop where
  count : rows.length ≤ limits.maxRows
  columns : ∀ row ∈ header :: rows, row.length ≤ limits.maxColumns

section Scans
variable {limits : IntakeLimits} {failure : Option Failure} {c : Char} {stream : TextStream}

theorem scanRows_ok {rows : List Row} {rowCount widest : ℕ} {result : ℕ × ℕ} :
    scanRows limits failure rowCount widest rows = .ok result ↔
      failure = none ∧ (rows ≠ [] → rowCount+rows.length ≤ limits.maxRows) ∧
        (∀ row ∈ rows, row.length ≤ limits.maxColumns) ∧
        result = (rowCount+rows.length, (rows.map List.length).foldl max widest) := by
  induction rows generalizing rowCount widest with
  | nil => cases failure <;> simp [scanRows, eq_comm]
  | cons row rows ih =>
    simp only [scanRows, checkColumnLimit, bind_ok, demand_ok, exists_const, ih,
      List.map_cons, List.foldl_cons, List.length_cons, List.forall_mem_cons]
    have hcount : rowCount+1+rows.length = rowCount+(rows.length+1) := by omega
    rw [hcount]
    constructor
    · rintro ⟨hfirst, hrow, hfailure, hrest, hrows, hresult⟩
      refine ⟨hfailure, fun _ => ?_, ⟨hrow, hrows⟩, hresult⟩
      by_cases hnil : rows = []
      · subst hnil
        simpa using hfirst
      · exact hrest hnil
    · rintro ⟨hfailure, hrest, ⟨hrow, hrows⟩, hresult⟩
      have hle := hrest (List.cons_ne_nil _ _)
      exact ⟨by omega, hrow, hfailure, fun _ => hle, hrows, hresult⟩

/-- A scan goes through on a file that is read to its end, has a header and
stays within the limits. -/
theorem scan_ok {scan : CsvScan} : scanLocked stream c limits = .ok scan ↔
    ∃ first rest, (dialect c limits).read stream = ⟨first :: rest, none⟩ ∧
      Within limits (texts first) (rest.map texts) ∧
      scan = ⟨c, texts first, rest.length, widestOf (texts first :: rest.map texts)⟩ := by
  unfold scanLocked scanReading
  obtain ⟨rows, failure⟩ := (dialect c limits).read stream
  cases rows with
  | nil => cases failure <;> simp
  | cons first rest =>
    simp only [checkColumnLimit, bind_ok, demand_ok, exists_const, scanRows_ok, Prod.exists,
      Reading.mk.injEq, List.cons.injEq]
    constructor
    · rintro ⟨hheader, count, widest, ⟨rfl, hcount, hcolumns, hresult⟩, hscan⟩
      obtain ⟨rfl, rfl⟩ := Prod.mk.inj hresult
      refine ⟨first, rest, ⟨⟨rfl, rfl⟩, rfl⟩,
        ⟨?_, List.forall_mem_cons.mpr ⟨hheader, hcolumns⟩⟩, ?_⟩
      · by_cases hnil : rest = []
        · simp [hnil]
        · simpa using hcount (by simpa using hnil)
      · rw [← Except.ok.inj hscan]
        simp [widestOf]
    · rintro ⟨_, _, ⟨⟨rfl, rfl⟩, rfl⟩, hwithin, rfl⟩
      obtain ⟨hheader, hcolumns⟩ := List.forall_mem_cons.mp hwithin.columns
      refine ⟨hheader, _, _, ⟨rfl, fun _ => ?_, hcolumns, rfl⟩, ?_⟩
      · simpa using hwithin.count
      · simp [widestOf, pure, Except.pure]

theorem foldl_max_le {l : List ℕ} {m n : ℕ} : l.foldl max m ≤ n ↔ m ≤ n ∧ ∀ x ∈ l, x ≤ n := by
  induction l generalizing m with
  | nil => simp
  | cons x l ih => simp only [List.foldl_cons, ih, max_le_iff, List.forall_mem_cons, and_assoc]

theorem widest_le {rows : List Row} {n : ℕ} :
    widestOf rows ≤ n ↔ ∀ row ∈ rows, row.length ≤ n := by
  simp [widestOf, foldl_max_le]

theorem fields_bounded {row : List (List Char)}
    (h : row ∈ ((dialect c limits).read stream).rows) :
    ∀ field ∈ texts row, field.length ≤ limits.maxFieldCharacters := by
  intro field hfield
  obtain ⟨cs, hcs, rfl⟩ := List.mem_map.mp hfield
  rw [String.length_ofList]
  exact readFrom_bounded (d := dialect c limits) (fresh_bounded _) row h cs hcs

theorem read_scanned {delimiter : String} (hc : delimiterChar delimiter = some c) {scan : CsvScan}
    (hscan : scanLocked stream c limits = .ok scan) : ∃ first rest,
      (dialect c limits).read stream = ⟨first :: rest, none⟩ ∧
        Within limits (texts first) (rest.map texts) ∧
        scan = ⟨c, texts first, rest.length, widestOf (texts first :: rest.map texts)⟩ ∧
        readBoundedCsv stream delimiter limits = .ok ⟨scan, rest.map texts⟩ := by
  obtain ⟨first, rest, hread, hwithin, hresult⟩ := scan_ok.mp hscan
  refine ⟨first, rest, hread, hwithin, hresult, ?_⟩
  simp only [readBoundedCsv, hc, hscan, hread, restOfFile]
  rfl

/-- What reading a file whole gives, beside what its scan gave. -/
structure Faithful (limits : IntakeLimits) (scan : CsvScan) (rows : List Row) : Prop where
  count : rows.length = scan.rowCount
  widest : widestOf (scan.header :: rows) = scan.maximumColumnCount
  counted : scan.rowCount ≤ limits.maxRows
  columns : scan.maximumColumnCount ≤ limits.maxColumns
  fields : ∀ row ∈ scan.header :: rows, ∀ field ∈ row,
    field.length ≤ limits.maxFieldCharacters

/-- Reading a file again fails exactly where its scan fails, with the same
error, and otherwise gives the rows that the scan counted, all of them within
the limits. -/
theorem reads_what_was_scanned (stream : TextStream) (delimiter : String)
    (limits : IntakeLimits) :
    match readBoundedCsv stream delimiter limits with
    | .ok content => ∃ c, delimiterChar delimiter = some c ∧
        scanLocked stream c limits = .ok content.scan ∧ Faithful limits content.scan content.rows
    | .error error => delimiterChar delimiter = none ∧
          error = .intake ⟨.unsupportedDelimiter, none⟩ ∨
        ∃ c refusal, delimiterChar delimiter = some c ∧
          scanLocked stream c limits = .error refusal ∧ error = .intake refusal := by
  cases hc : delimiterChar delimiter with
  | none =>
    have hresult : readBoundedCsv stream delimiter limits =
        .error (.intake ⟨.unsupportedDelimiter, none⟩) := by
      simp only [readBoundedCsv, hc]
    rw [hresult]
    exact .inl ⟨rfl, rfl⟩
  | some c =>
    cases hscan : scanLocked stream c limits with
    | error refusal =>
      have hresult : readBoundedCsv stream delimiter limits = .error (.intake refusal) := by
        simp only [readBoundedCsv, hc, hscan]
      rw [hresult]
      exact .inr ⟨c, refusal, rfl, hscan, rfl⟩
    | ok scan =>
      obtain ⟨first, rest, hread, hwithin, rfl, hresult⟩ := read_scanned hc hscan
      rw [hresult]
      refine ⟨c, rfl, hscan, ⟨by simp, rfl, ?_, widest_le.mpr hwithin.columns, ?_⟩⟩
      · simpa using hwithin.count
      · intro row hrow
        have hmem : ∃ record ∈ first :: rest, texts record = row := by
          rcases List.mem_cons.mp hrow with rfl | hrow
          · exact ⟨first, List.mem_cons_self, rfl⟩
          · obtain ⟨record, hrecord, rfl⟩ := List.mem_map.mp hrow
            exact ⟨record, List.mem_cons_of_mem first hrecord, rfl⟩
        obtain ⟨record, hrecord, rfl⟩ := hmem
        exact fields_bounded (by rw [hread]; exact hrecord)

theorem texts_toList (row : Row) : texts (row.map String.toList) = row := by
  rw [texts, List.map_map]
  exact (List.map_congr_left fun s _ => String.ofList_toList).trans (List.map_id row)

theorem scan_table {delimiter : String} (hc : delimiterChar delimiter = some c) {header : Row}
    {rows : List Row} (hwithin : Within limits header rows)
    (hfields : ∀ row ∈ header :: rows, ∀ field ∈ row, field.length ≤ limits.maxFieldCharacters) :
    scanLocked (.ofText (writeTable c (header :: rows))) c limits =
        .ok ⟨c, header, rows.length, widestOf (header :: rows)⟩ ∧
      readBoundedCsv (.ofText (writeTable c (header :: rows))) delimiter limits =
        .ok ⟨⟨c, header, rows.length, widestOf (header :: rows)⟩, rows⟩ := by
  have hread : (dialect c limits).read (.ofText (writeTable c (header :: rows))) =
      ⟨header.map String.toList :: rows.map fun row => row.map String.toList, none⟩ := by
    rw [TextStream.ofText, writeTable, String.toList_ofList]
    refine read_records (dialect_proper hc limits) fun record hrecord cs hcs => ?_
    obtain ⟨row, hrow, rfl⟩ := List.mem_map.mp hrecord
    obtain ⟨field, hfield, rfl⟩ := List.mem_map.mp hcs
    rw [String.length_toList]
    exact hfields row hrow field hfield
  have hrows : (rows.map fun row => row.map String.toList).map texts = rows := by
    rw [List.map_map]
    exact (List.map_congr_left fun row _ => texts_toList row).trans (List.map_id rows)
  have hscan : scanLocked (.ofText (writeTable c (header :: rows))) c limits =
      .ok ⟨c, header, rows.length, widestOf (header :: rows)⟩ := by
    refine scan_ok.mpr ⟨_, _, hread, ?_, ?_⟩
    · rw [texts_toList, hrows]
      exact hwithin
    · rw [texts_toList, hrows, List.length_map]
  refine ⟨hscan, ?_⟩
  obtain ⟨first, rest, hread', -, -, hresult⟩ := read_scanned hc hscan
  rw [hread, Reading.mk.injEq, List.cons.injEq] at hread'
  obtain ⟨⟨-, rfl⟩, -⟩ := hread'
  rw [hresult, hrows]

end Scans

end Workbench.Intake
