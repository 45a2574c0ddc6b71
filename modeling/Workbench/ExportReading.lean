import Workbench.CaseExports
import Workbench.Intake

/-!
# Reading an export again

The text of a case export is one that the reader of uploads accepts, and what it
reads are the cells that were written. None of them starts a formula, and the
rows can be told from the text up to the mark that keeps a cell from starting
one.
-/

set_option autoImplicit false

namespace Workbench.ExportReading
open Workbench.Listing Workbench.CsvReader Workbench.Intake
open Workbench.CaseExports

def Formula (s : String) : Prop := s.toList.head? ∈ ['=', '+', '-', '@', '\t', '\r'].map some

instance (s : String) : Decidable (Formula s) := inferInstanceAs (Decidable (_ ∈ _))

def SameCell (a b : String) : Prop := a = b ∨ Formula a ∧ b = "'" ++ a ∨ Formula b ∧ a = "'" ++ b

theorem formulaSafe_eq (s : String) : formulaSafeCsvCell s = if Formula s then "'" ++ s else s :=
  rfl

theorem marked_plain (s : String) : ¬Formula ("'" ++ s) := by
  have hhead : ("'" ++ s).toList.head? = some '\'' := by
    rw [String.toList_append]
    rfl
  rw [Formula, hhead]
  decide

theorem formulaSafe_plain (s : String) : ¬Formula (formulaSafeCsvCell s) := by
  rw [formulaSafe_eq]
  split_ifs with h
  · exact marked_plain s
  · exact h

theorem formulaSafe_same {a b : String} :
    formulaSafeCsvCell a = formulaSafeCsvCell b ↔ SameCell a b := by
  have hmark : ∀ {x y : String}, "'" ++ x = "'" ++ y → x = y := by
    intro x y h
    have hlist := congrArg String.toList h
    rw [String.toList_append, String.toList_append] at hlist
    exact String.ext (List.append_cancel_left hlist)
  rw [formulaSafe_eq, formulaSafe_eq, SameCell]
  by_cases ha : Formula a <;> by_cases hb : Formula b
  · rw [if_pos ha, if_pos hb]
    refine ⟨fun h => .inl (hmark h), ?_⟩
    rintro (rfl | ⟨-, rfl⟩ | ⟨-, rfl⟩)
    · rfl
    · exact absurd hb (marked_plain _)
    · exact absurd ha (marked_plain _)
  · rw [if_pos ha, if_neg hb]
    refine ⟨fun h => .inr (.inl ⟨ha, h.symm⟩), ?_⟩
    rintro (rfl | ⟨-, rfl⟩ | ⟨hb', -⟩)
    · exact absurd ha hb
    · rfl
    · exact absurd hb' hb
  · rw [if_neg ha, if_pos hb]
    refine ⟨fun h => .inr (.inr ⟨hb, h⟩), ?_⟩
    rintro (rfl | ⟨ha', -⟩ | ⟨-, rfl⟩)
    · exact absurd hb ha
    · exact absurd ha' ha
    · rfl
  · rw [if_neg ha, if_neg hb]
    refine ⟨.inl, ?_⟩
    rintro (rfl | ⟨ha', -⟩ | ⟨hb', -⟩)
    · rfl
    · exact absurd ha' ha
    · exact absurd hb' hb

/-- The cells of a row as they are written. -/
def writtenRow (row : CaseExportRow) : Row := row.asdict.map fun f => formulaSafeCsvCell f.2

theorem dictRow_self {cells : List (String × String)} (h : (cells.map Prod.fst).Nodup) :
    dictRow (cells.map Prod.fst) cells = cells.map Prod.snd := by
  rw [dictRow, List.map_map]
  refine List.map_congr_left fun cell hcell => ?_
  simp only [Function.comp_apply, lookup_mem h hcell, Option.map_some, Option.getD_some]

theorem exportFields_nodup : exportFields.Nodup := by decide

theorem exportFields_length : ∀ name ∈ exportFields, name.length ≤ 22 := by decide

theorem csvText_table (d : CaseExportDocument) :
    d.csvText = writeTable ',' (exportFields :: d.rows.map writtenRow) := by
  rw [CaseExportDocument.csvText]
  refine congrArg (fun rows => writeTable ',' (exportFields :: rows))
    (List.map_congr_left fun row _ => ?_)
  have hkeys : (row.asdict.map fun f => (f.1, formulaSafeCsvCell f.2)).map Prod.fst =
      exportFields := by
    rw [List.map_map]
    rfl
  rw [← hkeys, dictRow_self (hkeys ▸ exportFields_nodup), List.map_map]
  rfl

theorem writtenRow_length (row : CaseExportRow) : (writtenRow row).length = 23 := rfl

theorem widest_export (rows : List CaseExportRow) :
    widestOf (exportFields :: rows.map writtenRow) = 23 := by
  refine le_antisymm (widest_le.mpr fun row hrow => ?_) ?_
  · rcases List.mem_cons.mp hrow with rfl | hrow
    · decide
    · obtain ⟨r, -, rfl⟩ := List.mem_map.mp hrow
      exact (writtenRow_length r).le
  · exact widest_le.mp le_rfl exportFields List.mem_cons_self

/-- Rows whose cells are written alike. -/
def SameRow (row other : CaseExportRow) : Prop :=
  List.Forall₂ (fun f g => SameCell f.2 g.2) row.asdict other.asdict

theorem writtenRow_same {row other : CaseExportRow} :
    writtenRow row = writtenRow other ↔ SameRow row other := by
  unfold writtenRow SameRow
  rw [← List.forall₂_eq_eq_eq, List.forall₂_map_left_iff, List.forall₂_map_right_iff]
  simp only [formulaSafe_same]

theorem csvText_same {d e : CaseExportDocument} :
    d.csvText = e.csvText ↔ List.Forall₂ SameRow d.rows e.rows := by
  have hrows : d.csvText = e.csvText ↔ d.rows.map writtenRow = e.rows.map writtenRow := by
    rw [csvText_table, csvText_table]
    refine ⟨fun h => ?_, fun h => by rw [h]⟩
    have hread := congrArg (readTable ',') h
    rw [readTable_writeTable (by decide) (by decide),
      readTable_writeTable (by decide) (by decide)] at hread
    exact (List.cons.inj hread).2
  rw [hrows, ← List.forall₂_eq_eq_eq, List.forall₂_map_left_iff, List.forall₂_map_right_iff]
  simp only [writtenRow_same]

/-- An export within the limits is read by the reader of uploads as the cells
that were written, none of which starts a formula; and two exports have one text
exactly if their rows agree up to the mark of a formula. -/
theorem exports_read_back (limits : IntakeLimits) (d : CaseExportDocument)
    (hcount : d.rows.length ≤ limits.maxRows) (hcolumns : 23 ≤ limits.maxColumns)
    (hheader : 22 ≤ limits.maxFieldCharacters)
    (hcells : ∀ row ∈ d.rows, ∀ cell ∈ writtenRow row, cell.length ≤ limits.maxFieldCharacters) :
    readBoundedCsv (.ofText d.csvText) "," limits =
        .ok ⟨⟨',', exportFields, d.rows.length, 23⟩, d.rows.map writtenRow⟩ ∧
      (∀ row ∈ d.rows, ∀ cell ∈ writtenRow row, ¬Formula cell) ∧
      ∀ e : CaseExportDocument, d.csvText = e.csvText ↔ List.Forall₂ SameRow d.rows e.rows := by
  refine ⟨?_, ?_, fun e => csvText_same⟩
  · have hwithin : Within limits exportFields (d.rows.map writtenRow) := by
      refine ⟨by rw [List.length_map]; exact hcount, fun row hrow => ?_⟩
      exact (widest_le.mp (widest_export d.rows).le row hrow).trans hcolumns
    have hfields : ∀ row ∈ exportFields :: d.rows.map writtenRow, ∀ field ∈ row,
        field.length ≤ limits.maxFieldCharacters := by
      intro row hrow field hfield
      rcases List.mem_cons.mp hrow with rfl | hrow
      · exact (exportFields_length field hfield).trans hheader
      · obtain ⟨r, hr, rfl⟩ := List.mem_map.mp hrow
        exact hcells r hr field hfield
    have hread := (scan_table (show delimiterChar "," = some ',' from rfl) hwithin hfields).2
    rw [← csvText_table, widest_export, List.length_map] at hread
    exact hread
  · intro row _ cell hcell
    obtain ⟨f, -, rfl⟩ := List.mem_map.mp hcell
    exact formulaSafe_plain f.2

/-- An export with a negative amount, a reference that looks like a formula and
one with a delimiter, quotes and a line break. -/
def sampleExport : CaseExportDocument :=
  document "run_facts" "" [{
    exportView := "run_facts", runId := "", runFreshness := "CURRENT", runCreatedAtUtc := ""
    caseId := "", caseKind := "UNPAIRED", resultKind := "UNPAIRED", leftReference := "=A1"
    leftExecutedAtUtc := "", leftQuantity := "-5.0", leftUnitPrice := "1", leftGrossAmount := "1"
    leftCurrency := "EUR", rightReference := "a, \"b\"\r\nc", rightExecutedAtUtc := "", rightQuantity := ""
    rightUnitPrice := "", rightGrossAmount := "", rightCurrency := "", pairOrigin := ""
    reviewHealth := "", reviewAttention := "", reviewStateAsOfUtc := "" }]

theorem exportBytes_pos : 1 ≤ 4096 := by decide

theorem exportRows_pos : 1 ≤ 10 := by decide

theorem exportColumns_pos : 1 ≤ 23 := by decide

theorem exportField_pos : 1 ≤ 64 := by decide

def exportLimits : IntakeLimits :=
  ⟨4096, 10, 23, 64, exportBytes_pos, exportRows_pos, exportColumns_pos, exportField_pos⟩

theorem exports_read_back_sample :
    readBoundedCsv (.ofText sampleExport.csvText) "," exportLimits =
        .ok ⟨⟨',', exportFields, 1, 23⟩, sampleExport.rows.map writtenRow⟩ ∧
      (∀ row ∈ sampleExport.rows, ∀ cell ∈ writtenRow row, ¬Formula cell) ∧
      ∀ e : CaseExportDocument,
        sampleExport.csvText = e.csvText ↔ List.Forall₂ SameRow sampleExport.rows e.rows :=
  exports_read_back exportLimits sampleExport (by decide) (by decide) (by decide) (by decide)

end Workbench.ExportReading
