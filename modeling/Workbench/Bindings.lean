import Workbench.Columns
import Mathlib.Data.List.DropRight
import Mathlib.Data.List.GetD

/-!
# Cells and bindings

A contract binds each canonical field to a column of the file or to a constant.
The cells of a row are looked up by the names of the columns, among those whose
name is not reserved for values past the header. A field bound to a column of
such a name finds no cell.
-/

set_option autoImplicit false

namespace Workbench.Bindings
open Workbench.Listing Workbench.Raising Workbench.Records Workbench.Ingestion
open Workbench.Interpretation Workbench.Columns Workbench.DecimalTexts Workbench.Observations

def columnCell (header values nullTokens : List String) (column : String) : RawCell :=
  match header.idxOf? column with
  | some i =>
    match values[i]? with
    | some value => .fromSource value nullTokens
    | none => .missing
  | none => .missing

def sourceColumns (contract : SourceContract) : List String :=
  CanonicalField.all.filterMap (fun field => (contract.bindings field).bind
    FieldBinding.sourceColumn) ++ (contract.operations.map (·.field)).toList

def reserved (column : String) : Bool := "__extra_".isPrefixOf column

section Cells
variable {header values nullTokens : List String} {column : String}

theorem extra_reserved (n : ℕ) : reserved ("__extra_" ++ toString n) = true := by
  unfold reserved String.isPrefixOf
  simp

theorem rawValues_columns :
    ((rawValues header values nullTokens).filter fun c => !reserved c.1).map Prod.fst =
      header.filter fun c => !reserved c := by
  have hsplit : max header.length values.length =
      header.length+(max header.length values.length-header.length) := by omega
  have hmap : ((rawValues header values nullTokens).filter fun c => !reserved c.1).map Prod.fst =
      ((List.range (max header.length values.length)).map fun i =>
        header.getD i ("__extra_" ++ toString (i-header.length+1))).filter
          fun c => !reserved c := by
    rw [rawValues, List.filter_map, List.map_map, List.filter_map]
    rfl
  rw [hmap, hsplit, List.range_add, List.map_append, List.filter_append]
  have hfirst : (List.range header.length).map (fun i =>
      header.getD i ("__extra_" ++ toString (i-header.length+1))) = header := by
    apply List.ext_getElem (by simp)
    intro i hi hi'
    rw [List.getElem_map, List.getElem_range, List.getD_eq_getElem _ _ hi']
  rw [hfirst]
  refine List.append_right_eq_self.mpr (List.filter_eq_nil_iff.mpr fun c hc => ?_)
  obtain ⟨j, hj, rfl⟩ := List.mem_map.mp hc
  obtain ⟨i, _, rfl⟩ := List.mem_map.mp hj
  rw [List.getD_eq_default _ _ (Nat.le_add_right ..), extra_reserved]
  decide

theorem cell_at {i : ℕ} (hi : i < header.length) :
    (header[i], match values[i]? with
      | some value => RawCell.fromSource value nullTokens
      | none => .missing) ∈ rawValues header values nullTokens := by
  have hcolumn : header.getD i ("__extra_" ++ toString (i-header.length+1)) = header[i] :=
    List.getD_eq_getElem _ _ hi
  exact List.mem_map.mpr ⟨i, List.mem_range.mpr (lt_max_of_lt_left hi), Prod.ext hcolumn rfl⟩

theorem cellOf_reserved (h : reserved column = true) :
    cellOf (rawValues header values nullTokens) column = .missing := by
  have hnone : lookup Prod.fst ((rawValues header values nullTokens).filter fun c =>
      !("__extra_".isPrefixOf c.1)) column = none := by
    rw [lookup_none]
    intro c hc hname
    obtain ⟨_, hfree⟩ := List.mem_filter.mp hc
    rw [hname, ← reserved, h] at hfree
    cases hfree
  rw [cellOf, hnone]

theorem cellOf_column (hunique : header.Nodup) (hmem : column ∈ header)
    (hfree : reserved column = false) :
    cellOf (rawValues header values nullTokens) column =
      columnCell header values nullTokens column := by
  obtain ⟨i, hi, rfl⟩ := List.mem_iff_getElem.mp hmem
  have hentry := @cell_at header values nullTokens i hi
  have hkept := List.mem_filter (p := fun c : String × RawCell => !reserved c.1) |>.mpr
    ⟨hentry, by simp [hfree]⟩
  have hnodup : (((rawValues header values nullTokens).filter fun c => !reserved c.1).map
      Prod.fst).Nodup := by
    rw [rawValues_columns]
    exact hunique.filter _
  have hlook := lookup_mem hnodup hkept
  have hindex : header.idxOf? header[i] = some i := by
    rw [List.idxOf?_eq_some_iff]
    refine ⟨hi, rfl, fun j hj hji => ?_⟩
    exact absurd (hunique.getElem_inj_iff.mp hji) (Nat.ne_of_lt hj)
  unfold cellOf columnCell
  rw [hindex]
  have hlook' : lookup Prod.fst ((rawValues header values nullTokens).filter fun c =>
      !("__extra_".isPrefixOf c.1)) header[i] = some (header[i], match values[i]? with
      | some value => RawCell.fromSource value nullTokens
      | none => .missing) := hlook
  rw [hlook']

end Cells

section Header
variable {contract : SourceContract} {header : List String}

/-- A header without issues names every column once and has every column that
the contract reads. -/
theorem header_clean (h : headerIssues header contract = []) :
    header.Nodup ∧ ∀ column ∈ sourceColumns contract, column ∈ header := by
  obtain ⟨hduplicates, hmissing⟩ := List.append_eq_nil_iff.mp h
  constructor
  · rw [List.nodup_iff_count_le_one]
    intro name
    by_contra hmany
    have hmany : 1 < header.count name := not_le.mp hmany
    have hmem : name ∈ header.eraseDups.filter fun name => 1 < header.count name := by
      rw [List.mem_filter, List.mem_eraseDups, decide_eq_true_eq]
      exact ⟨List.count_pos_iff.mp (Nat.zero_lt_of_lt hmany), hmany⟩
    rw [List.map_eq_nil_iff.mp hduplicates] at hmem
    cases hmem
  · intro column hcolumn
    by_contra hno
    have hmem : column ∈ (sortedSet (sourceColumns contract)).filter fun name => name ∉ header := by
      rw [List.mem_filter, mem_sortedSet, decide_eq_true_eq]
      exact ⟨hcolumn, hno⟩
    have hnil := List.map_eq_nil_iff.mp hmissing
    rw [show (sortedSet (sourceColumns contract)).filter (fun name => name ∉ header) = [] from hnil]
      at hmem
    cases hmem

theorem column_read {field : CanonicalField} {name : String} {text : nonblank name = true}
    (h : contract.bindings field = some (.column name text)) : name ∈ sourceColumns contract := by
  refine List.mem_append_left _ (List.mem_filterMap.mpr ⟨field, by cases field <;> decide, ?_⟩)
  rw [h]
  rfl

theorem operation_read {operations : OperationMapping} (h : contract.operations = some operations) :
    operations.field ∈ sourceColumns contract := by
  apply List.mem_append_right
  rw [h]
  simp

theorem mem_sourceColumns {column : String} (h : column ∈ sourceColumns contract) :
    (∃ field text, contract.bindings field = some (.column column text)) ∨
      ∃ operations, contract.operations = some operations ∧ operations.field = column := by
  rcases List.mem_append.mp h with h | h
  · obtain ⟨field, _, hfield⟩ := List.mem_filterMap.mp h
    obtain ⟨binding, hbinding, hcolumn⟩ := Option.bind_eq_some_iff.mp hfield
    cases binding with
    | column name text => exact .inl ⟨field, Option.some.inj hcolumn ▸ text, by
        obtain rfl := Option.some.inj hcolumn
        exact hbinding⟩
    | constant value => cases hcolumn
  · right
    simpa using h

/-- A column is read as it should when its name is not reserved or it has no
value. -/
theorem cell_agrees {values nullTokens : List String} {column : String} (hunique : header.Nodup)
    (hmem : column ∈ header)
    (h : reserved column = true → columnCell header values nullTokens column = .missing) :
    cellOf (rawValues header values nullTokens) column =
      columnCell header values nullTokens column := by
  by_cases hr : reserved column = true
  · rw [cellOf_reserved hr, h hr]
  · exact cellOf_column hunique hmem (Bool.eq_false_iff.mpr hr)

end Header

section Rows
variable {reader : DatetimeReader} {contract : SourceContract} {rowNumber : ℕ}
  {cells : List (String × RawCell)}

def readCell (cells : List (String × RawCell)) : FieldBinding → RawCell
  | .column name _ => cellOf cells name
  | .constant value => .fromSource value []

theorem bind_return {ε α β : Type} (x : Except ε α) (f : α → β) :
    (x >>= fun a => .ok (f a)) = x.map f := by
  cases x <;> rfl

theorem parseBinding_eq {α : Type} (field : CanonicalField) (binding : FieldBinding)
    (parser : RawCell → Except RowIssue α) : parseBinding cells field binding parser =
      (parser (readCell cells binding)).map fun value => (value,
        ⟨field.value, binding.sourceColumn, readCell cells binding, binding.rule,
          canonicalField_text field, fieldBinding_rule binding⟩) := by
  cases binding with
  | column name text => exact bind_return (parser (cellOf cells name)) _
  | constant value => exact bind_return (parser (.fromSource value [])) _

theorem binding_some {field : CanonicalField} (h : field ≠ .businessReference) :
    contract.bindings field = some (contract.binding field h) :=
  (Option.some_get _).symm

end Rows

section Keys

theorem stripped_head (cs : List Char) (h : 0 < (((cs.dropWhile isSpace).reverse.dropWhile
    isSpace).reverse).length) :
    isSpace ((((cs.dropWhile isSpace).reverse.dropWhile isSpace).reverse)[0]) = false := by
  have hstart : ((cs.dropWhile isSpace).reverse.dropWhile isSpace).reverse <+:
      cs.dropWhile isSpace := List.rdropWhile_prefix isSpace (cs.dropWhile isSpace)
  rw [hstart.getElem h]
  exact Bool.eq_false_iff.mpr
    (List.dropWhile_get_zero_not isSpace cs (Nat.lt_of_lt_of_le h hstart.length_le))

theorem strip_strip (s : String) : strip (strip s) = strip s := by
  have hself := List.dropWhile_eq_self_iff.mpr fun h =>
    Bool.eq_false_iff.mp (stripped_head s.toList h)
  unfold strip
  rw [String.toList_ofList, hself, List.reverse_reverse, List.dropWhile_idempotent]

theorem strip_nonblank {s : String} (h : strip s ≠ "") : nonblank (strip s) = true := by
  have hlength : 0 < (strip s).toList.length := by
    rw [List.length_pos_iff]
    intro hnil
    exact h (String.toList_inj.mp hnil)
  rw [nonblank, List.any_eq_true]
  refine ⟨_, List.getElem_mem hlength, ?_⟩
  have hlist : (strip s).toList =
      ((s.toList.dropWhile isSpace).reverse.dropWhile isSpace).reverse := String.toList_ofList
  have hhead := stripped_head s.toList (hlist ▸ hlength)
  simp only [hlist, hhead, Bool.not_false]

variable {reader : DatetimeReader} {contract : SourceContract} {rowNumber : ℕ}
  {cells : List (String × RawCell)}

theorem parseRequiredText_stripped {field : String} {cell : RawCell} {text : String}
    (h : parseRequiredText rowNumber field cell = .ok text) :
    nonblank text = true ∧ strip text = text := by
  unfold parseRequiredText at h
  cases hs : requiredSourceValue rowNumber field cell with
  | error issue =>
    rw [hs] at h
    cases h
  | ok source =>
    rw [hs] at h
    change (if strip source = "" then _ else _) = _ at h
    split_ifs at h with hempty
    · cases h
    · rw [← Except.ok.inj h]
      exact ⟨strip_nonblank hempty, strip_strip source⟩

theorem key_stripped {key : String × FieldProvenance}
    (h : parseText contract rowNumber cells .sourceRecordKey (by decide) = .ok key) :
    nonblank key.1 = true ∧ strip key.1 = key.1 := by
  rw [parseText, parseBinding_eq] at h
  cases hp : parseRequiredText rowNumber CanonicalField.sourceRecordKey.value
      (readCell cells (contract.binding .sourceRecordKey (by decide))) with
  | error issue =>
    rw [hp] at h
    cases h
  | ok text =>
    rw [hp] at h
    rw [← Except.ok.inj h]
    exact parseRequiredText_stripped hp

theorem canonicalOf_key {operation : IngestionOperation} {origin : List FieldProvenance}
    {key : String × FieldProvenance} {fields : CanonicalFields}
    (h : canonicalOf reader contract rowNumber cells operation origin key = .ok fields) :
    fields.sourceRecordKey = key.1 := by
  unfold canonicalOf at h
  simp only at h
  split at h
  · rw [← Except.ok.inj h]
  · cases h

/-- A row without issues has a key that is not blank and has no space around it. -/
theorem interpretRow_key {header values : List String} {i : InterpretedRow}
    (h : interpretRow reader contract header false rowNumber values = .ok i)
    (hclean : i.issues = []) : ∃ key, i.preview.bind Preview.sourceRecordKey = some key ∧
      nonblank key = true ∧ strip key = key := by
  unfold interpretRow at h
  rw [if_neg (by decide)] at h
  simp only at h
  split at h
  · rename_i origin key _ hoperation hkey
    rw [← Except.ok.inj h]
    exact ⟨key.1, rfl, key_stripped hkey⟩
  · rename_i operation origin key _ _ hoperation hkey
    split at h
    · rename_i fields hfields
      obtain ⟨row, hrow, hi⟩ := bind_ok.mp h
      rw [← Except.ok.inj hi]
      refine ⟨key.1, ?_, key_stripped hkey⟩
      obtain ⟨t⟩ := Fingerprints.exists_texts row
      have hrowKey : row.sourceRecordKey = key.1 := by
        rw [create_row hrow, canonicalOf_key hfields]
      rw [canonicalToPayload, t.quantity_eq, t.unitPrice_eq, t.grossAmount_eq]
      exact congrArg some hrowKey
    · rename_i issues herror
      rw [← Except.ok.inj h] at hclean
      exact absurd hclean (canonicalOf_error herror)
  · rename_i hretract hcanonical
    rw [← Except.ok.inj h] at hclean
    have hearly := (List.append_eq_nil_iff.mp hclean).1
    obtain ⟨hfirst, hk⟩ := List.append_eq_nil_iff.mp hearly
    obtain ⟨_, ho⟩ := List.append_eq_nil_iff.mp hfirst
    obtain ⟨⟨operation, origin⟩, hoperation⟩ := issueOf_nil ho
    obtain ⟨key, hkey⟩ := issueOf_nil hk
    exact absurd hkey (hcanonical operation origin key hearly hoperation)

/-- The rows of a preview without issues have been left by the search for
duplicate keys as they were. -/
theorem ready_marked {header : List String} {lines : List (List String)} {p : InterpretedPreview}
    (hp : interpretCsv reader contract header lines = .ok p) (hready : p.errorCount = 0) :
    markDuplicateSourceKeys p.rows = p.rows := by
  obtain ⟨hrows, _⟩ := ready_rows hp hready
  obtain ⟨rows, hmap, he⟩ := bind_ok.mp hp
  obtain rfl := Except.ok.inj he
  have hheader : headerIssues header contract = [] :=
    List.length_eq_zero_iff.mp (Nat.add_eq_zero_iff.mp hready).1
  rw [hheader] at hmap
  have hsame : rows = markDuplicateSourceKeys rows := Except.ok.inj (hmap.symm.trans hrows)
  show markDuplicateSourceKeys (markDuplicateSourceKeys rows) = markDuplicateSourceKeys rows
  rw [← hsame]
  exact hsame.symm

theorem ready_keys {header : List String} {lines : List (List String)} {p : InterpretedPreview}
    (hp : interpretCsv reader contract header lines = .ok p) (hready : p.errorCount = 0) :
    ∃ keys : List String,
      p.rows.map (fun i => i.preview.bind Preview.sourceRecordKey) = keys.map some ∧
        (∀ key ∈ keys, nonblank key = true) ∧ (keys.map strip).Nodup := by
  obtain ⟨hrows, hclean⟩ := ready_rows hp hready
  have hkey : ∀ i ∈ p.rows, ∃ key, i.preview.bind Preview.sourceRecordKey = some key ∧
      i.key = some key ∧ nonblank key = true ∧ strip key = key := by
    intro i hi
    obtain ⟨line, _, hline⟩ := mapM_mem_right hrows hi
    obtain ⟨key, hk, htext, hstrip⟩ := interpretRow_key hline (hclean i hi)
    refine ⟨key, hk, ?_, htext, hstrip⟩
    rw [InterpretedRow.key, hk, Option.filter_some, if_pos]
    rw [decide_eq_true_eq]
    rintro rfl
    simp [nonblank] at htext
  refine ⟨p.rows.filterMap InterpretedRow.key, ?_, ?_, ?_⟩
  · have hall : ∀ l : List InterpretedRow, (∀ i ∈ l, i ∈ p.rows) →
        l.map (fun i => i.preview.bind Preview.sourceRecordKey) =
          (l.filterMap InterpretedRow.key).map some := by
      intro l hl
      induction l with
      | nil => rfl
      | cons i l ih =>
        obtain ⟨key, hk, hkey, _⟩ := hkey i (hl i (List.mem_cons_self ..))
        rw [List.map_cons, List.filterMap_cons_some hkey, List.map_cons, hk,
          ih fun j hj => hl j (List.mem_cons_of_mem _ hj)]
    exact hall p.rows fun _ h => h
  · intro key hmem
    obtain ⟨i, hi, hik⟩ := List.mem_filterMap.mp hmem
    obtain ⟨key', _, hkey', htext, _⟩ := hkey i hi
    rw [hik, Option.some.injEq] at hkey'
    exact hkey' ▸ htext
  · have hstrip : (p.rows.filterMap InterpretedRow.key).map strip =
        p.rows.filterMap InterpretedRow.key := by
      conv_rhs => rw [← List.map_id (p.rows.filterMap InterpretedRow.key)]
      apply List.map_congr_left
      intro key hmem
      obtain ⟨i, hi, hik⟩ := List.mem_filterMap.mp hmem
      obtain ⟨key', _, hkey', _, hstrip⟩ := hkey i hi
      rw [hik, Option.some.injEq] at hkey'
      exact hkey' ▸ hstrip
    rw [hstrip, List.nodup_iff_count_le_one]
    intro key
    by_contra hmany
    have hmany : 1 < (p.rows.filterMap InterpretedRow.key).count key := not_le.mp hmany
    obtain ⟨i, hi, hik⟩ := List.mem_filterMap.mp
      (List.count_pos_iff.mp (Nat.zero_lt_of_lt hmany))
    -- A repeated key would have left an issue on its row.
    have hmarked := ready_marked hp hready
    unfold markDuplicateSourceKeys at hmarked
    have hfix := List.map_inj_left.mp (hmarked.trans (List.map_id p.rows).symm) i hi
    simp only [hik, if_pos hmany, id_eq] at hfix
    have hissues := congrArg InterpretedRow.issues hfix
    simp at hissues

end Keys

end Workbench.Bindings
