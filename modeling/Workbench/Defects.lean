import Workbench.Bindings
import Workbench.LocalTimes

/-!
# Defects of an upload

A preview reports the defects of a file as issues of its header or of its rows.
Building an issue or a canonical row may itself fail, and reading a timestamp
may raise what no branch catches; then the whole preview fails.
-/

set_option autoImplicit false

namespace Workbench.Defects
open Workbench.Listing Workbench.Calendar Workbench.Raising Workbench.Records Workbench.Ingestion
open Workbench.Interpretation Workbench.Columns Workbench.Bindings Workbench.LocalTimes

/-- `RowIssue.__post_init__`. -/
def RowIssue.create (issue : RowIssue) : Outcome RowIssue := do
  require (1 ≤ issue.rowNumber) "row_number must be a positive integer"
  require (nonblank issue.field = true) "field must not be blank"
  require (nonblank issue.expected = true) "expected must not be blank"
  .ok issue

section Row
variable (reader : DatetimeReader) (contract : SourceContract) (rowNumber : ℕ)
  (header values : List String)

def cellIssues (cell : RawCell) (field : CanonicalField) : List RowIssue :=
  match field with
  | .executedAtUtc => issueOf (parseDatetimeValue rowNumber field.value reader contract cell)
  | .quantity | .unitPrice | .grossAmount =>
    issueOf (parseDecimalValue rowNumber field.value cell)
  | .side => issueOf (parseEnumValue rowNumber field.value contract.sides.values cell)
  | .state => issueOf (parseEnumValue rowNumber field.value contract.states.values cell)
  | .sourceRecordKey | .businessReference | .instrument | .currency =>
    issueOf (parseRequiredText rowNumber field.value cell)

def fieldIssues (cells : List (String × RawCell)) (field : CanonicalField) : List RowIssue :=
  match contract.bindings field with
  | none => []
  | some binding => cellIssues reader contract rowNumber (readCell cells binding) field

theorem key_always : CanonicalField.sourceRecordKey ≠ .businessReference := fun h => by cases h

theorem executedAt_always : CanonicalField.executedAtUtc ≠ .businessReference :=
  fun h => by cases h

theorem state_always : CanonicalField.state ≠ .businessReference := fun h => by cases h

def earlyIssues : List RowIssue :=
  let cells := rawValues header values contract.nullTokens
  (if header.length < values.length then
    [⟨rowNumber, "_row", .unexpectedColumn, none,
      "at most " ++ toString header.length ++ " values"⟩]
  else []) ++ issueOf (parseOperation rowNumber contract cells) ++
    issueOf (parseText contract rowNumber cells .sourceRecordKey key_always)

def retracted : Bool :=
  match earlyIssues contract rowNumber header values,
    parseOperation rowNumber contract (rawValues header values contract.nullTokens) with
  | [], .ok (.retract, _) => true
  | _, _ => false

end Row

section Preview
variable (parse : String → String → Parsing) (zones : String → Option Zone)
  (contract : SourceContract) (header : List String)

def executedAtCell (values : List String) : RawCell :=
  readCell (rawValues header values contract.nullTokens)
    (contract.binding .executedAtUtc executedAt_always)

def readTimestamp (blocked : Bool) (rowNumber : ℕ) (values : List String) : Except Escape Unit :=
  if blocked || retracted contract rowNumber header values then .ok ()
  else
    (LocalTimes.parseDatetimeValue parse zones contract rowNumber
      CanonicalField.executedAtUtc.value (executedAtCell contract header values)).map fun _ => ()

/-- `_interpret_row` with what escapes it. -/
def interpretRow (blocked : Bool) (rowNumber : ℕ) (values : List String) :
    Except Escape InterpretedRow := do
  readTimestamp parse zones contract header blocked rowNumber values
  let row ← escaping
    (Interpretation.interpretRow (reader parse zones) contract header blocked rowNumber values)
  let _ ← escaping (row.issues.mapM RowIssue.create)
  .ok row

/-- `interpret_csv` with what escapes it. -/
def interpretCsv (lines : List (List String)) : Except Escape InterpretedPreview := do
  let issues ← escaping ((headerIssues header contract).mapM RowIssue.create)
  let rows ← lines.zipIdx.mapM fun line =>
    interpretRow parse zones contract header (issues ≠ []) (line.2+2) line.1
  let marked := markDuplicateSourceKeys rows
  let _ ← escaping ((marked.flatMap (·.issues)).mapM RowIssue.create)
  .ok ⟨marked, issues⟩

end Preview

def Contradicts (contract : SourceContract) (rowNumber : ℕ) (cells : List (String × RawCell)) :
    Prop :=
  ∃ origin state, parseOperation rowNumber contract cells = .ok (.cancel, origin) ∧
    parseEnumValue rowNumber CanonicalField.state.value contract.states.values
      (readCell cells (contract.binding .state state_always)) = .ok state ∧ state ≠ .cancelled

/-- The rows of a preview are those of the file in their order. Every repeated,
blank or missing column is an issue of the header; without one, every defect of
a line is an issue of its row. -/
structure Reported (parse : String → String → Parsing) (zones : String → Option Zone)
    (contract : SourceContract) (header : List String) (lines : List (List String))
    (p : InterpretedPreview) : Prop where
  ordered : p.rows.map (·.rowNumber) = (List.range lines.length).map (·+2)
  repeated : ∀ name, 1 < header.count name →
    ∃ issue ∈ p.issues, issue.code = .duplicateHeader ∧ issue.originalValue = some name
  blank : ∀ name ∈ header, nonblank name = false → ∃ issue ∈ p.issues,
    issue.originalValue = some name
  missing : ∀ column ∈ sourceColumns contract, column ∉ header →
    ∃ issue ∈ p.issues, issue.code = .missingColumn ∧ issue.field = column
  early : headerIssues header contract = [] → ∀ line ∈ lines.zipIdx, ∀ i ∈ p.rows,
    i.rowNumber = line.2+2 →
    ∀ issue ∈ earlyIssues contract (line.2+2) header line.1, issue ∈ i.issues
  fields : headerIssues header contract = [] → ∀ line ∈ lines.zipIdx, ∀ i ∈ p.rows,
    i.rowNumber = line.2+2 → retracted contract (line.2+2) header line.1 = false →
    ∀ field, ∀ issue ∈ fieldIssues (reader parse zones) contract (line.2+2)
      (rawValues header line.1 contract.nullTokens) field, issue ∈ i.issues
  contradictions : headerIssues header contract = [] → ∀ line ∈ lines.zipIdx, ∀ i ∈ p.rows,
    i.rowNumber = line.2+2 →
    Contradicts contract (line.2+2) (rawValues header line.1 contract.nullTokens) →
    ∃ issue ∈ i.issues, issue.field = "operation" ∨ issue.field = CanonicalField.state.value

/-- The timestamp in a cell is, under the pattern of the contract, one whose
every image in UTC is in the calendar. -/
def Datable (parse : String → String → Parsing) (zones : String → Option Zone)
    (contract : SourceContract) (cell : RawCell) : Prop :=
  ∀ source, cell = .value source →
    match parse contract.timestampFormat (strip source) with
    | .aware time offset => InRange time.val (-offset)
    | .naive time => ∀ name, contract.timezoneName = some name → name ≠ "" →
      ∀ zone, zones name = some zone → ∀ fold, InRange time.val (-zone.attach time fold)
    | .valueError => True
    | .patternError => False

/-- A blank column name is empty and repeated. Unless the header has issues, the
timestamp of each line that is no retraction is datable and no line cancels
what its state does not. -/
structure Interpretable (parse : String → String → Parsing) (zones : String → Option Zone)
    (contract : SourceContract) (header : List String) (lines : List (List String)) : Prop where
  columns : ∀ name ∈ header, nonblank name = false → name = "" ∧ 1 < header.count name
  instants : headerIssues header contract = [] → ∀ line ∈ lines.zipIdx,
    retracted contract (line.2+2) header line.1 = false →
    Datable parse zones contract (executedAtCell contract header line.1)
  operations : headerIssues header contract = [] → ∀ line ∈ lines.zipIdx,
    ¬Contradicts contract (line.2+2) (rawValues header line.1 contract.nullTokens)

def Names (rowNumber : ℕ) (field : String) (issue : RowIssue) : Prop :=
  issue.rowNumber = rowNumber ∧ issue.field = field ∧ nonblank issue.expected = true

theorem create_issue {issue : RowIssue} (h : 1 ≤ issue.rowNumber)
    (hfield : nonblank issue.field = true) (hexpected : nonblank issue.expected = true) :
    RowIssue.create issue = .ok issue := by
  simp [RowIssue.create, require, demand, h, hfield, hexpected]

theorem create_same {issue issue' : RowIssue} (h : RowIssue.create issue = .ok issue') :
    issue' = issue ∧ nonblank issue.field = true := by
  simp only [RowIssue.create, bind_ok, exists_require, Except.ok.injEq] at h
  exact ⟨h.2.2.2.symm, h.2.1⟩

theorem created_all {issues : List RowIssue} (h : ∀ issue ∈ issues, 1 ≤ issue.rowNumber ∧
    nonblank issue.field = true ∧ nonblank issue.expected = true) :
    issues.mapM RowIssue.create = .ok issues := by
  rw [mapM_total fun issue hi => create_issue (h issue hi).1 (h issue hi).2.1 (h issue hi).2.2,
    List.map_id']

theorem created_same {issues created : List RowIssue}
    (h : issues.mapM RowIssue.create = .ok created) : created = issues := by
  have hmap := mapM_map (q := id) h (p := id) fun issue _ issue' hi => (create_same hi).1
  rwa [List.map_id, List.map_id] at hmap

theorem escaping_ok {α : Type} {x : Outcome α} {a : α} : escaping x = .ok a ↔ x = .ok a := by
  cases x <;> simp [escaping]

section Parsers
variable {rowNumber : ℕ} {field : String} {cell : RawCell} {issue : RowIssue}

theorem raised_names {α : Type} {code : RowErrorCode} {expected : String}
    (hexpected : nonblank expected = true)
    (h : (raiseIssue rowNumber field code cell expected : Except RowIssue α) = .error issue) :
    Names rowNumber field issue := by
  rw [← Except.error.inj h]
  exact ⟨rfl, rfl, hexpected⟩

theorem requiredSourceValue_names
    (h : requiredSourceValue rowNumber field cell = .error issue) :
    Names rowNumber field issue := by
  cases cell with
  | missing => exact raised_names (by decide) h
  | null _ _ => exact raised_names (by decide) h
  | empty => exact raised_names (by decide) h
  | value _ => cases h

theorem parseRequiredText_names (h : parseRequiredText rowNumber field cell = .error issue) :
    Names rowNumber field issue := by
  unfold parseRequiredText at h
  cases hs : requiredSourceValue rowNumber field cell with
  | error e =>
    rw [hs] at h
    exact requiredSourceValue_names (hs.trans (congrArg Except.error (Except.error.inj h)))
  | ok source =>
    rw [hs, ok_bind] at h
    split_ifs at h
    exact raised_names (by decide) h

theorem parseDecimalValue_names (h : parseDecimalValue rowNumber field cell = .error issue) :
    Names rowNumber field issue := by
  unfold parseDecimalValue at h
  cases hs : requiredSourceValue rowNumber field cell with
  | error e =>
    rw [hs] at h
    exact requiredSourceValue_names (hs.trans (congrArg Except.error (Except.error.inj h)))
  | ok source =>
    rw [hs, ok_bind] at h
    split at h
    · exact raised_names (by decide) h
    · exact raised_names (by decide) h
    · split_ifs at h
      exact raised_names (by decide) h

theorem parseEnumValue_names {α : Type} {mapping : List (String × α)}
    (h : parseEnumValue rowNumber field mapping cell = .error issue) :
    Names rowNumber field issue := by
  unfold parseEnumValue at h
  cases hs : requiredSourceValue rowNumber field cell with
  | error e =>
    rw [hs] at h
    exact requiredSourceValue_names (hs.trans (congrArg Except.error (Except.error.inj h)))
  | ok source =>
    rw [hs, ok_bind] at h
    split at h
    · cases h
    · exact raised_names (nonblank_append_left (by decide)) h

end Parsers

section Timestamps
variable {parse : String → String → Parsing} {zones : String → Option Zone}
  {contract : SourceContract} {rowNumber : ℕ} {field : String} {cell : RawCell}

theorem resolve_expected {zone : Zone} {time : Local} {name : String} {policy : DateFoldPolicy}
    {e : RowErrorCode × String} (h : resolve zone time name policy = .ok (.error e)) :
    nonblank e.2 = true := by
  unfold resolve at h
  obtain ⟨folds, _, h⟩ := bind_ok.mp h
  obtain ⟨images, _, h⟩ := bind_ok.mp h
  split at h
  · rw [← Except.error.inj (Except.ok.inj h)]
    exact nonblank_append_left (by decide)
  · cases h
  · split at h
    · rw [← Except.error.inj (Except.ok.inj h)]
      exact nonblank_append_right (by decide)
    · cases h
    · cases h

theorem readDatetime_expected {format source : String} {timezone : Option String}
    {policy : DateFoldPolicy} {e : RowErrorCode × String}
    (h : readDatetime parse zones format timezone policy source = .ok (.error e)) :
    nonblank e.2 = true := by
  unfold readDatetime at h
  split at h
  · rw [← Except.error.inj (Except.ok.inj h)]
    exact nonblank_append_left (by decide)
  · cases h
  · rw [escaping_ok, map_ok] at h
    obtain ⟨_, _, h⟩ := h
    cases h
  · split at h
    · rw [← Except.error.inj (Except.ok.inj h)]
      decide
    · split at h
      · cases h
      · exact resolve_expected (escaping_ok.mp h)

theorem parseDatetimeValue_names {issue : RowIssue}
    (h : Interpretation.parseDatetimeValue rowNumber field (reader parse zones) contract cell =
      .error issue) : Names rowNumber field issue := by
  unfold Interpretation.parseDatetimeValue at h
  cases hs : requiredSourceValue rowNumber field cell with
  | error e =>
    rw [hs] at h
    exact requiredSourceValue_names (hs.trans (congrArg Except.error (Except.error.inj h)))
  | ok source =>
    rw [hs, ok_bind] at h
    split at h
    · cases h
    · rename_i e he
      refine raised_names ?_ h
      unfold reader at he
      split at he
      · rename_i read hread
        exact readDatetime_expected (hread.trans (congrArg Except.ok he))
      · rw [← Except.error.inj he]
        exact nonblank_append_left (by decide)

theorem resolve_total {zone : Zone} {time : Local} {name : String} {policy : DateFoldPolicy} :
    (∃ read, resolve zone time name policy = .ok read) ↔
      ∀ fold, InRange time.val (-zone.attach time fold) := by
  constructor
  · rintro ⟨read, h⟩
    obtain ⟨folds, hfolds, _⟩ := bind_ok.mp h
    obtain ⟨_, hfirst, hfolds⟩ := bind_ok.mp hfolds
    obtain ⟨_, hlast, _⟩ := bind_ok.mp hfolds
    obtain ⟨first, hfirst, _⟩ := bind_ok.mp hfirst
    obtain ⟨last, hlast, _⟩ := bind_ok.mp hlast
    intro fold
    match fold with
    | 0 => exact shift_isSome.mp ⟨first, image_ok.mp hfirst⟩
    | 1 => exact shift_isSome.mp ⟨last, image_ok.mp hlast⟩
  · intro h
    by_cases hnone : ∀ t, ¬zone.Shows time t
    · exact ⟨_, resolve_nonexistent h hnone⟩
    · obtain ⟨t, ht⟩ := not_forall_not.mp hnone
      obtain ⟨first, last, _, _, _, hread⟩ := @resolve_shown zone time name policy h t ht
      exact ⟨_, hread⟩

/-- Exactly the datable cells are read without an escape. -/
theorem parseDatetimeValue_total
    (hzones : ∀ name, contract.timezoneName = some name → (zones name).isSome = true) :
    (∃ read, LocalTimes.parseDatetimeValue parse zones contract rowNumber field cell = .ok read) ↔
      Datable parse zones contract cell := by
  unfold LocalTimes.parseDatetimeValue Datable
  cases cell with
  | missing => exact iff_of_true ⟨_, rfl⟩ fun _ h => by cases h
  | null _ _ => exact iff_of_true ⟨_, rfl⟩ fun _ h => by cases h
  | empty => exact iff_of_true ⟨_, rfl⟩ fun _ h => by cases h
  | value original =>
    have hread : (∃ read, LocalTimes.parseDatetimeValue parse zones contract rowNumber field
        (.value original) = .ok read) ↔ ∃ read, readDatetime parse zones contract.timestampFormat
          contract.timezoneName contract.foldPolicy (strip original) = .ok read := by
      simp only [LocalTimes.parseDatetimeValue, requiredSourceValue]
      split <;> simp [*]
    rw [show (∀ source, RawCell.value original = .value source → _) ↔ _ from
      ⟨fun h => h original rfl, fun h source hs => by cases hs; exact h⟩]
    refine hread.trans ?_
    unfold readDatetime
    cases parse contract.timestampFormat (strip original) with
    | valueError => exact iff_of_true ⟨_, rfl⟩ trivial
    | patternError =>
      refine iff_of_false ?_ id
      rintro ⟨_, h⟩
      cases h
    | aware time offset =>
      simp only [escaping_ok, map_ok, fetch_ok]
      rw [← shift_isSome]
      constructor
      · rintro ⟨_, t, ht, _⟩
        exact ⟨t, ht⟩
      · rintro ⟨t, ht⟩
        exact ⟨_, t, ht, rfl⟩
    | naive time =>
      simp only
      cases hname : contract.timezoneName.filter (· ≠ "") with
      | none =>
        refine iff_of_true ⟨_, rfl⟩ fun name hsome hne => ?_
        rw [hsome, Option.filter_some, if_pos (by simpa using hne)] at hname
        cases hname
      | some name =>
        obtain ⟨hsome, hne⟩ := Option.filter_eq_some_iff.mp hname
        obtain ⟨zone, hzone⟩ := Option.isSome_iff_exists.mp (hzones name hsome)
        simp only [hzone, escaping_ok]
        rw [resolve_total]
        constructor
        · intro h name' hname' _ zone' hzone'
          rw [hsome, Option.some.injEq] at hname'
          subst hname'
          rw [hzone, Option.some.injEq] at hzone'
          exact hzone' ▸ h
        · exact fun h => h name hsome (by simpa using hne) zone hzone

end Timestamps

section Issues
variable {reader : DatetimeReader} {contract : SourceContract} {rowNumber : ℕ}
  {cells : List (String × RawCell)}

def laterFields : List CanonicalField :=
  [.instrument, .currency, .businessReference, .executedAtUtc, .quantity, .unitPrice,
    .grossAmount, .side, .state]

theorem issueOf_map {α β : Type} (x : Except RowIssue α) (f : α → β) :
    issueOf (x.map f) = issueOf x := by
  cases x <;> rfl

theorem mem_issueOf {α : Type} {x : Except RowIssue α} {issue : RowIssue}
    (h : issue ∈ issueOf x) : x = .error issue := by
  cases x with
  | ok _ => cases h
  | error e => rw [List.mem_singleton.mp h]

theorem parseText_issues {field : CanonicalField} (h : field ≠ .businessReference) :
    issueOf (parseText contract rowNumber cells field h) =
      issueOf (parseRequiredText rowNumber field.value
        (readCell cells (contract.binding field h))) := by
  rw [parseText, parseBinding_eq, issueOf_map]

theorem parseDecimal_issues {field : CanonicalField} (h : field ≠ .businessReference) :
    issueOf (parseDecimal contract rowNumber cells field h) =
      issueOf (parseDecimalValue rowNumber field.value
        (readCell cells (contract.binding field h))) := by
  rw [parseDecimal, parseBinding_eq, issueOf_map]

theorem parseReference_issues : issueOf (parseReference contract rowNumber cells) =
    fieldIssues reader contract rowNumber cells .businessReference := by
  unfold parseReference fieldIssues
  cases contract.bindings .businessReference with
  | none => rfl
  | some binding =>
    show issueOf ((parseBinding cells .businessReference binding
      (parseRequiredText rowNumber CanonicalField.businessReference.value)).map some) = _
    rw [issueOf_map, parseBinding_eq, issueOf_map]
    rfl

def laterIssues : Except (List RowIssue) CanonicalFields → List RowIssue
  | .ok _ => []
  | .error issues => issues

/-- A row that is no retraction lacks what its fields lack, in their order. -/
theorem canonicalOf_issues (operation : IngestionOperation) (origin : List FieldProvenance)
    (key : String × FieldProvenance) :
    laterIssues (canonicalOf reader contract rowNumber cells operation origin key) =
    laterFields.flatMap (fieldIssues reader contract rowNumber cells) := by
  have hlater : laterFields.flatMap (fieldIssues reader contract rowNumber cells) =
      issueOf (parseText contract rowNumber cells .instrument (by decide)) ++
      issueOf (parseText contract rowNumber cells .currency (by decide)) ++
      issueOf (parseReference contract rowNumber cells) ++
      issueOf (parseBinding cells .executedAtUtc (contract.binding .executedAtUtc (by decide))
        (parseDatetimeValue rowNumber CanonicalField.executedAtUtc.value reader contract)) ++
      issueOf (parseDecimal contract rowNumber cells .quantity (by decide)) ++
      issueOf (parseDecimal contract rowNumber cells .unitPrice (by decide)) ++
      issueOf (parseDecimal contract rowNumber cells .grossAmount (by decide)) ++
      issueOf (parseBinding cells .side (contract.binding .side (by decide))
        (parseEnumValue rowNumber CanonicalField.side.value contract.sides.values)) ++
      issueOf (parseBinding cells .state (contract.binding .state (by decide))
        (parseEnumValue rowNumber CanonicalField.state.value contract.states.values)) := by
    simp only [laterFields, List.flatMap_cons, List.flatMap_nil, List.append_nil,
      parseText_issues, parseDecimal_issues, @parseReference_issues reader, parseBinding_eq,
      issueOf_map, List.append_assoc]
    simp only [fieldIssues, cellIssues, @binding_some contract .instrument (by decide),
      @binding_some contract .currency (by decide),
      @binding_some contract .executedAtUtc (by decide),
      @binding_some contract .quantity (by decide), @binding_some contract .unitPrice (by decide),
      @binding_some contract .grossAmount (by decide), @binding_some contract .side (by decide),
      @binding_some contract .state (by decide)]
  rw [hlater]
  unfold canonicalOf
  simp only
  generalize parseText contract rowNumber cells .instrument (by decide) = instrument
  generalize parseText contract rowNumber cells .currency (by decide) = currency
  generalize parseReference contract rowNumber cells = reference
  generalize parseBinding cells .executedAtUtc (contract.binding .executedAtUtc (by decide))
    (parseDatetimeValue rowNumber CanonicalField.executedAtUtc.value reader contract) = executedAt
  generalize parseDecimal contract rowNumber cells .quantity (by decide) = quantity
  generalize parseDecimal contract rowNumber cells .unitPrice (by decide) = unitPrice
  generalize parseDecimal contract rowNumber cells .grossAmount (by decide) = grossAmount
  generalize parseBinding cells .side (contract.binding .side (by decide))
    (parseEnumValue rowNumber CanonicalField.side.value contract.sides.values) = side
  generalize parseBinding cells .state (contract.binding .state (by decide))
    (parseEnumValue rowNumber CanonicalField.state.value contract.states.values) = state
  unfold laterIssues
  split
  · rename_i h
    split at h
    · rfl
    · cases h
  · rename_i h
    split at h
    · cases h
    · exact (Except.error.inj h).symm

variable {header values : List String} {i : InterpretedRow}

/-- A row has its early issues and, unless it is a retraction, those of its
fields. -/
theorem interpretRow_issues
    (h : Interpretation.interpretRow reader contract header false rowNumber values = .ok i) :
    i.rowNumber = rowNumber ∧ i.issues = earlyIssues contract rowNumber header values ++
      if retracted contract rowNumber header values then [] else
        laterFields.flatMap (fieldIssues reader contract rowNumber
          (rawValues header values contract.nullTokens)) := by
  unfold Interpretation.interpretRow at h
  rw [if_neg (by decide)] at h
  simp only at h
  split at h
  · rename_i origin key hearly hoperation hkey
    have hearly : earlyIssues contract rowNumber header values = [] := hearly
    rw [← Except.ok.inj h, hearly, retracted, hearly, hoperation]
    exact ⟨rfl, rfl⟩
  · rename_i operation origin key hnot hearly hoperation hkey
    have hearly : earlyIssues contract rowNumber header values = [] := hearly
    have hretract : retracted contract rowNumber header values = false := by
      rw [retracted, hearly, hoperation]
      cases operation with
      | retract => exact absurd rfl hnot
      | _ => rfl
    rw [hretract, if_neg (by decide), hearly, List.nil_append,
      ← @canonicalOf_issues reader contract rowNumber _ operation origin key]
    split at h
    · rename_i fields hfields
      obtain ⟨row, _, hi⟩ := bind_ok.mp h
      rw [← Except.ok.inj hi, hfields]
      exact ⟨rfl, rfl⟩
    · rename_i issues herror
      rw [← Except.ok.inj h, herror]
      exact ⟨rfl, rfl⟩
  · rename_i hretract hcanonical
    have hfalse : retracted contract rowNumber header values = false := by
      unfold retracted
      split
      · rename_i origin hearly hoperation
        obtain ⟨_, hk⟩ := List.append_eq_nil_iff.mp hearly
        obtain ⟨key, hkey⟩ := issueOf_nil hk
        exact absurd hkey (hretract origin key hearly hoperation)
      · rfl
    rw [hfalse, if_neg (by decide), ← Except.ok.inj h]
    refine ⟨rfl, ?_⟩
    exact congrArg (earlyIssues contract rowNumber header values ++ ·)
      (canonicalOf_issues .snapshot [] _)

/-- An issue of a row is of the row, and of its length, its operation or a field
that cannot be read. -/
def Concerns (parse : String → String → Parsing) (zones : String → Option Zone)
    (contract : SourceContract) (rowNumber : ℕ) (cells : List (String × RawCell))
    (issue : RowIssue) : Prop :=
  Names rowNumber "_row" issue ∨
  (Names rowNumber "operation" issue ∧ ∀ v, parseOperation rowNumber contract cells ≠ .ok v) ∨
  ∃ field, Names rowNumber field.value issue ∧
    issue ∈ fieldIssues (LocalTimes.reader parse zones) contract rowNumber cells field

variable {parse : String → String → Parsing} {zones : String → Option Zone}

theorem fieldIssues_names {field : CanonicalField} {issue : RowIssue}
    (h : issue ∈ fieldIssues (LocalTimes.reader parse zones) contract rowNumber cells field) :
    Names rowNumber field.value issue := by
  unfold fieldIssues at h
  split at h
  · cases h
  · unfold cellIssues at h
    split at h
    · exact parseDatetimeValue_names (mem_issueOf h)
    · exact parseDecimalValue_names (mem_issueOf h)
    · exact parseDecimalValue_names (mem_issueOf h)
    · exact parseDecimalValue_names (mem_issueOf h)
    · exact parseEnumValue_names (mem_issueOf h)
    · exact parseEnumValue_names (mem_issueOf h)
    all_goals exact parseRequiredText_names (mem_issueOf h)

theorem parseOperation_names {issue : RowIssue}
    (h : parseOperation rowNumber contract cells = .error issue) :
    Names rowNumber "operation" issue := by
  unfold parseOperation at h
  split at h
  · cases h
  · simp only at h
    split at h
    · cases h
    · rename_i e he
      have hnames : Names rowNumber "operation" e := parseEnumValue_names he
      rw [← Except.error.inj h]
      exact hnames

theorem interpretRow_concerns (h : Interpretation.interpretRow (LocalTimes.reader parse zones)
    contract header false rowNumber values = .ok i) : ∀ issue ∈ i.issues,
    Concerns parse zones contract rowNumber (rawValues header values contract.nullTokens)
      issue := by
  intro issue hissue
  rw [(interpretRow_issues h).2] at hissue
  rcases List.mem_append.mp hissue with hearly | hlater
  · rcases List.mem_append.mp hearly with hearly | hkey
    · rcases List.mem_append.mp hearly with hextra | hoperation
      · split_ifs at hextra
        · rw [List.mem_singleton.mp hextra]
          refine .inl ⟨rfl, rfl, nonblank_append_left (nonblank_append_left (by decide))⟩
        · cases hextra
      · have herror := mem_issueOf hoperation
        refine .inr (.inl ⟨parseOperation_names herror, fun v hv => ?_⟩)
        rw [hv] at herror
        cases herror
    · refine .inr (.inr ⟨.sourceRecordKey, ?_⟩)
      rw [parseText_issues] at hkey
      have hfield : issue ∈ fieldIssues (LocalTimes.reader parse zones) contract rowNumber
          (rawValues header values contract.nullTokens) .sourceRecordKey := by
        rw [fieldIssues, @binding_some contract .sourceRecordKey (by decide)]
        exact hkey
      exact ⟨fieldIssues_names hfield, hfield⟩
  · split_ifs at hlater
    · cases hlater
    · obtain ⟨field, _, hfield⟩ := List.mem_flatMap.mp hlater
      exact .inr (.inr ⟨field, fieldIssues_names hfield, hfield⟩)

theorem canonicalField_value_injective : Function.Injective CanonicalField.value := by
  intro a b h
  cases a <;> cases b <;> first | rfl | exact absurd h (by decide)

theorem canonicalField_value_apart (field : CanonicalField) :
    field.value ≠ "operation" ∧ field.value ≠ "_row" := by
  cases field <;> decide

theorem contradicts_unnamed {issue : RowIssue} (h : Contradicts contract rowNumber cells)
    (hissue : Concerns parse zones contract rowNumber cells issue) :
    ¬(issue.field = "operation" ∨ issue.field = CanonicalField.state.value) := by
  obtain ⟨origin, state, hoperation, hstate, _⟩ := h
  rcases hissue with hrow | ⟨_, hnone⟩ | ⟨field, hnames, hmem⟩
  · rw [hrow.2.1]
    decide
  · exact absurd hoperation (hnone _)
  · rintro (hfield | hfield)
    · exact (canonicalField_value_apart field).1 (hnames.2.1.symm.trans hfield)
    · obtain rfl := canonicalField_value_injective (hnames.2.1.symm.trans hfield)
      rw [fieldIssues, @binding_some contract .state (by decide)] at hmem
      have herror := mem_issueOf hmem
      rw [hstate] at herror
      cases herror

end Issues

section Canonical
variable {reader : DatetimeReader} {contract : SourceContract} {rowNumber : ℕ}
  {cells : List (String × RawCell)}

theorem parseBinding_ok {α : Type} {field : CanonicalField} {binding : FieldBinding}
    {parser : RawCell → Except RowIssue α} {v : α × FieldProvenance}
    (h : parseBinding cells field binding parser = .ok v) :
    parser (readCell cells binding) = .ok v.1 ∧ v.2.canonicalField = field.value := by
  rw [parseBinding_eq] at h
  cases hp : parser (readCell cells binding) with
  | error issue =>
    rw [hp] at h
    cases h
  | ok value =>
    rw [hp] at h
    rw [← Except.ok.inj h]
    exact ⟨rfl, rfl⟩

theorem parseDecimalValue_numeric {field : String} {cell : RawCell} {d : Decimals.Decimal}
    (h : parseDecimalValue rowNumber field cell = .ok d) : DecimalRounding.Numeric d := by
  unfold parseDecimalValue at h
  obtain ⟨source, _, h⟩ := bind_ok.mp h
  split at h
  · cases h
  · cases h
  · split_ifs at h with hnumeric
    · exact Except.ok.inj h ▸ hnumeric
    · cases h

theorem parseReference_ok {reference : Option (String × FieldProvenance)}
    (h : parseReference contract rowNumber cells = .ok reference) : ∀ v ∈ reference,
    nonblank v.1 = true ∧ v.2.canonicalField = CanonicalField.businessReference.value := by
  unfold parseReference at h
  split at h
  · rw [← Except.ok.inj h]
    exact fun v hv => by cases hv
  · obtain ⟨v, hv, rfl⟩ := map_ok.mp h
    intro v' hv'
    obtain rfl := Option.some.inj hv'
    exact ⟨(parseRequiredText_stripped (parseBinding_ok hv).1).1, (parseBinding_ok hv).2⟩

theorem parseOperation_origin {operation : IngestionOperation} {origin : List FieldProvenance}
    (h : parseOperation rowNumber contract cells = .ok (operation, origin)) :
    origin.map (·.canonicalField) = [] ∨ origin.map (·.canonicalField) = ["operation"] := by
  unfold parseOperation at h
  split at h
  · cases Except.ok.inj h
    exact .inl rfl
  · simp only at h
    split at h
    · cases Except.ok.inj h
      exact .inr rfl
    · cases h

/-- A row whose fields are read has a canonical row unless its operation
contradicts its state. -/
theorem canonicalOf_created {operation : IngestionOperation} {origin : List FieldProvenance}
    {key : String × FieldProvenance} {fields : CanonicalFields} (hrow : 1 ≤ rowNumber)
    (hoperation : parseOperation rowNumber contract cells = .ok (operation, origin))
    (hretract : operation ≠ .retract)
    (hkey : parseText contract rowNumber cells .sourceRecordKey (by decide) = .ok key)
    (h : canonicalOf reader contract rowNumber cells operation origin key = .ok fields)
    (hagree : ¬Contradicts contract rowNumber cells) : ∃ row, fields.create = .ok row := by
  unfold canonicalOf at h
  simp only at h
  split at h
  · rename_i instrument currency reference executedAt quantity unitPrice grossAmount side state
      hi hc hr he hq hu hg hs ht
    rw [← Except.ok.inj h]
    have htext : ∀ {field : CanonicalField} {hf : field ≠ .businessReference}
        {v : String × FieldProvenance}, parseText contract rowNumber cells field hf = .ok v →
        nonblank v.1 = true :=
      fun hv => (parseRequiredText_stripped (parseBinding_ok hv).1).1
    have hnumeric : ∀ {field : CanonicalField} {hf : field ≠ .businessReference}
        {v : Decimals.Decimal × FieldProvenance},
        parseDecimal contract rowNumber cells field hf = .ok v → DecimalRounding.Numeric v.1 :=
      fun hv => parseDecimalValue_numeric (parseBinding_ok hv).1
    have hreference : OptionalText (reference.map (·.1)) := by
      intro s hs
      obtain ⟨v, hv, rfl⟩ := Option.map_eq_some_iff.mp hs
      exact (parseReference_ok hr v hv).1
    have hcancel : operation = .cancel → state.1 = .cancelled := by
      rintro rfl
      by_contra hstate
      exact hagree ⟨origin, state.1, hoperation, (parseBinding_ok ht).1, hstate⟩
    have hprovenance : ((origin ++ [key.2, instrument.2, currency.2] ++
        (reference.map (·.2)).toList ++ [executedAt.2, quantity.2, unitPrice.2, grossAmount.2,
          side.2, state.2]).map (·.canonicalField)).Nodup := by
      simp only [List.map_append, List.map_cons, List.map_nil, (parseBinding_ok hkey).2,
        (parseBinding_ok hi).2, (parseBinding_ok hc).2, (parseBinding_ok he).2,
        (parseBinding_ok hq).2, (parseBinding_ok hu).2, (parseBinding_ok hg).2,
        (parseBinding_ok hs).2, (parseBinding_ok ht).2]
      cases hreference : reference with
      | none => rcases parseOperation_origin hoperation with ho | ho <;> rw [ho] <;> decide
      | some v =>
        have hv : v.2.canonicalField = CanonicalField.businessReference.value :=
          (parseReference_ok hr v hreference).2
        simp only [Option.map_some, Option.toList_some, List.map_cons, List.map_nil, hv]
        rcases parseOperation_origin hoperation with ho | ho <;> rw [ho] <;> decide
    exact ⟨_, by simp only [CanonicalFields.create, check_true hrow, check_true (htext hkey),
      check_true (htext hi), check_true (htext hc), check_true hreference,
      check_true (hnumeric hq), check_true (hnumeric hu), check_true (hnumeric hg),
      check_true hretract, check_true hcancel, check_true hprovenance, ok_bind]; rfl⟩
  · cases h

theorem interpretRow_total {header values : List String} (hrow : 1 ≤ rowNumber)
    (hagree : ¬Contradicts contract rowNumber (rawValues header values contract.nullTokens)) :
    ∃ i, Interpretation.interpretRow reader contract header false rowNumber values = .ok i := by
  unfold Interpretation.interpretRow
  rw [if_neg (by decide)]
  simp only
  split
  · exact ⟨_, rfl⟩
  · rename_i operation origin key hnot hearly hoperation hkey
    split
    · rename_i fields hfields
      have hretract : operation ≠ .retract := hnot
      obtain ⟨row, hcreate⟩ := canonicalOf_created hrow hoperation hretract hkey hfields hagree
      exact ⟨_, by rw [hcreate, ok_bind]⟩
    · exact ⟨_, rfl⟩
  · exact ⟨_, rfl⟩

end Canonical

section Rows
variable {parse : String → String → Parsing} {zones : String → Option Zone}
  {contract : SourceContract} {header : List String} {rowNumber : ℕ} {values : List String}
  {i : InterpretedRow}

theorem concerns_created {cells : List (String × RawCell)} {issue : RowIssue} (hrow : 1 ≤ rowNumber)
    (h : Concerns parse zones contract rowNumber cells issue) :
    1 ≤ issue.rowNumber ∧ nonblank issue.field = true ∧ nonblank issue.expected = true := by
  have hnames : ∀ field, nonblank field = true → Names rowNumber field issue →
      1 ≤ issue.rowNumber ∧ nonblank issue.field = true ∧ nonblank issue.expected = true := by
    rintro field hfield ⟨hn, hf, hexpected⟩
    rw [hn, hf]
    exact ⟨hrow, hfield, hexpected⟩
  rcases h with h | ⟨h, _⟩ | ⟨field, h, _⟩
  · exact hnames _ (by decide) h
  · exact hnames _ (by decide) h
  · exact hnames _ (canonicalField_text field) h

theorem interpretRow_ok (hrow : 1 ≤ rowNumber) :
    interpretRow parse zones contract header false rowNumber values = .ok i ↔
      readTimestamp parse zones contract header false rowNumber values = .ok () ∧
      Interpretation.interpretRow (reader parse zones) contract header false rowNumber values =
        .ok i := by
  constructor
  · intro h
    obtain ⟨_, htime, h⟩ := bind_ok.mp h
    obtain ⟨row, hi, h⟩ := bind_ok.mp h
    obtain ⟨_, _, h⟩ := bind_ok.mp h
    rw [← Except.ok.inj h]
    exact ⟨htime, escaping_ok.mp hi⟩
  · rintro ⟨htime, hi⟩
    have hcreated := created_all fun issue hissue =>
      concerns_created hrow (interpretRow_concerns hi issue hissue)
    rw [interpretRow, htime, ok_bind, escaping_ok.mpr hi, ok_bind, escaping_ok.mpr hcreated]
    rfl

theorem interpretRow_blocked : interpretRow parse zones contract header true rowNumber values =
    .ok ⟨rowNumber, none, none, []⟩ := rfl

theorem readTimestamp_ok
    (hzones : ∀ name, contract.timezoneName = some name → (zones name).isSome = true) :
    readTimestamp parse zones contract header false rowNumber values = .ok () ↔
      (retracted contract rowNumber header values = false →
        Datable parse zones contract (executedAtCell contract header values)) := by
  rw [readTimestamp, Bool.false_or]
  cases retracted contract rowNumber header values with
  | true => exact iff_of_true rfl fun h => by cases h
  | false =>
    rw [if_neg (by decide), ← @parseDatetimeValue_total parse zones contract rowNumber
      CanonicalField.executedAtUtc.value _ hzones]
    constructor
    · intro h _
      obtain ⟨read, hread, _⟩ := map_ok.mp h
      exact ⟨read, hread⟩
    · intro h
      obtain ⟨read, hread⟩ := h rfl
      exact map_ok.mpr ⟨read, hread, rfl⟩

/-- The search for duplicate keys keeps each row's number and its issues, and
adds at most one on the key. -/
structure Marked (i j : InterpretedRow) : Prop where
  rowNumber : j.rowNumber = i.rowNumber
  kept : ∀ issue ∈ i.issues, issue ∈ j.issues
  added : ∀ issue ∈ j.issues, issue ∈ i.issues ∨ Names i.rowNumber "source_record_key" issue

theorem marked_rows (rows : List InterpretedRow) :
    ∃ mark, markDuplicateSourceKeys rows = rows.map mark ∧ ∀ i, Marked i (mark i) := by
  refine ⟨_, rfl, fun i => ?_⟩
  have hsame : Marked i i := ⟨rfl, fun _ h => h, fun _ h => .inl h⟩
  split
  · split_ifs
    · refine ⟨rfl, fun issue h => List.mem_append_left _ h, fun issue h => ?_⟩
      refine (List.mem_append.mp h).imp_right fun h => ?_
      rw [List.mem_singleton.mp h]
      exact ⟨rfl, rfl, show nonblank "a unique source record key" = true by decide⟩
    · exact hsame
  · exact hsame

theorem mem_zipIdx_unique {α : Type} {l : List α} {a b : α × ℕ} (ha : a ∈ l.zipIdx)
    (hb : b ∈ l.zipIdx) (h : a.2 = b.2) : a = b := by
  have hx := List.mem_zipIdx_iff_getElem?.mp ha
  have hy := List.mem_zipIdx_iff_getElem?.mp hb
  rw [h, hy] at hx
  exact Prod.ext (Option.some.inj hx).symm h

variable {lines : List (List String)} {p : InterpretedPreview}

theorem interpretCsv_parts (h : interpretCsv parse zones contract header lines = .ok p) :
    ∃ rows, (headerIssues header contract).mapM RowIssue.create = .ok p.issues ∧
      p.issues = headerIssues header contract ∧
      (lines.zipIdx.mapM fun line => interpretRow parse zones contract header
        (headerIssues header contract ≠ []) (line.2+2) line.1) = .ok rows ∧
      p.rows = markDuplicateSourceKeys rows := by
  obtain ⟨issues, hissues, h⟩ := bind_ok.mp h
  obtain ⟨rows, hrows, h⟩ := bind_ok.mp h
  obtain ⟨_, _, h⟩ := bind_ok.mp h
  obtain rfl := Except.ok.inj h
  have hissues := escaping_ok.mp hissues
  obtain rfl := created_same hissues
  exact ⟨rows, hissues, rfl, hrows, rfl⟩

/-- Without an issue of the header, a row of the preview is the marked row of
the line with its number. -/
theorem row_of_line (h : interpretCsv parse zones contract header lines = .ok p)
    (hheader : headerIssues header contract = []) (hi : i ∈ p.rows) {line : List String × ℕ}
    (hline : line ∈ lines.zipIdx) (hnumber : i.rowNumber = line.2+2) : ∃ row,
      Interpretation.interpretRow (reader parse zones) contract header false (line.2+2) line.1 =
        .ok row ∧ Marked row i := by
  obtain ⟨rows, _, _, hrows, hp⟩ := interpretCsv_parts h
  rw [hp] at hi
  obtain ⟨mark, hmark, hmarked⟩ := marked_rows rows
  rw [hmark] at hi
  obtain ⟨row, hrow, rfl⟩ := List.mem_map.mp hi
  have hmarked := hmarked row
  obtain ⟨line', hline', hread⟩ := mapM_mem_right hrows hrow
  simp only [hheader, ne_eq, not_true_eq_false, decide_false] at hread
  have hread := ((interpretRow_ok (by omega)).mp hread).2
  have hsame : line' = line := by
    refine mem_zipIdx_unique hline' hline ?_
    have hn := hmarked.rowNumber
    rw [hnumber, (interpretRow_issues hread).1] at hn
    omega
  exact ⟨row, hsame ▸ hread, hmarked⟩

theorem mem_headerIssues {issue : RowIssue} : issue ∈ headerIssues header contract ↔
    (∃ name, 1 < header.count name ∧ issue = ⟨1, if name = "" then "_header" else name,
      .duplicateHeader, some name, "a unique column header"⟩) ∨
    ∃ column ∈ sourceColumns contract, column ∉ header ∧
      issue = ⟨1, column, .missingColumn, none, "source column " ++ column⟩ := by
  unfold headerIssues
  simp only
  rw [List.mem_append, List.mem_map, List.mem_map]
  constructor
  · rintro (⟨name, hname, rfl⟩ | ⟨column, hcolumn, rfl⟩)
    · exact .inl ⟨name, by simpa using (List.mem_filter.mp hname).2, rfl⟩
    · obtain ⟨hmem, hnot⟩ := List.mem_filter.mp hcolumn
      exact .inr ⟨column, (mem_sortedSet _ _).mp hmem, by simpa using hnot, rfl⟩
  · rintro (⟨name, hname, rfl⟩ | ⟨column, hcolumn, hnot, rfl⟩)
    · have hmem : name ∈ header := List.count_pos_iff.mp (by omega)
      exact .inl ⟨name, List.mem_filter.mpr ⟨List.mem_eraseDups.mpr hmem, by simpa using hname⟩, rfl⟩
    · exact .inr ⟨column, List.mem_filter.mpr ⟨(mem_sortedSet _ _).mpr hcolumn, by simpa using hnot⟩,
        rfl⟩

theorem sourceColumn_text {column : String} (h : column ∈ sourceColumns contract) :
    nonblank column = true := by
  rcases mem_sourceColumns h with ⟨_, text, _⟩ | ⟨operations, _, rfl⟩
  · exact text
  · exact operations.field_text

/-- The issues of the header are built when no repeated name is blank and not
empty. -/
theorem header_created (h : ∀ name ∈ header, nonblank name = false → name = "") :
    (headerIssues header contract).mapM RowIssue.create = .ok (headerIssues header contract) := by
  refine created_all fun issue hissue => ?_
  rcases mem_headerIssues.mp hissue with ⟨name, hcount, rfl⟩ | ⟨column, hcolumn, _, rfl⟩
  · refine ⟨le_refl 1, ?_, show nonblank "a unique column header" = true by decide⟩
    have hmem : name ∈ header := List.count_pos_iff.mp (by omega)
    simp only
    split_ifs with hempty
    · decide
    · rw [← Bool.not_eq_false]
      exact fun hblank => hempty (h name hmem hblank)
  · exact ⟨le_refl 1, sourceColumn_text hcolumn, nonblank_append_left (by decide)⟩

/-- Every row is built when the timestamps are datable and no row contradicts
itself. -/
theorem interpretCsv_total
    (hzones : ∀ name, contract.timezoneName = some name → (zones name).isSome = true)
    (h : Interpretable parse zones contract header lines) :
    ∃ p, interpretCsv parse zones contract header lines = .ok p := by
  have hcreated := @header_created contract header fun name hname hblank =>
    (h.columns name hname hblank).1
  have hline : ∀ line ∈ lines.zipIdx, ∃ i, interpretRow parse zones contract header
      (headerIssues header contract ≠ []) (line.2+2) line.1 = .ok i := by
    intro line hmem
    by_cases hheader : headerIssues header contract = []
    · obtain ⟨i, hi⟩ := @interpretRow_total (reader parse zones) contract (line.2+2) header line.1
        (by omega) (h.operations hheader line hmem)
      simp only [hheader, ne_eq, not_true_eq_false, decide_false]
      exact ⟨i, (interpretRow_ok (by omega)).mpr
        ⟨(readTimestamp_ok hzones).mpr (h.instants hheader line hmem), hi⟩⟩
    · simp only [ne_eq, hheader, not_false_eq_true, decide_true]
      exact ⟨_, interpretRow_blocked⟩
  obtain ⟨rows, hrows⟩ := mapM_exists hline
  obtain ⟨mark, hmark, hmarked⟩ := marked_rows rows
  have hbuilt : ∀ i ∈ rows, 1 ≤ i.rowNumber ∧ ∀ issue ∈ i.issues, 1 ≤ issue.rowNumber ∧
      nonblank issue.field = true ∧ nonblank issue.expected = true := by
    intro i hi
    obtain ⟨line, _, hread⟩ := mapM_mem_right hrows hi
    by_cases hheader : headerIssues header contract = []
    · simp only [hheader, ne_eq, not_true_eq_false, decide_false] at hread
      have hread := ((interpretRow_ok (by omega)).mp hread).2
      refine ⟨by rw [(interpretRow_issues hread).1]; omega, fun issue hissue => ?_⟩
      exact concerns_created (by omega) (interpretRow_concerns hread issue hissue)
    · simp only [ne_eq, hheader, not_false_eq_true, decide_true] at hread
      rw [← Except.ok.inj hread]
      exact ⟨show 1 ≤ line.2+2 by omega, fun _ hissue => by cases hissue⟩
  have hall := @created_all ((markDuplicateSourceKeys rows).flatMap (·.issues)) (by
    intro issue hissue
    obtain ⟨j, hj, hissue⟩ := List.mem_flatMap.mp hissue
    rw [hmark] at hj
    obtain ⟨i, hi, rfl⟩ := List.mem_map.mp hj
    rcases (hmarked i).added issue hissue with hissue | ⟨hn, hf, hexpected⟩
    · exact (hbuilt i hi).2 issue hissue
    · exact ⟨hn ▸ (hbuilt i hi).1, hf ▸ by decide, hexpected⟩)
  refine ⟨⟨markDuplicateSourceKeys rows, headerIssues header contract⟩, ?_⟩
  rw [interpretCsv, escaping_ok.mpr hcreated, ok_bind, hrows, ok_bind]
  simp only
  rw [escaping_ok.mpr hall]
  rfl

theorem interpretCsv_ordered (h : interpretCsv parse zones contract header lines = .ok p) :
    p.rows.map (·.rowNumber) = (List.range lines.length).map (·+2) := by
  obtain ⟨rows, _, _, hrows, hp⟩ := interpretCsv_parts h
  obtain ⟨mark, hmark, hmarked⟩ := marked_rows rows
  have hnumbers := mapM_map hrows (q := fun i => i.rowNumber) (p := fun line => line.2+2) (by
    intro line _ i hi
    by_cases hheader : headerIssues header contract = []
    · simp only [hheader, ne_eq, not_true_eq_false, decide_false] at hi
      exact (interpretRow_issues ((interpretRow_ok (by omega)).mp hi).2).1
    · simp only [ne_eq, hheader, not_false_eq_true, decide_true] at hi
      rw [← Except.ok.inj hi])
  rw [hp, hmark, List.map_map]
  rw [show ((fun i : InterpretedRow => i.rowNumber) ∘ mark) = fun i => i.rowNumber from
    funext fun i => (hmarked i).rowNumber, hnumbers, List.range_eq_range',
    ← List.zipIdx_map_snd 0 lines, List.map_map]
  rfl

/-- A preview of a file is built and reports every defect exactly when a blank
column name is empty and repeated, every timestamp that is read is datable, and
no row cancels what its state does not. -/
theorem defects_reported_iff (parse : String → String → Parsing) (zones : String → Option Zone)
    (contract : SourceContract) (header : List String) (lines : List (List String))
    (hzones : ∀ name, contract.timezoneName = some name → (zones name).isSome = true) :
    (∃ p, interpretCsv parse zones contract header lines = .ok p ∧
      Reported parse zones contract header lines p) ↔
      Interpretable parse zones contract header lines := by
  constructor
  · rintro ⟨p, hp, hreported⟩
    obtain ⟨rows, hcreated, hissues, hrows, hmarked⟩ := interpretCsv_parts hp
    constructor
    · intro name hname hblank
      obtain ⟨issue, hissue, hvalue⟩ := hreported.blank name hname hblank
      rw [hissues] at hissue
      obtain ⟨_, _, hbuilt⟩ := mapM_mem hcreated hissue
      rcases mem_headerIssues.mp hissue with ⟨name', hcount, rfl⟩ | ⟨_, _, _, rfl⟩
      · obtain rfl := Option.some.inj hvalue
        have hfield := (create_same hbuilt).2
        refine ⟨?_, hcount⟩
        by_contra hne
        simp only [if_neg hne, hblank, Bool.false_eq_true] at hfield
      · cases hvalue
    · intro hheader line hline
      obtain ⟨i, _, hread⟩ := mapM_mem hrows hline
      simp only [hheader, ne_eq, not_true_eq_false, decide_false] at hread
      exact (readTimestamp_ok hzones).mp ((interpretRow_ok (by omega)).mp hread).1
    · intro hheader line hline hcontradicts
      obtain ⟨i, hi, hread⟩ := mapM_mem hrows hline
      simp only [hheader, ne_eq, not_true_eq_false, decide_false] at hread
      have hread := ((interpretRow_ok (by omega)).mp hread).2
      obtain ⟨mark, hmark, hmarks⟩ := marked_rows rows
      have hmem : mark i ∈ p.rows := by
        rw [hmarked, hmark]
        exact List.mem_map_of_mem hi
      have hnumber : (mark i).rowNumber = line.2+2 := by
        rw [(hmarks i).rowNumber, (interpretRow_issues hread).1]
      obtain ⟨issue, hissue, hnamed⟩ :=
        hreported.contradictions hheader line hline (mark i) hmem hnumber hcontradicts
      rcases (hmarks i).added issue hissue with hissue | ⟨_, hfield, _⟩
      · exact contradicts_unnamed hcontradicts (interpretRow_concerns hread issue hissue) hnamed
      · rw [hfield] at hnamed
        exact absurd hnamed (by decide)
  · intro h
    obtain ⟨p, hp⟩ := interpretCsv_total hzones h
    obtain ⟨_, _, hissues, _, _⟩ := interpretCsv_parts hp
    have hrepeated : ∀ name, 1 < header.count name → ∃ issue ∈ p.issues,
        issue.code = .duplicateHeader ∧ issue.originalValue = some name := by
      intro name hcount
      exact ⟨_, hissues ▸ mem_headerIssues.mpr (.inl ⟨name, hcount, rfl⟩), rfl, rfl⟩
    refine ⟨p, hp, interpretCsv_ordered hp, hrepeated, ?_, ?_, ?_, ?_, ?_⟩
    · intro name hname hblank
      obtain ⟨issue, hissue, _, hvalue⟩ := hrepeated name (h.columns name hname hblank).2
      exact ⟨issue, hissue, hvalue⟩
    · intro column hcolumn hnot
      exact ⟨_, hissues ▸ mem_headerIssues.mpr (.inr ⟨column, hcolumn, hnot, rfl⟩), rfl, rfl⟩
    · intro hheader line hline i hi hnumber issue hissue
      obtain ⟨row, hrow, hmarked⟩ := row_of_line hp hheader hi hline hnumber
      refine hmarked.kept issue ?_
      rw [(interpretRow_issues hrow).2]
      exact List.mem_append_left _ hissue
    · intro hheader line hline i hi hnumber hretract field issue hissue
      obtain ⟨row, hrow, hmarked⟩ := row_of_line hp hheader hi hline hnumber
      refine hmarked.kept issue ?_
      rw [(interpretRow_issues hrow).2, hretract, if_neg (by decide)]
      by_cases hkey : field = .sourceRecordKey
      · subst hkey
        refine List.mem_append_left _ (List.mem_append_right _ ?_)
        rw [fieldIssues, @binding_some contract .sourceRecordKey (by decide)] at hissue
        rw [parseText_issues]
        exact hissue
      · refine List.mem_append_right _ (List.mem_flatMap.mpr ⟨field, ?_, hissue⟩)
        cases field <;> first | exact absurd rfl hkey | decide
    · intro hheader line hline _ _ _ hcontradicts
      exact absurd hcontradicts (h.operations hheader line hline)

end Rows

def deltaNames : List (String × IngestionOperation) :=
  [("UPSERT", .upsert), ("CANCEL", .cancel), ("RETRACT", .retract)]

theorem deltaField_text : nonblank "operation" = true := by decide

theorem deltaNames_text : ∀ pair ∈ deltaNames, nonblank pair.1 = true := by decide

theorem deltaNames_unique : (deltaNames.map (·.1)).Nodup := by decide

theorem deltaNames_cover (o : IngestionOperation) : o ∈ deltaNames.map (·.2) ↔ o ≠ .snapshot := by
  cases o <;> decide

def deltaOperations : OperationMapping where
  field := "operation"
  field_text := deltaField_text
  mapping := deltaNames
  texts := deltaNames_text
  unique := deltaNames_unique
  covers := deltaNames_cover

/-- A delta whose rows differ in their operation only. -/
def deltaContract : SourceContract :=
  { Observations.sampleContract with
    mode := .delta
    timestampFormat := "ISO8601"
    timezoneName := none
    bindings := fun field => some (.constant
      (if field = .executedAtUtc then "2024-01-02T03:04:05+00:00"
        else Observations.sampleConstant field))
    operations := some deltaOperations
    timestampFormat_text := by decide
    bound := fun _ _ => rfl
    reference_bound := fun _ => rfl
    operations_delta := by decide }

def deltaTime : Local := ⟨63839761445000000, sampleTime_bound⟩

def deltaParse (format source : String) : Parsing :=
  if format = "ISO8601" ∧ source = "2024-01-02T03:04:05+00:00" then
    .aware deltaTime 0
  else .valueError

/-- A settled row that is cancelled keeps the file from being previewed. -/
theorem cancelled_row_escapes :
    ¬∃ p, interpretCsv deltaParse (fun _ => none) deltaContract ["operation"]
        [["UPSERT"], ["CANCEL"]] = .ok p ∧
      Reported deltaParse (fun _ => none) deltaContract ["operation"]
        [["UPSERT"], ["CANCEL"]] p := by
  rintro ⟨p, hp, _⟩
  have hescape : (match interpretCsv deltaParse (fun _ => none) deltaContract ["operation"]
      [["UPSERT"], ["CANCEL"]] with
    | .error e => some e
    | .ok _ => none) = some (.failure
      (.domainValidation "a cancellation operation requires cancelled state")) := by
    decide +kernel
  rw [hp] at hescape
  cases hescape

theorem defects_reported_sample :
    ∃ p, interpretCsv deltaParse (fun _ => none) deltaContract ["operation"] [["UPSERT"]] = .ok p ∧
      Reported deltaParse (fun _ => none) deltaContract ["operation"] [["UPSERT"]] p := by
  refine (defects_reported_iff deltaParse (fun _ => none) deltaContract ["operation"] [["UPSERT"]]
    fun _ h => by cases h).mpr ⟨by decide, fun _ line hline _ source hsource => ?_,
      fun _ line hline hcontradicts => ?_⟩
  · obtain rfl := List.mem_singleton.mp hline
    obtain rfl := RawCell.value.inj hsource
    have hparse : deltaParse "ISO8601" (strip "2024-01-02T03:04:05+00:00") =
        .aware ⟨63839761445000000, by decide⟩ 0 := by decide +kernel
    split
    · rename_i time offset h
      obtain ⟨rfl, rfl⟩ := Parsing.aware.inj (hparse.symm.trans h)
      decide
    all_goals
      rename_i h
      cases hparse.symm.trans h
  · obtain rfl := List.mem_singleton.mp hline
    obtain ⟨origin, state, hoperation, _⟩ := hcontradicts
    have hupsert : (parseOperation 2 deltaContract (rawValues ["operation"] ["UPSERT"] [])
        ).toOption.map Prod.fst = some .upsert := by decide +kernel
    rw [show parseOperation 2 deltaContract (rawValues ["operation"] ["UPSERT"] []) =
      .ok (.cancel, origin) from hoperation] at hupsert
    cases hupsert

end Workbench.Defects
