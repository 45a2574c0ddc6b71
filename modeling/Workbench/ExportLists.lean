import Workbench.CaseExports
import Workbench.ReviewLists

/-!
# Exports and lists

An export selects its rows with filters of its own, and in one go. Its review
view holds what the pages of the list of cases show under the same filters, in
the same order; its view of a run holds the cases that the pages of the run show.
-/

set_option autoImplicit false

namespace Workbench.ExportLists
open Workbench.Listing Workbench.Calendar Workbench.Raising Workbench.Records Workbench.Cursors
open Workbench.ReviewLists Workbench.CaseExports Workbench.Json
open Workbench.Decisions (Uuid)

/-- Exports read more than the lists do: the current run of a scope, whether a
run completed, and an occurrence with the rows that it refers to. -/
structure ExportTables extends Tables where
  currentRun : Uuid → Option Uuid
  completed : Uuid → Bool
  occurrence : Uuid → Occurrence

section Selecting
variable (texts : Texts) (db : ExportTables)

def filterCases (f : CaseFilters) (case : CaseRow) : Bool :=
  (f.search = "" || (case.stableKey :: case.subject.keys).any
    fun key => texts.icontains key f.search) &&
  (f.kind = "" || case.subject.kind = f.kind)

def currentProjections (workspaceId scopeId : Uuid) (f : CaseFilters) : List ProjectionRow :=
  orderBy projectionCursor (f.sort = "newest") (db.projections.filter fun row =>
    row.workspaceId = workspaceId && row.scopeId = scopeId && filterCases texts f row.case &&
      (if f.review = "UNREVIEWED" then row.reviewHealth = none
        else f.review = "" || row.reviewHealth = some f.review))

def caseCursor (row : OccurrenceRow) : ReviewCursor := ⟨row.case.createdAt, row.case.id⟩

def runOccurrences (workspaceId runId : Uuid) (f : CaseFilters) : List OccurrenceRow :=
  orderBy caseCursor (f.sort = "newest") (db.occurrences.filter fun row =>
    row.workspaceId = workspaceId && row.runId = runId && filterCases texts f row.case)

/-- `_run`; a run id that is no UUID is `none`. -/
def exportRun (workspaceId scopeId : Uuid) : Option Uuid → Except QueryError RunRow
  | none => .error .unavailable
  | some runId =>
    match db.runs.find? fun r => r.workspaceId = workspaceId ∧ r.id = runId ∧
        r.scopeId = scopeId ∧ db.completed r.id = true with
    | some run => .ok run
    | none => .error .unavailable

def projected (row : ProjectionRow) : Projection :=
  ⟨db.occurrence row.currentOccurrenceId, row.reviewHealth, row.attention, row.updatedAt⟩

def available (selection : Selection) : Except QueryError CaseExportDocument :=
  match build selection with
  | some d => .ok d
  | none => .error .unavailable

/-- `CaseExportService.build`. -/
def buildExport (workspaceId bookId scopeId : Uuid) (view : String) (runId : Option Uuid)
    (search kind review : Option String) (sort : String) :
    Except QueryError CaseExportDocument := do
  let (_, scope) ← context db.toTables workspaceId bookId scopeId
  let f ← caseFilters texts search kind review sort
  if view = "current_review" then
    available (.currentReview (db.currentRun scope.id)
      ((currentProjections texts db workspaceId scope.id f).map (projected db)))
  else if view = "run_facts" then
    if f.review ≠ "" then .error .unavailable
    else
      let run ← exportRun db workspaceId scope.id runId
      available (.runFacts run.id
        ((runOccurrences texts db workspaceId run.id f).map fun row => db.occurrence row.id))
  else .error .unavailable

end Selecting

def OfRow (o : Occurrence) (case : CaseRow) (runId : Uuid) (resultKind : String) : Prop :=
  o.caseId = case.id ∧ o.caseKind = case.subject.kind ∧ o.runId = runId ∧
    o.resultKind = resultKind

/-- What a publication stores: a projection is of the case and of the run of its
current occurrence, and an occurrence is in the scope of its run and of a case
of the book of that scope. -/
structure Joined (db : ExportTables) : Prop where
  projections : ∀ row ∈ db.projections,
    OfRow (db.occurrence row.currentOccurrenceId) row.case row.runId row.resultKind
  occurrences : ∀ row ∈ db.occurrences, OfRow (db.occurrence row.id) row.case row.runId
    row.resultKind
  scopes : ∀ row ∈ db.occurrences, ∀ run ∈ db.runs, run.id = row.runId →
    row.runScopeId = run.scopeId
  books : ∀ row ∈ db.occurrences, ∀ scope ∈ db.scopes, scope.id = row.runScopeId →
    row.case.bookId = scope.bookId

/-- A row of the review view says of a case what its item in the list says. -/
structure Shows (item : CaseListItem) (row : CaseExportRow) : Prop where
  caseId : row.caseId = item.caseId.text
  caseKind : row.caseKind = item.kind
  runId : row.runId = item.runId.text
  resultKind : row.resultKind = item.resultKind
  health : row.reviewHealth = shownHealth item.reviewHealth
  attention : row.reviewAttention = ", ".intercalate item.attention
  asOf : row.reviewStateAsOfUtc = isoformat item.updatedAt

def itemFacts (item : CaseListItem) : String × String × String × String :=
  (item.caseId.text, item.kind, item.runId.text, item.resultKind)

def rowFacts (row : CaseExportRow) : String × String × String × String :=
  (row.caseId, row.caseKind, row.runId, row.resultKind)

section Lists
variable {texts : Texts} {digest : Digest} {parsers : Parsers} {db : ExportTables}
  {workspaceId bookId scopeId : Uuid} {book : BookRow} {scope : ScopeRow} {f : CaseFilters}

theorem context_ok (h : context db.toTables workspaceId bookId scopeId = .ok (book, scope)) :
    scope ∈ db.scopes ∧ scope.id = scopeId ∧ scope.bookId = bookId := by
  unfold context at h
  split_ifs at h
  split at h
  · rename_i hscope
    obtain ⟨rfl, rfl⟩ := Prod.mk.inj (Except.ok.inj h)
    have hspec := List.find?_some hscope
    simp only [decide_eq_true_eq] at hspec
    exact ⟨List.mem_of_find?_eq_some hscope, hspec.2.1, hspec.2.2⟩
  · cases h

theorem cases_shown {pageSize : ℤ} (hsound : Sound parsers db.toTables)
    (hcontext : context db.toTables workspaceId bookId scopeId = .ok (book, scope))
    (hsize : 1 ≤ pageSize ∧ pageSize ≤ 100) {search kind review : Option String} {sort : String}
    (hf : caseFilters texts search kind review sort = .ok f) :
    ShowsAll (listCases texts digest parsers db.toTables workspaceId bookId scopeId pageSize search
        kind review sort) (projectionItem texts) projectionCursor (f.sort = "newest")
      (db.projections.filter (caseMatches texts workspaceId scopeId f)) := by
  obtain ⟨size, hbounded, hpositive⟩ := boundedPageSize_ok hsize
  refine showsAll (cursorNamespace digest f)
    (db.projections.filter (caseMatches texts workspaceId scopeId f)).length hpositive
    (projections_unique hsound.projections f)
    (fun row hrow => hsound.readProjections row (List.mem_of_mem_filter hrow))
    fun cursor position hdecode => ?_
  simp only [listCases, hbounded, hf, readCursorText_ok hdecode, hcontext, ok_bind]

theorem run_shown {pageSize : ℤ} (hsound : Sound parsers db.toTables)
    (hcontext : context db.toTables workspaceId bookId scopeId = .ok (book, scope))
    (hsize : 1 ≤ pageSize ∧ pageSize ≤ 100) {run : RunRow} (hrun : run ∈ db.runs)
    (hspec : run.workspaceId = workspaceId ∧ run.scopeId = scopeId) :
    ShowsAll (listRunCases texts parsers db.toTables workspaceId bookId scopeId run.id pageSize)
      (occurrenceItem texts) occurrenceCursor false
      (db.occurrences.filter (runCaseMatches workspaceId bookId scopeId run.id)) := by
  obtain ⟨size, hbounded, hpositive⟩ := boundedPageSize_ok hsize
  have hany : (db.runs.any fun r => r.workspaceId = workspaceId ∧ r.id = run.id ∧
      r.scopeId = scopeId) = true :=
    List.any_eq_true.mpr ⟨run, hrun, decide_eq_true ⟨hspec.1, rfl, hspec.2⟩⟩
  refine showsAll (runCaseNamespace run.id)
    (db.occurrences.filter (runCaseMatches workspaceId bookId scopeId run.id)).length hpositive
    (hsound.occurrences.sublist (List.filter_sublist.map _))
    (fun row hrow => hsound.readOccurrences row (List.mem_of_mem_filter hrow))
    fun cursor position hdecode => ?_
  simp only [listRunCases, hbounded, hcontext, hany, readCursorText_ok hdecode, ok_bind]
  rfl

theorem selected_projections (workspaceId scopeId : Uuid) (f : CaseFilters) :
    currentProjections texts db workspaceId scopeId f = orderBy projectionCursor
      (f.sort = "newest") (db.projections.filter (caseMatches texts workspaceId scopeId f)) := by
  unfold currentProjections
  congr 1
  refine List.filter_congr fun row _ => ?_
  simp only [caseMatches, filterCases, Bool.and_assoc]

theorem listed_once {ρ : Type} {cursorOf : ρ → ReviewCursor} {descending : Bool}
    {rows rows' : List ρ} (hperm : rows.Perm rows')
    (h : rows.Pairwise fun a b => Before descending (cursorOf a) (cursorOf b))
    (h' : rows'.Pairwise fun a b => Before descending (cursorOf a) (cursorOf b)) :
    rows = rows' :=
  hperm.eq_of_pairwise (fun _ _ _ _ hab hba => absurd hba (before_asymm hab)) h h'

def reviewRow (db : ExportTables) (row : ProjectionRow) : CaseExportRow :=
  caseRow (db.occurrence row.currentOccurrenceId) "current_review" (shownHealth row.reviewHealth)
    (", ".intercalate row.attention) (some row.updatedAt)

def factsRow (db : ExportTables) (row : OccurrenceRow) : CaseExportRow :=
  caseRow (db.occurrence row.id) "run_facts" "" "" none

theorem shows_projection (hjoined : Joined db) {row : ProjectionRow} (hrow : row ∈ db.projections) :
    Shows (projectionItem texts row) (reviewRow db row) := by
  obtain ⟨hcase, hkind, hrun, hresult⟩ := hjoined.projections row hrow
  refine ⟨?_, ?_, ?_, ?_, rfl, rfl, rfl⟩
  · exact congrArg Uuid.text hcase
  · exact hkind
  · exact congrArg Uuid.text hrun
  · exact hresult

theorem facts_occurrence (hjoined : Joined db) {row : OccurrenceRow} (hrow : row ∈ db.occurrences) :
    rowFacts (factsRow db row) = itemFacts (occurrenceItem texts row) := by
  obtain ⟨hcase, hkind, hrun, hresult⟩ := hjoined.occurrences row hrow
  simp only [rowFacts, itemFacts, factsRow, caseRow, occurrenceItem, hcase, hkind, hrun, hresult]

/-- Without a search, the occurrences exported of a run are those listed for it
that are of the kind asked for. -/
theorem selected_occurrences (hjoined : Joined db)
    (hcontext : context db.toTables workspaceId bookId scopeId = .ok (book, scope))
    {run : RunRow} (hrun : run ∈ db.runs) (hscope : run.scopeId = scopeId)
    (hsearch : f.search = "") :
    (runOccurrences texts db workspaceId run.id f).Perm
      ((db.occurrences.filter (runCaseMatches workspaceId bookId scopeId run.id)).filter fun row =>
        f.kind = "" ∨ (occurrenceItem texts row).kind = f.kind) := by
  refine (orderBy_perm _ _ _).trans (List.Perm.of_eq ?_)
  rw [List.filter_filter]
  refine List.filter_congr fun row hrow => ?_
  obtain ⟨hmem, hid, hbook⟩ := context_ok hcontext
  rw [Bool.eq_iff_iff]
  simp only [runCaseMatches, filterCases, hsearch, occurrenceItem, Bool.and_eq_true,
    Bool.or_eq_true, decide_eq_true_eq, decide_true, Bool.true_or, true_and]
  constructor
  · rintro ⟨⟨hworkspace, hof⟩, hkind⟩
    have hscoped := (hjoined.scopes row hrow run hrun hof.symm).trans hscope
    have hcase := hjoined.books row hrow scope hmem (hid.trans hscoped.symm)
    exact ⟨decide_eq_true hkind, ⟨⟨hworkspace, hcase.trans hbook⟩, hof⟩, hscoped⟩
  · rintro ⟨hkind, ⟨⟨hworkspace, -⟩, hof⟩, -⟩
    exact ⟨⟨hworkspace, hof⟩, of_decide_eq_true hkind⟩

theorem exportRun_ok {runId : Uuid} (h : ∃ run ∈ db.runs, run.workspaceId = workspaceId ∧
    run.id = runId ∧ run.scopeId = scopeId ∧ db.completed run.id = true) :
    ∃ run ∈ db.runs, exportRun db workspaceId scopeId (some runId) = .ok run ∧
      run.workspaceId = workspaceId ∧ run.id = runId ∧ run.scopeId = scopeId := by
  obtain ⟨run, hrun, hspec⟩ := h
  cases hfind : db.runs.find? fun r => r.workspaceId = workspaceId ∧ r.id = runId ∧
      r.scopeId = scopeId ∧ db.completed r.id = true with
  | none => exact absurd (decide_eq_true hspec) (List.find?_eq_none.mp hfind run hrun)
  | some found =>
    have hfound := List.find?_some hfind
    simp only [decide_eq_true_eq] at hfound
    obtain ⟨hworkspace, hid, hscope, -⟩ := hfound
    refine ⟨found, List.mem_of_find?_eq_some hfind, ?_, hworkspace, hid, hscope⟩
    rw [exportRun, hfind]

section Built
variable {search kind review : Option String} {sort : String} {runId : Option Uuid}

theorem built_review (hcontext : context db.toTables workspaceId bookId scopeId = .ok (book, scope))
    (hf : caseFilters texts search kind review sort = .ok f) {run : Uuid}
    (hcurrent : db.currentRun scope.id = some run) :
    buildExport texts db workspaceId bookId scopeId "current_review" runId search kind review sort =
      .ok (document "current_review" run.text
        ((currentProjections texts db workspaceId scope.id f).map (reviewRow db))) := by
  simp only [buildExport, hcontext, hf, ok_bind, if_true, hcurrent, available, build, List.map_map]
  rfl

theorem built_facts (hcontext : context db.toTables workspaceId bookId scopeId = .ok (book, scope))
    (hf : caseFilters texts search kind review sort = .ok f) (hreview : f.review = "")
    {run : RunRow} (hrun : exportRun db workspaceId scope.id runId = .ok run) :
    buildExport texts db workspaceId bookId scopeId "run_facts" runId search kind review sort =
      .ok (document "run_facts" run.id.text
        ((runOccurrences texts db workspaceId run.id f).map (factsRow db))) := by
  have hview : ("run_facts" : String) ≠ "current_review" := by decide
  simp only [buildExport, hcontext, hf, ok_bind, if_neg hview, if_true, hreview, ne_eq,
    not_true_eq_false, if_false, hrun, available, build, List.map_map]
  rfl

end Built

/-- An export in the review view has one row for each item that the pages of the
list of cases show, in their order, whatever the size of the pages; an export of
a completed run has the cases of the kind asked for among those that the pages
of the run show. -/
theorem exports_what_is_listed {pageSize : ℤ} (hsound : Sound parsers db.toTables)
    (hjoined : Joined db)
    (hcontext : context db.toTables workspaceId bookId scopeId = .ok (book, scope))
    (hsize : 1 ≤ pageSize ∧ pageSize ≤ 100) {search kind review : Option String} {sort : String}
    (hf : caseFilters texts search kind review sort = .ok f) :
    (∀ runId run, db.currentRun scopeId = some run →
      ∃ d, buildExport texts db workspaceId bookId scopeId "current_review" runId search kind
          review sort = .ok d ∧ d.runId = run.text ∧
        ∃ pages, Keysets.Walk (listCases texts digest parsers db.toTables workspaceId bookId
            scopeId pageSize search kind review sort) ReviewPage.nextCursor none pages ∧
          List.Forall₂ Shows (pages.flatMap ReviewPage.items) d.rows) ∧
    ∀ runId, (∃ run ∈ db.runs, run.workspaceId = workspaceId ∧ run.id = runId ∧
        run.scopeId = scopeId ∧ db.completed run.id = true) → f.search = "" → f.review = "" →
      ∃ d, buildExport texts db workspaceId bookId scopeId "run_facts" (some runId) search kind
          review sort = .ok d ∧ d.runId = runId.text ∧
        ∃ pages, Keysets.Walk (listRunCases texts parsers db.toTables workspaceId bookId scopeId
            runId pageSize) ReviewPage.nextCursor none pages ∧
          (d.rows.map rowFacts).Perm (((pages.flatMap ReviewPage.items).filter fun item =>
            f.kind = "" ∨ item.kind = f.kind).map itemFacts) := by
  obtain ⟨-, hid, -⟩ := context_ok hcontext
  refine ⟨fun runId run hcurrent => ?_, fun runId hrun hsearch hreview => ?_⟩
  · obtain ⟨pages, rows, hwalk, hitems, hperm, hordered⟩ := cases_shown hsound hcontext hsize hf
    have hrows : currentProjections texts db workspaceId scope.id f = rows := by
      rw [hid, selected_projections]
      exact listed_once ((orderBy_perm _ _ _).trans hperm.symm)
        (orderBy_sorted (projections_unique hsound.projections f) _) hordered
    refine ⟨_, built_review hcontext hf (hid.symm ▸ hcurrent), rfl, pages, hwalk, ?_⟩
    rw [hitems, hrows]
    simp only [document, List.forall₂_map_left_iff, List.forall₂_map_right_iff]
    exact List.forall₂_same.mpr fun row hrow =>
      shows_projection hjoined (List.mem_of_mem_filter (hperm.mem_iff.mp hrow))
  · obtain ⟨run, hr, hrun, hworkspace, rfl, hscope⟩ := exportRun_ok hrun
    obtain ⟨pages, rows, hwalk, hitems, hperm, -⟩ := run_shown hsound hcontext hsize hr
      ⟨hworkspace, hscope⟩
    refine ⟨_, built_facts hcontext hf hreview (hid.symm ▸ hrun), rfl, pages, hwalk, ?_⟩
    have hselected : (runOccurrences texts db workspaceId run.id f).Perm _ :=
      selected_occurrences hjoined hcontext hr hscope hsearch
    have hfacts : ∀ row ∈ runOccurrences texts db workspaceId run.id f,
        rowFacts (factsRow db row) = itemFacts (occurrenceItem texts row) := fun row hrow =>
      facts_occurrence hjoined (List.mem_of_mem_filter
        (List.mem_of_mem_filter (hselected.mem_iff.mp hrow)))
    rw [hitems, document, List.map_map, List.filter_map, List.map_map]
    refine (List.Perm.of_eq (List.map_congr_left hfacts)).trans ?_
    exact (hselected.trans (hperm.symm.filter _)).map _

end Lists

/-! The lists of two pairs and a record, as exports -/

def listedOccurrence (id : Uuid) : Occurrence :=
  if id = lastId then
    { tradeCase with
      caseId := lastId
      caseKind := "UNPAIRED"
      runId := sampleId
      resultKind := "UNPAIRED"
      result := .unpaired .left tradeStored }
  else
    { tradeCase with
      caseId := id
      runId := sampleId }

def listedTables : ExportTables :=
  { sampleTables with
    currentRun := fun _ => some sampleId
    completed := fun _ => true
    occurrence := listedOccurrence }

theorem listed_pair {id : Uuid} (h : id ≠ lastId) (left right : String) :
    OfRow (listedOccurrence id) (caseOf id (.pair left right)) sampleId "PAIR" := by
  unfold listedOccurrence
  rw [if_neg h]
  exact ⟨rfl, rfl, rfl, rfl⟩

theorem listed_unpaired (record side : String) :
    OfRow (listedOccurrence lastId) (caseOf lastId (.unpaired record side)) sampleId "UNPAIRED" := by
  unfold listedOccurrence
  rw [if_pos rfl]
  exact ⟨rfl, rfl, rfl, rfl⟩

theorem listed_joined : Joined listedTables where
  projections := by
    simp only [listedTables, sampleTables, List.forall_mem_cons]
    exact ⟨listed_pair (by decide) _ _, listed_pair (by decide) _ _, listed_unpaired _ _, by simp⟩
  occurrences := by
    simp only [listedTables, sampleTables, List.forall_mem_cons]
    exact ⟨listed_unpaired _ _, listed_pair (by decide) _ _, listed_pair (by decide) _ _, by simp⟩
  scopes := by
    simp only [listedTables, sampleTables, List.forall_mem_cons]
    exact ⟨⟨fun _ => rfl, by simp⟩, ⟨fun _ => rfl, by simp⟩, ⟨fun _ => rfl, by simp⟩, by simp⟩
  books := by
    simp only [listedTables, sampleTables, List.forall_mem_cons]
    exact ⟨⟨fun _ => rfl, by simp⟩, ⟨fun _ => rfl, by simp⟩, ⟨fun _ => rfl, by simp⟩, by simp⟩

theorem pairs_walked : Keysets.Walk pairsListed ReviewPage.nextCursor none
    [⟨[projectionItem plainTexts (projectionOf laterId (.pair "TX-3" "TX-4"))], some pairCursor, 2⟩,
      ⟨[projectionItem plainTexts (projectionOf sampleId (.pair "TX-1" "TX-2"))], none, 2⟩] :=
  .more pairs_first rfl (.last pairs_second rfl)

/-- Both views of the pairs, the first one against two pages. -/
theorem exports_what_is_listed_sample :
    (∃ d pages, buildExport plainTexts listedTables sampleId sampleId sampleId "current_review"
        none none (some "PAIR") none "newest" = .ok d ∧
      Keysets.Walk pairsListed ReviewPage.nextCursor none pages ∧ pages.length = 2 ∧
      List.Forall₂ Shows (pages.flatMap ReviewPage.items) d.rows) ∧
    ∃ d pages, buildExport plainTexts listedTables sampleId sampleId sampleId "run_facts"
        (some sampleId) none (some "PAIR") none "newest" = .ok d ∧ d.rows.length = 2 ∧
      Keysets.Walk (listRunCases plainTexts listedParsers sampleTables sampleId sampleId sampleId
        sampleId 1) ReviewPage.nextCursor none pages ∧
      (d.rows.map rowFacts).Perm (((pages.flatMap ReviewPage.items).filter fun item =>
        item.kind = "PAIR").map itemFacts) := by
  have hsize : (1 : ℤ) ≤ 1 ∧ (1 : ℤ) ≤ 100 := by decide
  have hf : caseFilters plainTexts none (some "PAIR") none "newest" = .ok pairFilters := rfl
  obtain ⟨hreview, hfacts⟩ := @exports_what_is_listed plainTexts checksum listedParsers listedTables
    _ _ _ _ _ _ 1 sample_sound listed_joined sample_context hsize _ _ _ _ hf
  constructor
  · obtain ⟨d, hd, -, pages, hwalk, hshows⟩ := hreview none sampleId rfl
    refine ⟨d, pages, hd, hwalk, ?_, hshows⟩
    rw [Keysets.Walk.unique hwalk pairs_walked]
    rfl
  · obtain ⟨d, hd, -, pages, hwalk, hperm⟩ := hfacts sampleId
      ⟨_, List.mem_singleton_self _, rfl, rfl, rfl, rfl⟩ rfl rfl
    refine ⟨d, pages, hd, ?_, hwalk, ?_⟩
    · have hcount : (buildExport plainTexts listedTables sampleId sampleId sampleId "run_facts"
          (some sampleId) none (some "PAIR") none "newest").toOption.map (·.rows.length) =
            some 2 := by
        decide +kernel
      rw [hd] at hcount
      exact Option.some.inj hcount
    · refine hperm.trans (List.Perm.of_eq ?_)
      simp [pairFilters]

end Workbench.ExportLists
