import Workbench.ChangingPages
import Workbench.ReviewLists

/-!
# Lists that change while they are read

Cases are published, decided and dropped between the requests of a reader who
follows the cursors of a list. Whatever happens in between, the reader is shown
rows that are there, in the order of the list and none twice, and each row that
is there at every request.
-/

set_option autoImplicit false

namespace Workbench.ReviewVisits
open Workbench.Raising Workbench.Records Workbench.Json Workbench.Cursors Workbench.Keysets
open Workbench.ReviewLists Workbench.ChangingPages Workbench.JsonReading
open Workbench.Decisions (Uuid)

section One
variable {ρ ι : Type} {space : String} {descending : Bool} {cursorOf : ρ → ReviewCursor}
  {ident : ι → ReviewCursor} {size : ℕ} {found : List ρ} {parsers : Parsers}

theorem before_trans {a b c : ReviewCursor} (h : Before descending a b)
    (h' : Before descending b c) : Before descending a c := by
  cases descending with
  | false => exact lt_trans h h'
  | true => exact lt_trans h' h

def Readable (parsers : Parsers) (k : ReviewCursor) : Prop :=
  Reads parsers k.createdAt k.publicId

theorem paged (space : String) {list : Option String → Except QueryError (ReviewPage ι)}
    (hunique : (found.map fun row => (cursorOf row).publicId).Nodup)
    (hreads : ∀ row ∈ found, Readable parsers (cursorOf row))
    (hlist : ∀ cursor position page, decodeReviewCursor parsers space cursor = .ok position →
      list cursor = .ok page → ∃ item total, (∀ row, ident (item row) = cursorOf row) ∧
        pageOf space descending cursorOf item size total found position = .ok page) :
    Paged (Before descending) cursorOf
      (fun position row => follows descending position (cursorOf row))
      (orderBy cursorOf descending found) size list ReviewPage.nextCursor ReviewPage.items ident
      (textOf space) (Readable parsers) where
  listed := ⟨orderBy_sorted hunique descending, fun _ _ _ => follows_iff⟩
  reads row hrow := hreads row ((orderBy_perm _ _ _).mem_iff.mp hrow)
  page position page hposition h := by
    have hdecode : decodeReviewCursor parsers space (position.map (textOf space)) =
        .ok position := by
      cases position with
      | none => rfl
      | some k => exact decode_cursorText (hposition k rfl)
    obtain ⟨item, total, hident, hpage⟩ := hlist _ position page hdecode h
    rw [pageOf_ok] at hpage
    obtain rfl := Except.ok.inj hpage
    refine ⟨?_, rfl⟩
    rw [List.map_map]
    exact List.map_congr_left fun row _ => hident row

/-- What a reader is shown of a list that changes between the requests. -/
structure Faithful (visits : List (Tables × ReviewPage ι)) (ident : ι → ReviewCursor)
    (descending : Bool) (cursors : Tables → List ReviewCursor) : Prop where
  there : ∀ v ∈ visits, ∀ i ∈ v.2.items, ident i ∈ cursors v.1
  ordered : (visits.flatMap fun v => v.2.items).Pairwise fun i j =>
    Before descending (ident i) (ident j)
  complete : ∀ k, (∀ v ∈ visits, k ∈ cursors v.1) →
    ∃ i ∈ visits.flatMap fun v => v.2.items, ident i = k

theorem faithful (parsers : Parsers) (space : String) (found : Tables → List ρ)
    {list : Tables → Option String → Except QueryError (ReviewPage ι)} (hsize : 0 < size)
    {visits : List (Tables × ReviewPage ι)}
    (hpaged : ∀ v ∈ visits, Paged (Before descending) cursorOf
      (fun position row => follows descending position (cursorOf row))
      (orderBy cursorOf descending (found v.1)) size (list v.1) ReviewPage.nextCursor
      ReviewPage.items ident (textOf space) (Readable parsers))
    (hv : Visits list ReviewPage.nextCursor none visits) :
    Faithful visits ident descending fun db => (found db).map cursorOf := by
  have hstart : ∀ k ∈ (none : Option ReviewCursor), Readable parsers k := fun _ h => by cases h
  have hthere := visits_there (fun db => orderBy cursorOf descending (found db)) hpaged hstart hv
  obtain ⟨-, hordered, hcomplete⟩ := visits_show
    (fun db => orderBy cursorOf descending (found db)) hsize hpaged
    (fun _ _ _ => before_trans) hstart hv
  have hmem : ∀ db k, k ∈ (found db).map cursorOf ↔
      ∃ a ∈ orderBy cursorOf descending (found db), cursorOf a = k := fun db k => by
    simp only [List.mem_map, (orderBy_perm cursorOf descending (found db)).mem_iff]
  refine ⟨fun v hv i hi => (hmem _ _).mpr (hthere v hv i hi), hordered, fun k hk => ?_⟩
  exact hcomplete k (fun _ h => by cases h) fun v hv => (hmem _ _).mp (hk v hv)

end One

section Lists
variable {texts : Texts} {digest : Digest} {parsers : Parsers} {workspaceId bookId scopeId : Uuid}
  {pageSize : ℤ}

def caseIdent (item : CaseListItem) : ReviewCursor := ⟨item.createdAt, item.caseId⟩

def occurrenceIdent (item : CaseListItem) : ReviewCursor := ⟨item.createdAt, item.occurrenceId⟩

def decisionIdent (item : DecisionListItem) : ReviewCursor := ⟨item.createdAt, item.decisionId⟩

/-- Following the cursors of any of the lists from the start while the tables
change in any way between the requests shows rows that are there at their
request, in the declared order, and every row that is there at all requests. -/
theorem lists_while_changing (hsize : 1 ≤ pageSize ∧ pageSize ≤ 100) :
    (∀ search kind review sort f, caseFilters texts search kind review sort = .ok f →
      ∀ visits : List (Tables × ReviewPage CaseListItem), (∀ v ∈ visits, Sound parsers v.1) →
        Visits (fun db => listCases texts digest parsers db workspaceId bookId scopeId pageSize
          search kind review sort) ReviewPage.nextCursor none visits →
        Faithful visits caseIdent (f.sort = "newest") fun db =>
          (db.projections.filter (caseMatches texts workspaceId scopeId f)).map projectionCursor) ∧
    (∀ runId, ∀ visits : List (Tables × ReviewPage CaseListItem),
      (∀ v ∈ visits, Sound parsers v.1) →
        Visits (fun db => listRunCases texts parsers db workspaceId bookId scopeId runId pageSize)
          ReviewPage.nextCursor none visits →
        Faithful visits occurrenceIdent false fun db =>
          (db.occurrences.filter (runCaseMatches workspaceId bookId scopeId runId)).map
            occurrenceCursor) ∧
    ∀ visits : List (Tables × ReviewPage DecisionListItem), (∀ v ∈ visits, Sound parsers v.1) →
      Visits (fun db => listDecisions parsers db workspaceId bookId scopeId pageSize)
        ReviewPage.nextCursor none visits →
      Faithful visits decisionIdent false fun db =>
        (currentDecisions db workspaceId bookId).map decisionCursor := by
  obtain ⟨size, hbounded, hpositive⟩ := boundedPageSize_ok hsize
  refine ⟨fun search kind review sort f hf visits hsound hv => ?_,
    fun runId visits hsound hv => ?_, fun visits hsound hv => ?_⟩
  · refine faithful parsers (cursorNamespace digest f) (fun db => db.projections.filter
      (caseMatches texts workspaceId scopeId f)) hpositive (fun v hvisit => ?_) hv
    have hs := hsound v hvisit
    refine paged (cursorNamespace digest f) (projections_unique hs.projections f)
      (fun row hrow => hs.readProjections row (List.mem_of_mem_filter hrow))
      fun cursor position page hdecode h => ?_
    simp only [listCases, hbounded, hf, readCursorText_ok hdecode, ok_bind] at h
    obtain ⟨_, -, h⟩ := bind_ok.mp h
    exact ⟨_, _, fun _ => rfl, h⟩
  · refine faithful parsers (runCaseNamespace runId) (fun db => db.occurrences.filter
      (runCaseMatches workspaceId bookId scopeId runId)) hpositive (fun v hvisit => ?_) hv
    have hs := hsound v hvisit
    refine paged (runCaseNamespace runId) (hs.occurrences.sublist (List.filter_sublist.map _))
      (fun row hrow => hs.readOccurrences row (List.mem_of_mem_filter hrow))
      fun cursor position page hdecode h => ?_
    simp only [listRunCases, hbounded, readCursorText_ok hdecode, ok_bind] at h
    obtain ⟨_, -, h⟩ := bind_ok.mp h
    split_ifs at h
    exact ⟨_, _, fun _ => rfl, h⟩
  · refine faithful parsers decisionNamespace (fun db => currentDecisions db workspaceId bookId)
      hpositive (fun v hvisit => ?_) hv
    have hs := hsound v hvisit
    refine paged decisionNamespace (hs.decisions.sublist (currentDecisions_ids _ _))
      (fun row hrow => hs.readDecisions row.1 (mem_currentDecisions hrow))
      fun cursor position page hdecode h => ?_
    simp only [listDecisions, hbounded, readCursorText_ok hdecode, ok_bind] at h
    obtain ⟨_, -, h⟩ := bind_ok.mp h
    exact ⟨_, _, fun _ => rfl, h⟩

end Lists

/-- Of two decisions, the first is gone at the second request. -/
def oneTable : Tables := { sampleTables with decisions := [decisionOf laterId] }

def shownDecision (db : Tables) (id : Uuid) : DecisionListItem :=
  listItem db ⟨sampleId, sampleId, 0⟩ ⟨sampleId, sampleId, sampleId, false⟩
    (⟨sampleId, sampleId, id, some sampleRevision, sampleTime⟩, sampleRevision)

theorem first_page : listDecisions listedParsers sampleTables sampleId sampleId sampleId 1 none =
    .ok ⟨[shownDecision sampleTables sampleId], some (textOf decisionNamespace ⟨sampleTime, sampleId⟩),
      0⟩ := by
  have hcontext : context sampleTables sampleId sampleId sampleId =
      .ok (⟨sampleId, sampleId, 0⟩, ⟨sampleId, sampleId, sampleId, false⟩) := sample_context
  have hsize : boundedPageSize 1 = .ok 1 := rfl
  have hstart : readCursorText listedParsers decisionNamespace none = .ok none := rfl
  simp only [listDecisions, hsize, hstart, hcontext, ok_bind, pageOf_ok]
  rfl

theorem second_page : listDecisions listedParsers oneTable sampleId sampleId sampleId 1
    (some (textOf decisionNamespace ⟨sampleTime, sampleId⟩)) =
      .ok ⟨[shownDecision oneTable laterId], none, 0⟩ := by
  have hcontext : context oneTable sampleId sampleId sampleId =
      .ok (⟨sampleId, sampleId, 0⟩, ⟨sampleId, sampleId, sampleId, false⟩) := sample_context
  have hsize : boundedPageSize 1 = .ok 1 := rfl
  have hcursor : readCursorText listedParsers decisionNamespace
      (some (textOf decisionNamespace ⟨sampleTime, sampleId⟩)) =
        .ok (some ⟨sampleTime, sampleId⟩) :=
    readCursorText_ok (decode_cursorText (listed_reads sampleId (by simp)))
  simp only [listDecisions, hsize, hcursor, hcontext, ok_bind, pageOf_ok]
  rfl

theorem one_sound : Sound listedParsers oneTable where
  projections := sample_sound.projections
  occurrences := sample_sound.occurrences
  decisions := List.nodup_singleton _
  readProjections := sample_sound.readProjections
  readOccurrences := sample_sound.readOccurrences
  readDecisions := fun _ h => List.mem_singleton.mp h ▸ listed_reads laterId (by simp)

theorem lists_while_changing_sample : ∃ visits : List (Tables × ReviewPage DecisionListItem),
    visits.map Prod.fst = [sampleTables, oneTable] ∧
    Visits (fun db => listDecisions listedParsers db sampleId sampleId sampleId 1)
      ReviewPage.nextCursor none visits ∧
    Faithful visits decisionIdent false fun db =>
      (currentDecisions db sampleId sampleId).map decisionCursor := by
  have hwalk : Visits (fun db => listDecisions listedParsers db sampleId sampleId sampleId 1)
      ReviewPage.nextCursor none
      [(sampleTables, ⟨[shownDecision sampleTables sampleId],
          some (textOf decisionNamespace ⟨sampleTime, sampleId⟩), 0⟩),
        (oneTable, ⟨[shownDecision oneTable laterId], none, 0⟩)] :=
    .more first_page rfl (.last second_page rfl)
  refine ⟨_, rfl, hwalk, ?_⟩
  refine (@lists_while_changing ⟨id, id, fun _ _ => true⟩ checksum listedParsers sampleId sampleId
    sampleId 1 (by decide)).2.2 _ (fun v hv => ?_) hwalk
  rcases List.mem_cons.mp hv with rfl | hv
  · exact sample_sound
  · exact List.mem_singleton.mp hv ▸ one_sound

end Workbench.ReviewVisits
