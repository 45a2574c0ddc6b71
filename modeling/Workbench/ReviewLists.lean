import Workbench.Keysets
import Workbench.Cursors

/-!
# Review lists

The lists of cases, of the cases of a run and of decisions are paged by the
creation time and the identity of their rows. Each page hands out the cursor of
its last row when another page follows, under the namespace of its list.
-/

set_option autoImplicit false

namespace Workbench.ReviewLists
open Workbench.Listing Workbench.Calendar Workbench.Raising Workbench.Records Workbench.Json
open Workbench.JsonReading Workbench.Cursors
open Workbench.Decisions (Uuid)

inductive QueryError where
  | unavailable
  | pageSize (message : String)
  | filter (message : String)
  | cursor (raised : Raised)
deriving DecidableEq

structure ReviewPage (ι : Type) where
  items : List ι
  nextCursor : Option String
  total : ℕ

def boundedPageSize (pageSize : ℤ) : Except QueryError ℕ :=
  if pageSize < 1 ∨ 100 < pageSize then .error (.pageSize "page_size must be between 1 and 100")
  else .ok pageSize.toNat

/-- Unicode case conversion and the case-insensitive search of the database. -/
structure Texts where
  upper : String → String
  lower : String → String
  icontains : String → String → Bool

def orderKey (row : ReviewCursor) : Instant ×ₗ String := toLex (row.createdAt, row.publicId.text)

/-- `order_by`. -/
def orderBy {ρ : Type} (cursorOf : ρ → ReviewCursor) (descending : Bool) (rows : List ρ) :
    List ρ :=
  if descending then sortOn (fun row => OrderDual.toDual (orderKey (cursorOf row))) rows
  else sortOn (fun row => orderKey (cursorOf row)) rows

def follows (descending : Bool) (position row : ReviewCursor) : Bool :=
  if descending then
    row.createdAt < position.createdAt ||
      (row.createdAt = position.createdAt && row.publicId.text < position.publicId.text)
  else
    position.createdAt < row.createdAt ||
      (row.createdAt = position.createdAt && position.publicId.text < row.publicId.text)

section Page
variable {ρ ι : Type} (space : String) (descending : Bool) (cursorOf : ρ → ReviewCursor)
  (item : ρ → ι) (size total : ℕ) (found : List ρ) (position : Option ReviewCursor)

def positioned (ordered : List ρ) : Option ReviewCursor → List ρ
  | none => ordered
  | some position => ordered.filter fun row => follows descending position (cursorOf row)

def lastCursor : Option ρ → Except QueryError (Option String)
  | none => .ok none
  | some last =>
    ((encodeReviewCursor space ((cursorOf last).createdAt, some 0)
      (cursorOf last).publicId).map some).mapError .cursor

def pageOf : Except QueryError (ReviewPage ι) := do
  let ordered := orderBy cursorOf descending found
  let rows := (positioned descending cursorOf ordered position).take (size+1)
  let pageRows := rows.take size
  let nextCursor ←
    if size < rows.length then lastCursor space cursorOf pageRows.getLast? else .ok none
  .ok ⟨pageRows.map item, nextCursor, total⟩

end Page

structure BookRow where
  workspaceId : Uuid
  id : Uuid
  resolutionGeneration : ℕ

structure ScopeRow where
  workspaceId : Uuid
  bookId : Uuid
  id : Uuid
  isDirty : Bool

structure RunRow where
  workspaceId : Uuid
  scopeId : Uuid
  id : Uuid

inductive CaseSubject where
  | pair (left right : String)
  | unpaired (record side : String)
  | ambiguity (leftCount rightCount : ℕ)

def CaseSubject.kind : CaseSubject → String
  | .pair _ _ => "PAIR"
  | .unpaired _ _ => "UNPAIRED"
  | .ambiguity _ _ => "AMBIGUITY"

def CaseSubject.keys : CaseSubject → List String
  | .pair left right => [left, right]
  | .unpaired record _ => [record]
  | .ambiguity _ _ => []

structure CaseRow where
  id : Uuid
  bookId : Uuid
  stableKey : String
  subject : CaseSubject
  createdAt : Instant

/-- A projection of a case into a scope, with its case and its occurrence. -/
structure ProjectionRow where
  workspaceId : Uuid
  scopeId : Uuid
  case : CaseRow
  currentOccurrenceId : Uuid
  runId : Uuid
  resultKind : String
  reviewHealth : Option String
  attention : List String
  updatedAt : Instant

/-- An occurrence of a case in a run, with the scope of the run. -/
structure OccurrenceRow where
  workspaceId : Uuid
  id : Uuid
  case : CaseRow
  runId : Uuid
  runScopeId : Uuid
  resultKind : String
  createdAt : Instant

structure RevisionRow where
  id : Uuid
  revision : ℕ
  action : String
  authorityKind : Option String
  leftLogicalId : Option Uuid
  rightLogicalId : Option Uuid
  recordLogicalId : Option Uuid
  recordSide : Option String
  leftReference : Option String
  rightReference : Option String
  recordReference : Option String
  reason : String
  actor : String

structure HealthRow where
  workspaceId : Uuid
  scopeId : Uuid
  decisionId : Uuid
  health : Option String
  attention : List String
  runId : Uuid
  appliedResolutionGeneration : ℕ

structure DecisionRow where
  workspaceId : Uuid
  bookId : Uuid
  id : Uuid
  current : Option RevisionRow
  createdAt : Instant

/-- The tables that the lists read. The active workspaces are those that
`require_active` lets pass at the time of the request; a superseded revision
comes with its workspace. -/
structure Tables where
  active : List Uuid
  books : List BookRow
  scopes : List ScopeRow
  runs : List RunRow
  projections : List ProjectionRow
  occurrences : List OccurrenceRow
  decisions : List DecisionRow
  superseded : List (Uuid × Uuid)
  health : List HealthRow

def context (db : Tables) (workspaceId bookId scopeId : Uuid) :
    Except QueryError (BookRow × ScopeRow) :=
  if workspaceId ∉ db.active then .error .unavailable
  else
    match db.books.find? (fun b => b.workspaceId = workspaceId ∧ b.id = bookId),
      db.scopes.find? (fun s => s.workspaceId = workspaceId ∧ s.id = scopeId ∧
        s.bookId = bookId) with
    | some book, some scope => .ok (book, scope)
    | _, _ => .error .unavailable

structure CaseListItem where
  caseId : Uuid
  kind : String
  stableKey : String
  displayLabel : String
  occurrenceId : Uuid
  runId : Uuid
  resultKind : String
  reviewHealth : Option String
  attention : List String
  createdAt : Instant
  updatedAt : Instant

structure DecisionListItem where
  decisionId : Uuid
  currentRevision : RevisionRow
  createdAt : Instant
  authorityActive : Bool
  reviewHealth : Option String
  attention : List String
  healthRunId : Option Uuid
  reviewIsPending : Bool

structure CaseFilters where
  search : String
  kind : String
  review : String
  sort : String

def caseKinds : List String := ["PAIR", "UNPAIRED", "AMBIGUITY"]

def reviewHealths : List String :=
  ["UNCHANGED", "EVIDENCE_CHANGED", "PARTNER_UNAVAILABLE", "NEW_CANDIDATE"]

def caseSorts : List String := ["oldest", "newest"]

section Lists
variable (texts : Texts) (digest : Digest) (parsers : Parsers) (db : Tables)

def caseLabel : CaseSubject → String
  | .pair left right => left ++ " ↔ " ++ right
  | .unpaired record side => record ++ " · " ++ texts.lower side
  | .ambiguity leftCount rightCount =>
    "Ambiguous set · " ++ toString leftCount ++ " left / " ++ toString rightCount ++ " right"

def caseFilters (search kind review : Option String) (sort : String) :
    Except QueryError CaseFilters :=
  let search := strip (search.getD "")
  let kind := texts.upper (strip (kind.getD ""))
  let review := texts.upper (strip (review.getD ""))
  let sort := texts.lower (strip (if sort = "" then "oldest" else sort))
  if 120 < search.length then .error (.filter "search must be at most 120 characters")
  else if kind ≠ "" ∧ kind ∉ caseKinds then .error (.filter "case kind is unsupported")
  else if review ≠ "" ∧ review ∉ "UNREVIEWED" :: reviewHealths then
    .error (.filter "review status is unsupported")
  else if sort ∉ caseSorts then .error (.filter "case sort is unsupported")
  else .ok ⟨search, kind, review, sort⟩

def cursorNamespace (f : CaseFilters) : String :=
  "review-cases-v1:" ++ digest.short (String.ofList ([openBrace] ++
    fieldText "kind".toList f.kind.toList ++ [','] ++ fieldText "q".toList f.search.toList ++
    [','] ++ fieldText "review".toList f.review.toList ++ [','] ++
    fieldText "sort".toList f.sort.toList ++ [closeBrace]))

/-- The rows of a list of cases. -/
def caseMatches (workspaceId scopeId : Uuid) (f : CaseFilters) (row : ProjectionRow) : Bool :=
  row.workspaceId = workspaceId && row.scopeId = scopeId &&
    (f.search = "" || (row.case.stableKey :: row.case.subject.keys).any
      fun key => texts.icontains key f.search) &&
    (f.kind = "" || row.case.subject.kind = f.kind) &&
    (if f.review = "UNREVIEWED" then row.reviewHealth = none
      else f.review = "" || row.reviewHealth = some f.review)

def projectionCursor (row : ProjectionRow) : ReviewCursor := ⟨row.case.createdAt, row.case.id⟩

def projectionItem (row : ProjectionRow) : CaseListItem where
  caseId := row.case.id
  kind := row.case.subject.kind
  stableKey := row.case.stableKey
  displayLabel := caseLabel texts row.case.subject
  occurrenceId := row.currentOccurrenceId
  runId := row.runId
  resultKind := row.resultKind
  reviewHealth := row.reviewHealth
  attention := row.attention
  createdAt := row.case.createdAt
  updatedAt := row.updatedAt

def readCursorText (space : String) (cursor : Option String) :
    Except QueryError (Option ReviewCursor) :=
  (decodeReviewCursor parsers space cursor).mapError .cursor

def listCases (workspaceId bookId scopeId : Uuid) (pageSize : ℤ)
    (search kind review : Option String) (sort : String) (cursor : Option String) :
    Except QueryError (ReviewPage CaseListItem) := do
  let size ← boundedPageSize pageSize
  let f ← caseFilters texts search kind review sort
  let space := cursorNamespace digest f
  let position ← readCursorText parsers space cursor
  let _ ← context db workspaceId bookId scopeId
  let found := db.projections.filter (caseMatches texts workspaceId scopeId f)
  pageOf space (f.sort = "newest") projectionCursor (projectionItem texts) size found.length found
    position

def runCaseNamespace (runId : Uuid) : String := "run-cases-v1:" ++ runId.text

def occurrenceCursor (row : OccurrenceRow) : ReviewCursor := ⟨row.createdAt, row.id⟩

def occurrenceItem (row : OccurrenceRow) : CaseListItem where
  caseId := row.case.id
  kind := row.case.subject.kind
  stableKey := row.case.stableKey
  displayLabel := caseLabel texts row.case.subject
  occurrenceId := row.id
  runId := row.runId
  resultKind := row.resultKind
  reviewHealth := none
  attention := []
  createdAt := row.createdAt
  updatedAt := row.createdAt

/-- The rows of a list of the cases of a run. -/
def runCaseMatches (workspaceId bookId scopeId runId : Uuid) (row : OccurrenceRow) : Bool :=
  row.workspaceId = workspaceId && row.case.bookId = bookId && row.runId = runId &&
    row.runScopeId = scopeId

def listRunCases (workspaceId bookId scopeId runId : Uuid) (pageSize : ℤ)
    (cursor : Option String) : Except QueryError (ReviewPage CaseListItem) := do
  let size ← boundedPageSize pageSize
  let _ ← context db workspaceId bookId scopeId
  if ¬db.runs.any fun r => r.workspaceId = workspaceId ∧ r.id = runId ∧ r.scopeId = scopeId then
    .error .unavailable
  else
    let space := runCaseNamespace runId
    let position ← readCursorText parsers space cursor
    let found := db.occurrences.filter (runCaseMatches workspaceId bookId scopeId runId)
    pageOf space false occurrenceCursor (occurrenceItem texts) size found.length found position

def decisionNamespace : String := "review-decisions-v1"

/-- The decisions of a book that have a current revision, with it. -/
def currentDecisions (workspaceId bookId : Uuid) : List (DecisionRow × RevisionRow) :=
  (db.decisions.filter fun d => d.workspaceId = workspaceId ∧ d.bookId = bookId).filterMap
    fun d => d.current.map fun revision => (d, revision)

def decisionCursor (row : DecisionRow × RevisionRow) : ReviewCursor := ⟨row.1.createdAt, row.1.id⟩

def listItem (book : BookRow) (scope : ScopeRow) (row : DecisionRow × RevisionRow) :
    DecisionListItem :=
  let projected := db.health.find? fun h =>
    h.workspaceId = scope.workspaceId ∧ h.scopeId = scope.id ∧ h.decisionId = row.1.id
  { decisionId := row.1.id
    currentRevision := row.2
    createdAt := row.1.createdAt
    authorityActive := row.2.action ≠ "REVOKE" && (scope.workspaceId, row.2.id) ∉ db.superseded
    reviewHealth := projected.bind (·.health)
    attention := (projected.map (·.attention)).getD []
    healthRunId := projected.map (·.runId)
    reviewIsPending := scope.isDirty ||
      projected.map (·.appliedResolutionGeneration) ≠ some book.resolutionGeneration }

def listDecisions (workspaceId bookId scopeId : Uuid) (pageSize : ℤ) (cursor : Option String) :
    Except QueryError (ReviewPage DecisionListItem) := do
  let size ← boundedPageSize pageSize
  let position ← readCursorText parsers decisionNamespace cursor
  let (book, scope) ← context db workspaceId bookId scopeId
  pageOf decisionNamespace false decisionCursor (listItem db book scope) size 0
    (currentDecisions db workspaceId bookId) position

end Lists

section Order
variable {ρ : Type} {cursorOf : ρ → ReviewCursor} {rows : List ρ}

def Before (descending : Bool) (a b : ReviewCursor) : Prop :=
  if descending then orderKey b < orderKey a else orderKey a < orderKey b

theorem follows_iff {descending : Bool} {a b : ReviewCursor} :
    follows descending a b = true ↔ Before descending a b := by
  have hlex : ∀ x y : ReviewCursor, orderKey x < orderKey y ↔ x.createdAt < y.createdAt ∨
      x.createdAt = y.createdAt ∧ x.publicId.text < y.publicId.text :=
    fun x y => Prod.Lex.toLex_lt_toLex
  cases descending with
  | false =>
    refine Iff.trans ?_ (hlex a b).symm
    simp only [follows, Bool.false_eq_true, if_false, Bool.or_eq_true, Bool.and_eq_true,
      decide_eq_true_eq]
    exact or_congr Iff.rfl (and_congr eq_comm Iff.rfl)
  | true =>
    refine Iff.trans ?_ (hlex b a).symm
    simp only [follows, if_true, Bool.or_eq_true, Bool.and_eq_true, decide_eq_true_eq]

theorem before_asymm {descending : Bool} {a b : ReviewCursor} (h : Before descending a b) :
    ¬Before descending b a := by
  cases descending with
  | false => exact lt_asymm h
  | true => exact lt_asymm h

theorem orderBy_perm (cursorOf : ρ → ReviewCursor) (descending : Bool) (rows : List ρ) :
    (orderBy cursorOf descending rows).Perm rows := by
  unfold orderBy
  split
  · exact sortOn_perm _ _
  · exact sortOn_perm _ _

theorem orderBy_sorted (h : (rows.map fun row => (cursorOf row).publicId).Nodup)
    (descending : Bool) :
    (orderBy cursorOf descending rows).Pairwise fun a b =>
      Before descending (cursorOf a) (cursorOf b) := by
  have hkeys : ∀ {a b : ρ}, orderKey (cursorOf a) = orderKey (cursorOf b) →
      (cursorOf a).publicId = (cursorOf b).publicId := by
    intro a b hab
    exact Decisions.Uuid.text_injective (Prod.mk.inj (toLex_inj.mp hab)).2
  have hdistinct : (orderBy cursorOf descending rows).Pairwise fun a b =>
      (cursorOf a).publicId ≠ (cursorOf b).publicId :=
    List.pairwise_map.mp (((orderBy_perm cursorOf descending rows).map _).nodup_iff.mpr h)
  cases descending with
  | false =>
    have hsorted := sortOn_pairwise (fun row => orderKey (cursorOf row)) rows
    exact (hsorted.and hdistinct).imp fun hab => lt_of_le_of_ne hab.1 fun he => hab.2 (hkeys he)
  | true =>
    have hsorted := sortOn_pairwise (fun row => OrderDual.toDual (orderKey (cursorOf row))) rows
    exact (hsorted.and hdistinct).imp fun hab =>
      lt_of_le_of_ne (OrderDual.toDual_le_toDual.mp hab.1) fun he => hab.2 (hkeys he.symm)

theorem orderBy_ordered (h : (rows.map fun row => (cursorOf row).publicId).Nodup)
    (descending : Bool) :
    Keysets.Ordered cursorOf (fun position row => follows descending position (cursorOf row))
      (orderBy cursorOf descending rows) := by
  have hno : ∀ {a b : ReviewCursor}, ¬Before descending a b → follows descending a b = false :=
    fun hab => Bool.eq_false_iff.mpr (mt follows_iff.mp hab)
  refine ⟨(orderBy_sorted h descending).imp fun hab =>
    ⟨follows_iff.mpr hab, hno (before_asymm hab)⟩, fun a _ => hno fun ha => before_asymm ha ha⟩

end Order

section Following
variable {ρ ι : Type} {space : String} {descending : Bool} {cursorOf : ρ → ReviewCursor}
  {item : ρ → ι} {size total : ℕ} {found : List ρ} {parsers : Parsers}

/-- Following the cursors of a list shows every row once and in order. -/
def ShowsAll (list : Option String → Except QueryError (ReviewPage ι)) (item : ρ → ι)
    (cursorOf : ρ → ReviewCursor) (descending : Bool) (found : List ρ) : Prop :=
  ∃ (pages : List (ReviewPage ι)) (rows : List ρ),
    Keysets.Walk list ReviewPage.nextCursor none pages ∧
    pages.flatMap ReviewPage.items = rows.map item ∧ rows.Perm found ∧
    rows.Pairwise fun a b => Before descending (cursorOf a) (cursorOf b)

def textOf (space : String) (position : ReviewCursor) : String :=
  cursorText space position.createdAt position.publicId

theorem encode_row (row : ReviewCursor) :
    encodeReviewCursor space (row.createdAt, some 0) row.publicId = .ok (textOf space row) :=
  encode_aware (astimezone_utc row.createdAt)

theorem handed_out {α β ε ε' : Type} {x : Except ε α} {a : α} (f : α → β) (g : ε → ε')
    (h : x = .ok a) : (x.map f).mapError g = .ok (f a) := by
  subst h
  rfl

theorem lastCursor_ok (last : Option ρ) :
    lastCursor space cursorOf last = .ok (last.map fun row => textOf space (cursorOf row)) := by
  cases last with
  | none => rfl
  | some row =>
    rw [lastCursor, Option.map_some]
    exact handed_out some QueryError.cursor (encode_row (cursorOf row))

theorem pageOf_ok (position : Option ReviewCursor) :
    pageOf space descending cursorOf item size total found position = .ok
      ⟨(Keysets.shown (fun position row => follows descending position (cursorOf row))
          (orderBy cursorOf descending found) size position).map item,
        (Keysets.next cursorOf (fun position row => follows descending position (cursorOf row))
          (orderBy cursorOf descending found) size position).map (textOf space), total⟩ := by
  have hpositioned : positioned descending cursorOf (orderBy cursorOf descending found) position =
      Keysets.rest (fun position row => follows descending position (cursorOf row))
        (orderBy cursorOf descending found) position := by
    cases position <;> rfl
  rw [pageOf, hpositioned, ← Keysets.fetched, ← Keysets.shown]
  by_cases hmore : size < (Keysets.fetched (fun position row => follows descending position
      (cursorOf row)) (orderBy cursorOf descending found) size position).length
  · rw [if_pos hmore, Keysets.next, if_pos hmore, lastCursor_ok, ok_bind, Option.map_map]
    rfl
  · rw [if_neg hmore, Keysets.next, if_neg hmore, ok_bind, Option.map_none]

theorem showsAll (space : String) (total : ℕ)
    {list : Option String → Except QueryError (ReviewPage ι)} (hsize : 0 < size)
    (hunique : (found.map fun row => (cursorOf row).publicId).Nodup)
    (hreads : ∀ row ∈ found, Reads parsers (cursorOf row).createdAt (cursorOf row).publicId)
    (hlist : ∀ cursor position, decodeReviewCursor parsers space cursor = .ok position →
      list cursor = pageOf space descending cursorOf item size total found position) :
    ShowsAll list item cursorOf descending found := by
  have hordered := orderBy_ordered hunique descending
  have hperm := orderBy_perm cursorOf descending found
  have hpage : ∀ position : Option ReviewCursor,
      (∀ k ∈ position, ∃ row ∈ orderBy cursorOf descending found, k = cursorOf row) →
      ∃ page, list (position.map (textOf space)) = .ok page ∧
        page.items = (Keysets.shown (fun position row => follows descending position (cursorOf row))
          (orderBy cursorOf descending found) size position).map item ∧
        page.nextCursor = (Keysets.next cursorOf
          (fun position row => follows descending position (cursorOf row))
          (orderBy cursorOf descending found) size position).map (textOf space) := by
    intro position hposition
    have hdecode : decodeReviewCursor parsers space (position.map (textOf space)) =
        .ok position := by
      cases position with
      | none => rfl
      | some k =>
        obtain ⟨row, hrow, rfl⟩ := hposition k rfl
        exact decode_cursorText (hreads row (hperm.mem_iff.mp hrow))
    exact ⟨_, (hlist _ position hdecode).trans (pageOf_ok position), rfl, rfl⟩
  obtain ⟨pages, hwalk, hpages⟩ := Keysets.walk_all hordered hsize hpage
  exact ⟨pages, _, hwalk, hpages, hperm, orderBy_sorted hunique descending⟩

end Following

/-- What the constraints of the tables and the readers of texts provide: a case
has one projection into a scope, identities are distinct, and the timestamps and
identities of the rows are read back from their texts. -/
structure Sound (parsers : Parsers) (db : Tables) : Prop where
  projections : (db.projections.map fun row => (row.scopeId, row.case.id)).Nodup
  occurrences : (db.occurrences.map (·.id)).Nodup
  decisions : (db.decisions.map (·.id)).Nodup
  readProjections : ∀ row ∈ db.projections, Reads parsers row.case.createdAt row.case.id
  readOccurrences : ∀ row ∈ db.occurrences, Reads parsers row.createdAt row.id
  readDecisions : ∀ row ∈ db.decisions, Reads parsers row.createdAt row.id

section Lists
variable {texts : Texts} {digest : Digest} {parsers : Parsers} {db : Tables}
  {workspaceId bookId scopeId : Uuid} {book : BookRow} {scope : ScopeRow} {pageSize : ℤ}

theorem boundedPageSize_ok (h : 1 ≤ pageSize ∧ pageSize ≤ 100) :
    ∃ size, boundedPageSize pageSize = .ok size ∧ 0 < size := by
  refine ⟨pageSize.toNat, if_neg (by omega), ?_⟩
  omega

theorem readCursorText_ok {space : String} {cursor : Option String}
    {position : Option ReviewCursor} (h : decodeReviewCursor parsers space cursor = .ok position) :
    readCursorText parsers space cursor = .ok position := by
  rw [readCursorText, h]
  rfl

theorem projections_unique (h : (db.projections.map fun row => (row.scopeId, row.case.id)).Nodup)
    (f : CaseFilters) : ((db.projections.filter (caseMatches texts workspaceId scopeId f)).map
      fun row => (projectionCursor row).publicId).Nodup := by
  have hscope : ∀ row ∈ db.projections.filter (caseMatches texts workspaceId scopeId f),
      row.scopeId = scopeId := by
    intro row hrow
    have hmatches := List.of_mem_filter hrow
    simp only [caseMatches, Bool.and_eq_true, decide_eq_true_eq] at hmatches
    exact hmatches.1.1.1.2
  have hpairs : ((db.projections.filter (caseMatches texts workspaceId scopeId f)).map
      fun row => (row.scopeId, row.case.id)).Nodup := h.sublist (List.filter_sublist.map _)
  have hsame : (db.projections.filter (caseMatches texts workspaceId scopeId f)).map
      (fun row => (row.scopeId, row.case.id)) =
      ((db.projections.filter (caseMatches texts workspaceId scopeId f)).map
        fun row => (projectionCursor row).publicId).map fun id => (scopeId, id) := by
    rw [List.map_map]
    exact List.map_congr_left fun row hrow => Prod.ext (hscope row hrow) rfl
  rw [hsame] at hpairs
  exact List.Nodup.of_map _ hpairs

theorem currentDecisions_ids (workspaceId bookId : Uuid) :
    ((currentDecisions db workspaceId bookId).map fun row => (decisionCursor row).publicId).Sublist
      (db.decisions.map (·.id)) := by
  have hids : (currentDecisions db workspaceId bookId).map
      (fun row => (decisionCursor row).publicId) =
      ((db.decisions.filter fun d => d.workspaceId = workspaceId ∧ d.bookId = bookId).filter
        fun d => d.current.isSome).map (·.id) := by
    unfold currentDecisions
    induction db.decisions.filter fun d => d.workspaceId = workspaceId ∧ d.bookId = bookId with
    | nil => rfl
    | cons d rows ih =>
      cases hd : d.current with
      | none => simpa [hd] using ih
      | some revision => simpa [hd, decisionCursor] using ih
  rw [hids]
  exact (List.filter_sublist.trans List.filter_sublist).map _

theorem mem_currentDecisions {row : DecisionRow × RevisionRow}
    (h : row ∈ currentDecisions db workspaceId bookId) : row.1 ∈ db.decisions := by
  obtain ⟨d, hd, hrow⟩ := List.mem_filterMap.mp h
  obtain ⟨revision, -, rfl⟩ := Option.map_eq_some_iff.mp hrow
  exact List.mem_of_mem_filter hd

/-- Every list shows each of its rows exactly once, in its declared order, when its
cursors are followed from the start. -/
theorem lists_show_all (hsound : Sound parsers db)
    (hcontext : context db workspaceId bookId scopeId = .ok (book, scope))
    (hsize : 1 ≤ pageSize ∧ pageSize ≤ 100) :
    (∀ search kind review sort f, caseFilters texts search kind review sort = .ok f →
      ShowsAll (listCases texts digest parsers db workspaceId bookId scopeId pageSize search kind
          review sort) (projectionItem texts) projectionCursor (f.sort = "newest")
        (db.projections.filter (caseMatches texts workspaceId scopeId f))) ∧
    (∀ runId, (∃ run ∈ db.runs, run.workspaceId = workspaceId ∧ run.id = runId ∧
        run.scopeId = scopeId) →
      ShowsAll (listRunCases texts parsers db workspaceId bookId scopeId runId pageSize)
        (occurrenceItem texts) occurrenceCursor false
        (db.occurrences.filter (runCaseMatches workspaceId bookId scopeId runId))) ∧
    ShowsAll (listDecisions parsers db workspaceId bookId scopeId pageSize)
      (listItem db book scope) decisionCursor false
      (currentDecisions db workspaceId bookId) := by
  obtain ⟨size, hbounded, hpositive⟩ := boundedPageSize_ok hsize
  refine ⟨fun search kind review sort f hf => ?_, fun runId hrun => ?_, ?_⟩
  · refine showsAll (cursorNamespace digest f)
      (db.projections.filter (caseMatches texts workspaceId scopeId f)).length hpositive
      (projections_unique hsound.projections f)
      (fun row hrow => hsound.readProjections row (List.mem_of_mem_filter hrow))
      fun cursor position hdecode => ?_
    simp only [listCases, hbounded, hf, readCursorText_ok hdecode, hcontext, ok_bind]
  · have hany : (db.runs.any fun r => r.workspaceId = workspaceId ∧ r.id = runId ∧
        r.scopeId = scopeId) = true := by
      obtain ⟨run, hmem, hspec⟩ := hrun
      exact List.any_eq_true.mpr ⟨run, hmem, decide_eq_true hspec⟩
    refine showsAll (runCaseNamespace runId)
      (db.occurrences.filter (runCaseMatches workspaceId bookId scopeId runId)).length hpositive ?_
      (fun row hrow => hsound.readOccurrences row (List.mem_of_mem_filter hrow))
      fun cursor position hdecode => ?_
    · exact hsound.occurrences.sublist (List.filter_sublist.map _)
    · simp only [listRunCases, hbounded, hcontext, hany, readCursorText_ok hdecode, ok_bind]
      rfl
  · refine showsAll decisionNamespace 0 hpositive
      (hsound.decisions.sublist (currentDecisions_ids _ _))
      (fun row hrow => hsound.readDecisions row.1 (mem_currentDecisions hrow))
      fun cursor position hdecode => ?_
    simp only [listDecisions, hbounded, hcontext, readCursorText_ok hdecode, ok_bind]

end Lists

/-! Two cases and two decisions of one moment -/

def sampleRevision : RevisionRow where
  id := sampleId
  revision := 1
  action := "CONFIRM_MATCH"
  authorityKind := none
  leftLogicalId := none
  rightLogicalId := none
  recordLogicalId := none
  recordSide := none
  leftReference := none
  rightReference := none
  recordReference := none
  reason := "reviewed"
  actor := "reviewer"

theorem laterId_text : nonblank "9d1c2c1e-6b57-4a0e-9a3f-0f5f3f1f7c11" = true := by decide

theorem laterId_plain : NulFree "9d1c2c1e-6b57-4a0e-9a3f-0f5f3f1f7c11" := by decide

def laterId : Uuid := ⟨"9d1c2c1e-6b57-4a0e-9a3f-0f5f3f1f7c11", laterId_text, laterId_plain⟩

theorem lastId_text : nonblank "ad1c2c1e-6b57-4a0e-9a3f-0f5f3f1f7c11" = true := by decide

theorem lastId_plain : NulFree "ad1c2c1e-6b57-4a0e-9a3f-0f5f3f1f7c11" := by decide

def lastId : Uuid := ⟨"ad1c2c1e-6b57-4a0e-9a3f-0f5f3f1f7c11", lastId_text, lastId_plain⟩

def listedParsers : Parsers :=
  { sampleParsers with
    uuid := fun codes =>
      [sampleId, laterId, lastId].find? fun id => codesOf id.text.toList = codes }

theorem listed_reads : ∀ id ∈ [sampleId, laterId, lastId], Reads listedParsers sampleTime id := by
  have hread : ∀ id ∈ [sampleId, laterId, lastId],
      listedParsers.uuid (codesOf id.text.toList) = some id := by
    decide +kernel
  intro id hid
  exact ⟨by simp only [isoformat_sample, listedParsers, sampleParsers, if_true], hread id hid,
    by decide⟩

def caseOf (id : Uuid) (subject : CaseSubject) : CaseRow := ⟨id, sampleId, "TX", subject, sampleTime⟩

def projectionOf (id : Uuid) (subject : CaseSubject) : ProjectionRow :=
  ⟨sampleId, sampleId, caseOf id subject, id, sampleId, subject.kind, none, [], sampleTime⟩

def occurrenceOf (id : Uuid) (subject : CaseSubject) : OccurrenceRow :=
  ⟨sampleId, id, caseOf id subject, sampleId, sampleId, subject.kind, sampleTime⟩

def decisionOf (id : Uuid) : DecisionRow := ⟨sampleId, sampleId, id, some sampleRevision, sampleTime⟩

/-- Two pairs, a record without a partner and two decisions, all of one moment. -/
def sampleTables : Tables where
  active := [sampleId]
  books := [⟨sampleId, sampleId, 0⟩]
  scopes := [⟨sampleId, sampleId, sampleId, false⟩]
  runs := [⟨sampleId, sampleId, sampleId⟩]
  projections := [projectionOf sampleId (.pair "TX-1" "TX-2"),
    projectionOf laterId (.pair "TX-3" "TX-4"), projectionOf lastId (.unpaired "TX-5" "LEFT")]
  occurrences := [occurrenceOf lastId (.unpaired "TX-5" "LEFT"),
    occurrenceOf laterId (.pair "TX-3" "TX-4"), occurrenceOf sampleId (.pair "TX-1" "TX-2")]
  decisions := [decisionOf laterId, decisionOf sampleId]
  superseded := []
  health := []

theorem sample_sound : Sound listedParsers sampleTables where
  projections := by decide +kernel
  occurrences := by decide +kernel
  decisions := by decide +kernel
  readProjections := by
    simp only [sampleTables, List.forall_mem_cons]
    exact ⟨listed_reads sampleId (by simp), listed_reads laterId (by simp),
      listed_reads lastId (by simp), by simp⟩
  readOccurrences := by
    simp only [sampleTables, List.forall_mem_cons]
    exact ⟨listed_reads lastId (by simp), listed_reads laterId (by simp),
      listed_reads sampleId (by simp), by simp⟩
  readDecisions := by
    simp only [sampleTables, List.forall_mem_cons]
    exact ⟨listed_reads laterId (by simp), listed_reads sampleId (by simp), by simp⟩

theorem sample_context : context sampleTables sampleId sampleId sampleId =
    .ok (⟨sampleId, sampleId, 0⟩, ⟨sampleId, sampleId, sampleId, false⟩) := by
  simp [context, sampleTables]

def plainTexts : Texts := ⟨id, id, fun _ _ => true⟩

def pairFilters : CaseFilters := ⟨"", "PAIR", "", "newest"⟩

def pairsListed (cursor : Option String) : Except QueryError (ReviewPage CaseListItem) :=
  listCases plainTexts checksum listedParsers sampleTables sampleId sampleId sampleId 1 none
    (some "PAIR") none "newest" cursor

def pairCursor : String := textOf (cursorNamespace checksum pairFilters) ⟨sampleTime, laterId⟩

theorem pairs_first : pairsListed none =
    .ok ⟨[projectionItem plainTexts (projectionOf laterId (.pair "TX-3" "TX-4"))],
      some pairCursor, 2⟩ := by
  have hsize : boundedPageSize 1 = .ok 1 := rfl
  have hfilters : caseFilters plainTexts none (some "PAIR") none "newest" = .ok pairFilters := rfl
  have hstart : readCursorText listedParsers (cursorNamespace checksum pairFilters) none =
      .ok none := rfl
  simp only [pairsListed, listCases, hsize, hfilters, hstart, sample_context, ok_bind, pageOf_ok]
  rfl

theorem pairs_second : pairsListed (some pairCursor) =
    .ok ⟨[projectionItem plainTexts (projectionOf sampleId (.pair "TX-1" "TX-2"))], none, 2⟩ := by
  have hsize : boundedPageSize 1 = .ok 1 := rfl
  have hfilters : caseFilters plainTexts none (some "PAIR") none "newest" = .ok pairFilters := rfl
  have hcursor : readCursorText listedParsers (cursorNamespace checksum pairFilters)
      (some pairCursor) = .ok (some ⟨sampleTime, laterId⟩) :=
    readCursorText_ok (decode_cursorText (listed_reads laterId (by simp)))
  simp only [pairsListed, listCases, hsize, hfilters, hcursor, sample_context, ok_bind, pageOf_ok]
  rfl

/-- The first page of the pairs hands out a cursor, whose page is the last. -/
theorem lists_show_all_sample :
    (∃ first second, pairsListed none = .ok first ∧ first.nextCursor = some pairCursor ∧
      pairsListed (some pairCursor) = .ok second ∧ second.nextCursor = none) ∧
    ShowsAll pairsListed (projectionItem plainTexts) projectionCursor true
      (sampleTables.projections.filter (caseMatches plainTexts sampleId sampleId pairFilters)) ∧
    ShowsAll
      (listRunCases plainTexts listedParsers sampleTables sampleId sampleId sampleId sampleId 1)
      (occurrenceItem plainTexts) occurrenceCursor false
      (sampleTables.occurrences.filter (runCaseMatches sampleId sampleId sampleId sampleId)) ∧
    ShowsAll (listDecisions listedParsers sampleTables sampleId sampleId sampleId 1)
      (listItem sampleTables ⟨sampleId, sampleId, 0⟩ ⟨sampleId, sampleId, sampleId, false⟩)
      decisionCursor false (currentDecisions sampleTables sampleId sampleId) := by
  refine ⟨⟨_, _, pairs_first, rfl, pairs_second, rfl⟩, ?_⟩
  obtain ⟨hcases, hruns, hdecisions⟩ := @lists_show_all plainTexts checksum _ _ _ _ _ _ _ 1
    sample_sound sample_context ⟨by decide, by decide⟩
  exact ⟨hcases none (some "PAIR") none "newest" pairFilters rfl,
    hruns sampleId ⟨_, List.mem_singleton_self _, rfl, rfl, rfl⟩, hdecisions⟩

end Workbench.ReviewLists
