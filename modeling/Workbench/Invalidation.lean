import Workbench.Policies
import Workbench.DoubleRejection

/-!
# Invalidation of scopes

Activations, decision commands and policy revisions change what the runs of a
scope are computed from, and each makes the scopes dirty that it changes. What
a run froze stays in the tables, and a scope that stays clean stays as it is.
-/

set_option autoImplicit false

namespace Workbench.Invalidation
open Workbench.Listing Workbench.Tables Workbench.Calendar Workbench.Workspaces Workbench.Json
open Workbench.Records Workbench.Ingestion Workbench.FrozenDecisions Workbench.Runs
open Workbench.Publications Workbench.PublicationFrames Workbench.PublicationRuns
open Workbench.DecisionStore (Consistent Written ActiveAs)
open Workbench.Policies (PolicyRequest createRevision ensurePolicy raiseGeneration dirtied
  addPolicy)
open Workbench.Raising (bind_ok demand fetch fetch_ok)

def ownedBook (workspace book : ℕ) (s : Store) : Except RunFailure Decisions.Book :=
  fetch .runUnavailable (s.review.books.find? fun b => b.id = book && b.workspace = workspace)

def datasetOf (workspace book dataset : ℕ) (s : Store) : Except RunFailure Dataset :=
  fetch .runUnavailable (s.datasets.find? fun d =>
    d.id = dataset && d.workspace = workspace && d.book = book)

def createBook (workspace : ℕ) (s : Store) : Store :=
  { s with
    books := s.books ++ [⟨s.review.books.length, 0⟩]
    review := { s.review with
      books := s.review.books ++ [⟨s.review.books.length, workspace, 0⟩] } }

def createDataset (workspace book : ℕ) (s : Store) : Except RunFailure Store := do
  let _ ← ownedBook workspace book s
  .ok { s with datasets := s.datasets ++ [⟨s.datasets.length, workspace, book, none⟩] }

def createScope (workspace book left right : ℕ) (s : Store) : Except RunFailure Store := do
  let _ ← ownedBook workspace book s
  let _ ← datasetOf workspace book left s
  let _ ← datasetOf workspace book right s
  demand (left ≠ right) .integrity
  .ok { s with
    scopes := s.scopes ++ [⟨s.scopes.length, left, right, none⟩]
    review := { s.review with
      scopes := s.review.scopes ++ [⟨s.scopes.length, workspace, book, true, 0⟩] } }

def consumes (workspace dataset : ℕ) (s : Store) (x : Decisions.Scope) : Bool :=
  x.workspace = workspace && s.scopes.any fun c =>
    c.id = x.id && (c.leftDataset = dataset || c.rightDataset = dataset)

/-- `mark_dataset_activation`. -/
def markDatasetActivation (workspace book dataset : ℕ) (s : Store) : Except RunFailure Store := do
  let _ ← ownedBook workspace book s
  .ok { s with
    books := raiseGeneration book s
    review := { s.review with
      scopes := dirtied (consumes workspace dataset s) s.review.scopes } }

def Dataset.revisedTo (revision : ℕ) (d : Dataset) : Dataset :=
  { d with currentRevision := some revision }

def withRevision (dataset : ℕ) (members : List Member)
    (logicals : List Decisions.LogicalTransaction)
    (observations : List Decisions.TransactionObservation) (s : Store) : Store :=
  { s with
    revisions := s.revisions ++ [⟨s.revisions.length, dataset, members⟩]
    datasets := revise Dataset.id dataset (Dataset.revisedTo s.revisions.length) s.datasets
    review := { s.review with
      logicals := s.review.logicals ++ logicals
      observations := s.review.observations ++ observations } }

/-- The end of `activate`, where its attempt makes a new revision. -/
def activate (workspace dataset : ℕ) (members : List Member)
    (logicals : List Decisions.LogicalTransaction)
    (observations : List Decisions.TransactionObservation) (s : Store) :
    Except RunFailure Store := do
  let d ← fetch .runUnavailable
    (s.datasets.find? fun d => d.id = dataset && d.workspace = workspace)
  markDatasetActivation workspace d.book dataset
    (withRevision dataset members logicals observations s)

def elsewhere (workspaces : List Workspace) (logicals : List Decisions.LogicalTransaction)
    (observations : List Decisions.TransactionObservation) (s : Store) : Store :=
  { s with review := { s.review with
      workspaces := workspaces
      logicals := logicals
      observations := observations } }

inductive Step (sha : Sha256) (digest : Digest) : Store → Store → Prop
  | bookCreated (s : Store) (workspace : ℕ) : Step sha digest s (createBook workspace s)
  | datasetCreated {s t : Store} {workspace book : ℕ}
      (h : createDataset workspace book s = .ok t) : Step sha digest s t
  | scopeCreated {s t : Store} {workspace book left right : ℕ}
      (h : createScope workspace book left right s = .ok t) : Step sha digest s t
  | activated {s t : Store} {workspace dataset : ℕ} {members : List Member}
      {logicals : List Decisions.LogicalTransaction}
      {observations : List Decisions.TransactionObservation}
      (h : activate workspace dataset members logicals observations s = .ok t) :
      Step sha digest s t
  | requested {s t : Store} {workspace book : ℕ} {expectedGeneration : ℤ}
      {request : PolicyRequest} {p : PolicyRevision}
      (h : createRevision workspace book sha expectedGeneration request s = .ok (t, p)) :
      Step sha digest s t
  | prepared {s t : Store} {workspace book scope : ℕ} {initial : PolicyRequest}
      (h : ensurePolicy workspace book sha scope initial s = .ok t) : Step sha digest s t
  | decided {s : Store} {a : Decisions.Store} {c : Decisions.Command} {workspace book : ℕ}
      {command : Decisions.DecisionCommand}
      (hc : DecisionStore.decisionOf c = some (workspace, book, command))
      (h : Decisions.perform digest s.review c = .ok a) :
      Step sha digest s { s with review := a }
  | created {s t : Store} {workspace scope : ℕ} {now : Instant} {r : Run}
      (h : createRunManifest workspace scope now s = .ok (t, r)) : Step sha digest s t
  | claimed {s t : Store} {workspace run : ℕ} {token : Option ℕ}
      (h : claimRun workspace run token s = .ok t) : Step sha digest s t
  | failed {s t : Store} {workspace run : ℕ} {token : Option ℕ} {code : String}
      (h : failRun workspace run token code s = .ok t) : Step sha digest s t
  | published {s t : Store} {workspace run : ℕ} {p : Publication}
      (h : publishRun sha digest workspace run p s = .ok t) : Step sha digest s t
  | other (s : Store) (workspaces : List Workspace)
      (logicals : List Decisions.LogicalTransaction)
      (observations : List Decisions.TransactionObservation) :
      Step sha digest s (elsewhere workspaces logicals observations s)

def Reached (sha : Sha256) (digest : Digest) (s : Store) : Prop :=
  Relation.ReflTransGen (Step sha digest) Store.empty s

structure Present (s : Store) (x : Decisions.Scope) (c : ScopeData) (m : Manifest) : Prop where
  left : currentRevision c.leftDataset s = some m.leftRevision
  right : currentRevision c.rightDataset s = some m.rightRevision
  policy : (latestPolicy x.workspace x.book s).map (·.id) = some m.policyRevision
  resolution : ∃ b ∈ s.review.books, b.id = x.book ∧
    b.resolutionGeneration = m.resolutionGeneration
  scope : x.generation = m.scopeGeneration

def ShowsPresent (s : Store) (x : Decisions.Scope) : Prop :=
  ∃ c ∈ s.scopes, c.id = x.id ∧ ∃ r ∈ s.runs, c.currentRun = some r.id ∧
    r.lifecycle = .completed ∧ Present s x c r.manifest

def CleanShowsPresent (s : Store) : Prop :=
  ∀ x ∈ s.review.scopes, x.isDirty = false → ShowsPresent s x

variable {sha : Sha256} {digest : Digest} {s t : Store} {workspace book : ℕ}

/-- A decision command changes the active decisions of no other book. -/
theorem written_elsewhere {a b : Decisions.Store} {request : Decisions.Request}
    (ha : Consistent a) (h : Written a workspace book request b) {other : ℕ} (hne : other ≠ book)
    (w : ℕ) : activeDecisions w other b = activeDecisions w other a := by
  have hb := h.consistent ha
  have hadvance : ∀ {d : Decisions.Decision} {current r : Decisions.DecisionRevision}
      {gone : List Decisions.Uuid}, DecisionStore.Advances a b d current r gone → d.book = book →
      (∀ id ∈ gone, ∀ x y, ActiveAs a x y → y.id = id → x.book = book) →
      ∀ {x : Decisions.Decision} {y : Decisions.DecisionRevision}, x.book = other →
        (ActiveAs b x y ↔ ActiveAs a x y) := by
    intro d current r gone hadv hd hgone x y hx
    rw [hadv.activeAs ha]
    constructor
    · rintro (⟨rfl, _, _⟩ | ⟨_, hact, _⟩)
      · exact absurd (hx.symm.trans hd) hne
      · exact hact
    · intro hact
      refine .inr ⟨?_, hact, ?_⟩
      · intro he
        have hxd := ha.chained.decision_eq hact.1 hadv.active.1 he
        exact hne (hx.symm.trans (hxd ▸ hd))
      · intro hg
        exact hne (hx.symm.trans (hgone _ hg x y hact rfl))
  have hactive : ∀ {x : Decisions.Decision} {y : Decisions.DecisionRevision}, x.book = other →
      (ActiveAs b x y ↔ ActiveAs a x y) := by
    intro x y hx
    cases h with
    | @committed d r authority fresh current new free =>
      have hact : r.action ≠ .revoke := by
        rw [new.action]
        cases authority <;> simp [Decisions.DecisionAuthority.action]
      rw [DecisionStore.committed_activeAs ha current new.fresh hact]
      constructor
      · rintro (⟨rfl, _⟩ | hold)
        · exact absurd hx.symm hne
        · exact hold
      · exact .inr
    | reaffirmed active new =>
      exact hadvance (DecisionStore.reaffirmed_advances active new) rfl (by simp) hx
    | revoked active new =>
      exact hadvance (DecisionStore.revoked_advances active new) rfl (by simp) hx
    | @replaced d current r authority approved gone now active new target conflicts free =>
      have hclaims : ∀ id ∈ gone, id ≠ current.id → ∃ c ∈ a.claims, c.workspace = d.workspace ∧
          c.book = d.book ∧ c.decisionRevision = id :=
        fun id hid hid' => (conflicts id hid hid').2
      apply hadvance (DecisionStore.replaced_advances ha authority now active new hclaims) rfl _ hx
      intro id hid x y hact he
      by_cases hcur : id = current.id
      · have hyc := ha.chained.revision_eq hact.2.1 active.2.1 (he.trans hcur)
        have hxd : x = d := by
          apply ha.chained.decision_eq hact.1 active.1
          rw [← ha.chained.current hact.1 hact.2.1 hact.2.2.1,
            ← ha.chained.current active.1 active.2.1 active.2.2.1, hyc]
        rw [hxd]
      · obtain ⟨c, hc, _, hcb, hrev⟩ := hclaims id hid hcur
        obtain ⟨_, hbook, _⟩ := ha.claim_owner hc hact (hrev.trans he.symm)
        exact hbook.symm.trans hcb
  have hperm : (activeDecisions w other b).Perm (activeDecisions w other a) := by
    apply (List.perm_ext_iff_of_nodup ((DoubleRejection.activeDecisions_nodup hb).of_map _)
      ((DoubleRejection.activeDecisions_nodup ha).of_map _)).mpr
    intro r
    rw [DoubleRejection.mem_activeDecisions hb, DoubleRejection.mem_activeDecisions ha]
    constructor
    · rintro ⟨d, hd, hw, hbook⟩
      exact ⟨d, (hactive hbook).mp hd, hw, hbook⟩
    · rintro ⟨d, hd, hw, hbook⟩
      exact ⟨d, (hactive hbook).mpr hd, hw, hbook⟩
  have htexts : ((activeDecisions w other b).map (·.id.text)).Nodup := by
    apply List.Nodup.map_on _ ((DoubleRejection.activeDecisions_nodup hb).of_map _)
    intro x hx y hy he
    obtain ⟨_, hx, _⟩ := (DoubleRejection.mem_activeDecisions hb).mp hx
    obtain ⟨_, hy, _⟩ := (DoubleRejection.mem_activeDecisions hb).mp hy
    exact hb.chained.revision_eq hx.2.1 hy.2.1 (Decisions.Uuid.text_injective he)
  have hsorted := sortOn_eq_of_perm (·.id.text) hperm htexts
  unfold activeDecisions at hsorted ⊢
  rw [sortOn_idem, sortOn_idem] at hsorted
  exact hsorted

def places (s : Store) : List (ℕ × ℕ × ℕ) :=
  s.review.scopes.map fun x => (x.id, x.workspace, x.book)

def sides (s : Store) : List (ℕ × ℕ × ℕ) :=
  s.scopes.map fun c => (c.id, c.leftDataset, c.rightDataset)

def Owns (s : Store) (workspace dataset : ℕ) : Prop :=
  ∃ d ∈ s.datasets, d.id = dataset ∧ d.workspace = workspace

structure Founded (s : Store) : Prop where
  consistent : Consistent s.review
  policies : Numbered PolicyRevision.id s.policies
  revisions : Numbered DatasetRevision.id s.revisions
  datasets : Numbered Dataset.id s.datasets
  books : Numbered Decisions.Book.id s.review.books
  scopes : (sides s).map (·.1) = List.range s.scopes.length
  rows : (places s).map (·.1) = (sides s).map (·.1)
  currents : ∀ d ∈ s.datasets, ∀ v, d.currentRevision = some v → v < s.revisions.length
  housed : ∀ e ∈ places s, ∃ b ∈ s.review.books, b.id = e.2.2 ∧ b.workspace = e.2.1
  owned : ∀ e ∈ places s, ∀ c ∈ sides s, c.1 = e.1 → Owns s e.2.1 c.2.1 ∧ Owns s e.2.1 c.2.2

def NamesPolicy (m : Manifest) (p : PolicyRevision) : Prop :=
  p.id = m.policyRevision ∧ p.digest = m.policyDigest ∧ p.engineVersion = m.engineVersion ∧
    p.solverVersion = m.solverVersion

/-- What a run froze stands in the tables. Its decisions are those in force as
long as no command raises the generation of the book. -/
structure Frozen (s : Store) (r : Run) : Prop where
  place : (r.scope, r.workspace, r.book) ∈ places s
  policy : ∃ p ∈ s.policies, NamesPolicy r.manifest p
  left : r.manifest.leftRevision < s.revisions.length
  right : r.manifest.rightRevision < s.revisions.length
  inputs : r.manifest.inputs = inputsOf r.manifest.leftRevision r.manifest.rightRevision s
  decisions : ∀ b ∈ s.review.books, b.id = r.book →
    r.manifest.resolutionGeneration ≤ b.resolutionGeneration ∧
      (b.resolutionGeneration = r.manifest.resolutionGeneration →
        r.manifest.decisions = activeDecisions r.workspace r.book s.review)

structure Coherent (s : Store) : Prop extends Founded s where
  runs : Numbered Run.id s.runs
  shapes : ∀ r ∈ s.runs, r.Shape
  frozen : ∀ r ∈ s.runs, Frozen s r
  shown : CleanShowsPresent s

theorem empty_coherent : Coherent Store.empty where
  consistent := DecisionStore.empty_consistent
  policies := rfl
  revisions := rfl
  datasets := rfl
  books := rfl
  scopes := rfl
  rows := rfl
  currents := by simp [Store.empty]
  housed := by simp [places, Store.empty, Decisions.Store.empty]
  owned := by simp [places, Store.empty, Decisions.Store.empty]
  runs := rfl
  shapes := by simp [Store.empty]
  frozen := by simp [Store.empty]
  shown := by simp [CleanShowsPresent, Store.empty, Decisions.Store.empty]

theorem mem_places {x : Decisions.Scope} (hx : x ∈ s.review.scopes) :
    (x.id, x.workspace, x.book) ∈ places s := List.mem_map_of_mem hx

theorem mem_sides {c : ScopeData} (hc : c ∈ s.scopes) :
    (c.id, c.leftDataset, c.rightDataset) ∈ sides s := List.mem_map_of_mem hc

theorem Founded.place_eq (h : Founded s) {x y : ℕ × ℕ × ℕ} (hx : x ∈ places s) (hy : y ∈ places s)
    (he : x.1 = y.1) : x = y := by
  apply eq_of_key_eq (fun e : ℕ × ℕ × ℕ => e.1) _ hx hy he
  rw [h.rows, h.scopes]
  exact List.nodup_range

theorem Founded.row_eq (h : Founded s) {x y : Decisions.Scope} (hx : x ∈ s.review.scopes)
    (hy : y ∈ s.review.scopes) (he : x.id = y.id) : x = y := by
  apply eq_of_key_eq Decisions.Scope.id _ hx hy he
  have hrows := h.rows
  unfold places at hrows
  rw [h.scopes, List.map_map] at hrows
  show (s.review.scopes.map fun x => x.id).Nodup
  exact hrows ▸ List.nodup_range

theorem Founded.consistent_kept (h : Founded s) (hd : t.review.decisions = s.review.decisions)
    (hr : t.review.revisions = s.review.revisions)
    (hp : t.review.supersessions = s.review.supersessions)
    (hc : t.review.claims = s.review.claims) : Consistent t.review :=
  DecisionStore.consistent_congr hd hr hp hc h.consistent

theorem lookup_append {α : Type} {key : α → ℕ} {l news : List α} {k : ℕ} (h : ∃ a ∈ l, key a = k) :
    lookup key (l ++ news) k = lookup key l k := by
  obtain ⟨a, ha, hk⟩ := h
  unfold lookup
  rw [List.find?_append]
  cases hf : l.find? fun a => key a = k with
  | some b => rfl
  | none => exact absurd (decide_eq_true hk) (List.find?_eq_none.mp hf a ha)

structure Lasting (s t : Store) : Prop where
  places : places s ⊆ places t
  policies : s.policies ⊆ t.policies
  revisions : ∃ news, t.revisions = s.revisions ++ news
  active : ∀ b' ∈ t.review.books, ∀ b ∈ s.review.books, b'.id = b.id →
    b.resolutionGeneration ≤ b'.resolutionGeneration ∧
      (b.resolutionGeneration = b'.resolutionGeneration → ∀ w,
        activeDecisions w b.id t.review = activeDecisions w b.id s.review)

theorem membersOf_append (h : Numbered DatasetRevision.id s.revisions) {news : List DatasetRevision}
    (ht : t.revisions = s.revisions ++ news) {v : ℕ} (hv : v < s.revisions.length) :
    membersOf v t = membersOf v s := by
  have hmem : v ∈ s.revisions.map DatasetRevision.id := h.symm ▸ List.mem_range.mpr hv
  unfold membersOf
  rw [ht, lookup_append (List.mem_map.mp hmem)]

theorem Frozen.last {r : Run} (h : Frozen s r) (hs : Founded s) (hl : Lasting s t) :
    Frozen t r := by
  obtain ⟨news, hnews⟩ := hl.revisions
  have hlength : s.revisions.length ≤ t.revisions.length := by
    rw [hnews, List.length_append]
    exact Nat.le_add_right _ _
  refine ⟨hl.places h.place, ?_, h.left.trans_le hlength, h.right.trans_le hlength, ?_, ?_⟩
  · obtain ⟨p, hp, hrest⟩ := h.policy
    exact ⟨p, hl.policies hp, hrest⟩
  · unfold inputsOf
    rw [membersOf_append hs.revisions hnews h.left, membersOf_append hs.revisions hnews h.right]
    exact h.inputs
  · intro b' hb' hid
    obtain ⟨b, hb, hbook, _⟩ := hs.housed _ h.place
    obtain ⟨hle, hdecisions⟩ := h.decisions b hb hbook
    obtain ⟨hraised, hactive⟩ := hl.active b' hb' b hb (hid.trans hbook.symm)
    refine ⟨hle.trans hraised, fun he => ?_⟩
    have hgeneration := Nat.le_antisymm (he ▸ hraised) hle
    have hsame := hactive (hgeneration.trans he.symm) r.workspace
    rw [show b.id = r.book from hbook] at hsame
    rw [hsame]
    exact hdecisions hgeneration

theorem Frozen.like {r q : Run} (h : Frozen s r) (hscope : q.scope = r.scope)
    (hworkspace : q.workspace = r.workspace) (hbook : q.book = r.book)
    (hmanifest : q.manifest = r.manifest) : Frozen s q := by
  refine ⟨?_, ?_, ?_, ?_, ?_, ?_⟩
  · rw [hscope, hworkspace, hbook]
    exact h.place
  · rw [hmanifest]
    exact h.policy
  · rw [hmanifest]
    exact h.left
  · rw [hmanifest]
    exact h.right
  · rw [hmanifest]
    exact h.inputs
  · rw [hmanifest, hworkspace, hbook]
    exact h.decisions

/-- The books of before are among the books of after, with the same decisions
in force. -/
theorem active_same (hn : Numbered Decisions.Book.id t.review.books)
    (hb : s.review.books ⊆ t.review.books)
    (ha : ∀ w book, activeDecisions w book t.review = activeDecisions w book s.review) :
    ∀ b' ∈ t.review.books, ∀ b ∈ s.review.books, b'.id = b.id →
      b.resolutionGeneration ≤ b'.resolutionGeneration ∧
        (b.resolutionGeneration = b'.resolutionGeneration → ∀ w,
          activeDecisions w b.id t.review = activeDecisions w b.id s.review) := by
  intro b' hb' b hb0 hid
  have he := eq_of_key_eq Decisions.Book.id hn.nodup hb' (hb hb0) hid
  rw [he]
  exact ⟨le_rfl, fun _ w => ha w b.id⟩

structure Leaves (s t : Store) (x : Decisions.Scope) : Prop where
  row : x ∈ s.review.scopes
  scopes : ∀ c ∈ s.scopes, c.id = x.id → c ∈ t.scopes
  current : ∀ c ∈ s.scopes, c.id = x.id →
    currentRevision c.leftDataset t = currentRevision c.leftDataset s ∧
      currentRevision c.rightDataset t = currentRevision c.rightDataset s
  policy : ∀ p, latestPolicy x.workspace x.book s = some p →
    latestPolicy x.workspace x.book t = some p
  books : ∀ b ∈ s.review.books, b.id = x.book → b ∈ t.review.books

theorem ShowsPresent.leave {x : Decisions.Scope} (h : ShowsPresent s x) (hl : Leaves s t x)
    (hr : ∀ r ∈ s.runs, r.lifecycle = .completed → r ∈ t.runs) : ShowsPresent t x := by
  obtain ⟨c, hc, hid, r, hrun, hcurrent, hdone, hp⟩ := h
  obtain ⟨hleft, hright⟩ := hl.current c hc hid
  refine ⟨c, hl.scopes c hc hid, hid, r, hr r hrun hdone, hcurrent, hdone, ?_⟩
  obtain ⟨b, hb, hbook, hgeneration⟩ := hp.resolution
  obtain ⟨p, hlatest, hpolicy⟩ := Option.map_eq_some_iff.mp hp.policy
  refine ⟨hleft.trans hp.left, hright.trans hp.right, ?_,
    ⟨b, hl.books b hb hbook, hbook, hgeneration⟩, hp.scope⟩
  rw [hl.policy p hlatest, ← hpolicy]
  rfl

theorem Coherent.keep (h : Coherent s) (hr : t.runs = s.runs) (hl : Lasting s t)
    (hc : ∀ x ∈ t.review.scopes, x.isDirty = false → Leaves s t x) (ht : Founded t) :
    Coherent t where
  toFounded := ht
  runs := hr ▸ h.runs
  shapes := hr ▸ h.shapes
  frozen := fun r hm => (h.frozen r (hr ▸ hm)).last h.toFounded hl
  shown := by
    intro x hx hd
    have hleaves := hc x hx hd
    exact (h.shown x hleaves.row hd).leave hleaves fun r hm _ => hr ▸ hm

theorem ownedBook_ok {b : Decisions.Book} (h : ownedBook workspace book s = .ok b) :
    b ∈ s.review.books ∧ b.id = book ∧ b.workspace = workspace := by
  rw [ownedBook, fetch_ok] at h
  have hb := List.find?_some h
  simp only [Bool.and_eq_true, decide_eq_true_eq] at hb
  exact ⟨List.mem_of_find?_eq_some h, hb⟩

theorem datasetOf_ok {dataset : ℕ} {d : Dataset} (h : datasetOf workspace book dataset s = .ok d) :
    d ∈ s.datasets ∧ d.id = dataset ∧ d.workspace = workspace := by
  rw [datasetOf, fetch_ok] at h
  have hd := List.find?_some h
  simp only [Bool.and_eq_true, decide_eq_true_eq] at hd
  exact ⟨List.mem_of_find?_eq_some h, hd.1⟩

theorem createBook_coherent (h : Coherent s) (workspace : ℕ) :
    Coherent (createBook workspace s) := by
  have hbooks : Numbered Decisions.Book.id (createBook workspace s).review.books :=
    h.books.concat rfl
  refine h.keep rfl ?_ ?_ ?_
  · refine ⟨List.Subset.refl _, List.Subset.refl _, ⟨[], (List.append_nil _).symm⟩, ?_⟩
    exact active_same hbooks (List.subset_append_left _ _) fun _ _ => rfl
  · intro x hx _
    exact ⟨hx, fun _ hc _ => hc, fun _ _ _ => ⟨rfl, rfl⟩, fun _ hp => hp,
      fun b hb _ => List.mem_append_left _ hb⟩
  · exact {
      consistent := h.consistent_kept rfl rfl rfl rfl
      policies := h.policies
      revisions := h.revisions
      datasets := h.datasets
      books := hbooks
      scopes := h.scopes
      rows := h.rows
      currents := h.currents
      housed := by
        intro e he
        obtain ⟨b, hb, hhoused⟩ := h.housed e he
        exact ⟨b, List.mem_append_left _ hb, hhoused⟩
      owned := h.owned }

theorem Owns.mono (hd : s.datasets ⊆ t.datasets) {dataset : ℕ} (h : Owns s workspace dataset) :
    Owns t workspace dataset := by
  obtain ⟨d, hm, hrest⟩ := h
  exact ⟨d, hd hm, hrest⟩

theorem Founded.owns (h : Founded s) {x : Decisions.Scope} (hx : x ∈ s.review.scopes)
    {c : ScopeData} (hc : c ∈ s.scopes) (hid : c.id = x.id) :
    Owns s x.workspace c.leftDataset ∧ Owns s x.workspace c.rightDataset :=
  h.owned _ (mem_places hx) _ (mem_sides hc) hid

theorem createDataset_coherent (h : Coherent s) (ht : createDataset workspace book s = .ok t) :
    Coherent t := by
  simp only [createDataset, bind_ok, Except.ok.injEq] at ht
  obtain ⟨_, _, rfl⟩ := ht
  have hsub : s.datasets ⊆ s.datasets ++ [⟨s.datasets.length, workspace, book, none⟩] :=
    List.subset_append_left _ _
  refine h.keep rfl ?_ ?_ ?_
  · exact ⟨List.Subset.refl _, List.Subset.refl _, ⟨[], (List.append_nil _).symm⟩,
      active_same h.books (List.Subset.refl _) fun _ _ => rfl⟩
  · intro x hx _
    refine ⟨hx, fun _ hc _ => hc, ?_, fun _ hp => hp, fun b hb _ => hb⟩
    intro c hc hid
    obtain ⟨⟨l, hl, hleft, _⟩, ⟨r, hr, hright, _⟩⟩ := h.owns hx hc hid
    unfold currentRevision
    exact ⟨congrArg (Option.bind · _) (lookup_append ⟨l, hl, hleft⟩),
      congrArg (Option.bind · _) (lookup_append ⟨r, hr, hright⟩)⟩
  · exact {
      consistent := h.consistent
      policies := h.policies
      revisions := h.revisions
      datasets := h.datasets.concat rfl
      books := h.books
      scopes := h.scopes
      rows := h.rows
      currents := by
        intro d hd v hv
        rcases List.mem_append.mp hd with hd | hd
        · exact h.currents d hd v hv
        · rw [List.mem_singleton.mp hd] at hv
          cases hv
      housed := h.housed
      owned := by
        intro e he c hc hid
        obtain ⟨hleft, hright⟩ := h.owned e he c hc hid
        exact ⟨hleft.mono hsub, hright.mono hsub⟩ }

theorem createScope_coherent (h : Coherent s) {left right : ℕ}
    (ht : createScope workspace book left right s = .ok t) : Coherent t := by
  simp only [createScope, bind_ok, Except.ok.injEq] at ht
  obtain ⟨b, hb, l, hl, r, hr, _, _, rfl⟩ := ht
  obtain ⟨hb, hbook, hworkspace⟩ := ownedBook_ok hb
  have hleft := datasetOf_ok hl
  have hright := datasetOf_ok hr
  have hplace : ∀ e ∈ places s, e.1 < s.scopes.length := by
    intro e he
    have hm := List.mem_map_of_mem (f := fun e : ℕ × ℕ × ℕ => e.1) he
    rw [h.rows, h.scopes] at hm
    exact List.mem_range.mp hm
  have hside : ∀ c ∈ sides s, c.1 < s.scopes.length := by
    intro c hc
    have hm := List.mem_map_of_mem (f := fun e : ℕ × ℕ × ℕ => e.1) hc
    rw [h.scopes] at hm
    exact List.mem_range.mp hm
  let u : Store := { s with
    scopes := s.scopes ++ [⟨s.scopes.length, left, right, none⟩]
    review := { s.review with
      scopes := s.review.scopes ++ [⟨s.scopes.length, workspace, book, true, 0⟩] } }
  have hplaces : places u = places s ++ [(s.scopes.length, workspace, book)] := List.map_append
  have hsides : sides u = sides s ++ [(s.scopes.length, left, right)] := List.map_append
  refine h.keep (t := u) rfl ?_ ?_ ?_
  · refine ⟨?_, List.Subset.refl _, ⟨[], (List.append_nil _).symm⟩,
      active_same h.books (List.Subset.refl _) fun _ _ => rfl⟩
    rw [hplaces]
    exact List.subset_append_left _ _
  · intro x hx hd
    rcases List.mem_append.mp hx with hx | hx
    · exact ⟨hx, fun _ hc _ => List.mem_append_left _ hc, fun _ _ _ => ⟨rfl, rfl⟩,
        fun _ hp => hp, fun b hb _ => hb⟩
    · rw [List.mem_singleton.mp hx] at hd
      cases hd
  · exact {
      consistent := h.consistent_kept rfl rfl rfl rfl
      policies := h.policies
      revisions := h.revisions
      datasets := h.datasets
      books := h.books
      scopes := by
        rw [hsides, List.map_append, h.scopes]
        show _ = List.range (s.scopes ++ _).length
        rw [List.length_append, List.length_singleton, List.range_succ]
        rfl
      rows := by
        rw [hplaces, hsides, List.map_append, List.map_append, h.rows]
        rfl
      currents := h.currents
      housed := by
        intro e he
        rw [hplaces] at he
        rcases List.mem_append.mp he with he | he
        · exact h.housed e he
        · rw [List.mem_singleton.mp he]
          exact ⟨b, hb, hbook, hworkspace⟩
      owned := by
        intro e he c hc hid
        rw [hplaces] at he
        rw [hsides] at hc
        rcases List.mem_append.mp he with he | he
        · rcases List.mem_append.mp hc with hc | hc
          · exact h.owned e he c hc hid
          · rw [List.mem_singleton.mp hc] at hid
            exact absurd hid (hplace e he).ne'
        · rw [List.mem_singleton.mp he] at hid ⊢
          rcases List.mem_append.mp hc with hc | hc
          · exact absurd hid (hside c hc).ne
          · rw [List.mem_singleton.mp hc]
            exact ⟨⟨l, hleft⟩, ⟨r, hright⟩⟩ }

theorem elsewhere_coherent (h : Coherent s) (workspaces : List Workspace)
    (logicals : List Decisions.LogicalTransaction)
    (observations : List Decisions.TransactionObservation) :
    Coherent (elsewhere workspaces logicals observations s) := by
  refine h.keep rfl ?_ ?_ ?_
  · exact ⟨List.Subset.refl _, List.Subset.refl _, ⟨[], (List.append_nil _).symm⟩,
      active_same h.books (List.Subset.refl _) fun _ _ => rfl⟩
  · exact fun x hx _ => ⟨hx, fun _ hc _ => hc, fun _ _ _ => ⟨rfl, rfl⟩, fun _ hp => hp,
      fun b hb _ => hb⟩
  · exact ⟨h.consistent_kept rfl rfl rfl rfl, h.policies, h.revisions, h.datasets, h.books, h.scopes, h.rows,
      h.currents, h.housed, h.owned⟩

theorem dirtied_places (p : Decisions.Scope → Bool) (scopes : List Decisions.Scope) :
    (dirtied p scopes).map (fun x => (x.id, x.workspace, x.book)) =
      scopes.map fun x => (x.id, x.workspace, x.book) := by
  unfold dirtied
  rw [List.map_map]
  apply List.map_congr_left
  intro x _
  by_cases hx : p x = true <;> simp [hx]

/-- A new policy dirties the scopes whose latest policy it replaces. -/
theorem made_coherent (h : Coherent s) {label : Option (ℕ × ℕ)} {p q : PolicyRevision}
    {dirties : Decisions.Scope → Bool}
    (hm : Policies.Made label s (addPolicy book q dirties s) p) :
    Coherent (addPolicy book q dirties s) := by
  have hplaces : places (addPolicy book q dirties s) = places s := dirtied_places _ _
  refine h.keep rfl ?_ ?_ ?_
  · refine ⟨?_, List.subset_append_left _ _, ⟨[], (List.append_nil _).symm⟩,
      active_same h.books (List.Subset.refl _) fun _ _ => rfl⟩
    rw [hplaces]
    exact List.Subset.refl _
  · intro x hx hd
    obtain ⟨hrow, hnone⟩ := hm.clean x hx hd
    refine ⟨hrow, fun _ hc _ => hc, fun _ _ _ => ⟨rfl, rfl⟩, ?_, fun b hb _ => hb⟩
    intro old hold
    rw [Policies.latestPolicy_congr (Policies.policiesOf_append hm.policies _)]
    · exact hold
    · intro new hnew hown
      rw [List.mem_singleton.mp hnew] at hown
      have hempty := hnone hown.1.symm hown.2.symm
      rw [hown.1, hown.2, hold] at hempty
      cases hempty
  · exact {
      consistent := h.consistent_kept rfl rfl rfl rfl
      policies := by
        rw [hm.policies]
        exact h.policies.concat hm.id
      revisions := h.revisions
      datasets := h.datasets
      books := h.books
      scopes := h.scopes
      rows := by
        rw [hplaces]
        exact h.rows
      currents := h.currents
      housed := by
        rw [hplaces]
        exact h.housed
      owned := by
        rw [hplaces]
        exact h.owned }

theorem requested_coherent (h : Coherent s) {expectedGeneration : ℤ} {request : PolicyRequest}
    {p : PolicyRevision}
    (ht : createRevision workspace book sha expectedGeneration request s = .ok (t, p)) :
    Coherent t := by
  rcases Policies.requested_made ht with rfl | hm
  · exact h
  · obtain ⟨_, ⟨rfl, _⟩ | ⟨_, _, rfl⟩⟩ := Policies.createRevision_ok ht
    · exact h
    · exact made_coherent h hm

theorem prepared_coherent (h : Coherent s) {scope : ℕ} {initial : PolicyRequest}
    (ht : ensurePolicy workspace book sha scope initial s = .ok t) : Coherent t := by
  rcases Policies.prepared_made ht with rfl | ⟨p, hm⟩
  · exact h
  · rcases Policies.ensurePolicy_ok ht with rfl | ⟨_, d, rfl⟩
    · exact h
    · exact made_coherent h hm

theorem unconsumed (h : Founded s) {x : Decisions.Scope} (hx : x ∈ s.review.scopes) {d : Dataset}
    (hd : d ∈ s.datasets) (hw : d.workspace = workspace) (hc : consumes workspace d.id s x = false)
    {c : ScopeData} (hcs : c ∈ s.scopes) (hid : c.id = x.id) :
    c.leftDataset ≠ d.id ∧ c.rightDataset ≠ d.id := by
  obtain ⟨hleft, hright⟩ := h.owns hx hcs hid
  have hworkspace : ∀ {i : ℕ}, Owns s x.workspace i → i = d.id → x.workspace = workspace := by
    intro i hi he
    obtain ⟨e, hem, heid, hew⟩ := hi
    rw [← hew, ← hw, eq_of_key_eq Dataset.id h.datasets.nodup hem hd (heid.trans he)]
  have hmeant : c.leftDataset = d.id ∨ c.rightDataset = d.id → x.workspace ≠ workspace := by
    intro hdataset hwx
    have hany : (s.scopes.any fun c =>
        c.id = x.id && (c.leftDataset = d.id || c.rightDataset = d.id)) = true := by
      apply List.any_eq_true.mpr
      refine ⟨c, hcs, ?_⟩
      simp only [Bool.and_eq_true, Bool.or_eq_true, decide_eq_true_eq]
      exact ⟨hid, hdataset⟩
    unfold consumes at hc
    rw [hany, hwx] at hc
    simp at hc
  exact ⟨fun he => hmeant (.inl he) (hworkspace hleft he),
    fun he => hmeant (.inr he) (hworkspace hright he)⟩

theorem activate_coherent (h : Coherent s) {dataset : ℕ} {members : List Member}
    {logicals : List Decisions.LogicalTransaction}
    {observations : List Decisions.TransactionObservation}
    (ht : activate workspace dataset members logicals observations s = .ok t) : Coherent t := by
  simp only [activate, markDatasetActivation, bind_ok, fetch_ok, Except.ok.injEq] at ht
  obtain ⟨d, hd, _, _, rfl⟩ := ht
  have hfound := List.find?_some hd
  simp only [Bool.and_eq_true, decide_eq_true_eq] at hfound
  obtain ⟨rfl, hw⟩ := hfound
  have hd := List.mem_of_find?_eq_some hd
  have howns : ∀ {w i : ℕ}, Owns s w i →
      Owns (withRevision d.id members logicals observations s) w i := by
    intro w i hi
    obtain ⟨e, he, hid, hew⟩ := hi
    refine ⟨_, mem_revise.mpr ⟨e, he, rfl⟩, ?_⟩
    split
    · exact ⟨hid, hew⟩
    · exact ⟨hid, hew⟩
  refine h.keep rfl ?_ ?_ ?_
  · refine ⟨?_, List.Subset.refl _, ⟨_, rfl⟩,
      active_same h.books (List.Subset.refl _) fun _ _ => rfl⟩
    show places s ⊆ (dirtied _ s.review.scopes).map _
    rw [dirtied_places]
    exact List.Subset.refl _
  · intro x hx hclean
    obtain ⟨hrow, hother⟩ := Policies.dirtied_clean hx hclean
    refine ⟨hrow, fun _ hc _ => hc, ?_, fun _ hp => hp, fun b hb _ => hb⟩
    intro c hc hid
    obtain ⟨hleft, hright⟩ := unconsumed h.toFounded hrow hd hw hother hc hid
    have hsame : ∀ {i : ℕ}, i ≠ d.id →
        lookup Dataset.id (withRevision d.id members logicals observations s).datasets i =
          lookup Dataset.id s.datasets i := by
      intro i hi
      have hids : ∀ e, (Dataset.revisedTo s.revisions.length e).id = e.id := fun _ => rfl
      exact (lookup_revise hids d.id i s.datasets).trans (if_neg hi)
    exact ⟨congrArg (Option.bind · _) (hsame hleft), congrArg (Option.bind · _) (hsame hright)⟩
  · exact {
      consistent := h.consistent_kept rfl rfl rfl rfl
      policies := h.policies
      revisions := h.revisions.concat rfl
      datasets := h.datasets.revise (f := Dataset.revisedTo s.revisions.length) (fun _ => rfl) _
      books := h.books
      scopes := h.scopes
      rows := by
        show ((dirtied _ s.review.scopes).map _).map _ = _
        rw [dirtied_places]
        exact h.rows
      currents := by
        intro e he v hv
        show v < (s.revisions ++ [_]).length
        rw [List.length_append, List.length_singleton]
        obtain ⟨old, hold, rfl⟩ := mem_revise.mp he
        split at hv
        · rw [← Option.some.inj hv]
          exact Nat.lt_succ_self _
        · exact (h.currents old hold v hv).trans (Nat.lt_succ_self _)
      housed := by
        show ∀ e ∈ (dirtied _ s.review.scopes).map _, _
        rw [dirtied_places]
        exact h.housed
      owned := by
        show ∀ e ∈ (dirtied _ s.review.scopes).map _, _
        rw [dirtied_places]
        intro e he c hc hid
        obtain ⟨hleft, hright⟩ := h.owned e he c hc hid
        exact ⟨howns hleft, howns hright⟩ }

/-- A decision command dirties the scopes of its book and raises its generation. -/
theorem decided_coherent (h : Coherent s) {c : Decisions.Command}
    {command : Decisions.DecisionCommand}
    (hc : DecisionStore.decisionOf c = some (workspace, book, command)) {a : Decisions.Store}
    (ha : Decisions.perform digest s.review c = .ok a) : Coherent { s with review := a } := by
  obtain ⟨⟨owner, howner, hid, hworkspace, _⟩, b, hb, rfl⟩ :=
    DecisionStore.perform_decision h.consistent hc ha
  have hscopes := Policies.written_scopes hb
  have hbooks := DecisionLaws.written_books hb
  have hdirtied : (Decisions.bump workspace book b).scopes =
      dirtied (fun x => x.workspace = workspace && x.book = book) s.review.scopes := by
    unfold Decisions.bump dirtied
    simp only [hscopes, Bool.and_eq_true, decide_eq_true_eq]
  have hraised : (Decisions.bump workspace book b).books = revise Decisions.Book.id book
      (fun b => { b with resolutionGeneration := b.resolutionGeneration+1 }) s.review.books := by
    unfold Decisions.bump
    rw [hbooks]
  have hplaces : places { s with review := Decisions.bump workspace book b } = places s := by
    unfold places
    rw [hdirtied, dirtied_places]
  refine h.keep rfl ?_ ?_ ?_
  · refine ⟨hplaces ▸ List.Subset.refl _, List.Subset.refl _, ⟨[], (List.append_nil _).symm⟩, ?_⟩
    intro y hy x hx hyx
    replace hy : y ∈ (Decisions.bump workspace book b).books := hy
    rw [hraised] at hy
    obtain ⟨old, hold, rfl⟩ := mem_revise.mp hy
    by_cases hbook : old.id = book
    · rw [if_pos hbook] at hyx ⊢
      rw [eq_of_key_eq Decisions.Book.id h.books.nodup hold hx hyx]
      exact ⟨Nat.le_succ _, fun he => absurd he (Nat.lt_succ_self _).ne⟩
    · rw [if_neg hbook] at hyx ⊢
      rw [eq_of_key_eq Decisions.Book.id h.books.nodup hold hx hyx] at hbook ⊢
      exact ⟨le_rfl, fun _ w => written_elsewhere h.consistent hb hbook w⟩
  · intro x hx hclean
    replace hx : x ∈ (Decisions.bump workspace book b).scopes := hx
    rw [hdirtied] at hx
    obtain ⟨hrow, hother⟩ := Policies.dirtied_clean hx hclean
    refine ⟨hrow, fun _ hc _ => hc, fun _ _ _ => ⟨rfl, rfl⟩, fun _ hp => hp, ?_⟩
    intro y hy hyx
    show y ∈ (Decisions.bump workspace book b).books
    rw [hraised]
    refine mem_revise.mpr ⟨y, hy, (if_neg fun hyb => ?_).symm⟩
    obtain ⟨z, hz, hzid, hzw⟩ := h.housed _ (mem_places hrow)
    have hzy := eq_of_key_eq Decisions.Book.id h.books.nodup hz howner
      (hzid.trans (hyx.symm.trans (hyb.trans hid.symm)))
    rw [hzy] at hzid hzw
    have hxw : x.workspace = workspace := hzw.symm.trans hworkspace
    have hxb : x.book = book := hzid.symm.trans hid
    simp [hxw, hxb] at hother
  · exact {
      consistent := DecisionStore.bump_consistent _ _ (hb.consistent h.consistent)
      policies := h.policies
      revisions := h.revisions
      datasets := h.datasets
      books := by
        show Numbered _ (Decisions.bump workspace book b).books
        rw [hraised]
        exact h.books.revise (f := fun b => { b with
          resolutionGeneration := b.resolutionGeneration+1 }) (fun _ => rfl) book
      scopes := h.scopes
      rows := by
        rw [hplaces]
        exact h.rows
      currents := h.currents
      housed := by
        rw [hplaces]
        intro e he
        obtain ⟨y, hy, hye, hyw⟩ := h.housed e he
        show ∃ y ∈ (Decisions.bump workspace book b).books, _
        rw [hraised]
        refine ⟨_, mem_revise.mpr ⟨y, hy, rfl⟩, ?_⟩
        split
        · exact ⟨hye, hyw⟩
        · exact ⟨hye, hyw⟩
      owned := by
        rw [hplaces]
        exact h.owned }

end Workbench.Invalidation
