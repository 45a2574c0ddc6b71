import Workbench.Invalidation
import Workbench.ScopeViews

/-!
# What a clean scope shows

A publication compares what its run froze with what the scope has now. A run
is marked current when its manifest would be frozen again, and a scope is clean
as long as that is so.
-/

set_option autoImplicit false

namespace Workbench.Freshness
open Workbench.Listing Workbench.Tables Workbench.Calendar Workbench.Json Workbench.Records
open Workbench.Ingestion Workbench.FrozenDecisions Workbench.Runs Workbench.Publications
open Workbench.PublicationFrames Workbench.PublicationRuns Workbench.Invalidation
open Workbench.Policies (createRevision ensurePolicy)
open Workbench.Raising (bind_ok ok_bind map_ok demand_ok fetch_ok)

structure MarkedCurrent (t : Store) (r : Run) : Prop where
  run : ∃ q ∈ t.runs, q.id = r.id ∧ q.freshness = .current
  shown : ∃ c ∈ t.scopes, c.id = r.scope ∧ c.currentRun = some r.id
  clean : ∃ x ∈ t.review.scopes, x.id = r.scope ∧ x.isDirty = false

def SameManifest (workspace : ℕ) (now : Instant) (s : Store) (r : Run) : Prop :=
  ∃ t q, createRunManifest workspace r.scope now s = .ok (t, q) ∧ q.manifest = r.manifest

/-- A publication marks its run current exactly when the same manifest would be
frozen then, and otherwise leaves the scopes as they were. -/
def CurrentIffSame (sha : Sha256) (digest : Digest) (s : Store) : Prop :=
  ∀ workspace run p t r, publishRun sha digest workspace run p s = .ok t →
    runOf workspace run s = some r →
      (MarkedCurrent t r ↔ SameManifest workspace p.clock s r) ∧
      (¬SameManifest workspace p.clock s r → t.scopes = s.scopes ∧ t.review = s.review)

variable {sha : Sha256} {digest : Digest} {s t : Store} {workspace book : ℕ}

theorem lockScope_rows {scope : ℕ} {locked : LockedScope}
    (h : lockScope workspace scope s = .ok locked) :
    (locked.scope ∈ s.review.scopes ∧ locked.scope.id = scope ∧
      locked.scope.workspace = workspace) ∧
    (locked.scopeData ∈ s.scopes ∧ locked.scopeData.id = scope) ∧
    locked.book ∈ s.review.books ∧ locked.book.id = locked.scope.book := by
  simp only [lockScope, bind_ok, fetch_ok] at h
  obtain ⟨row, hrow, data, hdata, b, hb, _, _, he⟩ := h
  have hr := List.find?_some hrow
  have hbook := List.find?_some hb
  simp only [Bool.and_eq_true, decide_eq_true_eq] at hr hbook
  rw [← Except.ok.inj he]
  exact ⟨⟨List.mem_of_find?_eq_some hrow, hr⟩, lookup_some hdata,
    List.mem_of_find?_eq_some hb, hbook.1⟩

theorem manifestOf_ok {locked : LockedScope} {m : Manifest} :
    manifestOf workspace locked s = .ok m ↔
      currentRevision locked.scopeData.leftDataset s = some m.leftRevision ∧
      currentRevision locked.scopeData.rightDataset s = some m.rightRevision ∧
      (∃ p, latestPolicy workspace locked.book.id s = some p ∧ NamesPolicy m p) ∧
      locked.bookData.generation = m.dataGeneration ∧
      locked.book.resolutionGeneration = m.resolutionGeneration ∧
      locked.scope.generation = m.scopeGeneration ∧
      m.inputs = inputsOf m.leftRevision m.rightRevision s ∧
      m.decisions = activeDecisions workspace locked.book.id s.review := by
  simp only [manifestOf, bind_ok, fetch_ok]
  constructor
  · intro h
    obtain ⟨left, hleft, right, hright, p, hp, he⟩ := h
    rw [← Except.ok.inj he]
    exact ⟨hleft, hright, ⟨p, hp, rfl, rfl, rfl, rfl⟩, rfl, rfl, rfl, rfl, rfl⟩
  · intro h
    obtain ⟨hleft, hright, ⟨p, hp, hid, hdigest, hengine, hsolver⟩, hdata, hresolution, hscope,
      hinputs, hdecisions⟩ := h
    refine ⟨_, hleft, _, hright, p, hp, ?_⟩
    rw [hid, hdigest, hengine, hsolver, hdata, hresolution, hscope, ← hinputs, ← hdecisions]

/-- Creating a run freezes the manifest of its scope, for a run there is or for
a new one. -/
theorem createRunManifest_made {scope : ℕ} {now : Instant} {r : Run}
    (h : createRunManifest workspace scope now s = .ok (t, r)) :
    ∃ locked, lockScope workspace scope s = .ok locked ∧
      manifestOf workspace locked s = .ok r.manifest ∧
      (t = s ∨ t = { s with runs := s.runs ++ [r] } ∧ r = ⟨s.runs.length, workspace,
        locked.book.id, scope, r.manifest, .frozen, .pending, none, none, none, none, none⟩) := by
  simp only [createRunManifest, bind_ok] at h
  obtain ⟨_, _, locked, hl, m, hm, h⟩ := h
  refine ⟨locked, hl, ?_⟩
  split at h
  · rename_i existing hf
    obtain ⟨rfl, rfl⟩ := Prod.mk.inj (Except.ok.inj h)
    have hsame := List.find?_some hf
    simp only [Bool.and_eq_true, decide_eq_true_eq] at hsame
    exact ⟨hsame.2 ▸ hm, .inl rfl⟩
  · simp only [bind_ok, demand_ok] at h
    obtain ⟨_, _, _, _, _, _, _, _, h⟩ := h
    obtain ⟨rfl, rfl⟩ := Prod.mk.inj (Except.ok.inj h)
    exact ⟨hm, .inr ⟨rfl, rfl⟩⟩

theorem createRunManifest_again {now : Instant} {r : Run} {locked : LockedScope}
    (hactive : requireActiveWorkspace workspace now s = .ok ())
    (hl : lockScope workspace r.scope s = .ok locked)
    (hm : manifestOf workspace locked s = .ok r.manifest) (hr : r ∈ s.runs)
    (hw : r.workspace = workspace) : SameManifest workspace now s r := by
  unfold SameManifest createRunManifest
  simp only [hactive, hl, hm, ok_bind]
  cases hf : s.runs.find? fun q => q.workspace = workspace && q.scope = r.scope &&
      q.manifest = r.manifest with
  | some existing =>
    have hsame := List.find?_some hf
    simp only [Bool.and_eq_true, decide_eq_true_eq] at hsame
    exact ⟨s, existing, rfl, hsame.2⟩
  | none =>
    have hnone := List.find?_eq_none.mp hf r hr
    simp [hw] at hnone

theorem mem_of_latestPolicy {p : PolicyRevision} (h : latestPolicy workspace book s = some p) :
    p ∈ s.policies := (Policies.mem_policiesOf.mp (Policies.latestPolicy_mem h)).1

theorem current_lt (h : Founded s) {dataset v : ℕ}
    (hv : currentRevision dataset s = some v) : v < s.revisions.length := by
  obtain ⟨d, hd, hcurrent⟩ := Option.bind_eq_some_iff.mp hv
  exact h.currents d (mem_of_lookup hd) v hcurrent

theorem manifest_frozen (h : Founded s) {scope : ℕ} {locked : LockedScope} {r : Run}
    (hl : lockScope workspace scope s = .ok locked)
    (hm : manifestOf workspace locked s = .ok r.manifest) (hscope : r.scope = scope)
    (hworkspace : r.workspace = workspace) (hbook : r.book = locked.book.id) : Frozen s r := by
  obtain ⟨⟨hrow, hid, hw⟩, _, hlocked, hb⟩ := lockScope_rows hl
  obtain ⟨hleft, hright, ⟨p, hp, hnames⟩, _, hresolution, _, hinputs, hdecisions⟩ :=
    manifestOf_ok.mp hm
  refine ⟨?_, ⟨p, mem_of_latestPolicy hp, hnames⟩, current_lt h hleft, current_lt h hright,
    hinputs, ?_⟩
  · rw [hscope, hworkspace, hbook, hb, ← hid, ← hw]
    exact mem_places hrow
  · intro b hmem hbid
    have he := eq_of_key_eq Decisions.Book.id h.books.nodup hmem hlocked (hbid.trans hbook)
    rw [he, hresolution, hworkspace, hbook]
    exact ⟨le_rfl, fun _ => hdecisions⟩

/-- Of what manifests are made from and scopes consist of, only the pointers of
scopes and whether they are dirty may change. -/
structure Steady (s t : Store) : Prop where
  inputs : Policies.inputTables t = Policies.inputTables s
  review : ∃ scopes, t.review = { s.review with scopes := scopes }
  places : places t = places s
  sides : sides t = sides s

theorem steady_runs (runs : List Run) : Steady s { s with runs := runs } :=
  ⟨rfl, ⟨s.review.scopes, rfl⟩, rfl, rfl⟩

theorem Steady.tables (h : Steady s t) : t.policies = s.policies ∧ t.datasets = s.datasets ∧
    t.revisions = s.revisions := by
  obtain ⟨hp, hrest⟩ := Prod.mk.inj h.inputs
  obtain ⟨hd, hr⟩ := Prod.mk.inj hrest
  exact ⟨hp, hd, hr⟩

theorem Steady.founded (h : Steady s t) (hs : Founded s) : Founded t := by
  obtain ⟨hp, hd, hr⟩ := h.tables
  obtain ⟨_, hreview⟩ := h.review
  have hbooks : t.review.books = s.review.books := by rw [hreview]
  have hlength : t.scopes.length = s.scopes.length := by
    have hl := congrArg List.length h.sides
    unfold Invalidation.sides at hl
    rw [List.length_map, List.length_map] at hl
    exact hl
  have howns : ∀ {w i : ℕ}, Owns s w i → Owns t w i :=
    fun hi => hi.mono (hd ▸ List.Subset.refl _)
  constructor
  · apply hs.consistent_kept <;> rw [hreview]
  · exact hp ▸ hs.policies
  · exact hr ▸ hs.revisions
  · exact hd ▸ hs.datasets
  · exact hbooks ▸ hs.books
  · rw [h.sides, hlength]
    exact hs.scopes
  · rw [h.places, h.sides]
    exact hs.rows
  · rw [hd, hr]
    exact hs.currents
  · rw [h.places, hbooks]
    exact hs.housed
  · rw [h.places, h.sides]
    intro e he c hc hid
    obtain ⟨hleft, hright⟩ := hs.owned e he c hc hid
    exact ⟨howns hleft, howns hright⟩

theorem Steady.lasting (h : Steady s t) (hs : Founded s) : Lasting s t := by
  obtain ⟨hp, _, hr⟩ := h.tables
  obtain ⟨_, hreview⟩ := h.review
  have hbooks : s.review.books ⊆ t.review.books := by
    rw [hreview]
    exact List.Subset.refl _
  refine ⟨h.places ▸ List.Subset.refl _, hp ▸ List.Subset.refl _,
    ⟨[], hr.trans (List.append_nil _).symm⟩, active_same (h.founded hs).books hbooks ?_⟩
  intro w book
  rw [hreview]
  rfl

theorem Steady.current (h : Steady s t) (dataset : ℕ) :
    currentRevision dataset t = currentRevision dataset s := by
  unfold currentRevision
  rw [h.tables.2.1]

theorem Steady.latest (h : Steady s t) (workspace book : ℕ) :
    latestPolicy workspace book t = latestPolicy workspace book s :=
  Policies.latestPolicy_congr (Policies.policiesOf_congr h.tables.1 _ _)

theorem Steady.leaves (h : Steady s t) {x : Decisions.Scope} (hx : x ∈ s.review.scopes)
    (hc : ∀ c ∈ s.scopes, c.id = x.id → c ∈ t.scopes) : Leaves s t x := by
  obtain ⟨_, hreview⟩ := h.review
  refine ⟨hx, hc, fun _ _ _ => ⟨h.current _, h.current _⟩, ?_, ?_⟩
  · intro p hp
    rw [h.latest]
    exact hp
  · intro b hb _
    rw [hreview]
    exact hb

theorem rework_coherent (h : Coherent s) (hst : Steady s t) {run : ℕ} {f : Run → Run}
    (hf : ∀ r, (f r).id = r.id ∧ (f r).scope = r.scope ∧ (f r).workspace = r.workspace ∧
      (f r).book = r.book ∧ (f r).manifest = r.manifest)
    (hr : t.runs = revise Run.id run f s.runs)
    (hshape : ∀ r ∈ s.runs, r.id = run → (f r).Shape) (hshown : CleanShowsPresent t) :
    Coherent t where
  toFounded := hst.founded h.toFounded
  runs := by
    rw [hr]
    exact h.runs.revise (fun r => (hf r).1) run
  shapes := by
    intro r hm
    rw [hr] at hm
    obtain ⟨old, hold, rfl⟩ := mem_revise.mp hm
    split
    · rename_i hid
      exact hshape old hold hid
    · exact h.shapes old hold
  frozen := by
    intro r hm
    rw [hr] at hm
    obtain ⟨old, hold, rfl⟩ := mem_revise.mp hm
    have hlast := (h.frozen old hold).last h.toFounded (hst.lasting h.toFounded)
    split
    · obtain ⟨_, hscope, hworkspace, hbook, hmanifest⟩ := hf old
      exact hlast.like hscope hworkspace hbook hmanifest
    · exact hlast
  shown := hshown

theorem completed_kept {run : ℕ} {f : Run → Run} (hr : t.runs = revise Run.id run f s.runs)
    (hopen : ∀ r ∈ s.runs, r.id = run → r.lifecycle ≠ .completed) :
    ∀ r ∈ s.runs, r.lifecycle = .completed → r ∈ t.runs := by
  intro r hm hd
  rw [hr]
  exact mem_revise.mpr ⟨r, hm, (if_neg fun hid => hopen r hm hid hd).symm⟩

theorem updateRun_coherent (h : Coherent s) {run : ℕ} {f : Run → Run}
    (hf : ∀ r, (f r).id = r.id ∧ (f r).scope = r.scope ∧ (f r).workspace = r.workspace ∧
      (f r).book = r.book ∧ (f r).manifest = r.manifest)
    (hopen : ∀ r ∈ s.runs, r.id = run → (f r).Shape → r.lifecycle ≠ .completed)
    (ht : updateRun run f s = .ok t) : Coherent t := by
  obtain ⟨hshapes, rfl⟩ := updateRun_ok ht
  have hst : Steady s { s with runs := revise Run.id run f s.runs } := steady_runs _
  have hshape : ∀ r ∈ s.runs, r.id = run → (f r).Shape :=
    fun r hr hid => hshapes _ (mem_revise.mpr ⟨r, hr, (if_pos hid).symm⟩) ((hf r).1.trans hid)
  apply rework_coherent h hst hf rfl hshape
  intro x hx hd
  exact (h.shown x hx hd).leave (hst.leaves hx fun c hc _ => hc)
    (completed_kept rfl fun r hr hid => hopen r hr hid (hshape r hr hid))

theorem claimRun_coherent (h : Coherent s) {run : ℕ} {token : Option ℕ}
    (ht : claimRun workspace run token s = .ok t) : Coherent t := by
  simp only [claimRun, bind_ok, demand_ok] at ht
  obtain ⟨_, _, _, _, ht⟩ := ht
  apply updateRun_coherent h (f := Run.claimed token) (fun r => ⟨rfl, rfl, rfl, rfl, rfl⟩) _ ht
  exact fun r hr _ hshape hd => ScopeViews.claimed_shape hd (h.shapes r hr) hshape

theorem failRun_coherent (h : Coherent s) {run : ℕ} {token : Option ℕ} {code : String}
    (ht : failRun workspace run token code s = .ok t) : Coherent t := by
  unfold failRun at ht
  split at ht
  · rename_i r hr
    split at ht
    · rename_i hrunning
      apply updateRun_coherent h (f := Run.failedWith code)
        (fun r => ⟨rfl, rfl, rfl, rfl, rfl⟩) _ ht
      intro q hq hid _ hd
      obtain ⟨hmem, hrun, _⟩ := runOf_some hr
      rw [eq_of_key_eq Run.id h.runs.nodup hq hmem (hid.trans hrun.symm), hrunning.1] at hd
      cases hd
    · exact Except.ok.inj ht ▸ h
  · exact Except.ok.inj ht ▸ h

theorem createRun_coherent (h : Coherent s) {scope : ℕ} {now : Instant} {r : Run}
    (ht : createRunManifest workspace scope now s = .ok (t, r)) : Coherent t := by
  obtain ⟨locked, hl, hm, rfl | ⟨rfl, hr⟩⟩ := createRunManifest_made ht
  · exact h
  · have hst : Steady s { s with runs := s.runs ++ [r] } := steady_runs _
    have hfrozen : Frozen s r := manifest_frozen h.toFounded hl hm (congrArg Run.scope hr)
      (congrArg Run.workspace hr) (congrArg Run.book hr)
    constructor
    · exact hst.founded h.toFounded
    · exact h.runs.concat (congrArg Run.id hr)
    · intro q hq
      rcases List.mem_append.mp hq with hq | hq
      · exact h.shapes q hq
      · rw [List.mem_singleton.mp hq, hr]
        exact ⟨⟨rfl, rfl, rfl, rfl, rfl⟩, .inr rfl⟩
    · intro q hq
      have hold : Frozen s q := by
        rcases List.mem_append.mp hq with hq | hq
        · exact h.frozen q hq
        · exact List.mem_singleton.mp hq ▸ hfrozen
      exact hold.last h.toFounded (hst.lasting h.toFounded)
    · intro x hx hd
      exact (h.shown x hx hd).leave (hst.leaves hx fun c hc _ => hc)
        fun q hq _ => List.mem_append_left _ hq

theorem isFresh_iff {locked : LockedScope} {r : Run} : isFresh locked r s = true ↔
    currentRevision locked.scopeData.leftDataset s = some r.manifest.leftRevision ∧
    currentRevision locked.scopeData.rightDataset s = some r.manifest.rightRevision ∧
    (latestPolicy r.workspace locked.book.id s).map (·.id) = some r.manifest.policyRevision ∧
    locked.bookData.generation = r.manifest.dataGeneration ∧
    locked.book.resolutionGeneration = r.manifest.resolutionGeneration ∧
    locked.scope.generation = r.manifest.scopeGeneration := by
  simp only [isFresh, Bool.and_eq_true, decide_eq_true_eq, and_assoc]

theorem isFresh_iff_manifest (h : Coherent s) {r : Run} (hr : r ∈ s.runs) {locked : LockedScope}
    (hl : lockScope r.workspace r.scope s = .ok locked) :
    isFresh locked r s = true ↔ manifestOf r.workspace locked s = .ok r.manifest := by
  rw [isFresh_iff, manifestOf_ok]
  have hf := h.frozen r hr
  obtain ⟨⟨hrow, hid, _⟩, _, hlocked, hb⟩ := lockScope_rows hl
  have hbook : locked.book.id = r.book := by
    have he := h.place_eq (mem_places hrow) hf.place hid
    rw [hb]
    exact congrArg (fun e : ℕ × ℕ × ℕ => e.2.2) he
  constructor
  · rintro ⟨hleft, hright, hpolicy, hdata, hresolution, hscope⟩
    obtain ⟨p, hp, hpid⟩ := Option.map_eq_some_iff.mp hpolicy
    obtain ⟨q, hq, hqid, hrest⟩ := hf.policy
    have he := eq_of_key_eq PolicyRevision.id h.policies.nodup hq (mem_of_latestPolicy hp)
      (hqid.trans hpid.symm)
    refine ⟨hleft, hright, ⟨p, hp, he ▸ ⟨hqid, hrest⟩⟩, hdata, hresolution, hscope, hf.inputs, ?_⟩
    rw [hbook]
    exact (hf.decisions _ hlocked hbook).2 hresolution
  · rintro ⟨hleft, hright, ⟨p, hp, hnames⟩, hdata, hresolution, hscope, _⟩
    refine ⟨hleft, hright, ?_, hdata, hresolution, hscope⟩
    rw [hp, ← hnames.1]
    rfl

theorem isFresh_iff_same (h : Coherent s) {now : Instant}
    (hactive : requireActiveWorkspace workspace now s = .ok ()) {r : Run} (hr : r ∈ s.runs)
    (hw : r.workspace = workspace) {locked : LockedScope}
    (hl : lockScope workspace r.scope s = .ok locked) :
    isFresh locked r s = true ↔ SameManifest workspace now s r := by
  subst hw
  rw [isFresh_iff_manifest h hr hl]
  constructor
  · intro hm
    exact createRunManifest_again hactive hl hm hr rfl
  · intro hsame
    obtain ⟨u, q, hq, hmanifest⟩ := hsame
    obtain ⟨locked', hl', hm, _⟩ := createRunManifest_made hq
    rw [hl, Except.ok.injEq] at hl'
    rw [hl', ← hmanifest]
    exact hm

section Published
variable {p : Publication} {r : Run} {fresh : Bool} {rows : List RunUnpaired}
  {snapshots : List DecisionHealthSnapshot} {occurrences : List CaseOccurrence}

theorem published_steady (hin : Policies.inputTables t = Policies.inputTables s)
    (hp : Published digest p s t r fresh rows snapshots occurrences) : Steady s t := by
  cases fresh with
  | false =>
    have hreview : t.review = s.review := hp.review
    have hscopes : t.scopes = s.scopes := hp.scopes
    refine ⟨hin, ⟨s.review.scopes, hreview⟩, ?_, ?_⟩
    · unfold places
      rw [hreview]
    · unfold sides
      rw [hscopes]
  | true =>
    refine ⟨hin, ⟨_, hp.review⟩, ?_, ?_⟩
    · unfold places
      rw [hp.review]
      show (revise _ _ _ _).map _ = _
      unfold revise
      rw [List.map_map]
      apply List.map_congr_left
      intro x _
      by_cases hx : x.id = r.scope <;> simp [hx]
    · unfold sides
      rw [hp.scopes]
      show (revise _ _ _ _).map _ = _
      unfold revise
      rw [List.map_map]
      apply List.map_congr_left
      intro c _
      by_cases hc : c.id = r.scope <;> simp [hc]

/-- A clean scope after a publication is one that was clean and stays as it was,
or the scope of a fresh run, which shows what is present. -/
theorem published_shown (h : Coherent s) (hin : Policies.inputTables t = Policies.inputTables s)
    (hr : r ∈ s.runs) {locked : LockedScope} (hl : lockScope r.workspace r.scope s = .ok locked)
    (hp : Published digest p s t r (isFresh locked r s) rows snapshots occurrences) :
    CleanShowsPresent t := by
  have hst := published_steady hin hp
  have hopen : ∀ q ∈ s.runs, q.id = r.id → q.lifecycle ≠ .completed := by
    intro q hq hid
    rw [eq_of_key_eq Run.id h.runs.nodup hq hr hid, hp.running]
    simp
  have hkept := completed_kept hp.runs hopen
  intro x hx hd
  cases hfresh : isFresh locked r s with
  | false =>
    rw [hfresh] at hp
    have hscopes : t.scopes = s.scopes := hp.scopes
    have hreview : t.review = s.review := hp.review
    rw [hreview] at hx
    exact (h.shown x hx hd).leave (hst.leaves hx fun c hc _ => hscopes ▸ hc) hkept
  | true =>
    obtain ⟨⟨hrow, hid, hw⟩, ⟨hdata, hcid⟩, hlocked, hb⟩ := lockScope_rows hl
    obtain ⟨hleft, hright, hpolicy, _, hresolution, hscope⟩ := isFresh_iff.mp hfresh
    rw [hfresh] at hp
    have hreview : t.review.scopes = revise Decisions.Scope.id r.scope
        (fun c => { c with isDirty := false }) s.review.scopes := by
      rw [hp.review]
      rfl
    have hbooks : t.review.books = s.review.books := by
      rw [hp.review]
      rfl
    have hscopes : t.scopes = revise ScopeData.id r.scope
        (fun c => { c with currentRun := some r.id }) s.scopes := hp.scopes
    rw [hreview] at hx
    obtain ⟨old, hold, rfl⟩ := mem_revise.mp hx
    by_cases hmeant : old.id = r.scope
    · rw [if_pos hmeant]
      obtain rfl := h.row_eq hold hrow (hmeant.trans hid.symm)
      refine ⟨{ locked.scopeData with currentRun := some r.id }, ?_, hcid.trans hmeant.symm,
        Run.completedWith true p.resultDigest p.result p.clock r, ?_, rfl, rfl, ?_⟩
      · rw [hscopes]
        exact mem_revise.mpr ⟨locked.scopeData, hdata, (if_pos hcid).symm⟩
      · rw [hp.runs]
        exact mem_revise.mpr ⟨r, hr, (if_pos rfl).symm⟩
      · refine ⟨(hst.current _).trans hleft, (hst.current _).trans hright, ?_, ?_, ?_⟩
        · show (latestPolicy locked.scope.workspace locked.scope.book t).map _ = _
          rw [hst.latest, hw, ← hb]
          exact hpolicy
        · exact ⟨locked.book, hbooks ▸ hlocked, hb, hresolution⟩
        · exact hscope
    · rw [if_neg hmeant] at hd ⊢
      apply (h.shown old hold hd).leave (hst.leaves hold _) hkept
      intro c hc hcid
      rw [hscopes]
      exact mem_revise.mpr ⟨c, hc, (if_neg fun he => hmeant (hcid.symm.trans he)).symm⟩

theorem published_coherent (h : Coherent s)
    (hin : Policies.inputTables t = Policies.inputTables s) (hr : r ∈ s.runs) {locked : LockedScope}
    (hl : lockScope r.workspace r.scope s = .ok locked)
    (hp : Published digest p s t r (isFresh locked r s) rows snapshots occurrences) :
    Coherent t := by
  apply rework_coherent h (f := Run.completedWith _ _ _ _) (published_steady hin hp)
    (fun _ => ⟨rfl, rfl, rfl, rfl, rfl⟩) hp.runs _ (published_shown h hin hr hl hp)
  intro q hq hid
  rw [eq_of_key_eq Run.id h.runs.nodup hq hr hid]
  exact hp.shape

theorem published_marked (hr : r ∈ s.runs) {locked : LockedScope}
    (hl : lockScope r.workspace r.scope s = .ok locked)
    (hp : Published digest p s t r fresh rows snapshots occurrences) :
    MarkedCurrent t r ↔ fresh = true := by
  obtain ⟨⟨hrow, hid, _⟩, ⟨hdata, hcid⟩, _⟩ := lockScope_rows hl
  constructor
  · intro hm
    obtain ⟨q, hq, hqid, hcurrent⟩ := hm.run
    rw [hp.runs] at hq
    obtain ⟨old, hold, rfl⟩ := mem_revise.mp hq
    have holdid : old.id = r.id := by
      split at hqid
      · exact hqid
      · exact hqid
    rw [if_pos holdid] at hcurrent
    cases fresh with
    | false => cases hcurrent
    | true => rfl
  · rintro rfl
    refine ⟨⟨Run.completedWith true p.resultDigest p.result p.clock r, ?_, rfl, rfl⟩,
      ⟨{ locked.scopeData with currentRun := some r.id }, ?_, hcid, rfl⟩,
      ⟨{ locked.scope with isDirty := false }, ?_, hid, rfl⟩⟩
    · rw [hp.runs]
      exact mem_revise.mpr ⟨r, hr, (if_pos rfl).symm⟩
    · rw [hp.scopes]
      exact mem_revise.mpr ⟨locked.scopeData, hdata, (if_pos hcid).symm⟩
    · rw [hp.review]
      exact mem_revise.mpr ⟨locked.scope, hrow, (if_pos hid).symm⟩

end Published

theorem publishRun_coherent (h : Coherent s) {run : ℕ} {p : Publication}
    (ht : publishRun sha digest workspace run p s = .ok t) : Coherent t := by
  obtain ⟨r, locked, rows, snapshots, occurrences, hr, hl, _, hp⟩ := publishRun_ok ht
  obtain ⟨hmem, _, rfl⟩ := runOf_some hr
  exact published_coherent h (Policies.publishRun_inputs ht) hmem hl hp

theorem publishRun_exact (h : Coherent s) : CurrentIffSame sha digest s := by
  intro workspace run p t r ht hr
  obtain ⟨r', locked, rows, snapshots, occurrences, hr', hl, _, hp⟩ := publishRun_ok ht
  rw [hr, Option.some.injEq] at hr'
  subst hr'
  have hactive : requireActiveWorkspace workspace p.clock s = .ok () := by
    simp only [publishRun, bind_ok] at ht
    obtain ⟨_, hactive, _⟩ := ht
    exact hactive
  obtain ⟨hmem, _, hw⟩ := runOf_some hr
  have hsame := isFresh_iff_same h hactive hmem hw hl
  subst hw
  refine ⟨(published_marked hmem hl hp).trans hsame, ?_⟩
  intro hnot
  rw [← hsame, Bool.not_eq_true] at hnot
  rw [hnot] at hp
  exact ⟨hp.scopes, hp.review⟩

theorem step_coherent (h : Coherent s) (hs : Step sha digest s t) : Coherent t := by
  cases hs with
  | bookCreated => exact createBook_coherent h _
  | datasetCreated ht => exact createDataset_coherent h ht
  | scopeCreated ht => exact createScope_coherent h ht
  | activated ht => exact activate_coherent h ht
  | requested ht => exact requested_coherent h ht
  | prepared ht => exact prepared_coherent h ht
  | decided hc ha => exact decided_coherent h hc ha
  | created ht => exact createRun_coherent h ht
  | claimed ht => exact claimRun_coherent h ht
  | failed ht => exact failRun_coherent h ht
  | published ht => exact publishRun_coherent h ht
  | other => exact elsewhere_coherent h _ _ _

theorem reached_coherent (h : Reached sha digest s) : Coherent s := by
  induction h with
  | refl => exact empty_coherent
  | tail _ hs ih => exact step_coherent ih hs

/-- In every state that the transactions of the services reach in any order, a
publication marks its run current exactly when the manifest of its scope would
be frozen again as it is, and a clean scope shows a completed run of what the
scope has. -/
theorem freshness_exact (h : Reached sha digest s) :
    CurrentIffSame sha digest s ∧ CleanShowsPresent s :=
  ⟨publishRun_exact (reached_coherent h), (reached_coherent h).shown⟩

def after {ε : Type} (s : Store) (f : Store → Except ε Store) : Store := settle s (f s)

theorem after_reached (h : Reached sha digest s) {ε : Type} {f : Store → Except ε Store}
    (hf : ∀ s t, f s = .ok t → Step sha digest s t) : Reached sha digest (after s f) :=
  settle_keeps h fun t ht => h.tail (hf s t ht)

def opened : Store :=
  createBook 1 (elsewhere [⟨1, .active, 1000, none, none, ⟨0, 1, 0⟩⟩] [] [] Store.empty)

def furnished : Store :=
  after (after (after opened (createDataset 1 0)) (createDataset 1 0)) (createScope 1 0 0 1)

def activateOne (dataset : ℕ) (side : RecordSide) (record seen : Decisions.Uuid) (fingerprint : String) :
    Store → Except RunFailure Store :=
  activate 1 dataset [⟨record, seen, fingerprint, none, .none⟩] [⟨record, 1, 0, side⟩]
    [⟨seen, 1, record, fingerprint⟩]

def activateLeft : Store → Except RunFailure Store :=
  activateOne 0 .left DoubleRejection.leftRecord DoubleRejection.leftSeen "f1"

def activateRight : Store → Except RunFailure Store :=
  activateOne 1 .right DoubleRejection.rightRecord DoubleRejection.rightSeen "f2"

def supplied : Store :=
  after (after (after furnished activateLeft) activateRight)
    (ensurePolicy 1 0 (endingIn List.sum) 0 Policies.firstPolicy)

def computed : Store :=
  after (after supplied fun s => (·.1) <$> createRunManifest 1 0 5 s) (claimRun 1 0 none)

def apartResult : Evidence.EngineResult :=
  { Policies.emptyResult with
    inputLeftIds := [DoubleRejection.leftSeen.text]
    inputRightIds := [DoubleRejection.rightSeen.text]
    unpaired := [⟨DoubleRejection.leftSeen.text, .left, .noCandidate, "", []⟩,
      ⟨DoubleRejection.rightSeen.text, .right, .noCandidate, "", []⟩] }

def published : Store :=
  after computed (publishRun (endingIn List.sum) checksum 1 0
    { Policies.publication 7 with result := apartResult })

theorem furnished_reached : Reached sha digest furnished := by
  have hempty : Reached sha digest Store.empty := .refl
  have hopened : Reached sha digest opened :=
    (hempty.tail (.other _ _ _ _)).tail (.bookCreated _ 1)
  have hleft := after_reached hopened (f := createDataset 1 0) fun _ _ ht => .datasetCreated ht
  have hright := after_reached hleft (f := createDataset 1 0) fun _ _ ht => .datasetCreated ht
  exact after_reached hright fun _ _ ht => .scopeCreated ht

theorem computed_reached : Reached (endingIn List.sum) digest computed := by
  have hleft := after_reached (@furnished_reached (endingIn List.sum) digest)
    (f := activateLeft) fun _ _ ht => .activated ht
  have hright := after_reached hleft (f := activateRight) fun _ _ ht => .activated ht
  have hsupplied : Reached (endingIn List.sum) digest supplied :=
    after_reached hright fun _ _ ht => .prepared ht
  have hcreated := after_reached hsupplied (f := fun s => (·.1) <$> createRunManifest 1 0 5 s) (by
    intro s t ht
    obtain ⟨⟨t, r⟩, hr, rfl⟩ := map_ok.mp ht
    exact .created hr)
  exact after_reached hcreated fun _ _ ht => .claimed ht

theorem published_reached : Reached (endingIn List.sum) checksum published :=
  after_reached computed_reached fun _ _ ht => .published ht

/-- Before the publication of the first run and after it. -/
theorem freshness_exact_sample :
    (CurrentIffSame (endingIn List.sum) checksum computed ∧ CleanShowsPresent computed) ∧
      (CurrentIffSame (endingIn List.sum) checksum published ∧ CleanShowsPresent published) ∧
      computed.review.scopes.map (·.isDirty) = [true] ∧
      published.review.scopes.map (·.isDirty) = [false] ∧ published.unpaired.length = 2 :=
  ⟨freshness_exact computed_reached, freshness_exact published_reached, by decide +kernel,
    by decide +kernel, by decide +kernel⟩

end Workbench.Freshness
