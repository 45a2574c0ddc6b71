import Workbench.CaseKeys
import Workbench.Completions

/-!
# Cases that continue

A publication files each result of its run under the case of its key and opens
the case when the book has none. So what is about the same records is in the
same case, whichever runs found it and whatever happened in between.
-/

set_option autoImplicit false

namespace Workbench.CaseContinuity
open Workbench.Listing Workbench.Tables Workbench.Records Workbench.Evidence Workbench.Json
open Workbench.Ingestion Workbench.Review Workbench.Upserts Workbench.Runs Workbench.Publications
open Workbench.PublicationFrames Workbench.PublicationRuns Workbench.ScopeViews
open Workbench.Completions
open Workbench.CaseKeys (Subject Same key_hashed hashed_same)
open Workbench.Raising (bind_ok map_ok demand_ok fetch_ok)

/-- What the rows of a result say it is about. -/
def About (s : Store) (r : Run) : CaseResult → Subject → Prop
  | .pair id, a => ∃ p ∈ s.pairs, p.id = id ∧ p.run = r.id ∧
      a = .pair (idText r.book) p.leftLogical.text p.rightLogical.text
  | .unpaired id, a => ∃ u ∈ s.unpaired, u.id = id ∧ u.run = r.id ∧
      a = .unpaired (idText r.book) u.outcome.side u.logicalTransaction.text
  | .component id, a => ∃ c ∈ s.components, c.id = id ∧ c.run = r.id ∧ ∃ left right,
      c.evidence.leftIds.mapM (logicalText r.manifest) = some left ∧
      c.evidence.rightIds.mapM (logicalText r.manifest) = some right ∧
      a = .ambiguity (idText r.book) (idText r.scope) r.manifest.policyDigest left right

structure SameRun (r q : Run) : Prop where
  id : q.id = r.id
  workspace : q.workspace = r.workspace
  book : q.book = r.book
  scope : q.scope = r.scope
  manifest : q.manifest = r.manifest

def Filed (sha : Sha256) (s : Store) (o : CaseOccurrence) (a : Subject) : Prop :=
  ∃ r ∈ s.runs, r.id = o.run ∧ About s r o.result a ∧
    ∃ c ∈ s.cases, c.id = o.case ∧ c.workspace = r.workspace ∧ c.book = r.book ∧
      a.published sha = some c.key

/-- Rows are numbered, a book has one case under a key, and every occurrence is
in the case of what it is about. -/
structure Continued (sha : Sha256) (s : Store) : Prop where
  numbered : Numbered InvestigationCase.id s.cases
  pairs : Numbered RunPair.id s.pairs
  unpaired : Numbered RunUnpaired.id s.unpaired
  components : Numbered AssignmentComponent.id s.components
  distinct : (s.cases.map fun c => (c.workspace, c.book, c.key)).Nodup
  filed : ∀ o ∈ s.occurrences, ∃ a, Filed sha s o a

section Steps
variable {sha : Sha256} {digest : Digest} {s t : Store} {r q : Run} {a b : Subject}

structure Grown (s t : Store) : Prop where
  pairs : s.pairs ⊆ t.pairs
  unpaired : s.unpaired ⊆ t.unpaired
  components : s.components ⊆ t.components

theorem Grown.same (hpairs : t.pairs = s.pairs) (hunpaired : t.unpaired = s.unpaired)
    (hcomponents : t.components = s.components) : Grown s t :=
  ⟨hpairs ▸ List.Subset.refl _, hunpaired ▸ List.Subset.refl _, hcomponents ▸ List.Subset.refl _⟩

theorem About.grow (hg : Grown s t) (hq : SameRun r q) {result : CaseResult}
    (h : About s r result a) : About t q result a := by
  cases result with
  | pair id =>
    obtain ⟨p, hp, hid, hrun, rfl⟩ := h
    exact ⟨p, hg.pairs hp, hid, hrun.trans hq.id.symm, by rw [hq.book]⟩
  | unpaired id =>
    obtain ⟨u, hu, hid, hrun, rfl⟩ := h
    exact ⟨u, hg.unpaired hu, hid, hrun.trans hq.id.symm, by rw [hq.book]⟩
  | component id =>
    obtain ⟨c, hc, hid, hrun, left, right, hleft, hright, rfl⟩ := h
    exact ⟨c, hg.components hc, hid, hrun.trans hq.id.symm, left, right, hq.manifest ▸ hleft,
      hq.manifest ▸ hright, by rw [hq.book, hq.scope, hq.manifest]⟩

theorem Filed.grow (hg : Grown s t) (hruns : ∀ r ∈ s.runs, ∃ q ∈ t.runs, SameRun r q)
    (hcases : s.cases ⊆ t.cases) {o : CaseOccurrence} (h : Filed sha s o a) : Filed sha t o a := by
  obtain ⟨r, hr, hid, habout, c, hc, hcid, hworkspace, hbook, hkey⟩ := h
  obtain ⟨q, hq, hsame⟩ := hruns r hr
  exact ⟨q, hq, hsame.id.trans hid, habout.grow hg hsame, c, hcases hc, hcid,
    hworkspace.trans hsame.workspace.symm, hbook.trans hsame.book.symm, hkey⟩

theorem Continued.runs (h : Continued sha s) {runs : List Run}
    (hruns : ∀ r ∈ s.runs, ∃ q ∈ runs, SameRun r q) : Continued sha { s with runs := runs } where
  numbered := h.numbered
  pairs := h.pairs
  unpaired := h.unpaired
  components := h.components
  distinct := h.distinct
  filed o ho := by
    obtain ⟨a, ha⟩ := h.filed o ho
    refine ⟨a, Filed.grow ?_ hruns ?_ ha⟩
    · exact .same rfl rfl rfl
    · exact List.Subset.refl _

theorem SameRun.refl (r : Run) : SameRun r r := ⟨rfl, rfl, rfl, rfl, rfl⟩

theorem revised_same (run : ℕ) {f : Run → Run} (hf : ∀ r, SameRun r (f r)) {runs : List Run} :
    ∀ r ∈ runs, ∃ q ∈ revise Run.id run f runs, SameRun r q := by
  intro r hr
  refine ⟨_, mem_revise.mpr ⟨r, hr, rfl⟩, ?_⟩
  by_cases hid : r.id = run
  · rw [if_pos hid]
    exact hf r
  · rw [if_neg hid]
    exact .refl r

theorem updated_continued (h : Continued sha s) {run : ℕ} {f : Run → Run}
    (hf : ∀ r, SameRun r (f r)) (ht : updateRun run f s = .ok t) :
    Continued sha t ∧ t.cases = s.cases := by
  obtain ⟨-, rfl⟩ := updateRun_ok ht
  exact ⟨h.runs (revised_same run hf), rfl⟩

theorem openCase_spec (h : Continued sha s) (r : Run) (key : CaseKey) (identity : CaseIdentity) :
    Numbered InvestigationCase.id (openCase r key identity s).1.cases ∧
    ((openCase r key identity s).1.cases.map fun c => (c.workspace, c.book, c.key)).Nodup ∧
    s.cases ⊆ (openCase r key identity s).1.cases ∧
    (openCase r key identity s).2 ∈ (openCase r key identity s).1.cases ∧
    (openCase r key identity s).2.workspace = r.workspace ∧
    (openCase r key identity s).2.book = r.book ∧ (openCase r key identity s).2.key = key := by
  unfold openCase
  cases hfind : s.cases.find? fun c =>
      c.workspace = r.workspace && c.book = r.book && c.key = key with
  | some c =>
    have hspec := List.find?_some hfind
    simp only [Bool.and_eq_true, decide_eq_true_eq] at hspec
    exact ⟨h.numbered, h.distinct, List.Subset.refl _, List.mem_of_find?_eq_some hfind,
      hspec.1.1, hspec.1.2, hspec.2⟩
  | none =>
    have hnew : (r.workspace, r.book, key) ∉
        s.cases.map fun c => (c.workspace, c.book, c.key) := by
      intro hin
      obtain ⟨c, hc, he⟩ := List.mem_map.mp hin
      have hno := List.find?_eq_none.mp hfind c hc
      simp only [Prod.mk.injEq] at he
      simp [he.1, he.2.1, he.2.2] at hno
    refine ⟨h.numbered.concat rfl, ?_, List.subset_append_left _ _,
      List.mem_append_right _ (List.mem_singleton_self _), rfl, rfl, rfl⟩
    rw [List.map_append, List.map_singleton]
    exact h.distinct.append (List.nodup_singleton _) (List.disjoint_singleton.mpr hnew)

def Founded (sha : Sha256) (s : Store) (r : Run) (f : Finding) : Prop :=
  ∃ a, About s r f.result a ∧ a.published sha = some f.key

theorem findings_founded {findings : List Finding} (h : findingsOf sha r s = some findings) :
    ∀ f ∈ findings, Founded sha s r f := by
  unfold findingsOf at h
  obtain ⟨pairs, hp, h⟩ := Option.bind_eq_some_iff.mp h
  obtain ⟨unpaired, hu, h⟩ := Option.bind_eq_some_iff.mp h
  obtain ⟨components, hc, h⟩ := Option.bind_eq_some_iff.mp h
  intro f hf
  rw [← Option.some.inj h] at hf
  rcases List.mem_append.mp hf with hf | hf
  · rcases List.mem_append.mp hf with hf | hf
    · obtain ⟨p, hmem, hp⟩ := mapM_some_mem hp hf
      obtain ⟨key, hkey, rfl⟩ := Option.map_eq_some_iff.mp hp
      obtain ⟨hmem, hrun⟩ := List.mem_filter.mp hmem
      exact ⟨_, ⟨p, hmem, rfl, of_decide_eq_true hrun, rfl⟩, hkey⟩
    · obtain ⟨u, hmem, hu⟩ := mapM_some_mem hu hf
      obtain ⟨key, hkey, rfl⟩ := Option.map_eq_some_iff.mp hu
      obtain ⟨hmem, hrun⟩ := List.mem_filter.mp hmem
      exact ⟨_, ⟨u, hmem, rfl, of_decide_eq_true hrun, rfl⟩, hkey⟩
  · obtain ⟨c, hmem, hc⟩ := mapM_some_mem hc hf
    unfold componentFinding at hc
    obtain ⟨left, hleft, hc⟩ := Option.bind_eq_some_iff.mp hc
    obtain ⟨right, hright, hc⟩ := Option.bind_eq_some_iff.mp hc
    obtain ⟨key, hkey, hc⟩ := Option.bind_eq_some_iff.mp hc
    obtain rfl := Option.some.inj hc
    have hrow := List.mem_of_mem_filter hmem
    rw [mem_sortOn] at hrow
    obtain ⟨hrow, hrun⟩ := List.mem_filter.mp hrow
    exact ⟨_, ⟨c, hrow, rfl, of_decide_eq_true hrun, left, right, hleft, hright, rfl⟩, hkey⟩

theorem findings_continued {findings : List Finding} (h : Continued sha s) (hr : r ∈ s.runs)
    (hfounded : ∀ f ∈ findings, Founded sha s r f)
    (ht : insertEach (recordFinding r) findings s = .ok t) :
    Continued sha t ∧ s.cases ⊆ t.cases := by
  have hkept : Continued sha t ∧ s.cases ⊆ t.cases ∧ t.runs = s.runs ∧ t.pairs = s.pairs ∧
      t.unpaired = s.unpaired ∧ t.components = s.components := by
    apply insertEach_keeps (P := fun x => Continued sha x ∧ s.cases ⊆ x.cases ∧ x.runs = s.runs ∧
      x.pairs = s.pairs ∧ x.unpaired = s.unpaired ∧ x.components = s.components) _
      ⟨h, List.Subset.refl _, rfl, rfl, rfl, rfl⟩ ht
    rintro f hf u v ⟨hu, hsub, hruns, hpairs, hunpaired, hcomponents⟩ hv
    obtain ⟨-, rfl⟩ := recordFinding_ok hv
    obtain ⟨hnumbered, hdistinct, hopened, hmem, hworkspace, hbook, hkey⟩ :=
      openCase_spec hu r f.key f.identity
    refine ⟨⟨hnumbered, hu.pairs, hu.unpaired, hu.components, hdistinct, fun o ho => ?_⟩,
      List.Subset.trans hsub hopened, hruns, hpairs, hunpaired, hcomponents⟩
    rcases List.mem_append.mp ho with ho | ho
    · obtain ⟨a, ha⟩ := hu.filed o ho
      refine ⟨a, Filed.grow ?_ ?_ ?_ ha⟩
      · exact .same rfl rfl rfl
      · exact fun r hr => ⟨r, hr, .refl r⟩
      · exact hopened
    · obtain rfl := List.mem_singleton.mp ho
      obtain ⟨a, habout, ha⟩ := hfounded f hf
      refine ⟨a, r, hruns ▸ hr, rfl, About.grow ?_ (.refl r) habout, _, hmem, rfl, hworkspace,
        hbook, ha.trans (congrArg some hkey.symm)⟩
      exact .same hpairs hunpaired hcomponents
  exact ⟨hkept.1, hkept.2.1⟩

theorem Gains.subset {α : Type} {key : α → ℕ} {run : ℕ} {old new : List α}
    (h : Gains key run old new) : old ⊆ new := by
  obtain ⟨rows, rfl, -⟩ := h
  exact List.subset_append_left _ _

theorem Continued.grow (h : Continued sha s) (hg : Grown s t) (hruns : t.runs = s.runs)
    (hcases : t.cases = s.cases) (hoccurrences : t.occurrences = s.occurrences)
    (hpairs : Numbered RunPair.id t.pairs) (hunpaired : Numbered RunUnpaired.id t.unpaired)
    (hcomponents : Numbered AssignmentComponent.id t.components) : Continued sha t where
  numbered := hcases ▸ h.numbered
  pairs := hpairs
  unpaired := hunpaired
  components := hcomponents
  distinct := hcases ▸ h.distinct
  filed o ho := by
    obtain ⟨a, ha⟩ := h.filed o (hoccurrences ▸ ho)
    exact ⟨a, ha.grow hg (fun r hr => ⟨r, hruns ▸ hr, .refl r⟩) (hcases ▸ List.Subset.refl _)⟩

theorem Continued.elsewhere (h : Continued sha s) (hruns : t.runs = s.runs)
    (hcases : t.cases = s.cases) (hoccurrences : t.occurrences = s.occurrences)
    (hpairs : t.pairs = s.pairs) (hunpaired : t.unpaired = s.unpaired)
    (hcomponents : t.components = s.components) : Continued sha t :=
  h.grow (.same hpairs hunpaired hcomponents) hruns hcases hoccurrences (hpairs ▸ h.pairs)
    (hunpaired ▸ h.unpaired) (hcomponents ▸ h.components)

theorem facts_numbered {result : EngineResult} (h : Continued sha s)
    (ht : persistResult r result s = .ok t) :
    Numbered RunPair.id t.pairs ∧ Numbered AssignmentComponent.id t.components := by
  simp only [persistResult, bind_ok, demand_ok] at ht
  obtain ⟨u, hu, _, _, v, hv, w, hw, he⟩ := ht
  have hsu : Numbered RunPair.id u.pairs ∧ Numbered AssignmentComponent.id u.components := by
    apply insertEach_keeps (P := fun x => Numbered RunPair.id x.pairs ∧
      Numbered AssignmentComponent.id x.components) _ ⟨h.pairs, h.components⟩ hu
    intro _ _ x y hx hy
    rw [insertComponent_ok hy]
    exact ⟨hx.1, hx.2.concat rfl⟩
  have hsv : Numbered RunPair.id v.pairs ∧ Numbered AssignmentComponent.id v.components := by
    apply insertEach_keeps (P := fun x => Numbered RunPair.id x.pairs ∧
      Numbered AssignmentComponent.id x.components) _ _ hv
    · intro _ _ x y hx hy
      obtain ⟨row, hid, -, rfl⟩ := insertPair_ok hy
      exact ⟨hx.1.concat hid, hx.2⟩
    · exact hsu
  have hsw : Numbered RunPair.id w.pairs ∧ Numbered AssignmentComponent.id w.components := by
    apply insertEach_keeps (P := fun x => Numbered RunPair.id x.pairs ∧
      Numbered AssignmentComponent.id x.components) _ hsv hw
    intro _ _ x y hx hy
    obtain ⟨i, -, rfl⟩ := insertUnpaired_ok hy
    exact hx
  rw [← Except.ok.inj he]
  exact hsw

theorem facts_continued {result : EngineResult} (h : Continued sha s)
    (ht : persistResult r result s = .ok t) :
    Continued sha t ∧ t.cases = s.cases ∧ t.runs = s.runs := by
  have hpublishes := persistResult_publishes ht
  have hframe : t = { s with
    components := t.components
    candidates := t.candidates
    pairs := t.pairs
    unpaired := t.unpaired
    diagnostics := t.diagnostics } := persistResult_frame ht
  have hcases : t.cases = s.cases := (congrArg Store.cases hframe :)
  have hruns : t.runs = s.runs := (congrArg Store.runs hframe :)
  have hoccurrences : t.occurrences = s.occurrences := (congrArg Store.occurrences hframe :)
  obtain ⟨-, -, -, hunpaired⟩ := persistResult_unpaired ht
  obtain ⟨hpairs, hcomponents⟩ := facts_numbered h ht
  exact ⟨h.grow ⟨Gains.subset hpublishes.pairs, Gains.subset hpublishes.unpaired,
    Gains.subset hpublishes.components⟩ hruns hcases hoccurrences hpairs (hunpaired h.unpaired)
    hcomponents, hcases, hruns⟩

theorem health_continued {contract : ReferenceContract} {fresh : Bool}
    {diagnostics : List DecisionHealthDiagnostic} (h : Continued sha s)
    (ht : persistDecisionHealth digest contract r diagnostics fresh s = .ok t) :
    Continued sha t ∧ t.cases = s.cases ∧ t.runs = s.runs := by
  simp only [persistDecisionHealth, bind_ok] at ht
  obtain ⟨u, hu, he⟩ := ht
  obtain ⟨news, rfl, -⟩ := snapshots_ok hu
  cases fresh with
  | false =>
    rw [← Except.ok.inj he]
    exact ⟨h.elsewhere rfl rfl rfl rfl rfl rfl, rfl, rfl⟩
  | true =>
    rw [← Except.ok.inj he]
    exact ⟨h.elsewhere rfl rfl rfl rfl rfl rfl, rfl, rfl⟩

theorem materialize_continued {read : List DecisionHealthSnapshot} {fresh : Bool}
    (h : Continued sha s) (hr : r ∈ s.runs) (ht : materializeRunCases sha r read fresh s = .ok t) :
    Continued sha t ∧ s.cases ⊆ t.cases := by
  cases fresh with
  | false =>
    obtain ⟨findings, hfindings, hf⟩ := materialize_stale ht
    exact findings_continued h hr (findings_founded hfindings) hf
  | true =>
    obtain ⟨findings, u, rows, hfindings, hf, -, rfl⟩ := materialize_current ht
    obtain ⟨hu, hsub⟩ := findings_continued h hr (findings_founded hfindings) hf
    exact ⟨hu.elsewhere rfl rfl rfl rfl rfl rfl, hsub⟩

theorem published_continued {workspace run : ℕ} {p : Publication} (h : Continued sha s)
    (ht : publishRun sha digest workspace run p s = .ok t) :
    Continued sha t ∧ s.cases ⊆ t.cases := by
  simp only [publishRun, bind_ok, fetch_ok, demand_ok] at ht
  obtain ⟨_, _, r, hr, locked, _, _, _, _, _, _, _, policy, _, a, ha, b, hb, c, hc, d, hd, _, _,
    he⟩ := ht
  obtain ⟨hka, hca, hra⟩ := facts_continued h ha
  obtain ⟨hkb, hcb, hrb⟩ := health_continued hka hb
  have hmem : r ∈ b.runs := by
    rw [hrb, hra]
    exact (runOf_some hr).1
  obtain ⟨hkc, hsub⟩ := materialize_continued hkb hmem hc
  have hsame : ∀ q, SameRun q
      (Run.completedWith (isFresh locked r s) p.resultDigest p.result p.clock q) :=
    fun _ => ⟨rfl, rfl, rfl, rfl, rfl⟩
  obtain ⟨hkd, hcd⟩ := updated_continued hkc hsame hd
  have hcases : s.cases ⊆ d.cases := by
    rw [hcd, ← hca, ← hcb]
    exact hsub
  rw [← Except.ok.inj he]
  split
  · exact ⟨hkd.elsewhere rfl rfl rfl rfl rfl rfl, hcases⟩
  · exact ⟨hkd, hcases⟩

theorem call_continued (h : Continued sha s) (c : Command) :
    Continued sha (call sha digest s c) ∧ s.cases ⊆ (call sha digest s c).cases := by
  apply settle_keeps (P := fun x => Continued sha x ∧ s.cases ⊆ x.cases)
    ⟨h, List.Subset.refl _⟩
  intro t ht
  cases c with
  | review c =>
    rw [← Except.ok.inj ht]
    exact ⟨h.elsewhere rfl rfl rfl rfl rfl rfl, List.Subset.refl _⟩
  | inputs books datasets revisions policies =>
    rw [← Except.ok.inj ht]
    exact ⟨h.elsewhere rfl rfl rfl rfl rfl rfl, List.Subset.refl _⟩
  | createScope left right =>
    rw [← Except.ok.inj ht]
    exact ⟨h.elsewhere rfl rfl rfl rfl rfl rfl, List.Subset.refl _⟩
  | createRun workspace scope now =>
    obtain ⟨⟨u, r⟩, hu, rfl⟩ := map_ok.mp ht
    obtain ⟨runs, rfl⟩ := create_runs hu
    exact ⟨h.runs fun r hr => ⟨r, List.mem_append_left _ hr, .refl r⟩, List.Subset.refl _⟩
  | claim workspace run token =>
    simp only [perform, claimRun, bind_ok] at ht
    obtain ⟨_, _, _, _, ht⟩ := ht
    obtain ⟨hk, hcases⟩ := updated_continued h (f := Run.claimed token)
      (fun _ => ⟨rfl, rfl, rfl, rfl, rfl⟩) ht
    exact ⟨hk, hcases ▸ List.Subset.refl _⟩
  | fail workspace run token code =>
    simp only [perform, failRun] at ht
    split at ht
    · split at ht
      · obtain ⟨hk, hcases⟩ := updated_continued h (f := Run.failedWith code)
          (fun _ => ⟨rfl, rfl, rfl, rfl, rfl⟩) ht
        exact ⟨hk, hcases ▸ List.Subset.refl _⟩
      · exact Except.ok.inj ht ▸ ⟨h, List.Subset.refl _⟩
    · exact Except.ok.inj ht ▸ ⟨h, List.Subset.refl _⟩
  | publish workspace run p => exact published_continued h ht

theorem reached_continued (sha : Sha256) (digest : Digest) (cs : List Command) :
    Continued sha (reached sha digest cs) :=
  foldl_keeps (P := Continued sha) (fun _ c h _ => (call_continued h c).1)
    ⟨rfl, rfl, rfl, rfl, List.nodup_nil, by simp [Store.empty]⟩ (along_true _ cs)

theorem cases_kept (cs more : List Command) :
    (reached sha digest cs).cases ⊆ (reached sha digest (cs ++ more)).cases := by
  have hkept : Continued sha (reached sha digest (cs ++ more)) ∧
      (reached sha digest cs).cases ⊆ (reached sha digest (cs ++ more)).cases := by
    rw [reached, List.foldl_append]
    apply foldl_keeps (P := fun x => Continued sha x ∧ (reached sha digest cs).cases ⊆ x.cases)
      (fun x c hx _ => ?_) ⟨reached_continued sha digest cs, List.Subset.refl _⟩ (along_true _ more)
    have hstep : Continued sha (call sha digest x c) ∧ _ := call_continued hx.1 c
    exact ⟨hstep.1, List.Subset.trans hx.2 hstep.2⟩
  exact hkept.2

theorem About.unique (h : Continued sha s) {result : CaseResult} (ha : About s r result a)
    (hb : About s r result b) : a = b := by
  cases result with
  | pair id =>
    obtain ⟨p, hp, hid, -, rfl⟩ := ha
    obtain ⟨q, hq, hid', -, rfl⟩ := hb
    rw [eq_of_key_eq RunPair.id h.pairs.nodup hp hq (hid.trans hid'.symm)]
  | unpaired id =>
    obtain ⟨u, hu, hid, -, rfl⟩ := ha
    obtain ⟨v, hv, hid', -, rfl⟩ := hb
    rw [eq_of_key_eq RunUnpaired.id h.unpaired.nodup hu hv (hid.trans hid'.symm)]
  | component id =>
    obtain ⟨c, hc, hid, -, left, right, hleft, hright, rfl⟩ := ha
    obtain ⟨d, hd, hid', -, left', right', hleft', hright', rfl⟩ := hb
    obtain rfl := eq_of_key_eq AssignmentComponent.id h.components.nodup hc hd
      (hid.trans hid'.symm)
    rw [Option.some.inj (hleft.symm.trans hleft'), Option.some.inj (hright.symm.trans hright')]

theorem published_same {k k' : CaseKey} (h : Same a b) (ha : a.published sha = some k)
    (hb : b.published sha = some k') : k = k' := by
  obtain ⟨x, hx, hkind, hdigest⟩ := (key_hashed sha a).mp (Raising.toOption_ok ha)
  obtain ⟨y, hy, hkind', hdigest'⟩ := (key_hashed sha b).mp (Raising.toOption_ok hb)
  have hsame := (hashed_same hx hy).mpr h
  refine CaseKey.ext_iff.mpr ⟨?_, ?_⟩
  · rw [hkind, hkind']
    cases h <;> rfl
  · rw [hdigest, hdigest', hsame]

/-- Whatever was published in whatever order, by whatever runs: every occurrence
is about something that its stored rows tell; two occurrences in a book are in
one case exactly when what they are about has one key, so what is the same is in
one case; and no case is ever changed or dropped. -/
theorem cases_continue (sha : Sha256) (digest : Digest) (cs : List Command) :
    (∀ o ∈ (reached sha digest cs).occurrences, ∃ r ∈ (reached sha digest cs).runs,
      r.id = o.run ∧ ∃ a, About (reached sha digest cs) r o.result a) ∧
    (∀ r ∈ (reached sha digest cs).runs, ∀ r' ∈ (reached sha digest cs).runs,
      r.workspace = r'.workspace → r.book = r'.book →
      ∀ o ∈ occurrencesOf (reached sha digest cs) r.id,
        ∀ o' ∈ occurrencesOf (reached sha digest cs) r'.id, ∀ a b,
          About (reached sha digest cs) r o.result a →
          About (reached sha digest cs) r' o'.result b →
            (o.case = o'.case ↔ a.published sha = b.published sha) ∧
            (Same a b → o.case = o'.case)) ∧
    ∀ more, (reached sha digest cs).cases ⊆ (reached sha digest (cs ++ more)).cases := by
  have h := reached_continued sha digest cs
  have hsound := reached_sound sha digest cs
  refine ⟨fun o ho => ?_, fun r hr r' hr' hworkspace hbook o ho o' ho' a b ha hb => ?_,
    fun more => cases_kept cs more⟩
  · obtain ⟨a, r, hr, hid, habout, -⟩ := h.filed o ho
    exact ⟨r, hr, hid, a, habout⟩
  · have hfiled : ∀ {r o a}, r ∈ (reached sha digest cs).runs →
        o ∈ occurrencesOf (reached sha digest cs) r.id →
        About (reached sha digest cs) r o.result a →
          ∃ c ∈ (reached sha digest cs).cases, c.id = o.case ∧ c.workspace = r.workspace ∧
            c.book = r.book ∧ a.published sha = some c.key := by
      intro r o a hr ho ha
      obtain ⟨ho, hrun⟩ := List.mem_filter.mp ho
      obtain ⟨a', q, hq, hid, habout, hcase⟩ := h.filed o ho
      obtain rfl := hsound.run_eq hq hr (hid.trans (of_decide_eq_true hrun))
      rwa [habout.unique h ha] at hcase
    obtain ⟨c, hc, hcid, hcw, hcb, hkey⟩ := hfiled hr ho ha
    obtain ⟨c', hc', hcid', hcw', hcb', hkey'⟩ := hfiled hr' ho' hb
    have hiff : o.case = o'.case ↔ a.published sha = b.published sha := by
      rw [← hcid, ← hcid', hkey, hkey']
      constructor
      · intro hid
        rw [eq_of_key_eq InvestigationCase.id h.numbered.nodup hc hc' hid]
      · intro hkeys
        have htriple : (c.workspace, c.book, c.key) = (c'.workspace, c'.book, c'.key) := by
          rw [hcw, hcw', hcb, hcb', hworkspace, hbook, Option.some.inj hkeys]
        exact congrArg _ (eq_of_key_eq _ h.distinct hc hc' htriple)
    refine ⟨hiff, fun hsame => hiff.mpr ?_⟩
    rw [hkey, hkey', published_same hsame hkey hkey']

end Steps

end Workbench.CaseContinuity
