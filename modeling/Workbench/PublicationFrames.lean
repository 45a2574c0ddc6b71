import Workbench.Publications

/-!
# What each stage of a publication changes

Facts, snapshots, occurrences and lineage are only added to. What a scope
shows is changed by a current publication alone.
-/

set_option autoImplicit false

namespace Workbench.PublicationFrames
open Workbench.Listing Workbench.Tables Workbench.Records Workbench.Evidence Workbench.Json
open Workbench.Ingestion Workbench.Review Workbench.Upserts Workbench.Runs
open Workbench.Decisions (DecisionRevision)
open Workbench.Publications
open Workbench.Raising (bind_ok demand_ok fetch_ok)

variable {s t u : Store} {r : Run}

theorem mapM_some_mem {α β : Type} {f : α → Option β} {l : List α} {m : List β}
    (h : l.mapM f = some m) {b : β} (hb : b ∈ m) : ∃ a ∈ l, f a = some b := by
  induction l generalizing m with
  | nil =>
    rw [List.mapM_nil] at h
    rw [← Option.some.inj h] at hb
    cases hb
  | cons a l ih =>
    rw [List.mapM_cons] at h
    obtain ⟨c, hc, h⟩ := Option.bind_eq_some_iff.mp h
    obtain ⟨rest, hrest, h⟩ := Option.bind_eq_some_iff.mp h
    rw [← Option.some.inj h] at hb
    rcases List.mem_cons.mp hb with rfl | hb
    · exact ⟨a, List.mem_cons_self .., hc⟩
    · obtain ⟨x, hx, he⟩ := ih hrest hb
      exact ⟨x, List.mem_cons_of_mem a hx, he⟩

theorem mapM_some_mem_left {α β : Type} {f : α → Option β} {l : List α} {m : List β}
    (h : l.mapM f = some m) {a : α} (ha : a ∈ l) : ∃ b ∈ m, f a = some b := by
  induction l generalizing m with
  | nil => cases ha
  | cons x l ih =>
    rw [List.mapM_cons] at h
    obtain ⟨c, hc, h⟩ := Option.bind_eq_some_iff.mp h
    obtain ⟨rest, hrest, h⟩ := Option.bind_eq_some_iff.mp h
    rw [← Option.some.inj h]
    rcases List.mem_cons.mp ha with rfl | ha
    · exact ⟨c, List.mem_cons_self .., hc⟩
    · obtain ⟨b, hb, he⟩ := ih hrest ha
      exact ⟨b, List.mem_cons_of_mem c hb, he⟩

theorem insertEach_keeps {α : Type} {insert : α → Store → Except RunFailure Store}
    {P : Store → Prop} {l : List α}
    (hstep : ∀ a ∈ l, ∀ s t, P s → insert a s = .ok t → P t) (hs : P s)
    (h : insertEach insert l s = .ok t) : P t := by
  induction l generalizing s with
  | nil => exact Except.ok.inj h ▸ hs
  | cons a l ih =>
    simp only [insertEach, bind_ok] at h
    obtain ⟨u, hu, hrest⟩ := h
    exact ih (fun b hb => hstep b (List.mem_cons_of_mem a hb))
      (hstep a (List.mem_cons_self ..) s u hs hu) hrest

section Appending
variable {α ρ : Type} {insert : α → Store → Except RunFailure Store}

theorem insertEach_appends (table : Store → List ρ) (put : Store → List ρ → Store)
    (Made : α → ρ → Prop) {l : List α} (hget : ∀ s x, table (put s x) = x)
    (hput : ∀ s x y, put (put s x) y = put s y) (hself : ∀ s, put s (table s) = s)
    (hstep : ∀ a s t, insert a s = .ok t → ∃ row, Made a row ∧ t = put s (table s ++ [row]))
    (h : insertEach insert l s = .ok t) :
    ∃ rows, t = put s (table s ++ rows) ∧ List.Forall₂ Made l rows := by
  induction l generalizing s with
  | nil => exact ⟨[], by rw [List.append_nil, hself]; exact (Except.ok.inj h).symm, .nil⟩
  | cons a l ih =>
    simp only [insertEach, bind_ok] at h
    obtain ⟨u, hu, hrest⟩ := h
    obtain ⟨row, hrow, rfl⟩ := hstep a s u hu
    obtain ⟨rows, ht, hall⟩ := ih hrest
    refine ⟨row :: rows, ?_, .cons hrow hall⟩
    rw [ht, hput, hget, List.append_assoc, List.singleton_append]

end Appending

theorem insertPair_ok {outcome : PairOutcome} (h : insertPair r outcome s = .ok t) :
    ∃ row : RunPair, row.id = s.pairs.length ∧ row.run = r.id ∧
      t = { s with pairs := s.pairs ++ [row] } := by
  simp only [insertPair, bind_ok, fetch_ok, demand_ok] at h
  obtain ⟨left, _, right, _, _, _, he⟩ := h
  exact ⟨_, rfl, rfl, (Except.ok.inj he).symm⟩

theorem insertUnpaired_ok {outcome : UnpairedOutcome} (h : insertUnpaired r outcome s = .ok t) :
    ∃ i, inputOf r.manifest.inputs outcome.recordId = some i ∧
      t = { s with unpaired := s.unpaired ++
        [⟨s.unpaired.length, r.id, i.logicalTransaction, outcome⟩] } := by
  simp only [insertUnpaired, bind_ok, fetch_ok, demand_ok] at h
  obtain ⟨i, hi, _, _, he⟩ := h
  exact ⟨i, hi, (Except.ok.inj he).symm⟩

theorem insertComponent_ok {evidence : AssignmentComponentEvidence}
    (h : insertComponent r evidence s = .ok t) :
    t = { s with components := s.components ++ [⟨s.components.length, r.id, evidence⟩] } := by
  simp only [insertComponent, bind_ok, demand_ok] at h
  obtain ⟨_, _, he⟩ := h
  exact (Except.ok.inj he).symm

def UnpairedRow (r : Run) (outcome : UnpairedOutcome) (u : RunUnpaired) : Prop :=
  u.run = r.id ∧ u.outcome = outcome ∧
    ∃ i, inputOf r.manifest.inputs outcome.recordId = some i ∧
      u.logicalTransaction = i.logicalTransaction

theorem unpaired_ok {outcomes : List UnpairedOutcome}
    (h : insertEach (insertUnpaired r) outcomes s = .ok t) :
    ∃ news, t = { s with unpaired := s.unpaired ++ news } ∧
      List.Forall₂ (UnpairedRow r) outcomes news := by
  apply insertEach_appends Store.unpaired (fun s x => { s with unpaired := x }) _
    (fun _ _ => rfl) (fun _ _ _ => rfl) (fun _ => rfl) _ h
  intro outcome s t hstep
  obtain ⟨i, hi, he⟩ := insertUnpaired_ok hstep
  exact ⟨_, ⟨rfl, rfl, i, hi, rfl⟩, he⟩

def SameButFacts (s t : Store) : Prop :=
  t = { s with
    components := t.components
    candidates := t.candidates
    pairs := t.pairs
    unpaired := t.unpaired
    diagnostics := t.diagnostics }

theorem unpaired_numbered {outcomes : List UnpairedOutcome}
    (h : insertEach (insertUnpaired r) outcomes s = .ok t) (hs : Numbered RunUnpaired.id s.unpaired) :
    Numbered RunUnpaired.id t.unpaired := by
  apply insertEach_keeps (P := fun x => Numbered RunUnpaired.id x.unpaired) _ hs h
  intro _ _ x y hx hy
  obtain ⟨i, _, rfl⟩ := insertUnpaired_ok hy
  exact hx.concat rfl

theorem persistResult_unpaired {result : EngineResult} (h : persistResult r result s = .ok t) :
    ∃ news, t.unpaired = s.unpaired ++ news ∧
      List.Forall₂ (UnpairedRow r) result.unpaired news ∧
      (Numbered RunUnpaired.id s.unpaired → Numbered RunUnpaired.id t.unpaired) := by
  simp only [persistResult, bind_ok, demand_ok] at h
  obtain ⟨u, hu, _, _, v, hv, w, hw, he⟩ := h
  have hsu : u.unpaired = s.unpaired := by
    apply insertEach_keeps (P := fun x => x.unpaired = s.unpaired) _ rfl hu
    intro _ _ x y hx hy
    rw [insertComponent_ok hy]
    exact hx
  have hsv : v.unpaired = s.unpaired := by
    apply insertEach_keeps (P := fun x => x.unpaired = s.unpaired) _ _ hv
    · intro _ _ x y hx hy
      obtain ⟨row, _, _, rfl⟩ := insertPair_ok hy
      exact hx
    · exact hsu
  have hnumbered := unpaired_numbered hw
  obtain ⟨news, rfl, hn⟩ := unpaired_ok hw
  rw [← Except.ok.inj he]
  exact ⟨news, by rw [← hsv], hn, fun hs => hnumbered (hsv ▸ hs)⟩

theorem persistResult_frame {result : EngineResult} (h : persistResult r result s = .ok t) :
    SameButFacts s t := by
  simp only [persistResult, bind_ok, demand_ok] at h
  obtain ⟨u, hu, _, _, v, hv, w, hw, he⟩ := h
  have hs : SameButFacts s s := rfl
  have hsu : SameButFacts s u := by
    apply insertEach_keeps (P := SameButFacts s) _ hs hu
    intro _ _ x y hx hy
    rw [insertComponent_ok hy]
    unfold SameButFacts at hx ⊢
    rw [hx]
  have hsv : SameButFacts s v := by
    apply insertEach_keeps (P := SameButFacts s) _ _ hv
    · intro _ _ x y hx hy
      obtain ⟨row, _, _, rfl⟩ := insertPair_ok hy
      unfold SameButFacts at hx ⊢
      rw [hx]
    · unfold SameButFacts at hsu ⊢
      rw [hsu]
  have hsw : SameButFacts s w := by
    apply insertEach_keeps (P := SameButFacts s) _ hsv hw
    intro _ _ x y hx hy
    obtain ⟨i, _, rfl⟩ := insertUnpaired_ok hy
    unfold SameButFacts at hx ⊢
    rw [hx]
  rw [← Except.ok.inj he]
  unfold SameButFacts at hsw ⊢
  rw [hsw]

theorem insertSnapshot_ok {digest : Digest} {contract : ReferenceContract}
    {diagnostics : List DecisionHealthDiagnostic} {row : DecisionRevision}
    (h : insertSnapshot digest contract r diagnostics row s = .ok t) :
    ∃ authority, row.authority = some authority ∧
      (∀ h ∈ s.snapshots, h.run = r.id → h.decisionRevision ≠ row.id) ∧
      t = { s with snapshots := s.snapshots ++
        [snapshotOf digest contract r diagnostics s.snapshots.length row authority] } := by
  simp only [insertSnapshot, bind_ok, fetch_ok, demand_ok] at h
  obtain ⟨authority, ha, _, hfresh, he⟩ := h
  exact ⟨authority, ha, hfresh, (Except.ok.inj he).symm⟩

def SnapshotOf (digest : Digest) (contract : ReferenceContract) (r : Run)
    (diagnostics : List DecisionHealthDiagnostic) (row : DecisionRevision)
    (h : DecisionHealthSnapshot) : Prop :=
  ∃ index authority, row.authority = some authority ∧
    h = snapshotOf digest contract r diagnostics index row authority

theorem snapshots_ok {digest : Digest} {contract : ReferenceContract}
    {diagnostics : List DecisionHealthDiagnostic} {rows : List DecisionRevision}
    (h : insertEach (insertSnapshot digest contract r diagnostics) rows s = .ok t) :
    ∃ news, t = { s with snapshots := s.snapshots ++ news } ∧
      List.Forall₂ (SnapshotOf digest contract r diagnostics) rows news := by
  apply insertEach_appends Store.snapshots (fun s x => { s with snapshots := x }) _
    (fun _ _ => rfl) (fun _ _ _ => rfl) (fun _ => rfl) _ h
  intro row s t hstep
  obtain ⟨authority, ha, _, he⟩ := insertSnapshot_ok hstep
  exact ⟨_, ⟨_, authority, ha, rfl⟩, he⟩

def SameButCases (s t : Store) : Prop :=
  t = { s with cases := t.cases, occurrences := t.occurrences }

theorem openCase_frame (r : Run) (key : CaseKey) (identity : CaseIdentity) (s : Store) :
    (openCase r key identity s).1 = { s with cases := (openCase r key identity s).1.cases } := by
  unfold openCase
  cases s.cases.find? fun c => c.workspace = r.workspace && c.book = r.book && c.key = key <;> rfl

theorem recordFinding_ok {f : Finding} (h : recordFinding r f s = .ok t) :
    (∀ o ∈ s.occurrences, o.run = r.id → o.case ≠ (openCase r f.key f.identity s).2.id) ∧
      t = { s with
        cases := (openCase r f.key f.identity s).1.cases
        occurrences := s.occurrences ++
          [⟨s.occurrences.length, (openCase r f.key f.identity s).2.id, r.id, f.result⟩] } := by
  have hf := openCase_frame r f.key f.identity s
  simp only [recordFinding, bind_ok, demand_ok] at h
  obtain ⟨_, hfresh, he⟩ := h
  rw [← Except.ok.inj he]
  rw [hf] at hfresh ⊢
  exact ⟨hfresh, rfl⟩

theorem recordFindings_frame {findings : List Finding}
    (h : insertEach (recordFinding r) findings s = .ok t) : SameButCases s t := by
  have hs : SameButCases s s := rfl
  apply insertEach_keeps (P := SameButCases s) _ hs h
  intro f _ u v hu hv
  have hv' := (recordFinding_ok hv).2
  unfold SameButCases at hu ⊢
  rw [hv', hu]

/-- The occurrences of a run name different cases, and are numbered with the
others. -/
structure Recorded (r : Run) (findings : List Finding) (s t : Store)
    (news : List CaseOccurrence) : Prop where
  occurrences : t.occurrences = s.occurrences ++ news
  run : ∀ o ∈ news, o.run = r.id
  cases : (news.map (·.case)).Nodup
  numbered : Numbered CaseOccurrence.id s.occurrences → Numbered CaseOccurrence.id t.occurrences
  results : ∀ o ∈ news, ∃ f ∈ findings, o.result = f.result

theorem recordFindings_ok {findings : List Finding}
    (h : insertEach (recordFinding r) findings s = .ok t) :
    ∃ news, Recorded r findings s t news := by
  apply insertEach_keeps (P := fun t => ∃ news, Recorded r findings s t news) _
    ⟨[], by simp, by simp, by simp, id, by simp⟩ h
  intro f hfinding u v hu hv
  obtain ⟨news, hu⟩ := hu
  obtain ⟨hfresh, he⟩ := recordFinding_ok hv
  have hocc := congrArg Store.occurrences he
  refine ⟨news ++ [_], by rw [hocc, hu.occurrences, List.append_assoc], ?_, ?_, ?_, ?_⟩
  · intro o ho
    rcases List.mem_append.mp ho with ho | ho
    · exact hu.run o ho
    · rw [List.mem_singleton.mp ho]
  · rw [List.map_append, List.map_singleton]
    apply List.nodup_append.mpr
    refine ⟨hu.cases, List.nodup_singleton _, fun a ha b hb hab => ?_⟩
    obtain ⟨o, ho, rfl⟩ := List.mem_map.mp ha
    rw [List.mem_singleton] at hb
    have hmem : o ∈ u.occurrences := by
      rw [hu.occurrences]
      exact List.mem_append_right _ ho
    exact hfresh o hmem (hu.run o ho) (hab.trans hb)
  · intro hn
    rw [hocc]
    exact (hu.numbered hn).concat rfl
  · intro o ho
    rcases List.mem_append.mp ho with ho | ho
    · exact hu.results o ho
    · exact ⟨f, hfinding, by rw [List.mem_singleton.mp ho]⟩

theorem recordFindings_cover {findings : List Finding}
    (h : insertEach (recordFinding r) findings s = .ok t) :
    ∀ f ∈ findings, ∃ o ∈ t.occurrences, o.run = r.id ∧ o.result = f.result := by
  induction findings generalizing s with
  | nil => exact fun _ hf => by cases hf
  | cons f findings ih =>
    simp only [insertEach, bind_ok] at h
    obtain ⟨u, hu, hrest⟩ := h
    intro g hg
    rcases List.mem_cons.mp hg with rfl | hg
    · obtain ⟨news, hnews⟩ := recordFindings_ok hrest
      have hocc := congrArg Store.occurrences (recordFinding_ok hu).2
      refine ⟨⟨s.occurrences.length, (openCase r g.key g.identity s).2.id, r.id, g.result⟩, ?_,
        rfl, rfl⟩
      rw [hnews.occurrences, hocc]
      exact List.mem_append_left _ (List.mem_append_right _ (List.mem_singleton_self _))
    · exact ih hrest g hg

theorem unpaired_finding {sha : Sha256} {findings : List Finding}
    (h : findingsOf sha r s = some findings) {u : RunUnpaired} (hu : u ∈ s.unpaired)
    (hrun : u.run = r.id) : ∃ f ∈ findings, f.result = .unpaired u.id := by
  unfold findingsOf at h
  obtain ⟨pairs, _, h⟩ := Option.bind_eq_some_iff.mp h
  obtain ⟨unpaired, hmap, h⟩ := Option.bind_eq_some_iff.mp h
  obtain ⟨components, _, h⟩ := Option.bind_eq_some_iff.mp h
  obtain ⟨f, hf, hfinding⟩ :=
    mapM_some_mem_left hmap (List.mem_filter.mpr ⟨hu, decide_eq_true hrun⟩)
  obtain ⟨key, _, rfl⟩ := Option.map_eq_some_iff.mp hfinding
  rw [← Option.some.inj h]
  exact ⟨_, List.mem_append_left _ (List.mem_append_right _ hf), rfl⟩

theorem finding_unpaired {sha : Sha256} {findings : List Finding}
    (h : findingsOf sha r s = some findings) {f : Finding} (hf : f ∈ findings) {row : ℕ}
    (hr : f.result = .unpaired row) : ∃ u ∈ s.unpaired, u.id = row ∧ u.run = r.id := by
  unfold findingsOf at h
  obtain ⟨pairs, hp, h⟩ := Option.bind_eq_some_iff.mp h
  obtain ⟨unpaired, hu, h⟩ := Option.bind_eq_some_iff.mp h
  obtain ⟨components, hc, h⟩ := Option.bind_eq_some_iff.mp h
  rw [← Option.some.inj h] at hf
  rcases List.mem_append.mp hf with hf | hf
  · rcases List.mem_append.mp hf with hf | hf
    · obtain ⟨p, _, hp⟩ := mapM_some_mem hp hf
      obtain ⟨key, _, rfl⟩ := Option.map_eq_some_iff.mp hp
      cases hr
    · obtain ⟨u, hmem, hu⟩ := mapM_some_mem hu hf
      obtain ⟨key, _, rfl⟩ := Option.map_eq_some_iff.mp hu
      obtain ⟨hmem, hrun⟩ := List.mem_filter.mp hmem
      exact ⟨u, hmem, CaseResult.unpaired.inj hr, of_decide_eq_true hrun⟩
  · obtain ⟨c, _, hc⟩ := mapM_some_mem hc hf
    unfold componentFinding at hc
    obtain ⟨left, _, hc⟩ := Option.bind_eq_some_iff.mp hc
    obtain ⟨right, _, hc⟩ := Option.bind_eq_some_iff.mp hc
    obtain ⟨key, _, hc⟩ := Option.bind_eq_some_iff.mp hc
    rw [← Option.some.inj hc] at hr
    cases hr

theorem recordLineage_ok {previous current : List InvestigationCase}
    (h : recordLineage r previous current s = .ok t) : ∃ before after plan rows,
    previous.mapM transitionNode = some before ∧ current.mapM transitionNode = some after ∧
      planCaseTransitions before after = some plan ∧
      plan.mapM (lineageRow r (previous ++ current)) = some rows ∧
      t = { s with lineage := s.lineage ++ rows } := by
  simp only [recordLineage, bind_ok, fetch_ok] at h
  obtain ⟨before, hb, after, ha, plan, hp, rows, hr, he⟩ := h
  exact ⟨before, after, plan, rows, hb, ha, hp, hr, (Except.ok.inj he).symm⟩

theorem materialize_current {sha : Sha256} {read : List DecisionHealthSnapshot}
    (h : materializeRunCases sha r read true s = .ok t) : ∃ findings u rows,
    findingsOf sha r s = some findings ∧ insertEach (recordFinding r) findings s = .ok u ∧
      recordLineage r (shownCases r.scope s) (casesOf u r.id) u =
        .ok { u with lineage := u.lineage ++ rows } ∧
      t = { u with
        lineage := u.lineage ++ rows
        projections := replaceGroup (·.scope) CaseScopeProjection.key r.scope
          ((occurrencesOf u r.id).map (projectionOf r u read)) u.projections } := by
  simp only [materializeRunCases, bind_ok, fetch_ok, if_true, showCases] at h
  obtain ⟨findings, hf, u, hu, v, hv, he⟩ := h
  obtain ⟨_, _, _, rows, _, _, _, _, hrows⟩ := recordLineage_ok hv
  subst hrows
  exact ⟨findings, u, rows, hf, hu, hv, (Except.ok.inj he).symm⟩

theorem materialize_stale {sha : Sha256} {read : List DecisionHealthSnapshot}
    (h : materializeRunCases sha r read false s = .ok t) : ∃ findings,
    findingsOf sha r s = some findings ∧ insertEach (recordFinding r) findings s = .ok t := by
  simp only [materializeRunCases, bind_ok, fetch_ok] at h
  obtain ⟨findings, hf, u, hu, he⟩ := h
  exact ⟨findings, hf, Except.ok.inj he ▸ hu⟩

structure Beside (s t : Store) : Prop where
  review : t.review = s.review
  scopes : t.scopes = s.scopes
  runs : t.runs = s.runs
  unpaired : t.unpaired = s.unpaired
  snapshots : t.snapshots = s.snapshots
  health : t.health = s.health

theorem SameButCases.beside (h : SameButCases s t) :
    Beside s t ∧ t.projections = s.projections := by
  have he : t = { s with cases := t.cases, occurrences := t.occurrences } := h
  exact ⟨⟨(congrArg Store.review he :), (congrArg Store.scopes he :), (congrArg Store.runs he :),
    (congrArg Store.unpaired he :), (congrArg Store.snapshots he :), (congrArg Store.health he :)⟩,
    (congrArg Store.projections he :)⟩

structure Materialized (r : Run) (read : List DecisionHealthSnapshot) (fresh : Bool) (s t : Store)
    (occurrences : List CaseOccurrence) : Prop extends Beside s t where
  recorded : ∃ findings, Recorded r findings s t occurrences
  results : ∀ o ∈ occurrences, ∀ row, o.result = .unpaired row →
    ∃ u ∈ s.unpaired, u.id = row ∧ u.run = r.id
  covered : ∀ u ∈ s.unpaired, u.run = r.id →
    ∃ o ∈ t.occurrences, o.run = r.id ∧ o.result = .unpaired u.id
  projections : t.projections = if fresh then
    replaceGroup (·.scope) CaseScopeProjection.key r.scope ((occurrencesOf t r.id).map
      (projectionOf r t read)) s.projections else s.projections

theorem materialize_ok {sha : Sha256} {read : List DecisionHealthSnapshot} {fresh : Bool}
    (h : materializeRunCases sha r read fresh s = .ok t) :
    ∃ occurrences, Materialized r read fresh s t occurrences := by
  cases fresh with
  | false =>
    obtain ⟨findings, hfindings, hf⟩ := materialize_stale h
    obtain ⟨occurrences, hrec⟩ := recordFindings_ok hf
    obtain ⟨hb, hp⟩ := (recordFindings_frame hf).beside
    refine ⟨occurrences, hb, ⟨findings, hrec⟩, ?_, ?_, hp⟩
    · intro o ho row hr
      obtain ⟨f, hmem, he⟩ := hrec.results o ho
      exact finding_unpaired hfindings hmem (he.symm.trans hr)
    · intro u hu hrun
      obtain ⟨g, hg, hresult⟩ := unpaired_finding hfindings hu hrun
      exact hresult ▸ recordFindings_cover hf g hg
  | true =>
    obtain ⟨findings, u, rows, hfindings, hf, _, rfl⟩ := materialize_current h
    obtain ⟨occurrences, hrec⟩ := recordFindings_ok hf
    obtain ⟨hb, hp⟩ := (recordFindings_frame hf).beside
    refine ⟨occurrences, ⟨hb.review, hb.scopes, hb.runs, hb.unpaired, hb.snapshots, hb.health⟩,
      ⟨findings, hrec.occurrences, hrec.run, hrec.cases, hrec.numbered, hrec.results⟩, ?_, ?_, ?_⟩
    · intro o ho row hr
      obtain ⟨f, hmem, he⟩ := hrec.results o ho
      exact finding_unpaired hfindings hmem (he.symm.trans hr)
    · intro u hu hrun
      obtain ⟨g, hg, hresult⟩ := unpaired_finding hfindings hu hrun
      exact hresult ▸ recordFindings_cover hf g hg
    · rw [← hp]
      rfl

/-- The health stage: a snapshot of every frozen decision, and what the scope
shows of them. -/
structure Assessed (digest : Digest) (contract : ReferenceContract) (r : Run)
    (diagnostics : List DecisionHealthDiagnostic) (fresh : Bool) (s t : Store)
    (news : List DecisionHealthSnapshot) : Prop where
  made : List.Forall₂ (SnapshotOf digest contract r diagnostics) r.manifest.decisions news
  review : t.review = s.review
  scopes : t.scopes = s.scopes
  runs : t.runs = s.runs
  unpaired : t.unpaired = s.unpaired
  occurrences : t.occurrences = s.occurrences
  projections : t.projections = s.projections
  snapshots : t.snapshots = s.snapshots ++ news
  health : t.health = if fresh then replaceGroup (·.scope) CurrentDecisionHealth.key r.scope
    ((snapshotsOf t r.id).map (currentHealth r)) s.health else s.health

theorem persistHealth_ok {digest : Digest} {contract : ReferenceContract} {fresh : Bool}
    {diagnostics : List DecisionHealthDiagnostic}
    (h : persistDecisionHealth digest contract r diagnostics fresh s = .ok t) :
    ∃ news, Assessed digest contract r diagnostics fresh s t news := by
  simp only [persistDecisionHealth, bind_ok] at h
  obtain ⟨u, hu, he⟩ := h
  obtain ⟨news, rfl, hnews⟩ := snapshots_ok hu
  cases fresh with
  | false =>
    rw [← Except.ok.inj he]
    exact ⟨news, hnews, rfl, rfl, rfl, rfl, rfl, rfl, rfl, rfl⟩
  | true =>
    rw [← Except.ok.inj he]
    exact ⟨news, hnews, rfl, rfl, rfl, rfl, rfl, rfl, rfl, rfl⟩

structure Reviewed (s t : Store) : Prop where
  review : t.review = s.review
  scopes : t.scopes = s.scopes
  runs : t.runs = s.runs
  snapshots : t.snapshots = s.snapshots
  health : t.health = s.health
  occurrences : t.occurrences = s.occurrences
  projections : t.projections = s.projections

theorem SameButFacts.reviewed (h : SameButFacts s t) : Reviewed s t := by
  have he : t = { s with
    components := t.components
    candidates := t.candidates
    pairs := t.pairs
    unpaired := t.unpaired
    diagnostics := t.diagnostics } := h
  exact ⟨(congrArg Store.review he :), (congrArg Store.scopes he :), (congrArg Store.runs he :),
    (congrArg Store.snapshots he :), (congrArg Store.health he :),
    (congrArg Store.occurrences he :), (congrArg Store.projections he :)⟩

end Workbench.PublicationFrames
