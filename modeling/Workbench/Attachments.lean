import Workbench.Completions
import Workbench.Reconciled

/-!
# Candidates and their components

A publication stores the candidates of a run with a component each. The
component is looked up by the records of a candidate: it is found for every
candidate between two members of a component, also for one that is not above
the floor and no edge of the component.
-/

set_option autoImplicit false

namespace Workbench.Attachments
open Workbench.Listing Workbench.Tables Workbench.Raising Workbench.Records Workbench.Evidence
open Workbench.Candidates Workbench.Assignment Workbench.Components Workbench.AssignmentOptimality
open Workbench.Gating Workbench.Engine Workbench.Results Workbench.Json Workbench.Ingestion
open Workbench.Runs Workbench.Publications Workbench.PublicationFrames Workbench.PublicationRuns
open Workbench.Completions Workbench.ScopeViews Workbench.Decimals

def Covers (evidence : AssignmentComponentEvidence) (e : Edge) : Prop :=
  e.1 ∈ evidence.leftIds ∧ e.2 ∈ evidence.rightIds

instance (evidence : AssignmentComponentEvidence) (e : Edge) : Decidable (Covers evidence e) :=
  inferInstanceAs (Decidable (_ ∧ _))

/-- `component_for_edge`: a later component replaces an earlier one. -/
def componentForEdge (components : List AssignmentComponent) (e : Edge) :
    Option AssignmentComponent :=
  (components.filter fun c => Covers c.evidence e).getLast?

structure CandidateRow where
  run : ℕ
  evidence : CandidateEvidence
  component : Option AssignmentComponent

def componentsOf (s : Store) (run : ℕ) : List AssignmentComponent :=
  s.components.filter (·.run = run)

def candidatesOf (s : Store) (run : ℕ) : List CandidateEvidence :=
  (s.candidates.filter (·.1 = run)).map (·.2)

/-- The rows of the candidates that `_persist_result` creates. -/
def candidateRows (s : Store) (run : ℕ) : List CandidateRow :=
  (candidatesOf s run).map fun c => ⟨run, c, componentForEdge (componentsOf s run) c.edge⟩

def attached (s : Store) (run : ℕ) (component : AssignmentComponent) : List CandidateEvidence :=
  ((candidateRows s run).filter (·.component = some component)).map (·.evidence)

/-- The candidates of every component are the above-floor edges it was built
from, as many as it counts, and no other candidate has a component. -/
structure AttachedExactly (digest : Digest) (floorBp : ℕ) (s : Store) (run : ℕ) : Prop where
  edges : ∀ component ∈ componentsOf s run,
    ∃ part ∈ connectedComponents (eligible (candidatesOf s run) floorBp),
      component.evidence.componentId = componentId digest (lefts part) (rights part) ∧
      (attached s run component).Perm part ∧
      (attached s run component).length = component.evidence.candidateCount
  floor : ∀ row ∈ candidateRows s run, row.evidence.scoreBp ≤ floorBp → row.component = none

/-- No candidate at or below the floor lies between two members of a component. -/
def Separated (floorBp : ℕ) (result : EngineResult) : Prop :=
  ∀ evidence ∈ result.components, ∀ c ∈ result.candidates, c.scoreBp ≤ floorBp →
    ¬Covers evidence c.edge

section Built
variable {digest : Digest} {cs : List CandidateEvidence} {policy : MatchingPolicy}
  {solver : AssignmentSolver} {part : List CandidateEvidence}

structure Built (digest : Digest) (part : List CandidateEvidence)
    (evidence : AssignmentComponentEvidence) : Prop where
  id : evidence.componentId = componentId digest (lefts part) (rights part)
  left : ∀ i, i ∈ evidence.leftIds ↔ i ∈ lefts part
  right : ∀ i, i ∈ evidence.rightIds ↔ i ∈ rights part
  count : evidence.candidateCount = part.length

structure SolvedFrom (digest : Digest) (part : List CandidateEvidence)
    (x : SolvedAssignmentComponent) : Prop where
  id : x.componentId = componentId digest (lefts part) (rights part)
  left : x.leftIds = lefts part
  right : x.rightIds = rights part
  count : x.candidateCount = part.length

theorem component_create_ok {x y : SolvedAssignmentComponent}
    (h : SolvedAssignmentComponent.create x = .ok y) :
    y.componentId = x.componentId ∧ y.leftIds = sortOn id x.leftIds ∧
      y.rightIds = sortOn id x.rightIds ∧ y.candidateCount = x.candidateCount := by
  simp only [SolvedAssignmentComponent.create, bind_ok, exists_require, pure_ok] at h
  obtain ⟨-, -, -, -, -, -, -, -, -, -, -, -, rfl⟩ := h
  exact ⟨rfl, rfl, rfl, rfl⟩

theorem solveConnected_from {limited : List String} {x : SolvedAssignmentComponent}
    (h : solveConnected digest limited policy solver part = .ok x) : SolvedFrom digest part x := by
  unfold solveConnected at h
  simp only at h
  split at h
  · obtain ⟨hid, hl, hr, hc⟩ := component_create_ok h
    exact ⟨hid, hl.trans lefts_eq, hr.trans rights_eq, hc⟩
  · rw [bind_ok] at h
    obtain ⟨selected, _, h⟩ := h
    obtain ⟨hid, hl, hr, hc⟩ := component_create_ok h
    exact ⟨hid, hl.trans lefts_eq, hr.trans rights_eq, hc⟩

theorem solveAssignment_from {g : CandidateGenerationResult} {a : AssignmentSolveResult}
    (h : solveAssignment digest cs g policy solver = .ok a) :
    (cs.map (·.edge)).Nodup ∧ ∀ x ∈ a.components,
      ∃ part ∈ connectedComponents (eligible cs policy.assignmentFloorBp),
        SolvedFrom digest part x := by
  simp only [solveAssignment, bind_ok, exists_require] at h
  obtain ⟨_, hunique, _, xs, hxs, h⟩ := h
  simp only [AssignmentSolveResult.create, bind_ok, exists_require, pure_ok] at h
  obtain ⟨-, -, -, -, -, rfl⟩ := h
  refine ⟨hunique, fun x hx => ?_⟩
  obtain ⟨part, hp, hpart⟩ := mapM_mem_right hxs ((mem_sortOn _ _ _).mp hx)
  exact ⟨part, hp, solveConnected_from hpart⟩

theorem evidence_create_ok {e f : AssignmentComponentEvidence}
    (h : AssignmentComponentEvidence.create e = .ok f) :
    f.componentId = e.componentId ∧ f.leftIds = sortOn id e.leftIds ∧
      f.rightIds = sortOn id e.rightIds ∧ f.candidateCount = e.candidateCount := by
  simp only [AssignmentComponentEvidence.create, requiredText, unique, bind_ok, exists_require,
    pure_ok] at h
  obtain ⟨-, -, -, -, -, -, -, -, -, -, -, -, -, -, rfl⟩ := h
  exact ⟨rfl, rfl, rfl, rfl⟩

theorem gateComponent_built {acc y : List AssignmentComponentEvidence × List Edge}
    {x : SolvedAssignmentComponent} (hx : SolvedFrom digest part x)
    (h : gateComponent digest cs policy solver acc x = .ok y) :
    ∃ e, Built digest part e ∧ y.1 = acc.1 ++ [e] := by
  simp only [gateComponent, bind_ok, exists_require, pure_ok] at h
  obtain ⟨-, -, -, -, proposals, -, e, he, rfl⟩ := h
  obtain ⟨hid, hl, hr, hc⟩ := evidence_create_ok he
  refine ⟨e, ⟨hid.trans hx.id, fun i => ?_, fun i => ?_, hc.trans hx.count⟩, rfl⟩
  · rw [hl, mem_sortOn]
    exact hx.left ▸ Iff.rfl
  · rw [hr, mem_sortOn]
    exact hx.right ▸ Iff.rfl

theorem gateAssignment_built {a : AssignmentSolveResult} {gated : GatedAssignmentResult}
    (ha : ∀ x ∈ a.components, ∃ part ∈ connectedComponents (eligible cs policy.assignmentFloorBp),
      SolvedFrom digest part x)
    (h : gateAssignment digest cs a policy solver = .ok gated) :
    ∀ e ∈ gated.components, ∃ part ∈ connectedComponents (eligible cs policy.assignmentFloorBp),
      Built digest part e := by
  simp only [gateAssignment, bind_ok, exists_require] at h
  obtain ⟨-, -, y, hy, -, h⟩ := h
  simp only [GatedAssignmentResult.create, bind_ok, exists_require, pure_ok] at h
  obtain ⟨-, -, -, -, rfl⟩ := h
  intro e he
  have hall := foldlM_invariant (P := fun acc => ∀ e ∈ acc.1,
    ∃ part ∈ connectedComponents (eligible cs policy.assignmentFloorBp), Built digest part e) hy
    (by simp) fun x hx acc acc' hstep hacc e he => by
      obtain ⟨part, hp, hpart⟩ := ha x hx
      obtain ⟨f, hf, hacc'⟩ := gateComponent_built hpart hstep
      rw [hacc'] at he
      rcases List.mem_append.mp he with he | he
      · exact hacc e he
      · exact ⟨part, hp, List.mem_singleton.mp he ▸ hf⟩
  exact hall e ((mem_sortOn _ _ _).mp he)

theorem reconcile_built {snapshot : EngineSnapshot} {comparison : ComparisonPolicy}
    {decisions : DecisionInputs} {result : EngineResult}
    (h : reconcile digest snapshot policy comparison decisions solver = .ok result) :
    (result.candidates.map (·.edge)).Nodup ∧ (result.components.map (·.componentId)).Nodup ∧
      ∀ e ∈ result.components,
        ∃ part ∈ connectedComponents (eligible result.candidates policy.assignmentFloorBp),
          Built digest part e := by
  simp only [reconcile, bind_ok] at h
  obtain ⟨pre, -, g, -, cs, -, a, ha, gated, hgated, est, -, acc, -, unpaired, -, primary, hprimary,
    diagnostics, -, h⟩ := h
  obtain ⟨-, -, rfl⟩ := create_ok.mp hprimary
  obtain ⟨hconsistent, -, rfl⟩ := create_ok.mp h
  obtain ⟨hunique, hsolved⟩ := solveAssignment_from ha
  have hbuilt := gateAssignment_built hsolved hgated
  have hperm : (ordered { ordered (primaryResult snapshot policy comparison cs gated.components
      (est ++ acc) unpaired) with diagnostics := diagnostics }).candidates.Perm cs :=
    (sortOn_perm _ _).trans (sortOn_perm _ _)
  have hedges := (hperm.map (·.edge)).nodup_iff.mpr hunique
  refine ⟨hedges, (nodup_map_sortOn _ _ _).mpr hconsistent.components_nodup, fun e he => ?_⟩
  have hsame : eligible (ordered { ordered (primaryResult snapshot policy comparison cs
      gated.components (est ++ acc) unpaired) with diagnostics := diagnostics }).candidates
      policy.assignmentFloorBp = eligible cs policy.assignmentFloorBp := by
    apply sortOn_eq_of_perm _ (hperm.filter _)
    exact (nodup_edgeOrder hedges).sublist (List.filter_sublist.map _)
  rw [hsame]
  exact hbuilt e ((mem_sortOn _ _ _).mp ((mem_sortOn _ _ _).mp he))

end Built

section Stored
variable {sha : Sha256} {digest : Digest} {s t : Store} {r : Run}

def ComponentRow (run : ℕ) (evidence : AssignmentComponentEvidence) (row : AssignmentComponent) :
    Prop :=
  row.run = run ∧ row.evidence = evidence

structure Stores (run : ℕ) (result : EngineResult) (s t : Store) : Prop where
  components : ∃ rows, t.components = s.components ++ rows ∧
    List.Forall₂ (ComponentRow run) result.components rows
  candidates : t.candidates = s.candidates ++ result.candidates.map ((run, ·))

theorem Stores.congr {run : ℕ} {result : EngineResult} {u : Store} (h : Stores run result s t)
    (hcomponents : u.components = t.components) (hcandidates : u.candidates = t.candidates) :
    Stores run result s u :=
  ⟨hcomponents ▸ h.components, hcandidates ▸ h.candidates⟩

theorem components_ok {evidences : List AssignmentComponentEvidence}
    (h : insertEach (insertComponent r) evidences s = .ok t) :
    ∃ rows, t = { s with components := s.components ++ rows } ∧
      List.Forall₂ (ComponentRow r.id) evidences rows := by
  apply insertEach_appends Store.components (fun s x => { s with components := x }) _
    (fun _ _ => rfl) (fun _ _ _ => rfl) (fun _ => rfl) _ h
  intro evidence s t hstep
  exact ⟨_, ⟨rfl, rfl⟩, insertComponent_ok hstep⟩

theorem persistResult_stores {result : EngineResult} (h : persistResult r result s = .ok t) :
    Stores r.id result s t := by
  simp only [persistResult, bind_ok, demand_ok] at h
  obtain ⟨u, hu, _, _, v, hv, w, hw, he⟩ := h
  obtain ⟨rows, rfl, hrows⟩ := components_ok hu
  have hsv : Stores r.id result s v := by
    apply insertEach_keeps (P := Stores r.id result s) _ _ hv
    · intro _ _ x y hx hy
      obtain ⟨row, _, _, rfl⟩ := insertPair_ok hy
      exact hx.congr rfl rfl
    · exact ⟨⟨rows, rfl, hrows⟩, rfl⟩
  have hsw : Stores r.id result s w := by
    apply insertEach_keeps (P := Stores r.id result s) _ hsv hw
    intro _ _ x y hx hy
    obtain ⟨i, _, rfl⟩ := insertUnpaired_ok hy
    exact hx.congr rfl rfl
  rw [← Except.ok.inj he]
  exact hsw.congr rfl rfl

def SameGraph (s t : Store) : Prop := t.components = s.components ∧ t.candidates = s.candidates

theorem health_graph {contract : ReferenceContract} {fresh : Bool}
    {diagnostics : List DecisionHealthDiagnostic}
    (h : persistDecisionHealth digest contract r diagnostics fresh s = .ok t) : SameGraph s t := by
  simp only [persistDecisionHealth, bind_ok] at h
  obtain ⟨u, hu, he⟩ := h
  obtain ⟨news, rfl, _⟩ := snapshots_ok hu
  cases fresh with
  | false => exact Except.ok.inj he ▸ ⟨rfl, rfl⟩
  | true => exact Except.ok.inj he ▸ ⟨rfl, rfl⟩

theorem materialize_graph {read : List DecisionHealthSnapshot} {fresh : Bool}
    (h : materializeRunCases sha r read fresh s = .ok t) : SameGraph s t := by
  have hfound : ∀ {findings : List Finding} {u : Store},
      insertEach (recordFinding r) findings s = .ok u → SameGraph s u := by
    intro findings u hu
    have he : u = { s with cases := u.cases, occurrences := u.occurrences } :=
      recordFindings_frame hu
    exact ⟨(congrArg Store.components he :), (congrArg Store.candidates he :)⟩
  cases fresh with
  | false =>
    obtain ⟨_, _, hf⟩ := materialize_stale h
    exact hfound hf
  | true =>
    obtain ⟨_, u, _, _, hf, _, rfl⟩ := materialize_current h
    obtain ⟨hcomponents, hcandidates⟩ := hfound hf
    exact ⟨hcomponents, hcandidates⟩

theorem publishRun_stores {workspace run : ℕ} {p : Publication}
    (h : publishRun sha digest workspace run p s = .ok t) :
    Stores run p.result s t ∧ ∃ r ∈ s.runs, r.id = run ∧ r.lifecycle = .running := by
  simp only [publishRun, bind_ok, fetch_ok, demand_ok] at h
  obtain ⟨_, _, r, hr, locked, hl, _, hrunning, _, _, _, _, policy, _, a, ha, b, hb, c, hc, d, hd,
    _, _, he⟩ := h
  obtain ⟨hmem, hid, _⟩ := runOf_some hr
  obtain ⟨hbc, hbx⟩ := health_graph hb
  obtain ⟨hcc, hcx⟩ := materialize_graph hc
  have hstores := (persistResult_stores ha).congr (hcc.trans hbc) (hcx.trans hbx)
  obtain ⟨_, rfl⟩ := updateRun_ok hd
  rw [← hid]
  refine ⟨?_, r, hmem, rfl, hrunning⟩
  rw [← Except.ok.inj he]
  split
  · exact hstores.congr rfl rfl
  · exact hstores.congr rfl rfl

theorem stored_evidence {run : ℕ} {evidences : List AssignmentComponentEvidence}
    {rows : List AssignmentComponent} (h : List.Forall₂ (ComponentRow run) evidences rows) :
    rows.map (·.evidence) = evidences := by
  induction h with
  | nil => rfl
  | cons hrow _ ih => rw [List.map_cons, ih, hrow.2]

theorem published_graph {before : List Command} {workspace run : ℕ} {p : Publication}
    (h : publishRun sha digest workspace run p (reached sha digest before) = .ok t) :
    List.Forall₂ (ComponentRow run) p.result.components (componentsOf t run) ∧
      candidatesOf t run = p.result.candidates := by
  obtain ⟨⟨⟨rows, hcomponents, hrows⟩, hcandidates⟩, r, hr, hid, hrunning⟩ := publishRun_stores h
  have hsound := reached_sound sha digest before
  have hnone : factsOf (reached sha digest before) run = Facts.none := by
    apply reached_unfinished
    intro q hq hq'
    rw [hsound.run_eq hq hr (hq'.trans hid.symm), hrunning]
    decide
  have hno : componentsOf (reached sha digest before) run = [] :=
    (congrArg Facts.components hnone :)
  have hno' : (reached sha digest before).candidates.filter (·.1 = run) = [] :=
    (congrArg Facts.candidates hnone :)
  have hall : rows.filter (·.run = run) = rows := by
    rw [List.filter_eq_self]
    intro row hrow
    obtain ⟨e, _, he⟩ := forall₂_mem_right hrows hrow
    simpa using he.1
  constructor
  · rw [componentsOf, hcomponents, List.filter_append, hall]
    rw [componentsOf] at hno
    rw [hno, List.nil_append]
    exact hrows
  · rw [candidatesOf, hcandidates, List.filter_append, hno', List.nil_append, List.filter_map,
      List.map_map]
    simp [Function.comp_def]

end Stored

section Attached
variable {digest : Digest} {s : Store} {run : ℕ} {floorBp : ℕ}

theorem componentForEdge_covers {components : List AssignmentComponent} {e : Edge}
    {c : AssignmentComponent} (h : componentForEdge components e = some c) :
    c ∈ components ∧ Covers c.evidence e := by
  simpa using List.mem_filter.mp (List.mem_of_getLast? h)

theorem componentForEdge_iff {components : List AssignmentComponent} {e : Edge}
    {c : AssignmentComponent} (hc : c ∈ components)
    (honly : ∀ d ∈ components, Covers d.evidence e → Covers c.evidence e → d = c) :
    componentForEdge components e = some c ↔ Covers c.evidence e := by
  refine ⟨fun h => (componentForEdge_covers h).2, fun h => ?_⟩
  cases hlast : componentForEdge components e with
  | none =>
    have hmem : c ∈ components.filter fun d => Covers d.evidence e :=
      List.mem_filter.mpr ⟨hc, by simpa using h⟩
    rw [componentForEdge, List.getLast?_eq_none_iff] at hlast
    rw [hlast] at hmem
    cases hmem
  | some d =>
    obtain ⟨hd, hcovers⟩ := componentForEdge_covers hlast
    rw [honly d hd hcovers h]

theorem mem_attached {component : AssignmentComponent} {c : CandidateEvidence} :
    c ∈ attached s run component ↔ c ∈ candidatesOf s run ∧
      componentForEdge (componentsOf s run) c.edge = some component := by
  simp only [attached, candidateRows, List.mem_map, List.mem_filter, decide_eq_true_eq]
  constructor
  · rintro ⟨row, ⟨⟨d, hd, rfl⟩, hrow⟩, rfl⟩
    exact ⟨hd, hrow⟩
  · rintro ⟨hc, hcomponent⟩
    exact ⟨_, ⟨⟨c, hc, rfl⟩, hcomponent⟩, rfl⟩

theorem attached_nodup {component : AssignmentComponent} (h : (candidatesOf s run).Nodup) :
    (attached s run component).Nodup := by
  have hevidence : (candidateRows s run).map (·.evidence) = candidatesOf s run := by
    rw [candidateRows, List.map_map]
    exact List.map_id _
  exact (hevidence ▸ h).sublist (List.filter_sublist.map _)

/-- An eligible candidate is an edge of a part exactly when the component built
from the part covers it. -/
theorem built_covers {cs part : List CandidateEvidence} {e : AssignmentComponentEvidence}
    (hp : part ∈ connectedComponents (eligible cs floorBp)) (hb : Built digest part e)
    {c : CandidateEvidence} :
    c ∈ part ↔ (c ∈ cs ∧ floorBp < c.scoreBp) ∧ Covers e c.edge := by
  have hparts := partsOf_spec cs floorBp
  rw [← mem_eligible]
  constructor
  · intro hc
    refine ⟨hparts.mem hp hc, (hb.left _).mpr ?_, (hb.right _).mpr ?_⟩
    · exact mem_lefts.mpr ⟨c, hc, rfl⟩
    · exact mem_rights.mpr ⟨c, hc, rfl⟩
  · rintro ⟨hc, hleft, _⟩
    obtain ⟨d, hd, hdc⟩ := mem_lefts.mp ((hb.left _).mp hleft)
    exact hparts.closed hp hd hc (.inl hdc)

end Attached

/-- The components of a published run have exactly the above-floor candidates
they were built from when no candidate at or below the floor lies between two
members of one component. -/
theorem attached_exactly_iff (sha : Sha256) (digest : Digest) (before : List Command)
    (snapshot : EngineSnapshot) (policy : MatchingPolicy) (comparison : ComparisonPolicy)
    (decisions : DecisionInputs) (solver : AssignmentSolver) {workspace run : ℕ} {p : Publication}
    {t : Store}
    (hresult : reconcile digest snapshot policy comparison decisions solver = .ok p.result)
    (h : publishRun sha digest workspace run p (reached sha digest before) = .ok t) :
    AttachedExactly digest policy.assignmentFloorBp t run ↔
      Separated policy.assignmentFloorBp p.result := by
  obtain ⟨hrows, hcandidates⟩ := published_graph h
  obtain ⟨hunique, hdistinct, hbuilt⟩ := reconcile_built hresult
  constructor
  · intro hexact e he c hc hfloor hcovers
    obtain ⟨row, hrow, -, rfl⟩ := forall₂_mem_left hrows he
    have hnone := hexact.floor ⟨run, c, componentForEdge (componentsOf t run) c.edge⟩
      (List.mem_map.mpr ⟨c, hcandidates ▸ hc, rfl⟩) hfloor
    have hmem : row ∈ (componentsOf t run).filter fun d => Covers d.evidence c.edge :=
      List.mem_filter.mpr ⟨hrow, by simpa using hcovers⟩
    rw [componentForEdge, List.getLast?_eq_none_iff] at hnone
    rw [hnone] at hmem
    cases hmem
  · intro hseparated
    have hids : ((componentsOf t run).map fun c => c.evidence.componentId).Nodup := by
      rw [← stored_evidence hrows, List.map_map] at hdistinct
      exact hdistinct
    have honly : ∀ c ∈ componentsOf t run, ∀ e, ∀ d ∈ componentsOf t run,
        Covers d.evidence e → Covers c.evidence e → d = c := by
      intro c hc e d hd hdcovers hccovers
      obtain ⟨_, hce, -, rfl⟩ := forall₂_mem_right hrows hc
      obtain ⟨_, hde, -, rfl⟩ := forall₂_mem_right hrows hd
      obtain ⟨part, hp, hb⟩ := hbuilt _ hce
      obtain ⟨other, ho, hb'⟩ := hbuilt _ hde
      obtain ⟨x, hx, hxe⟩ := mem_lefts.mp ((hb.left _).mp hccovers.1)
      obtain ⟨y, hy, hye⟩ := mem_lefts.mp ((hb'.left _).mp hdcovers.1)
      have hsame := (partsOf_spec p.result.candidates policy.assignmentFloorBp).same hp ho hx hy
        (.inl (hxe.trans hye.symm))
      exact eq_of_key_eq _ hids hd hc (by rw [hb.id, hb'.id, hsame])
    have hattached : ∀ component ∈ componentsOf t run, ∀ c,
        c ∈ attached t run component ↔ c ∈ p.result.candidates ∧
          Covers component.evidence c.edge := by
      intro component hcomponent c
      rw [mem_attached, hcandidates, componentForEdge_iff hcomponent
        (honly component hcomponent c.edge)]
    refine ⟨fun component hcomponent => ?_, ?_⟩
    · obtain ⟨_, he, -, rfl⟩ := forall₂_mem_right hrows hcomponent
      obtain ⟨part, hp, hb⟩ := hbuilt _ he
      have hperm : (attached t run component).Perm part := by
        have hnodup := List.Nodup.of_map _ hunique
        refine (List.perm_ext_iff_of_nodup (attached_nodup (hcandidates ▸ hnodup)) ?_).mpr ?_
        · exact List.Nodup.of_map _ ((partsOf_spec _ _).unique (eligible_nodup hunique _) hp)
        · intro c
          rw [hattached component hcomponent, built_covers hp hb]
          constructor
          · rintro ⟨hc, hcovers⟩
            exact ⟨⟨hc, not_le.mp fun hfloor => hseparated _ he c hc hfloor hcovers⟩, hcovers⟩
          · rintro ⟨⟨hc, _⟩, hcovers⟩
            exact ⟨hc, hcovers⟩
      exact ⟨part, hcandidates.symm ▸ hp, hb.id, hperm, hperm.length_eq.trans hb.count.symm⟩
    · intro row hrow hfloor
      obtain ⟨c, hc, rfl⟩ := List.mem_map.mp hrow
      cases hcomponent : componentForEdge (componentsOf t run) c.edge with
      | none => rfl
      | some component =>
        obtain ⟨hmem, hcovers⟩ := componentForEdge_covers hcomponent
        obtain ⟨_, he, -, rfl⟩ := forall₂_mem_right hrows hmem
        exact absurd hcovers (hseparated _ he c (hcandidates ▸ hc) hfloor)

def firstLeft : Decisions.Uuid :=
  ⟨"left-a", by decide, by decide⟩

def secondLeft : Decisions.Uuid :=
  ⟨"left-b", by decide, by decide⟩

def firstRight : Decisions.Uuid :=
  ⟨"right-a", by decide, by decide⟩

def secondRight : Decisions.Uuid :=
  ⟨"right-b", by decide, by decide⟩

theorem nonnegative_none : Nonnegative none := by simp [Nonnegative]

theorem five_nonneg : Nonnegative (some (ofInt 5)) := by decide

theorem zero_text : nonblank "0" = true := by decide

theorem one_text : nonblank "1" = true := by decide

theorem no_window : ∀ w ∈ (none : Option Calendar.Duration), 0 < w.microseconds := by simp

def quantityRecord (u : Decisions.Uuid) (h : nonblank u.text = true) (quantity : Decimal)
    (hq : Nonnegative (some quantity)) : MatchRecord :=
  { sampleRecord u.text "ACME" h acme_text noon with
    quantity := some quantity
    quantity_nonneg := hq
    unitPrice := none
    unitPrice_nonneg := nonnegative_none
    executedAt := none }

/-- The quantities 5 and 4.7 on the left, 5 and 5.3 on the right. -/
def chainSnapshot : EngineSnapshot where
  leftRevisionId := "0"
  rightRevisionId := "1"
  left := [quantityRecord firstLeft firstLeft.text_nonblank (ofInt 5) five_nonneg,
    quantityRecord secondLeft secondLeft.text_nonblank ⟨false, 47, -1⟩ (by decide)]
  right := [quantityRecord firstRight firstRight.text_nonblank (ofInt 5) five_nonneg,
    quantityRecord secondRight secondRight.text_nonblank ⟨false, 53, -1⟩ (by decide)]
  leftRevisionId_text := zero_text
  rightRevisionId_text := one_text
  left_sorted := by decide
  right_sorted := by decide
  apart := by decide

/-- Quantities alone are compared, and components of more than two edges are
left unsolved. -/
def quantityPolicy : MatchingPolicy :=
  { samplePolicy { sampleLimits with maxComponentEdges := 2, edges_pos := Nat.two_pos } with
    blockingPasses := [{ samplePass with timeWindow := none, timeWindow_pos := no_window }]
    weightBp := fun
      | .quantity => 10000
      | _ => 0
    passes_nonempty := by simp
    passes_sorted := by simp
    passes_unique := by simp
    weights_total := by decide }

def missingFeature (feature : MatchFeature) (label : String) (band : Band) : FeatureEvidence :=
  ⟨feature, .none, .none, .none, band, false, 0, 0, 0, label ++
    " is missing on one or both records; " ++
    "its contribution is zero and feature weights remain unchanged."⟩

def quantityEdge (left right : Decisions.Uuid) (leftQuantity rightQuantity difference : Decimal)
    (text : String) (scoreBp : ℕ) : CandidateEvidence :=
  ⟨left.text, right.text, ["time@1"],
    [missingFeature .grossAmount "Gross Amount" (.decimal (ofInt 1)),
      ⟨.quantity, .decimal leftQuantity, .decimal rightQuantity, .decimal difference,
        .decimal (ofInt 1), true, scoreBp, 10000, scoreBp,
        "Quantity uses linear similarity from absolute difference " ++ text ++
          " across band 1; fixed weight 10000 basis points."⟩,
      missingFeature .timestamp "Timestamp" (.elapsed hour),
      missingFeature .unitPrice "Unit Price" (.decimal (ofInt 1))],
    [], ["MISSING_MONETARY_FIELD", "MISSING_TIMESTAMP"], false, true, scoreBp, "Rule score"⟩

def limitedOutcome (u : Decisions.Uuid) (side : RecordSide) (others : List Decisions.Uuid) :
    UnpairedOutcome :=
  ⟨u.text, side, .computationLimited, "Candidate enumeration or assignment was incomplete " ++
    "for this record, so automatic matching was withheld.", others.map (·.text)⟩

/-- The edge of the quantities 4.7 and 5.3 is below the floor of 5000. -/
def chainResult : EngineResult where
  leftRevisionId := "0"
  rightRevisionId := "1"
  matchingPolicyVersion := "policy-1"
  comparisonPolicyVersion := sampleComparison.policyVersion
  engineVersion := "engine-1"
  solverVersion := "exhaustive-1"
  inputLeftIds := [firstLeft.text, secondLeft.text]
  inputRightIds := [firstRight.text, secondRight.text]
  pairs := []
  unpaired := [limitedOutcome firstLeft .left [firstRight, secondRight],
    limitedOutcome secondLeft .left [firstRight, secondRight],
    limitedOutcome firstRight .right [firstLeft, secondLeft],
    limitedOutcome secondRight .right [firstLeft, secondLeft]]
  candidates := [quantityEdge firstLeft firstRight (ofInt 5) (ofInt 5) (ofInt 0) "0" 10000,
    quantityEdge firstLeft secondRight (ofInt 5) ⟨false, 53, -1⟩ ⟨false, 3, -1⟩ "0.3" 7000,
    quantityEdge secondLeft firstRight ⟨false, 47, -1⟩ (ofInt 5) ⟨false, 3, -1⟩ "0.3" 7000,
    quantityEdge secondLeft secondRight ⟨false, 47, -1⟩ ⟨false, 53, -1⟩ ⟨false, 6, -1⟩ "0.6" 4000]
  components := [⟨"component-0000000000000000", zeroDigest.hexdigest "", "exhaustive-1",
    [firstLeft.text, secondLeft.text], [firstRight.text, secondRight.text], 3, 0, false,
    some "COMPONENT_EDGE_LIMIT", []⟩]
  diagnostics := []

theorem chain_reconciled : reconcile zeroDigest chainSnapshot quantityPolicy sampleComparison
    noDecisions sampleSolver = .ok chainResult := by
  decide +kernel

def sumSha : Sha256 := endingIn List.sum

def chainMember (u : Decisions.Uuid) (fingerprint : String) : Member :=
  ⟨u, u, fingerprint, none, .none⟩

/-- A run on the four records is created and claimed. -/
def chainRun : List Command :=
  [.review (.elsewhere [⟨1, .active, 1000, none, none, ⟨0, 1, 0⟩⟩] [⟨1, 1, 0⟩] [⟨0, 1, 1, true, 0⟩]
      [⟨firstLeft, 1, 1, .left⟩, ⟨secondLeft, 1, 1, .left⟩, ⟨firstRight, 1, 1, .right⟩,
        ⟨secondRight, 1, 1, .right⟩]
      [⟨firstLeft, 1, firstLeft, "f1"⟩, ⟨secondLeft, 1, secondLeft, "f2"⟩,
        ⟨firstRight, 1, firstRight, "f3"⟩, ⟨secondRight, 1, secondRight, "f4"⟩]),
    .createScope 0 1,
    .inputs [⟨1, 0⟩] [⟨0, 1, 1, some 0⟩, ⟨1, 1, 1, some 1⟩]
      [⟨0, 0, [chainMember firstLeft "f1", chainMember secondLeft "f2"]⟩,
        ⟨1, 1, [chainMember firstRight "f3", chainMember secondRight "f4"]⟩]
      [⟨0, 1, 1, 1, sumSha.hexdigest [], "engine-1", "exhaustive-1", .sharedMustAgree⟩],
    .createRun 1 0 7, .claim 1 0 none]

def chainPublication : Publication :=
  ⟨chainResult, "digest", none, 8, fun l => l, fun _ => List.Perm.refl _, false⟩

def chainPublished : Except RunFailure Store :=
  publishRun sumSha zeroDigest 1 0 chainPublication (reached sumSha zeroDigest chainRun)

theorem chain_stored : ∃ t, chainPublished = .ok t ∧ ∃ row ∈ candidateRows t 0,
    row.evidence.scoreBp ≤ 5000 ∧ row.component.isSome = true := by
  have hall : (match chainPublished with
      | .ok t => (candidateRows t 0).any fun row => row.evidence.scoreBp ≤ 5000 ∧
          row.component.isSome
      | .error _ => false) = true := by
    decide +kernel
  cases ht : chainPublished with
  | error e =>
    rw [ht] at hall
    cases hall
  | ok t =>
    rw [ht] at hall
    obtain ⟨row, hrow, hbelow⟩ := List.any_eq_true.mp hall
    exact ⟨t, rfl, row, hrow, of_decide_eq_true hbelow⟩

/-- The component counts three candidates and has four, one of them below the
floor. -/
theorem below_floor_attached : reconcile zeroDigest chainSnapshot quantityPolicy sampleComparison
      noDecisions sampleSolver = .ok chainPublication.result ∧
    ∃ t, publishRun sumSha zeroDigest 1 0 chainPublication (reached sumSha zeroDigest chainRun) =
        .ok t ∧ ¬AttachedExactly zeroDigest quantityPolicy.assignmentFloorBp t 0 := by
  obtain ⟨t, ht, row, hrow, hfloor, hsome⟩ := chain_stored
  refine ⟨chain_reconciled, t, ht, fun h => ?_⟩
  rw [h.floor row hrow hfloor] at hsome
  cases hsome

theorem attached_exactly_sample : ∃ t, chainPublished = .ok t ∧
    (AttachedExactly zeroDigest quantityPolicy.assignmentFloorBp t 0 ↔
      Separated quantityPolicy.assignmentFloorBp chainResult) := by
  obtain ⟨t, ht, _⟩ := chain_stored
  exact ⟨t, ht, attached_exactly_iff sumSha zeroDigest chainRun chainSnapshot quantityPolicy
    sampleComparison noDecisions sampleSolver chain_reconciled ht⟩

end Workbench.Attachments
