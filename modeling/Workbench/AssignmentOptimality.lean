import Workbench.Optimum

/-!
# The assignment of the whole graph

Solving component by component solves the whole graph of eligible candidates,
as long as no component is limited.
-/

set_option autoImplicit false

namespace Workbench.AssignmentOptimality
open Workbench.Listing Workbench.Raising Workbench.Records Workbench.Evidence
open Workbench.Candidates Workbench.Json Workbench.Assignment Workbench.Components
open Workbench.Optimum Workbench.PaddedAssignment Workbench.Matching

/-- What every list of scored candidates satisfies. -/
structure ScoredSet (cs : List CandidateEvidence) : Prop where
  unique : (cs.map (·.edge)).Nodup
  text : ∀ c ∈ cs, nonblank c.leftId = true ∧ nonblank c.rightId = true
  scale : ∀ c ∈ cs, c.scoreBp ≤ scoreScaleBp

@[simp] theorem mem_eligible {cs : List CandidateEvidence} {floorBp : ℕ} {c : CandidateEvidence} :
    c ∈ eligible cs floorBp ↔ c ∈ cs ∧ floorBp < c.scoreBp := by
  simp [eligible]

theorem eligible_nodup {cs : List CandidateEvidence} (h : (cs.map (·.edge)).Nodup)
    (floorBp : ℕ) : ((eligible cs floorBp).map (·.edge)).Nodup := by
  rw [eligible, nodup_map_sortOn]
  exact h.sublist (List.filter_sublist.map _)

@[simp] theorem mem_lefts {part : List CandidateEvidence} {i : String} :
    i ∈ lefts part ↔ ∃ c ∈ part, c.leftId = i := by
  simp [lefts]

@[simp] theorem mem_rights {part : List CandidateEvidence} {i : String} :
    i ∈ rights part ↔ ∃ c ∈ part, c.rightId = i := by
  simp [rights]

theorem lefts_eq {part : List CandidateEvidence} : sortOn id (lefts part) = lefts part :=
  sortOn_idem id _

theorem rights_eq {part : List CandidateEvidence} : sortOn id (rights part) = rights part :=
  sortOn_idem id _

/-- The edges of the candidates above the floor. -/
def graph (cs : List CandidateEvidence) (floorBp : ℕ) : Finset Edge :=
  edgesOf (eligible cs floorBp)

/-- The components of the eligible candidates. -/
def partsOf (cs : List CandidateEvidence) (floorBp : ℕ) : List (List CandidateEvidence) :=
  connectedComponents (eligible cs floorBp)

section Parts
variable {cs : List CandidateEvidence} {floorBp : ℕ} {part : List CandidateEvidence}

theorem partsOf_spec (cs : List CandidateEvidence) (floorBp : ℕ) :
    Partitioned (eligible cs floorBp) (partsOf cs floorBp) := components_spec _

theorem part_solvable (hs : ScoredSet cs) (hp : part ∈ partsOf cs floorBp) :
    Solvable (lefts part) (rights part) part floorBp := by
  have hparts := partsOf_spec cs floorBp
  have hmem : ∀ c ∈ part, c ∈ cs ∧ floorBp < c.scoreBp :=
    fun c hc => mem_eligible.mp (hparts.mem hp hc)
  refine ⟨sortedSet_nodup _, sortedSet_nodup _, hparts.unique (eligible_nodup hs.unique floorBp) hp,
    fun c hc => ⟨mem_lefts.mpr ⟨c, hc, rfl⟩, mem_rights.mpr ⟨c, hc, rfl⟩⟩,
    fun c hc => hs.text c (hmem c hc).1, fun c hc => (hmem c hc).2,
    fun c hc => hs.scale c (hmem c hc).1⟩

theorem part_utility (hs : ScoredSet cs) (hp : part ∈ partsOf cs floorBp) :
    ∀ e ∈ edgesOf part, utility part floorBp e = utility cs floorBp e := by
  intro e he
  obtain ⟨c, hc, rfl⟩ := mem_edgesOf.mp he
  have hparts := partsOf_spec cs floorBp
  rw [utility_mem (hparts.unique (eligible_nodup hs.unique floorBp) hp) floorBp hc,
    utility_mem hs.unique floorBp (mem_eligible.mp (hparts.mem hp hc)).1]

theorem edges_apart : ((partsOf cs floorBp).map edgesOf).Pairwise Matching.Apart := by
  refine List.pairwise_map.mpr ((partsOf_spec cs floorBp).apart.imp ?_)
  intro p q h e he f hf
  obtain ⟨c, hc, rfl⟩ := mem_edgesOf.mp he
  obtain ⟨d, hd, rfl⟩ := mem_edgesOf.mp hf
  exact h c hc d hd

theorem unions_edges :
    unions ((partsOf cs floorBp).map edgesOf) = graph cs floorBp := by
  have hparts := partsOf_spec cs floorBp
  ext e
  simp only [graph, mem_unions, List.mem_map, mem_edgesOf]
  constructor
  · rintro ⟨_, ⟨p, hp, rfl⟩, he⟩
    obtain ⟨c, hc, rfl⟩ := mem_edgesOf.mp he
    exact ⟨c, hparts.mem hp hc, rfl⟩
  · rintro ⟨c, hc, rfl⟩
    obtain ⟨p, hp, hcp⟩ := hparts.exists_mem hc
    exact ⟨_, ⟨p, hp, rfl⟩, mem_edgesOf.mpr ⟨c, hcp, rfl⟩⟩

theorem best_parts (hs : ScoredSet cs) :
    best (graph cs floorBp) (utility cs floorBp) =
      ((partsOf cs floorBp).map fun p => best (edgesOf p) (utility p floorBp)).sum := by
  rw [← unions_edges, best_unions _ edges_apart, List.map_map]
  congr 1
  refine List.map_congr_left fun p hp => ?_
  exact best_congr fun e he => (part_utility hs hp e he).symm

end Parts

structure SolvedPart (digest : Digest) (limited : List String) (policy : MatchingPolicy)
    (solver : AssignmentSolver) (part : List CandidateEvidence) (x : SolvedAssignmentComponent) :
    Prop where
  componentId : x.componentId = componentId digest (lefts part) (rights part)
  graphDigest : x.graphDigest =
    assignmentGraphDigest digest x.componentId policy.assignmentFloorBp part
  solverVersion : x.solverVersion = solver.version
  leftIds : x.leftIds = lefts part
  rightIds : x.rightIds = rights part
  count : x.candidateCount = part.length
  reason : x.limitReason = limitReason limited (lefts part) (rights part) policy.limits part
  complete : x.complete = x.limitReason.isNone
  selected : x.complete = true →
    BestSelection part policy.assignmentFloorBp [] x.selectedEdges
  withheld : x.complete = false → x.selectedEdges = []
  objective : x.optimalUtilityBp = (x.selectedEdges.map (·.utilityBp)).sum

theorem nodup_ends {selected : List SelectedAssignmentEdge} (hn : (selected.map (·.edge)).Nodup)
    (h : OneToOne (selected.map (·.edge)).toFinset) :
    (selected.map (·.leftId)).Nodup ∧ (selected.map (·.rightId)).Nodup := by
  have hinj : ∀ x ∈ selected, ∀ y ∈ selected, x.edge.1 = y.edge.1 ∨ x.edge.2 = y.edge.2 →
      x = y := by
    intro x hx y hy hxy
    refine List.inj_on_of_nodup_map hn hx hy (h _ ?_ _ ?_ hxy)
    · exact List.mem_toFinset.mpr (List.mem_map_of_mem hx)
    · exact List.mem_toFinset.mpr (List.mem_map_of_mem hy)
  have hselected : selected.Nodup := hn.of_map _
  exact ⟨hselected.map_on fun x hx y hy hxy => hinj x hx y hy (.inl hxy),
    hselected.map_on fun x hx y hy hxy => hinj x hx y hy (.inr hxy)⟩

theorem hexdigest_text (digest : Digest) (s : String) : nonblank (digest.hexdigest s) = true := by
  have hlen := digest.hex_length s
  have hdig := digest.hex_digits s
  have hne : (digest.hexdigest s).toList ≠ [] := by
    intro hnil
    rw [hnil] at hlen
    simp at hlen
  obtain ⟨c, hc⟩ := List.exists_mem_of_ne_nil _ hne
  have hspace : hexDigits.all (fun d => !isSpace d) = true := by decide
  exact List.any_eq_true.mpr ⟨c, hc, List.all_eq_true.mp hspace c (hdig c hc)⟩

theorem component_nonblank (digest : Digest) (l r : List String) :
    nonblank (componentId digest l r) = true :=
  nonblank_append_left (by decide)

section Solved
variable {digest : Digest} {cs : List CandidateEvidence} {limited : List String}
  {policy : MatchingPolicy} {solver : AssignmentSolver} {part : List CandidateEvidence}

theorem solveConnected_spec (digest : Digest) (limited : List String) (hs : ScoredSet cs)
    (hopt : Optimal solver.minimize)
    (hversion : nonblank solver.version = true)
    (hp : part ∈ partsOf cs policy.assignmentFloorBp) :
    ∃ x, solveConnected digest limited policy solver part = .ok x ∧
      SolvedPart digest limited policy solver part x := by
  have hsolvable := part_solvable hs hp
  obtain ⟨c, hc⟩ := List.exists_mem_of_ne_nil _
    ((partsOf_spec cs policy.assignmentFloorBp).nonempty part hp)
  have hleft : lefts part ≠ [] := List.ne_nil_of_mem (mem_lefts.mpr ⟨c, hc, rfl⟩)
  have hright : rights part ≠ [] := List.ne_nil_of_mem (mem_rights.mpr ⟨c, hc, rfl⟩)
  have hlength : 0 < part.length := List.length_pos_of_mem hc
  obtain ⟨selected, hselected, hbest⟩ := solveComponent_best hsolvable hopt (List.nil_subset _)
  obtain ⟨hnl, hnr⟩ := nodup_ends hbest.nodup hbest.oneToOne
  cases hreason : limitReason limited (lefts part) (rights part) policy.limits part with
  | some reason =>
    refine ⟨⟨componentId digest (lefts part) (rights part),
      assignmentGraphDigest digest (componentId digest (lefts part) (rights part))
        policy.assignmentFloorBp part, solver.version, lefts part,
      rights part, part.length, 0, false, some reason, []⟩, ?_, ?_⟩
    · simp only [solveConnected, hreason, SolvedAssignmentComponent.create,
        bind_ok, exists_require, pure_ok, lefts_eq, rights_eq]
      exact ⟨component_nonblank _ _ _, hexdigest_text _ _, hversion, ⟨hleft, hright⟩,
        ⟨sortedSet_nodup _, sortedSet_nodup _⟩, hlength, by simp, by simp, by simp, by simp,
        by simp, rfl, rfl⟩
    · exact ⟨rfl, rfl, rfl, rfl, rfl, rfl, hreason.symm, rfl, by simp, fun _ => rfl, rfl⟩
  | none =>
    refine ⟨⟨componentId digest (lefts part) (rights part),
      assignmentGraphDigest digest (componentId digest (lefts part) (rights part))
        policy.assignmentFloorBp part, solver.version, lefts part,
      rights part, part.length, (selected.map (·.utilityBp)).sum, true, none, selected⟩, ?_, ?_⟩
    · have hsorted : sortOn (fun s : SelectedAssignmentEdge => edgeOrder s.edge) selected =
          selected := sortOn_eq_self _ hbest.sorted
      simp only [solveConnected, hreason, SolvedAssignmentComponent.create,
        bind_ok, exists_require, pure_ok, lefts_eq, rights_eq]
      refine ⟨selected, hselected, component_nonblank _ _ _, hexdigest_text _ _, hversion,
        ⟨hleft, hright⟩, ⟨sortedSet_nodup _, sortedSet_nodup _⟩, hlength, by simp, by simp,
        ⟨hnl, hnr⟩, ⟨?_, ?_⟩, by simp, trivial, by rw [hsorted]⟩
      · intro i hi
        obtain ⟨s, hs', rfl⟩ := List.mem_map.mp hi
        obtain ⟨d, hd, hde, -, -⟩ := hbest.matched s hs'
        have hleftId : d.leftId = s.leftId := congrArg Prod.fst hde
        exact hleftId ▸ (hsolvable.within d hd).1
      · intro i hi
        obtain ⟨s, hs', rfl⟩ := List.mem_map.mp hi
        obtain ⟨d, hd, hde, -, -⟩ := hbest.matched s hs'
        have hrightId : d.rightId = s.rightId := congrArg Prod.snd hde
        exact hrightId ▸ (hsolvable.within d hd).2
    · exact ⟨rfl, rfl, rfl, rfl, rfl, rfl, hreason.symm, rfl, fun _ => hbest, by simp, rfl⟩

/-- The texts the component identities are made from. -/
def componentTexts (cs : List CandidateEvidence) (floorBp : ℕ) : List String :=
  (partsOf cs floorBp).map fun p => componentPayload (lefts p) (rights p)

theorem componentPayload_inj {l l' r r' : List String}
    (h : componentPayload l r = componentPayload l' r') : l = l' ∧ r = r' := by
  have htext : Function.Injective Value.text := fun _ _ hab => Value.text.inj hab
  have hv := dumps_injective h
  simp only [Value.object.injEq, List.cons.injEq, Prod.mk.injEq, true_and, and_true,
    Value.array.injEq] at hv
  exact ⟨htext.list_map hv.1, htext.list_map hv.2⟩

theorem component_ids_nodup {floorBp : ℕ} (hc : CollisionFree digest (componentTexts cs floorBp)) :
    ((partsOf cs floorBp).map fun p => componentId digest (lefts p) (rights p)).Nodup := by
  have hparts := partsOf_spec cs floorBp
  refine List.pairwise_map.mpr (List.Pairwise.imp_of_mem ?_ hparts.apart)
  intro p q hp hq hapart he
  have hlist := congrArg String.toList he
  simp only [componentId, String.toList_append] at hlist
  have htexts : ∀ x ∈ partsOf cs floorBp,
      componentPayload (lefts x) (rights x) ∈ componentTexts cs floorBp :=
    fun x hx => List.mem_map_of_mem hx
  have hpayload := hc _ (htexts p hp) _ (htexts q hq)
    (String.toList_injective (List.append_cancel_left hlist))
  obtain ⟨c, hcp⟩ := List.exists_mem_of_ne_nil _ (hparts.nonempty p hp)
  obtain ⟨d, hd, hcd⟩ := mem_lefts.mp
    ((componentPayload_inj hpayload).1 ▸ mem_lefts.mpr ⟨c, hcp, rfl⟩)
  exact (hapart c hcp d hd).1 hcd.symm

def report (digest : Digest) (limited : List String) (policy : MatchingPolicy)
    (solver : AssignmentSolver) (part : List CandidateEvidence) : SolvedAssignmentComponent :=
  match solveConnected digest limited policy solver part with
  | .ok x => x
  | .error _ => default

theorem report_ok (hs : ScoredSet cs) (hopt : Optimal solver.minimize)
    (hversion : nonblank solver.version = true)
    (hp : part ∈ partsOf cs policy.assignmentFloorBp) :
    solveConnected digest limited policy solver part =
      .ok (report digest limited policy solver part) := by
  obtain ⟨x, hx, -⟩ := solveConnected_spec digest limited hs hopt
    hversion hp
  simp [report, hx]

theorem report_spec (digest : Digest) (limited : List String) (hs : ScoredSet cs)
    (hopt : Optimal solver.minimize)
    (hversion : nonblank solver.version = true)
    (hp : part ∈ partsOf cs policy.assignmentFloorBp) :
    SolvedPart digest limited policy solver part (report digest limited policy solver part) := by
  obtain ⟨x, hx, hspec⟩ := solveConnected_spec digest limited hs hopt
    hversion hp
  simpa [report, hx] using hspec

/-- The result lists what is reported of each component, with the selections
and the limited members that follow from it. -/
structure SolvedGraph (digest : Digest) (cs : List CandidateEvidence)
    (g : CandidateGenerationResult) (policy : MatchingPolicy) (solver : AssignmentSolver)
    (a : AssignmentSolveResult) : Prop where
  components : a.components.Perm ((partsOf cs policy.assignmentFloorBp).map
    (report digest g.limitedRecordIds policy solver))
  selected : a.selectedEdges.Perm (a.components.flatMap (·.selectedEdges))
  limited : ∀ i, i ∈ a.limitedRecordIds ↔
    i ∈ g.limitedRecordIds ∨ i ∈ incompleteMembers a.components
  distinct : (a.components.map (·.componentId)).Nodup

theorem mem_incompleteMembers {components : List SolvedAssignmentComponent} {i : String} :
    i ∈ incompleteMembers components ↔
      ∃ x ∈ components, x.complete = false ∧ i ∈ x.members := by
  simp [incompleteMembers, and_assoc]

section Graph
variable {g : CandidateGenerationResult} {a : AssignmentSolveResult}

theorem solveAssignment_spec (hs : ScoredSet cs) (hopt : Optimal solver.minimize)
    (hversion : nonblank solver.version = true)
    (h : solveAssignment digest cs g policy solver = .ok a) :
    SolvedGraph digest cs g policy solver a := by
  have hreports : (partsOf cs policy.assignmentFloorBp).mapM
      (solveConnected digest g.limitedRecordIds policy solver) =
        .ok ((partsOf cs policy.assignmentFloorBp).map
          (report digest g.limitedRecordIds policy solver)) :=
    mapM_total fun p hp => report_ok hs hopt hversion hp
  simp only [solveAssignment, bind_ok, exists_require] at h
  obtain ⟨-, -, -, xs, hxs, h⟩ := h
  rw [← partsOf, hreports, Except.ok.injEq] at hxs
  subst hxs
  simp only [AssignmentSolveResult.create, bind_ok, exists_require, pure_ok] at h
  obtain ⟨hnodup, -, -, -, -, rfl⟩ := h
  have hperm := sortOn_perm (fun x : SolvedAssignmentComponent => x.componentId)
    ((partsOf cs policy.assignmentFloorBp).map (report digest g.limitedRecordIds policy solver))
  refine ⟨hperm, ?_, ?_, ?_⟩
  · exact (sortOn_perm _ _).trans (hperm.flatMap_right _).symm
  · intro i
    simp only [mem_sortOn, List.mem_dedup, List.mem_append, mem_incompleteMembers]
  · rw [nodup_map_sortOn]
    exact hnodup

theorem report_ids (hs : ScoredSet cs) (hopt : Optimal solver.minimize)
    (hversion : nonblank solver.version = true) :
    ((partsOf cs policy.assignmentFloorBp).map (report digest limited policy solver)).map
      (·.componentId) = (partsOf cs policy.assignmentFloorBp).map fun p =>
        componentId digest (lefts p) (rights p) := by
  rw [List.map_map]
  exact List.map_congr_left fun p hp => (report_spec _ _ hs hopt hversion hp).componentId

/-- The selections of different components share no endpoint. -/
theorem selections_nodup (digest : Digest) (limited : List String) (policy : MatchingPolicy)
    (hs : ScoredSet cs) (hopt : Optimal solver.minimize)
    (hversion : nonblank solver.version = true) :
    ((((partsOf cs policy.assignmentFloorBp).map (report digest limited policy solver)).flatMap
      (·.selectedEdges)).map (·.leftId)).Nodup ∧
    ((((partsOf cs policy.assignmentFloorBp).map (report digest limited policy solver)).flatMap
      (·.selectedEdges)).map (·.rightId)).Nodup := by
  have hparts := partsOf_spec cs policy.assignmentFloorBp
  have hselected : ∀ p ∈ partsOf cs policy.assignmentFloorBp,
      ∀ s ∈ (report digest limited policy solver p).selectedEdges,
        ∃ c ∈ p, c.leftId = s.leftId ∧ c.rightId = s.rightId := by
    intro p hp s hs'
    have hr := report_spec digest limited hs hopt hversion hp
    cases hc : (report digest limited policy solver p).complete with
    | false =>
      rw [hr.withheld hc] at hs'
      simp at hs'
    | true =>
      obtain ⟨c, hcp, hce, -, -⟩ := (hr.selected hc).matched s hs'
      exact ⟨c, hcp, congrArg Prod.fst hce, congrArg Prod.snd hce⟩
  have heach : ∀ p ∈ partsOf cs policy.assignmentFloorBp,
      ((report digest limited policy solver p).selectedEdges.map (·.leftId)).Nodup ∧
      ((report digest limited policy solver p).selectedEdges.map (·.rightId)).Nodup := by
    intro p hp
    have hr := report_spec digest limited hs hopt hversion hp
    cases hc : (report digest limited policy solver p).complete with
    | false =>
      rw [hr.withheld hc]
      simp
    | true => exact nodup_ends (hr.selected hc).nodup (hr.selected hc).oneToOne
  simp only [List.map_flatMap, List.flatMap_map]
  refine ⟨List.nodup_flatMap.mpr ⟨fun p hp => (heach p hp).1, ?_⟩,
    List.nodup_flatMap.mpr ⟨fun p hp => (heach p hp).2, ?_⟩⟩
  · refine List.Pairwise.imp_of_mem ?_ hparts.apart
    intro p q hp hq hapart
    refine List.disjoint_left.mpr fun i hi hj => ?_
    obtain ⟨s, hs₁, rfl⟩ := List.mem_map.mp hi
    obtain ⟨t, ht₁, hst⟩ := List.mem_map.mp hj
    obtain ⟨c, hcp, hcs, -⟩ := hselected p hp s hs₁
    obtain ⟨d, hdq, hdt, -⟩ := hselected q hq t ht₁
    exact (hapart c hcp d hdq).1 (hcs.trans (hst.symm.trans hdt.symm))
  · refine List.Pairwise.imp_of_mem ?_ hparts.apart
    intro p q hp hq hapart
    refine List.disjoint_left.mpr fun i hi hj => ?_
    obtain ⟨s, hs₁, rfl⟩ := List.mem_map.mp hi
    obtain ⟨t, ht₁, hst⟩ := List.mem_map.mp hj
    obtain ⟨c, hcp, -, hcs⟩ := hselected p hp s hs₁
    obtain ⟨d, hdq, -, hdt⟩ := hselected q hq t ht₁
    exact (hapart c hcp d hdq).2 (hcs.trans (hst.symm.trans hdt.symm))

theorem solveAssignment_total (hs : ScoredSet cs) (hopt : Optimal solver.minimize)
    (hversion : solver.version = policy.solverVersion)
    (hcover : SameMembers (cs.map (·.edge)) (g.candidates.map (·.edge)))
    (hlimited : g.limitedRecordIds.Nodup)
    (hids : ((partsOf cs policy.assignmentFloorBp).map fun p =>
      componentId digest (lefts p) (rights p)).Nodup) :
    ∃ a, solveAssignment digest cs g policy solver = .ok a := by
  have htext : nonblank solver.version = true := hversion ▸ policy.solverVersion_text
  have hreports : (partsOf cs policy.assignmentFloorBp).mapM
      (solveConnected digest g.limitedRecordIds policy solver) =
        .ok ((partsOf cs policy.assignmentFloorBp).map
          (report digest g.limitedRecordIds policy solver)) :=
    mapM_total fun p hp => report_ok hs hopt htext hp
  simp only [solveAssignment, bind_ok, exists_require, AssignmentSolveResult.create, pure_ok]
  refine ⟨_, hversion, hs.unique, hcover, _, hreports, ?_, ?_, selections_nodup _ _ _ hs hopt htext,
    hlimited, ?_, rfl⟩
  · rw [report_ids hs hopt htext]
    exact hids
  · refine sortOn_eq_of_perm _ ((sortOn_perm _ _).flatMap_right _).symm ?_
    refine nodup_map_of_nodup_map_comp _ (fun e => (ofLex e).1) ?_
    exact (selections_nodup _ _ _ hs hopt htext).1
  · exact ⟨fun i hi => List.mem_dedup.mp hi, fun i hi => List.mem_dedup.mpr hi⟩

theorem solver_text (h : solveAssignment digest cs g policy solver = .ok a) :
    nonblank solver.version = true := by
  simp only [solveAssignment, bind_ok, exists_require] at h
  exact h.1 ▸ policy.solverVersion_text

/-- Every selected edge comes from a complete component and is one of its
candidates, with its score and utility. -/
theorem selected_spec (hs : ScoredSet cs) (hopt : Optimal solver.minimize)
    (hversion : nonblank solver.version = true) (h : SolvedGraph digest cs g policy solver a)
    {s : SelectedAssignmentEdge} (hsel : s ∈ a.selectedEdges) :
    ∃ c ∈ eligible cs policy.assignmentFloorBp, c.edge = s.edge ∧ s.scoreBp = c.scoreBp ∧
      s.utilityBp = c.scoreBp-policy.assignmentFloorBp := by
  obtain ⟨x, hx, hsx⟩ := List.mem_flatMap.mp (h.selected.mem_iff.mp hsel)
  obtain ⟨part, hp, rfl⟩ := List.mem_map.mp (h.components.mem_iff.mp hx)
  have hr := report_spec digest g.limitedRecordIds hs hopt hversion hp
  cases hc : (report digest g.limitedRecordIds policy solver part).complete with
  | false =>
    rw [hr.withheld hc] at hsx
    simp at hsx
  | true =>
    obtain ⟨c, hcp, hmatch⟩ := (hr.selected hc).matched s hsx
    exact ⟨c, (partsOf_spec cs policy.assignmentFloorBp).mem hp hcp, hmatch⟩

theorem selected_oneToOne (hs : ScoredSet cs) (hopt : Optimal solver.minimize)
    (hversion : nonblank solver.version = true) (h : SolvedGraph digest cs g policy solver a) :
    (a.selectedEdges.map (·.edge)).Nodup ∧ OneToOne (a.selectedEdges.map (·.edge)).toFinset := by
  obtain ⟨hl, hr⟩ := selections_nodup digest g.limitedRecordIds policy hs hopt hversion
  have hperm := h.selected.trans (h.components.flatMap_right (·.selectedEdges))
  have hl' := (hperm.map (·.leftId)).nodup_iff.mpr hl
  have hr' := (hperm.map (·.rightId)).nodup_iff.mpr hr
  refine ⟨nodup_map_of_nodup_map_comp _ Prod.fst hl', ?_⟩
  intro e he f hf hef
  obtain ⟨s, hs₁, rfl⟩ := List.mem_map.mp (List.mem_toFinset.mp he)
  obtain ⟨t, ht₁, rfl⟩ := List.mem_map.mp (List.mem_toFinset.mp hf)
  rcases hef with hef | hef
  · rw [List.inj_on_of_nodup_map hl' hs₁ ht₁ hef]
  · rw [List.inj_on_of_nodup_map hr' hs₁ ht₁ hef]

theorem objectives_sum (hs : ScoredSet cs) (hopt : Optimal solver.minimize)
    (hversion : nonblank solver.version = true) (h : SolvedGraph digest cs g policy solver a)
    (hall : ∀ x ∈ a.components, x.complete = true) :
    (a.components.map (·.optimalUtilityBp)).sum =
      best (graph cs policy.assignmentFloorBp) (utility cs policy.assignmentFloorBp) := by
  rw [best_parts hs, (h.components.map _).sum_eq, List.map_map]
  congr 1
  refine List.map_congr_left fun p hp => ?_
  have hr := report_spec digest g.limitedRecordIds hs hopt hversion hp
  have hc := hall _ (h.components.mem_iff.mpr (List.mem_map_of_mem hp))
  rw [Function.comp_apply, hr.objective, (hr.selected hc).best]
  simp

theorem reported_parts (hs : ScoredSet cs) (hopt : Optimal solver.minimize)
    (hversion : nonblank solver.version = true) (h : SolvedGraph digest cs g policy solver a) :
    (a.components.map fun x => (x.leftIds, x.rightIds, x.candidateCount)).Perm
      ((partsOf cs policy.assignmentFloorBp).map fun p => (lefts p, rights p, p.length)) := by
  refine (h.components.map _).trans ?_
  rw [List.map_map]
  refine List.Perm.of_eq (List.map_congr_left fun p hp => ?_)
  have hr := report_spec digest g.limitedRecordIds hs hopt hversion hp
  rw [Function.comp_apply, hr.leftIds, hr.rightIds, hr.count]

end Graph

/-- The reported components are the classes of linked eligible candidates,
what they select is a one-to-one set of eligible edges, and when none of them
is limited their objectives add up to the optimum of the whole graph. Neither
solving the graph nor solving a component fails. -/
theorem assignment_global_optimum (digest : Digest) {cs : List CandidateEvidence}
    (g : CandidateGenerationResult) (policy : MatchingPolicy) {solver : AssignmentSolver}
    (hs : ScoredSet cs) (hopt : Optimal solver.minimize) :
    Partitioned (eligible cs policy.assignmentFloorBp) (partsOf cs policy.assignmentFloorBp) ∧
    (∀ a, solveAssignment digest cs g policy solver = .ok a →
      (a.components.map fun x => (x.leftIds, x.rightIds, x.candidateCount)).Perm
        ((partsOf cs policy.assignmentFloorBp).map fun p => (lefts p, rights p, p.length)) ∧
      (a.selectedEdges.map (·.edge)).Nodup ∧
      OneToOne (a.selectedEdges.map (·.edge)).toFinset ∧
      (∀ s ∈ a.selectedEdges, ∃ c ∈ eligible cs policy.assignmentFloorBp, c.edge = s.edge ∧
        s.scoreBp = c.scoreBp ∧ s.utilityBp = c.scoreBp-policy.assignmentFloorBp) ∧
      ((∀ x ∈ a.components, x.complete = true) →
        (a.components.map (·.optimalUtilityBp)).sum =
          best (graph cs policy.assignmentFloorBp) (utility cs policy.assignmentFloorBp))) ∧
    (solver.version = policy.solverVersion →
      SameMembers (cs.map (·.edge)) (g.candidates.map (·.edge)) → g.limitedRecordIds.Nodup →
      CollisionFree digest (componentTexts cs policy.assignmentFloorBp) →
      ∃ a, solveAssignment digest cs g policy solver = .ok a) ∧
    ∀ leftIds rightIds es floorBp forbidden, Solvable leftIds rightIds es floorBp →
      forbidden ⊆ es.map (·.edge) →
      ∃ selected, solveComponent leftIds rightIds es floorBp solver forbidden = .ok selected := by
  refine ⟨partsOf_spec _ _, fun a h => ?_, ?_, ?_⟩
  · have hversion := solver_text h
    have hsolved := solveAssignment_spec hs hopt hversion h
    obtain ⟨hnodup, hone⟩ := selected_oneToOne hs hopt hversion hsolved
    exact ⟨reported_parts hs hopt hversion hsolved, hnodup, hone,
      fun s hsel => selected_spec hs hopt hversion hsolved hsel,
      objectives_sum hs hopt hversion hsolved⟩
  · intro hversion hcover hlimited hcollision
    exact solveAssignment_total hs hopt hversion hcover hlimited (component_ids_nodup hcollision)
  · intro leftIds rightIds es floorBp forbidden hsolvable hforbidden
    obtain ⟨selected, hok, -⟩ := solveComponent_best hsolvable hopt hforbidden
    exact ⟨selected, hok⟩

end Solved

/-- Two candidates that compete for one record. -/
def sampleCandidates : List CandidateEvidence :=
  [⟨"L1", "R1", ["time@1"], [], [], [], true, true, 9500, "Rule score"⟩,
    ⟨"L1", "R2", ["time@1"], [], [], [], true, true, 7000, "Rule score"⟩]

def sampleGeneration : CandidateGenerationResult :=
  ⟨[⟨"L1", "R1", ["time@1"]⟩, ⟨"L1", "R2", ["time@1"]⟩], [], [], true⟩

theorem sample_scored : ScoredSet sampleCandidates := ⟨by decide, by decide, by decide⟩

def sampleAssignment : Outcome AssignmentSolveResult :=
  solveAssignment checksum sampleCandidates sampleGeneration (samplePolicy sampleLimits)
    sampleSolver

theorem sampleAssignment_complete : sampleAssignment.toOption.map (fun a =>
    a.components.map (·.complete)) = some [true] := by
  decide +kernel

theorem assignment_sample : ∃ a, sampleAssignment = .ok a ∧
    (a.components.map (·.optimalUtilityBp)).sum =
      best (graph sampleCandidates 5000) (utility sampleCandidates 5000) := by
  obtain ⟨a, ha, hcomplete⟩ := ok_of_toOption sampleAssignment_complete
  refine ⟨a, ha, ?_⟩
  have h := assignment_global_optimum checksum sampleGeneration (samplePolicy sampleLimits)
    sample_scored sample_optimal
  refine (h.2.1 a ha).2.2.2.2 fun x hx => ?_
  have hmem : x.complete ∈ [true] := hcomplete ▸ List.mem_map_of_mem hx
  exact List.mem_singleton.mp hmem

end Workbench.AssignmentOptimality
