import Workbench.AssignmentOptimality
import Workbench.Gating

/-!
# What acceptance computes

The counterfactual solve of a proposal gives the optimum without it, so the
reported gap is the loss it causes. Gating is then a function of the scored
candidates and of what was reported of each component.
-/

set_option autoImplicit false

namespace Workbench.Acceptance
open Workbench.Listing Workbench.Raising Workbench.Records Workbench.Evidence
open Workbench.Candidates Workbench.Json Workbench.Assignment Workbench.Components
open Workbench.Optimum Workbench.PaddedAssignment Workbench.Matching
open Workbench.AssignmentOptimality Workbench.Gating

def gapOf (part : List CandidateEvidence) (floorBp : ℕ) (e : Edge) : ℕ :=
  gap (edgesOf part) (utility part floorBp) e

def proposalOf (policy : MatchingPolicy) (part : List CandidateEvidence) (c : CandidateEvidence) :
    ProposalEvidence where
  leftId := c.leftId
  rightId := c.rightId
  scoreBp := c.scoreBp
  counterfactualObjectiveBp :=
    best ((edgesOf part).erase c.edge) (utility part policy.assignmentFloorBp)
  globalGapBp := gapOf part policy.assignmentFloorBp c.edge
  accepted := gateReasons c (gapOf part policy.assignmentFloorBp c.edge) policy = []
  gateReasons := sortedSet
    ((gateReasons c (gapOf part policy.assignmentFloorBp c.edge) policy).map (·.value))

def candidateOf (cs : List CandidateEvidence) (e : Edge) : CandidateEvidence :=
  (lookup (·.edge) cs e).getD default

def gatedOf (cs : List CandidateEvidence) (policy : MatchingPolicy)
    (x : SolvedAssignmentComponent) : AssignmentComponentEvidence where
  componentId := x.componentId
  graphDigest := x.graphDigest
  solverVersion := x.solverVersion
  leftIds := x.leftIds
  rightIds := x.rightIds
  candidateCount := x.candidateCount
  optimalUtilityBp := x.optimalUtilityBp
  complete := x.complete
  limitReason := x.limitReason.map (·.value)
  proposals := x.selectedEdges.map fun s => proposalOf policy
    (componentCandidates cs policy.assignmentFloorBp x) (candidateOf cs s.edge)

theorem gateReasons_nil {c : CandidateEvidence} {gapBp : ℤ} {policy : MatchingPolicy} :
    gateReasons c gapBp policy = [] ↔ policy.automaticThresholdBp ≤ c.scoreBp ∧
      c.coverageSufficient = true ∧ c.contradictions = [] ∧ c.completeComputation = true ∧
      policy.minimumGlobalGapBp ≤ gapBp := by
  simp [gateReasons]

section Components
variable {digest : Digest} {cs : List CandidateEvidence} {limited : List String}
  {policy : MatchingPolicy} {solver : AssignmentSolver} {part : List CandidateEvidence}
  {x : SolvedAssignmentComponent}

theorem mem_componentCandidates (hp : part ∈ partsOf cs policy.assignmentFloorBp)
    (h : SolvedPart digest limited policy solver part x) {c : CandidateEvidence} :
    c ∈ componentCandidates cs policy.assignmentFloorBp x ↔ c ∈ part := by
  have hparts := partsOf_spec cs policy.assignmentFloorBp
  simp only [componentCandidates, mem_sortOn, List.mem_filter, decide_eq_true_eq, h.leftIds,
    h.rightIds]
  constructor
  · rintro ⟨hc, hl, -, hfloor⟩
    obtain ⟨d, hd, hdc⟩ := mem_lefts.mp hl
    exact hparts.closed hp hd (mem_eligible.mpr ⟨hc, hfloor⟩) (.inl hdc)
  · intro hc
    obtain ⟨hcs, hfloor⟩ := mem_eligible.mp (hparts.mem hp hc)
    exact ⟨hcs, mem_lefts.mpr ⟨c, hc, rfl⟩, mem_rights.mpr ⟨c, hc, rfl⟩, hfloor⟩

/-- The candidates gating finds between the members of a component are that
component. -/
theorem componentCandidates_perm (hs : ScoredSet cs)
    (hp : part ∈ partsOf cs policy.assignmentFloorBp)
    (h : SolvedPart digest limited policy solver part x) :
    (componentCandidates cs policy.assignmentFloorBp x).Perm part := by
  have hparts := partsOf_spec cs policy.assignmentFloorBp
  have hpart : part.Nodup :=
    (hparts.unique (eligible_nodup hs.unique policy.assignmentFloorBp) hp).of_map _
  have hcs : cs.Nodup := hs.unique.of_map _
  refine (List.perm_ext_iff_of_nodup ?_ hpart).mpr fun c => mem_componentCandidates hp h
  exact (sortOn_perm _ _).nodup_iff.mpr (hcs.filter _)

theorem edgesOf_perm {p q : List CandidateEvidence} (h : p.Perm q) : edgesOf p = edgesOf q :=
  List.toFinset_eq_of_perm _ _ (h.map _)

theorem utility_perm {p q : List CandidateEvidence} (h : p.Perm q) (hn : (p.map (·.edge)).Nodup)
    (floorBp : ℕ) : utility p floorBp = utility q floorBp := by
  funext e
  simp only [utility, scoreOf, lookup_perm h hn]

theorem solvable_perm {l r : List String} {p q : List CandidateEvidence} {floorBp : ℕ}
    (h : p.Perm q) (hp : Solvable l r p floorBp) : Solvable l r q floorBp :=
  ⟨hp.left_nodup, hp.right_nodup, (h.map _).nodup_iff.mp hp.unique,
    fun c hc => hp.within c (h.mem_iff.mpr hc), fun c hc => hp.text c (h.mem_iff.mpr hc),
    fun c hc => hp.above c (h.mem_iff.mpr hc), fun c hc => hp.scale c (h.mem_iff.mpr hc)⟩

theorem counterfactual_ok (hs : ScoredSet cs) (hopt : Optimal solver.minimize)
    (hp : part ∈ partsOf cs policy.assignmentFloorBp)
    (h : SolvedPart digest limited policy solver part x) {c : CandidateEvidence} (hc : c ∈ part) :
    ∃ counterfactual, solveComponent x.leftIds x.rightIds
        (componentCandidates cs policy.assignmentFloorBp x) policy.assignmentFloorBp solver
        [c.edge] = .ok counterfactual ∧
      objective counterfactual =
        best ((edgesOf part).erase c.edge) (utility part policy.assignmentFloorBp) := by
  have hperm := componentCandidates_perm hs hp h
  have hsolvable := solvable_perm hperm.symm (part_solvable hs hp)
  have hforbidden : [c.edge] ⊆
      (componentCandidates cs policy.assignmentFloorBp x).map (·.edge) := by
    intro e he
    rw [List.mem_singleton.mp he]
    exact List.mem_map_of_mem (hperm.mem_iff.mpr hc)
  obtain ⟨selected, hok, hbest⟩ := solveComponent_best hsolvable hopt hforbidden
  refine ⟨selected, by rw [h.leftIds, h.rightIds]; exact hok, ?_⟩
  rw [objective, hbest.best, edgesOf_perm hperm, utility_perm hperm hsolvable.unique]
  congr 1
  ext e
  simp [and_comm]

theorem objective_best (hx : x.complete = true)
    (h : SolvedPart digest limited policy solver part x) :
    x.optimalUtilityBp = best (edgesOf part) (utility part policy.assignmentFloorBp) := by
  rw [h.objective, (h.selected hx).best]
  simp

theorem gateReason_text (reason : ProposalGateReason) : nonblank reason.value = true := by
  cases reason <;> decide

theorem gateSelected_ok (hs : ScoredSet cs) (hopt : Optimal solver.minimize)
    (hp : part ∈ partsOf cs policy.assignmentFloorBp)
    (h : SolvedPart digest limited policy solver part x) (hx : x.complete = true)
    {s : SelectedAssignmentEdge} (hsel : s ∈ x.selectedEdges) :
    ∃ c ∈ part, c.edge = s.edge ∧ candidateOf cs s.edge = c ∧
      gateSelected cs policy solver x s =
        .ok (proposalOf policy (componentCandidates cs policy.assignmentFloorBp x) c) := by
  have hparts := partsOf_spec cs policy.assignmentFloorBp
  obtain ⟨c, hc, hce, hscore, hutility⟩ := (h.selected hx).matched s hsel
  have hperm := componentCandidates_perm hs hp h
  have hunique := hparts.unique (eligible_nodup hs.unique policy.assignmentFloorBp) hp
  obtain ⟨hcs, hfloor⟩ := mem_eligible.mp (hparts.mem hp hc)
  have hlookup : lookup (·.edge) cs s.edge = some c := by
    rw [← hce]
    exact lookup_mem hs.unique hcs
  obtain ⟨counterfactual, hok, hobjective⟩ := counterfactual_ok hs hopt hp h hc
  have hle : best ((edgesOf part).erase c.edge) (utility part policy.assignmentFloorBp) ≤
      best (edgesOf part) (utility part policy.assignmentFloorBp) :=
    best_mono _ (Finset.erase_subset _ _)
  have hgap : (x.optimalUtilityBp : ℤ)-objective counterfactual =
      gapOf (componentCandidates cs policy.assignmentFloorBp x) policy.assignmentFloorBp c.edge := by
    rw [hobjective, objective_best hx h, gapOf, edgesOf_perm hperm,
      utility_perm hperm ((hperm.map _).nodup_iff.mpr hunique), gap]
    omega
  refine ⟨c, hc, hce, by rw [candidateOf, hlookup, Option.getD_some], ?_⟩
  have hscale := hs.scale c hcs
  obtain ⟨hl, hr⟩ := hs.text c hcs
  have hleft : s.leftId = c.leftId := (congrArg Prod.fst hce).symm
  have hright : s.rightId = c.rightId := (congrArg Prod.snd hce).symm
  have hbest : best ((edgesOf (componentCandidates cs policy.assignmentFloorBp x)).erase c.edge)
      (utility (componentCandidates cs policy.assignmentFloorBp x) policy.assignmentFloorBp) =
        objective counterfactual := by
    rw [hobjective, edgesOf_perm hperm, utility_perm hperm ((hperm.map _).nodup_iff.mpr hunique)]
  have hproposal : proposalOf policy (componentCandidates cs policy.assignmentFloorBp x) c =
      ⟨s.leftId, s.rightId, s.scoreBp, objective counterfactual,
        gapOf (componentCandidates cs policy.assignmentFloorBp x) policy.assignmentFloorBp c.edge,
        gateReasons c (gapOf (componentCandidates cs policy.assignmentFloorBp x)
          policy.assignmentFloorBp c.edge) policy = [],
        sortedSet ((gateReasons c (gapOf (componentCandidates cs policy.assignmentFloorBp x)
          policy.assignmentFloorBp c.edge) policy).map (·.value))⟩ := by
    rw [proposalOf, hbest, hleft, hright, hscore]
  rw [hproposal]
  rw [hce] at hok
  generalize gapOf (componentCandidates cs policy.assignmentFloorBp x) policy.assignmentFloorBp
    c.edge = gap at hgap ⊢
  unfold gateSelected
  rw [hlookup]
  simp only [hok, hgap, ok_bind, bind_ok, exists_require, ProposalEvidence.create, pure_ok,
    requiredText, Evidence.scoreBp, Int.toNat_natCast, and_true, Nat.cast_nonneg, true_and]
  have hscale' : (s.scoreBp : ℤ) ≤ scoreScaleBp := by
    rw [hscore]
    exact_mod_cast hscale
  have hreasons : ∀ r ∈ (gateReasons c gap policy).map (·.value), nonblank r = true := by
    intro r hr
    obtain ⟨reason, -, rfl⟩ := List.mem_map.mp hr
    exact gateReason_text reason
  refine ⟨⟨hscore, by omega⟩, hleft ▸ hl, hright ▸ hr, hscale', hreasons, ?_, ?_⟩
  · simp
  · simp

def TextsApart (x : SolvedAssignmentComponent) : Prop :=
  (x.selectedEdges.map fun s => edgeText s.edge).Nodup

theorem gated_proposals (hs : ScoredSet cs) (hopt : Optimal solver.minimize)
    (hp : part ∈ partsOf cs policy.assignmentFloorBp)
    (h : SolvedPart digest limited policy solver part x) :
    gateProposals cs policy solver x = .ok (gatedOf cs policy x).proposals := by
  unfold gateProposals
  cases hx : x.complete with
  | false => simp [gatedOf, h.withheld hx]
  | true =>
    rw [if_pos rfl]
    refine mapM_total fun s hsel => ?_
    obtain ⟨c, -, -, hc, hok⟩ := gateSelected_ok hs hopt hp h hx hsel
    rw [hok, hc]

theorem gated_proposal (hs : ScoredSet cs) (hopt : Optimal solver.minimize)
    (hp : part ∈ partsOf cs policy.assignmentFloorBp)
    (h : SolvedPart digest limited policy solver part x) {q : ProposalEvidence}
    (hq : q ∈ (gatedOf cs policy x).proposals) :
    x.complete = true ∧ ∃ c ∈ part, ∃ s ∈ x.selectedEdges, c.edge = s.edge ∧
      q = proposalOf policy (componentCandidates cs policy.assignmentFloorBp x) c := by
  obtain ⟨s, hsel, rfl⟩ := List.mem_map.mp hq
  cases hx : x.complete with
  | false =>
    rw [h.withheld hx] at hsel
    simp at hsel
  | true =>
    obtain ⟨c, hc, hce, hcand, -⟩ := gateSelected_ok hs hopt hp h hx hsel
    exact ⟨rfl, c, hc, s, hsel, hce, by rw [hcand]⟩

theorem gated_edges (hs : ScoredSet cs) (hopt : Optimal solver.minimize)
    (hp : part ∈ partsOf cs policy.assignmentFloorBp)
    (h : SolvedPart digest limited policy solver part x) :
    (gatedOf cs policy x).proposals.map (·.edge) = x.selectedEdges.map (·.edge) := by
  rw [gatedOf, List.map_map]
  refine List.map_congr_left fun s hsel => ?_
  cases hx : x.complete with
  | false =>
    rw [h.withheld hx] at hsel
    simp at hsel
  | true =>
    obtain ⟨c, -, hce, hcand, -⟩ := gateSelected_ok hs hopt hp h hx hsel
    rw [Function.comp_apply, hcand]
    exact hce

theorem limitReason_text (reason : AssignmentLimitReason) : nonblank reason.value = true := by
  cases reason <;> decide

theorem gated_members (hs : ScoredSet cs) (hopt : Optimal solver.minimize)
    (hp : part ∈ partsOf cs policy.assignmentFloorBp)
    (h : SolvedPart digest limited policy solver part x) :
    ∀ q ∈ (gatedOf cs policy x).proposals, (q.leftId ∈ x.leftIds ∧ q.rightId ∈ x.rightIds) ∧
      q.counterfactualObjectiveBp ≤ x.optimalUtilityBp ∧
      q.globalGapBp = x.optimalUtilityBp-q.counterfactualObjectiveBp := by
  intro q hq
  have hperm := componentCandidates_perm hs hp h
  have hsolvable := part_solvable hs hp
  obtain ⟨hx, c, hc, -, -, -, rfl⟩ := gated_proposal hs hopt hp h hq
  rw [h.leftIds, h.rightIds, objective_best hx h]
  simp only [proposalOf, gapOf, edgesOf_perm hperm,
    utility_perm hperm ((hperm.map _).nodup_iff.mpr hsolvable.unique), gap]
  exact ⟨hsolvable.within c hc, best_mono _ (Finset.erase_subset _ _), trivial⟩

theorem gated_sorted (hs : ScoredSet cs) (hopt : Optimal solver.minimize)
    (hp : part ∈ partsOf cs policy.assignmentFloorBp)
    (h : SolvedPart digest limited policy solver part x) :
    sortOn (fun q : ProposalEvidence => edgeOrder q.edge) (gatedOf cs policy x).proposals =
      (gatedOf cs policy x).proposals := by
  refine sortOn_eq_self _ ?_
  have hedges := gated_edges hs hopt hp h
  have hsorted : (x.selectedEdges.map (·.edge)).Pairwise fun a b => edgeOrder a ≤ edgeOrder b := by
    refine List.pairwise_map.mpr ?_
    cases hx : x.complete with
    | false =>
      rw [h.withheld hx]
      exact List.Pairwise.nil
    | true => exact (h.selected hx).sorted
  rw [← hedges] at hsorted
  exact List.pairwise_map.mp hsorted

theorem gated_create (hs : ScoredSet cs) (hopt : Optimal solver.minimize)
    (hversion : nonblank solver.version = true)
    (hp : part ∈ partsOf cs policy.assignmentFloorBp)
    (h : SolvedPart digest limited policy solver part x) {z : AssignmentComponentEvidence} :
    AssignmentComponentEvidence.create (gatedOf cs policy x) = .ok z ↔
      TextsApart x ∧ z = gatedOf cs policy x := by
  have htexts : ((gatedOf cs policy x).proposals.map fun q => edgeText q.edge) =
      x.selectedEdges.map fun s => edgeText s.edge := by
    have hmap := congrArg (List.map edgeText) (gated_edges hs hopt hp h)
    rwa [List.map_map, List.map_map] at hmap
  obtain ⟨c, hc⟩ := List.exists_mem_of_ne_nil _
    ((partsOf_spec cs policy.assignmentFloorBp).nonempty part hp)
  have hleft : x.leftIds ≠ [] := by
    rw [h.leftIds]
    exact List.ne_nil_of_mem (mem_lefts.mpr ⟨c, hc, rfl⟩)
  have hmembers := gated_members hs hopt hp h
  have hreason : ∀ u, optionalText (x.limitReason.map (·.value)) "limit_reason" = .ok u := by
    intro u
    cases x.limitReason with
    | none => rfl
    | some reason => exact require_ok.mpr (limitReason_text reason)
  have hlabel : x.complete ≠ (x.limitReason.map (·.value)).isSome := by
    rw [h.complete]
    cases x.limitReason <;> simp
  have hid : nonblank x.componentId = true := by
    rw [h.componentId]
    exact component_nonblank _ _ _
  have hgraph : nonblank x.graphDigest = true := by
    rw [h.graphDigest]
    exact hexdigest_text _ _
  have hordered : ({ gatedOf cs policy x with
      leftIds := sortOn id (gatedOf cs policy x).leftIds
      rightIds := sortOn id (gatedOf cs policy x).rightIds
      proposals := sortOn (fun q => edgeOrder q.edge) (gatedOf cs policy x).proposals } :
        AssignmentComponentEvidence) = gatedOf cs policy x := by
    have hl : sortOn id (gatedOf cs policy x).leftIds = (gatedOf cs policy x).leftIds := by
      rw [gatedOf, h.leftIds, lefts_eq]
    have hr : sortOn id (gatedOf cs policy x).rightIds = (gatedOf cs policy x).rightIds := by
      rw [gatedOf, h.rightIds, rights_eq]
    rw [hl, hr, gated_sorted hs hopt hp h]
  simp only [AssignmentComponentEvidence.create, bind_ok, exists_require, pure_ok, requiredText,
    unique, hordered, htexts]
  constructor
  · rintro ⟨-, -, -, -, -, -, -, -, -, htext, -, -, -, rfl⟩
    exact ⟨htext, rfl⟩
  · rintro ⟨htext, rfl⟩
    refine ⟨hid, hgraph, ?_, ?_, ?_, fun hnil => hleft hnil.1, (), hreason (), hlabel, htext, ?_,
      fun q hq => (hmembers q hq).1, fun q hq => (hmembers q hq).2, rfl⟩
    · rw [gatedOf, h.solverVersion]
      exact hversion
    · rw [gatedOf, h.leftIds]
      exact sortedSet_nodup _
    · rw [gatedOf, h.rightIds]
      exact sortedSet_nodup _
    · rintro ⟨hx, hne⟩
      refine hne ?_
      rw [gatedOf, h.withheld hx]
      rfl

/-- Gating a component records what is computed from it, and fails only when
two of its edges coincide as texts. -/
theorem gateComponent_ok (hs : ScoredSet cs) (hopt : Optimal solver.minimize)
    (hversion : solver.version = policy.solverVersion)
    (hp : part ∈ partsOf cs policy.assignmentFloorBp)
    (h : SolvedPart digest limited policy solver part x)
    {acc y : List AssignmentComponentEvidence × List Edge}
    (hfresh : Evidence.Apart
      ((componentCandidates cs policy.assignmentFloorBp x).map (·.edge)) acc.2) :
    gateComponent digest cs policy solver acc x = .ok y ↔
      TextsApart x ∧ y = (acc.1 ++ [gatedOf cs policy x],
        acc.2 ++ (componentCandidates cs policy.assignmentFloorBp x).map (·.edge)) := by
  have hperm := componentCandidates_perm hs hp h
  have htext : nonblank solver.version = true := hversion ▸ policy.solverVersion_text
  have horder : ((componentCandidates cs policy.assignmentFloorBp x).map
      fun c => edgeOrder c.edge).Nodup :=
    nodup_edgeOrder ((hperm.map _).nodup_iff.mpr (part_solvable hs hp).unique)
  have hdigest : x.graphDigest = assignmentGraphDigest digest x.componentId
      policy.assignmentFloorBp (componentCandidates cs policy.assignmentFloorBp x) := by
    rw [h.graphDigest, assignmentGraphDigest, assignmentGraphDigest,
      sortOn_eq_of_perm _ hperm horder]
  have hcreate := fun z => gated_create (z := z) hs hopt htext hp h
  simp only [gatedOf] at hcreate
  simp only [gateComponent, bind_ok, exists_require, pure_ok, gated_proposals hs hopt hp h,
    Except.ok.injEq, exists_eq_left', gatedOf, hcreate]
  constructor
  · rintro ⟨-, -, -, -, z, ⟨htexts, rfl⟩, rfl⟩
    exact ⟨htexts, rfl⟩
  · rintro ⟨htexts, rfl⟩
    exact ⟨h.solverVersion.trans hversion, by rw [hperm.length_eq, h.count], hfresh, hdigest, _,
      ⟨htexts, rfl⟩, rfl⟩

end Components

section Graph
variable {digest : Digest} {cs : List CandidateEvidence} {g : CandidateGenerationResult}
  {policy : MatchingPolicy} {solver : AssignmentSolver} {a : AssignmentSolveResult}

theorem exists_part (hs : ScoredSet cs) (hopt : Optimal solver.minimize)
    (hversion : nonblank solver.version = true) (h : SolvedGraph digest cs g policy solver a)
    {x : SolvedAssignmentComponent} (hx : x ∈ a.components) :
    ∃ part ∈ partsOf cs policy.assignmentFloorBp,
      SolvedPart digest g.limitedRecordIds policy solver part x := by
  obtain ⟨part, hp, rfl⟩ := List.mem_map.mp (h.components.mem_iff.mp hx)
  exact ⟨part, hp, report_spec _ _ hs hopt hversion hp⟩

def candidateEdges (cs : List CandidateEvidence) (policy : MatchingPolicy)
    (x : SolvedAssignmentComponent) : List Edge :=
  (componentCandidates cs policy.assignmentFloorBp x).map (·.edge)

theorem mem_candidateEdges {limited : List String} {part : List CandidateEvidence}
    (hp : part ∈ partsOf cs policy.assignmentFloorBp) {x : SolvedAssignmentComponent}
    (h : SolvedPart digest limited policy solver part x) {e : Edge} :
    e ∈ candidateEdges cs policy x ↔ ∃ c ∈ part, c.edge = e := by
  simp only [candidateEdges, List.mem_map, mem_componentCandidates hp h]

theorem components_apart (hs : ScoredSet cs) (hopt : Optimal solver.minimize)
    (hversion : nonblank solver.version = true) (h : SolvedGraph digest cs g policy solver a) :
    a.components.Pairwise fun x y =>
      Evidence.Apart (candidateEdges cs policy x) (candidateEdges cs policy y) := by
  refine (h.components.pairwise_iff ?_).mpr (List.pairwise_map.mpr ?_)
  · intro x y hxy e he hx
    exact hxy e hx he
  · refine List.Pairwise.imp_of_mem ?_ (partsOf_spec cs policy.assignmentFloorBp).apart
    intro p q hp hq hapart e he hf
    obtain ⟨c, hc, rfl⟩ :=
      (mem_candidateEdges hp (report_spec _ _ hs hopt hversion hp)).mp he
    obtain ⟨d, hd, hde⟩ := (mem_candidateEdges hq (report_spec _ _ hs hopt hversion hq)).mp hf
    exact (hapart c hc d hd).1 (congrArg Prod.fst hde).symm

theorem gateComponents_ok (hs : ScoredSet cs) (hopt : Optimal solver.minimize)
    (hversion : solver.version = policy.solverVersion) {limited : List String}
    {xs : List SolvedAssignmentComponent}
    (hxs : ∀ x ∈ xs, ∃ part ∈ partsOf cs policy.assignmentFloorBp,
      SolvedPart digest limited policy solver part x)
    (hapart : xs.Pairwise fun x y =>
      Evidence.Apart (candidateEdges cs policy x) (candidateEdges cs policy y))
    (acc : List AssignmentComponentEvidence × List Edge)
    {y : List AssignmentComponentEvidence × List Edge}
    (hfresh : ∀ x ∈ xs, Evidence.Apart (candidateEdges cs policy x) acc.2) :
    xs.foldlM (gateComponent digest cs policy solver) acc = .ok y ↔
      (∀ x ∈ xs, TextsApart x) ∧ y = (acc.1 ++ xs.map (gatedOf cs policy),
        acc.2 ++ xs.flatMap (candidateEdges cs policy)) := by
  induction xs generalizing acc with
  | nil =>
    simp only [List.foldlM_nil, pure_ok, List.not_mem_nil, List.map_nil, List.flatMap_nil,
      List.append_nil]
    simp [eq_comm]
  | cons x xs ih =>
    obtain ⟨part, hp, hpart⟩ := hxs x (by simp)
    obtain ⟨hx, hrest⟩ := List.pairwise_cons.mp hapart
    simp only [List.foldlM_cons, bind_ok,
      gateComponent_ok hs hopt hversion hp hpart (hfresh x (by simp))]
    have hfresh' : ∀ z ∈ xs, Evidence.Apart (candidateEdges cs policy z)
        (acc.2 ++ candidateEdges cs policy x) := by
      intro z hz e he hmem
      rcases List.mem_append.mp hmem with hm | hm
      · exact hfresh z (by simp [hz]) e he hm
      · exact hx z hz e hm he
    have htail := ih (fun z hz => hxs z (by simp [hz])) hrest
      (acc.1 ++ [gatedOf cs policy x], acc.2 ++ candidateEdges cs policy x) hfresh'
    simp only [List.append_assoc, List.singleton_append] at htail
    simp only [List.forall_mem_cons, List.map_cons, List.flatMap_cons]
    constructor
    · rintro ⟨z, ⟨htext, rfl⟩, hz⟩
      obtain ⟨htexts, rfl⟩ := htail.mp hz
      exact ⟨⟨htext, htexts⟩, rfl⟩
    · rintro ⟨⟨htext, htexts⟩, rfl⟩
      exact ⟨_, ⟨htext, rfl⟩, htail.mpr ⟨htexts, rfl⟩⟩

def gatedComponents (cs : List CandidateEvidence) (policy : MatchingPolicy)
    (a : AssignmentSolveResult) : List AssignmentComponentEvidence :=
  a.components.map (gatedOf cs policy)

def gatedResult (cs : List CandidateEvidence) (policy : MatchingPolicy)
    (a : AssignmentSolveResult) : GatedAssignmentResult where
  components := sortOn (·.componentId) (gatedComponents cs policy a)
  proposals := sortOn proposalOrder (proposalsOf (gatedComponents cs policy a))
  acceptedProposals := sortOn proposalOrder (acceptedOf (gatedComponents cs policy a))

theorem proposal_edges (hs : ScoredSet cs) (hopt : Optimal solver.minimize)
    (hversion : nonblank solver.version = true) (h : SolvedGraph digest cs g policy solver a) :
    (proposalsOf (gatedComponents cs policy a)).map (·.edge) =
      (a.components.flatMap (·.selectedEdges)).map (·.edge) := by
  rw [proposalsOf, gatedComponents, List.flatMap_map, List.map_flatMap, List.map_flatMap]
  refine List.flatMap_congr fun x hx => ?_
  obtain ⟨part, hp, hpart⟩ := exists_part hs hopt hversion h hx
  exact gated_edges hs hopt hp hpart

theorem proposal_ends_nodup (hs : ScoredSet cs) (hopt : Optimal solver.minimize)
    (hversion : nonblank solver.version = true) (h : SolvedGraph digest cs g policy solver a) :
    ((proposalsOf (gatedComponents cs policy a)).map (·.leftId)).Nodup ∧
      ((proposalsOf (gatedComponents cs policy a)).map (·.rightId)).Nodup := by
  have hedges := proposal_edges hs hopt hversion h
  obtain ⟨hl, hr⟩ := selections_nodup digest g.limitedRecordIds policy hs hopt hversion
  have hperm := h.components.flatMap_right (·.selectedEdges)
  have hfst := congrArg (List.map Prod.fst) hedges
  have hsnd := congrArg (List.map Prod.snd) hedges
  rw [List.map_map, List.map_map] at hfst hsnd
  refine ⟨?_, ?_⟩
  · exact hfst ▸ (hperm.map _).nodup_iff.mpr hl
  · exact hsnd ▸ (hperm.map _).nodup_iff.mpr hr

theorem proposals_order_nodup {ps : List ProposalEvidence} (h : (ps.map (·.leftId)).Nodup) :
    (ps.map proposalOrder).Nodup :=
  nodup_edgeOrder (nodup_map_of_nodup_map_comp _ Prod.fst h)

theorem sortOn_filter {ps : List ProposalEvidence} (h : (ps.map proposalOrder).Nodup)
    (p : ProposalEvidence → Bool) :
    sortOn proposalOrder (ps.filter p) = (sortOn proposalOrder ps).filter p := by
  have hperm : (ps.filter p).Perm ((sortOn proposalOrder ps).filter p) :=
    (sortOn_perm proposalOrder ps).symm.filter p
  rw [sortOn_eq_of_perm _ hperm (h.sublist (List.filter_sublist.map _))]
  exact sortOn_eq_self _ ((sortOn_pairwise proposalOrder ps).sublist List.filter_sublist)

/-- Gating fails only when two edges of a component coincide as texts, and
its result is a function of the reports. -/
theorem gateAssignment_ok (hs : ScoredSet cs) (hopt : Optimal solver.minimize)
    (hversion : solver.version = policy.solverVersion)
    (h : SolvedGraph digest cs g policy solver a) {gated : GatedAssignmentResult} :
    gateAssignment digest cs a policy solver = .ok gated ↔
      (∀ x ∈ a.components, TextsApart x) ∧ gated = gatedResult cs policy a := by
  have htext : nonblank solver.version = true := hversion ▸ policy.solverVersion_text
  have hcover : SameMembers ([] ++ a.components.flatMap (candidateEdges cs policy))
      ((cs.filter (policy.assignmentFloorBp < ·.scoreBp)).map (·.edge)) := by
    have hparts := partsOf_spec cs policy.assignmentFloorBp
    rw [List.nil_append]
    refine ⟨fun e he => ?_, fun e he => ?_⟩
    · obtain ⟨x, hx, hex⟩ := List.mem_flatMap.mp he
      obtain ⟨part, hp, hpart⟩ := exists_part hs hopt htext h hx
      obtain ⟨c, hc, rfl⟩ := (mem_candidateEdges hp hpart).mp hex
      obtain ⟨hcs, hfloor⟩ := mem_eligible.mp (hparts.mem hp hc)
      exact List.mem_map_of_mem (List.mem_filter.mpr ⟨hcs, by simpa using hfloor⟩)
    · obtain ⟨c, hc, rfl⟩ := List.mem_map.mp he
      obtain ⟨hcs, hfloor⟩ := List.mem_filter.mp hc
      obtain ⟨part, hp, hcp⟩ :=
        hparts.exists_mem (mem_eligible.mpr ⟨hcs, by simpa using hfloor⟩)
      refine List.mem_flatMap.mpr ⟨_, h.components.mem_iff.mpr (List.mem_map_of_mem hp), ?_⟩
      exact (mem_candidateEdges hp (report_spec _ _ hs hopt htext hp)).mpr ⟨c, hcp, rfl⟩
  obtain ⟨hnl, hnr⟩ := proposal_ends_nodup hs hopt htext h
  have horder := proposals_order_nodup hnl
  have hids : ((gatedComponents cs policy a).map (·.componentId)).Nodup := by
    rw [gatedComponents, List.map_map]
    exact h.distinct
  have hcreate : ∀ z, GatedAssignmentResult.create ⟨gatedComponents cs policy a,
      proposalsOf (gatedComponents cs policy a), acceptedOf (gatedComponents cs policy a)⟩ = .ok z ↔
        z = gatedResult cs policy a := by
    intro z
    have hsorted : sortOn proposalOrder (proposalsOf (gatedComponents cs policy a)) =
        sortOn proposalOrder
          (proposalsOf (sortOn (·.componentId) (gatedComponents cs policy a))) :=
      sortOn_eq_of_perm _ ((sortOn_perm _ _).flatMap_right _).symm horder
    simp only [GatedAssignmentResult.create, bind_ok, exists_require, pure_ok]
    constructor
    · rintro ⟨-, -, -, -, rfl⟩
      rfl
    · rintro rfl
      exact ⟨hids, hsorted, sortOn_filter horder _,
        ⟨hnl.sublist (List.filter_sublist.map _), hnr.sublist (List.filter_sublist.map _)⟩, rfl⟩
  have hfold := fun y => gateComponents_ok (y := y) hs hopt hversion
    (fun x hx => exists_part hs hopt htext h hx) (components_apart hs hopt htext h) ([], [])
    (fun x _ e _ hn => by simp at hn)
  simp only [gateAssignment, bind_ok, exists_require, hfold, List.nil_append]
  constructor
  · rintro ⟨-, -, y, ⟨htexts, rfl⟩, -, hz⟩
    exact ⟨htexts, (hcreate gated).mp hz⟩
  · rintro ⟨htexts, hz⟩
    exact ⟨hversion, hs.unique, _, ⟨htexts, rfl⟩, hcover, (hcreate gated).mpr hz⟩

theorem texts_apart (hs : ScoredSet cs) (hopt : Optimal solver.minimize)
    (hversion : nonblank solver.version = true) (h : SolvedGraph digest cs g policy solver a)
    (htexts : (cs.map fun c => edgeText c.edge).Nodup) : ∀ x ∈ a.components, TextsApart x := by
  intro x hx
  obtain ⟨part, hp, hpart⟩ := exists_part hs hopt hversion h hx
  cases hc : x.complete with
  | false =>
    rw [TextsApart, hpart.withheld hc]
    exact List.nodup_nil
  | true =>
    have hselected := hpart.selected hc
    refine List.Nodup.map_on ?_ (hselected.nodup.of_map _)
    intro s hs₁ t ht₁ hst
    obtain ⟨c, hcp, hcs, -, -⟩ := hselected.matched s hs₁
    obtain ⟨d, hdp, hdt, -, -⟩ := hselected.matched t ht₁
    have hparts := partsOf_spec cs policy.assignmentFloorBp
    rw [← hcs, ← hdt] at hst
    have hcd := List.inj_on_of_nodup_map htexts (mem_eligible.mp (hparts.mem hp hcp)).1
      (mem_eligible.mp (hparts.mem hp hdp)).1 hst
    refine List.inj_on_of_nodup_map hselected.nodup hs₁ ht₁ ?_
    rw [← hcs, ← hdt, hcd]

/-- What a proposal loses in its component is what it loses in the whole
graph. -/
theorem gap_global (hs : ScoredSet cs) {part : List CandidateEvidence} {floorBp : ℕ}
    (hp : part ∈ partsOf cs floorBp) {c : CandidateEvidence} (hc : c ∈ part) :
    gapOf part floorBp c.edge = gap (graph cs floorBp) (utility cs floorBp) c.edge := by
  have hparts := partsOf_spec cs floorBp
  have hsplit : graph cs floorBp = edgesOf part ∪ graph cs floorBp \ edgesOf part := by
    refine (Finset.union_sdiff_of_subset ?_).symm
    intro e he
    obtain ⟨d, hd, rfl⟩ := mem_edgesOf.mp he
    exact mem_edgesOf.mpr ⟨d, hparts.mem hp hd, rfl⟩
  have hapart : Matching.Apart (edgesOf part) (graph cs floorBp \ edgesOf part) := by
    intro e he f hf
    obtain ⟨d, hd, rfl⟩ := mem_edgesOf.mp he
    obtain ⟨hf₁, hf₂⟩ := Finset.mem_sdiff.mp hf
    obtain ⟨k, hk, rfl⟩ := mem_edgesOf.mp hf₁
    have hno : ¬Touch d k := fun ht =>
      hf₂ (mem_edgesOf.mpr ⟨k, hparts.closed hp hd hk ht, rfl⟩)
    exact not_or.mp hno
  have hmem : c.edge ∈ edgesOf part := mem_edgesOf.mpr ⟨c, hc, rfl⟩
  rw [hsplit, gap_local _ hapart hmem, gapOf, gap, gap, best_congr (part_utility hs hp)]
  congr 1
  exact best_congr fun e he => part_utility hs hp e (Finset.mem_of_mem_erase he)

/-- The edges of the eligible candidates between the members of a component. -/
def componentGraph (cs : List CandidateEvidence) (floorBp : ℕ) (x : SolvedAssignmentComponent) :
    Finset Edge :=
  edgesOf (componentCandidates cs floorBp x)

theorem proposal_loss (hs : ScoredSet cs) (hopt : Optimal solver.minimize)
    {part : List CandidateEvidence} (hp : part ∈ partsOf cs policy.assignmentFloorBp)
    {limited : List String} {x : SolvedAssignmentComponent} (hcomplete : x.complete = true)
    (hpart : SolvedPart digest limited policy solver part x) {q : ProposalEvidence}
    (hq : q ∈ (gatedOf cs policy x).proposals) :
    q.edge ∈ componentGraph cs policy.assignmentFloorBp x ∧
      x.optimalUtilityBp = best (componentGraph cs policy.assignmentFloorBp x)
        (utility cs policy.assignmentFloorBp) ∧
      q.counterfactualObjectiveBp =
        best ((componentGraph cs policy.assignmentFloorBp x).erase q.edge)
          (utility cs policy.assignmentFloorBp) ∧
      q.globalGapBp =
        gap (graph cs policy.assignmentFloorBp) (utility cs policy.assignmentFloorBp) q.edge := by
  obtain ⟨-, c, hc, -, -, -, rfl⟩ := gated_proposal hs hopt hp hpart hq
  have hperm := componentCandidates_perm hs hp hpart
  have hunique := (hperm.map _).nodup_iff.mpr (part_solvable hs hp).unique
  have hobjective := objective_best hcomplete hpart
  rw [best_congr (part_utility hs hp)] at hobjective
  have hglobal := gap_global hs hp hc
  rw [componentGraph, edgesOf_perm hperm]
  refine ⟨mem_edgesOf.mpr ⟨c, hc, rfl⟩, hobjective, ?_, ?_⟩
  · simp only [proposalOf, edgesOf_perm hperm, utility_perm hperm hunique]
    exact best_congr fun e he => part_utility hs hp e (Finset.mem_of_mem_erase he)
  · rw [gapOf] at hglobal
    simp only [proposalOf, gapOf, edgesOf_perm hperm, utility_perm hperm hunique]
    exact hglobal

/-- In a complete component every selected edge is a proposal. Its
counterfactual objective is the optimum without it, its gap is what the
optimum loses, and the whole graph loses as much. Gating succeeds on
candidates whose edges are distinct as texts. -/
theorem gap_is_counterfactual_loss (digest : Digest) {cs : List CandidateEvidence}
    {g : CandidateGenerationResult} {policy : MatchingPolicy} {solver : AssignmentSolver}
    {a : AssignmentSolveResult} (hs : ScoredSet cs) (hopt : Optimal solver.minimize)
    (ha : solveAssignment digest cs g policy solver = .ok a) :
    (∀ gated, gateAssignment digest cs a policy solver = .ok gated →
      ∀ x ∈ a.components, x.complete = true →
        ∃ y ∈ gated.components, y.componentId = x.componentId ∧
          y.proposals.map (·.edge) = x.selectedEdges.map (·.edge) ∧
          ∀ q ∈ y.proposals,
            q.edge ∈ componentGraph cs policy.assignmentFloorBp x ∧
            x.optimalUtilityBp = best (componentGraph cs policy.assignmentFloorBp x)
              (utility cs policy.assignmentFloorBp) ∧
            q.counterfactualObjectiveBp =
              best ((componentGraph cs policy.assignmentFloorBp x).erase q.edge)
                (utility cs policy.assignmentFloorBp) ∧
            q.counterfactualObjectiveBp ≤ x.optimalUtilityBp ∧
            q.globalGapBp = x.optimalUtilityBp-q.counterfactualObjectiveBp ∧
            best ((graph cs policy.assignmentFloorBp).erase q.edge)
                (utility cs policy.assignmentFloorBp)+q.globalGapBp =
              best (graph cs policy.assignmentFloorBp)
                (utility cs policy.assignmentFloorBp)) ∧
    ((cs.map fun c => edgeText c.edge).Nodup →
      ∃ gated, gateAssignment digest cs a policy solver = .ok gated) := by
  have hversion := solver_text ha
  have hsolved := solveAssignment_spec hs hopt hversion ha
  have hsame : solver.version = policy.solverVersion := by
    simp only [solveAssignment, bind_ok, exists_require] at ha
    exact ha.1
  refine ⟨fun gated hgated x hx hcomplete => ?_, fun htexts => ?_⟩
  · obtain ⟨-, rfl⟩ := (gateAssignment_ok hs hopt hsame hsolved).mp hgated
    obtain ⟨part, hp, hpart⟩ := exists_part hs hopt hversion hsolved hx
    refine ⟨gatedOf cs policy x, (mem_sortOn _ _ _).mpr (List.mem_map_of_mem hx), rfl,
      gated_edges hs hopt hp hpart, fun q hq => ?_⟩
    obtain ⟨-, hle, hgap⟩ := gated_members hs hopt hp hpart q hq
    obtain ⟨hmem, hbest, hcounterfactual, hglobal⟩ := proposal_loss hs hopt hp hcomplete hpart hq
    refine ⟨hmem, hbest, hcounterfactual, hle, hgap, ?_⟩
    rw [hglobal, gap]
    exact Nat.add_sub_of_le (best_mono _ (Finset.erase_subset _ _))
  · exact ⟨_, (gateAssignment_ok hs hopt hsame hsolved).mpr
      ⟨texts_apart hs hopt hversion hsolved htexts, rfl⟩⟩

end Graph

theorem gap_sample : ∃ a gated, sampleAssignment = .ok a ∧
    gateAssignment checksum sampleCandidates a (samplePolicy sampleLimits) sampleSolver =
      .ok gated := by
  obtain ⟨a, ha, -⟩ := ok_of_toOption sampleAssignment_complete
  obtain ⟨gated, hgated⟩ :=
    (gap_is_counterfactual_loss checksum sample_scored sample_optimal ha).2 (by decide)
  exact ⟨a, gated, ha, hgated⟩

end Workbench.Acceptance
