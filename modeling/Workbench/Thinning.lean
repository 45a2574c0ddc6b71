import Workbench.Correspondence
import Workbench.Pruning

/-!
# A run over fewer records

A run leaves out some of the records another run searches, and bars some more
edges. Its graph is what is left of the other's, and a pair the other accepts
stays accepted as long as the other's proposals stay or go as a whole.
-/

set_option autoImplicit false

namespace Workbench.Thinning
open Workbench.Listing Workbench.Raising Workbench.Records Workbench.Evidence
open Workbench.References Workbench.Reservations Workbench.Candidates Workbench.Json
open Workbench.SearchSpace Workbench.Generation Workbench.Scores Workbench.Assignment
open Workbench.Components Workbench.Optimum Workbench.Matching Workbench.AssignmentOptimality
open Workbench.Gating Workbench.Acceptance Workbench.Engine Workbench.Reconciled
open Workbench.PaddedAssignment Workbench.Correspondence Workbench.Pruning Workbench.Results

/-- The records that remain are those of the other run that are not gone; the
edges between them that are prohibited are its own and the barred ones. -/
structure Thinned (pre pre' : ReferencePreprocessingResult) (gone : RecordSide → String → Prop)
    (barred : Edge → Prop) : Prop where
  remaining : ∀ side r, r ∈ pre'.remaining side ↔
    r ∈ pre.remaining side ∧ ¬gone side r.observationId
  prohibited : ∀ l ∈ pre'.remainingLeft, ∀ r ∈ pre'.remainingRight,
    ((l.observationId, r.observationId) ∈ prohibitedEdges pre' ↔
      (l.observationId, r.observationId) ∈ prohibitedEdges pre ∨
        barred (l.observationId, r.observationId))

def Spared (gone : RecordSide → String → Prop) (barred : Edge → Prop) (e : Edge) : Prop :=
  ¬gone .left e.1 ∧ ¬gone .right e.2 ∧ ¬barred e

section Search
variable {pre pre' : ReferencePreprocessingResult} {gone : RecordSide → String → Prop}
  {barred : Edge → Prop} {mp : MatchingPolicy} {g g' : CandidateGenerationResult}
  {cs cs' : List CandidateEvidence}

theorem eq_biUnique : Relator.BiUnique (Eq : String → String → Prop) :=
  injective_biUnique Function.injective_id

theorem sameRecord_refl (r : MatchRecord) : SameRecord Eq r r :=
  ⟨rfl, r.observationId, r.observationId_text, rfl⟩

theorem scored_twin {l r : MatchRecord} {c c' : CandidateEvidence} (h : Scored mp l r c)
    (h' : Scored mp l r c') : Twin Eq c c' := by
  have hlimits : Scored (mp.withLimits mp.limits) l r c' := h'
  exact scored_same (sameRecord_refl l) (sameRecord_refl r) h hlimits

theorem twin_edge {c c' : CandidateEvidence} (h : Twin Eq c c') : c'.edge = c.edge :=
  (Prod.ext h.edge.1 h.edge.2).symm

theorem kept_candidate (h : Thinned pre pre' gone barred) (hd : Distinct pre)
    (hd' : Distinct pre') (hg : Generated pre mp g) (hcs : ScoredAll pre g mp cs)
    (hg' : Generated pre' mp g') (hcs' : ScoredAll pre' g' mp cs')
    (hlimits' : g'.limitedRecordIds = []) {c : CandidateEvidence} (hc : c ∈ cs)
    (hkept : Spared gone barred c.edge) : ∃ c' ∈ cs', Twin Eq c c' := by
  obtain ⟨l, hl, r, hr, hscored, hcompatible, hno⟩ := scored_records hd hg hcs hc
  have hedge : c.edge = (l.observationId, r.observationId) :=
    Prod.ext hscored.leftId hscored.rightId
  rw [hedge] at hkept
  have hl' : l ∈ pre'.remainingLeft := (h.remaining .left l).mpr ⟨hl, hkept.1⟩
  have hr' : r ∈ pre'.remainingRight := (h.remaining .right r).mpr ⟨hr, hkept.2.1⟩
  have hno' : (l.observationId, r.observationId) ∉ prohibitedEdges pre' := fun hp =>
    ((h.prohibited l hl' r hr').mp hp).elim hno hkept.2.2
  rcases records_scored hd' hg' hcs' hl' hr' hcompatible hno' with ⟨c', hc', hscored'⟩ | ⟨hll, -⟩
  · exact ⟨c', hc', scored_twin hscored hscored'⟩
  · rw [hlimits'] at hll
    simp at hll

theorem candidate_kept (h : Thinned pre pre' gone barred) (hd : Distinct pre)
    (hd' : Distinct pre') (hg : Generated pre mp g) (hcs : ScoredAll pre g mp cs)
    (hlimits : g.limitedRecordIds = []) (hg' : Generated pre' mp g')
    (hcs' : ScoredAll pre' g' mp cs') {c' : CandidateEvidence} (hc' : c' ∈ cs') :
    ∃ c ∈ cs, Twin Eq c c' ∧ Spared gone barred c.edge := by
  obtain ⟨l, hl', r, hr', hscored', hcompatible, hno'⟩ := scored_records hd' hg' hcs' hc'
  obtain ⟨hl, hgoneLeft⟩ := (h.remaining .left l).mp hl'
  obtain ⟨hr, hgoneRight⟩ := (h.remaining .right r).mp hr'
  obtain ⟨hno, hbarred⟩ := not_or.mp fun hp => hno' ((h.prohibited l hl' r hr').mpr hp)
  rcases records_scored hd hg hcs hl hr hcompatible hno with ⟨c, hc, hscored⟩ | ⟨hll, -⟩
  · have hedge : c.edge = (l.observationId, r.observationId) :=
      Prod.ext hscored.leftId hscored.rightId
    refine ⟨c, hc, scored_twin hscored hscored', ?_⟩
    rw [hedge]
    exact ⟨hgoneLeft, hgoneRight, hbarred⟩
  · rw [hlimits] at hll
    simp at hll

theorem roomy_thinned (h : Thinned pre pre' gone barred) {passes : List BlockingPassPolicy}
    {limits : CapacityLimits} (hroomy : Roomy pre passes limits) : Roomy pre' passes limits := by
  intro edges hnodup hall
  refine hroomy edges hnodup fun e he => ?_
  obtain ⟨⟨pass, hpass, l, hl, r, hr, rfl, hcompatible⟩, hno⟩ := hall e he
  obtain ⟨hl₀, -⟩ := (h.remaining .left l).mp hl
  obtain ⟨hr₀, -⟩ := (h.remaining .right r).mp hr
  exact ⟨⟨pass, hpass, l, hl₀, r, hr₀, rfl, hcompatible⟩,
    fun hp => hno ((h.prohibited l hl r hr).mpr (.inl hp))⟩

theorem mem_graph_thinned (h : Thinned pre pre' gone barred) (hd : Distinct pre)
    (hd' : Distinct pre') (hg : Generated pre mp g) (hcs : ScoredAll pre g mp cs)
    (hlimits : g.limitedRecordIds = []) (hg' : Generated pre' mp g')
    (hcs' : ScoredAll pre' g' mp cs') (hlimits' : g'.limitedRecordIds = []) {floorBp : ℕ}
    {e : Edge} : e ∈ graph cs' floorBp ↔ e ∈ graph cs floorBp ∧ Spared gone barred e := by
  rw [graph, graph, mem_edgesOf, mem_edgesOf]
  constructor
  · rintro ⟨c', hc', rfl⟩
    obtain ⟨hmem', hfloor'⟩ := mem_eligible.mp hc'
    obtain ⟨c, hc, ht, hkept⟩ := candidate_kept h hd hd' hg hcs hlimits hg' hcs' hmem'
    rw [twin_edge ht]
    exact ⟨⟨c, mem_eligible.mpr ⟨hc, ht.score ▸ hfloor'⟩, rfl⟩, hkept⟩
  · rintro ⟨⟨c, hc, rfl⟩, hkept⟩
    obtain ⟨hmem, hfloor⟩ := mem_eligible.mp hc
    obtain ⟨c', hc', ht⟩ := kept_candidate h hd hd' hg hcs hg' hcs' hlimits' hmem hkept
    exact ⟨c', mem_eligible.mpr ⟨hc', ht.score ▸ hfloor⟩, twin_edge ht⟩

theorem utility_thinned (h : Thinned pre pre' gone barred) (hd : Distinct pre)
    (hd' : Distinct pre') (hg : Generated pre mp g) (hcs : ScoredAll pre g mp cs)
    (hlimits : g.limitedRecordIds = []) (hg' : Generated pre' mp g')
    (hcs' : ScoredAll pre' g' mp cs') {floorBp : ℕ} {e : Edge} (he : e ∈ graph cs' floorBp) :
    utility cs' floorBp e = utility cs floorBp e := by
  obtain ⟨c', hc', rfl⟩ := mem_edgesOf.mp he
  obtain ⟨hmem', -⟩ := mem_eligible.mp hc'
  obtain ⟨c, hc, ht, -⟩ := candidate_kept h hd hd' hg hcs hlimits hg' hcs' hmem'
  rw [utility_mem (scoredSet hg' hcs').unique floorBp hmem', twin_edge ht,
    utility_mem (scoredSet hg hcs).unique floorBp hc, ht.score]

end Search

section Runs
variable {digest : Digest} {s s' : EngineSnapshot} {mp : MatchingPolicy} {cp : ComparisonPolicy}
  {d d' : DecisionInputs} {solver solver' : AssignmentSolver}
  {pre pre' : ReferencePreprocessingResult} {g g' : CandidateGenerationResult}
  {cs cs' part part' : List CandidateEvidence} {a a' : AssignmentSolveResult}
  {r r' : EngineResult} {gone : RecordSide → String → Prop} {barred : Edge → Prop}
  {c c' : CandidateEvidence}

def chosenEdges (digest : Digest) (limited : List String) (mp : MatchingPolicy)
    (solver : AssignmentSolver) (part : List CandidateEvidence) : Finset Edge :=
  ((report digest limited mp solver part).selectedEdges.map (·.edge)).toFinset

theorem chosen_optimal (hopt : Optimal solver.minimize) (hs : ScoredSet cs)
    (hversion : nonblank solver.version = true) {limited : List String}
    (hp : part ∈ partsOf cs mp.assignmentFloorBp)
    (hnone : limitReason limited (lefts part) (rights part) mp.limits part = none) :
    chosenEdges digest limited mp solver part ⊆ edgesOf part ∧
      OneToOne (chosenEdges digest limited mp solver part) ∧
      ∑ e ∈ chosenEdges digest limited mp solver part, utility part mp.assignmentFloorBp e =
        best (edgesOf part) (utility part mp.assignmentFloorBp) := by
  have hpart := report_spec digest limited hs hopt hversion hp
  have hbest := hpart.selected ((report_complete hopt hs hversion limited hp).mpr hnone)
  have hunique := (part_solvable hs hp).unique
  refine ⟨fun e he => ?_, hbest.oneToOne, ?_⟩
  · obtain ⟨x, hx, rfl⟩ := List.mem_map.mp (List.mem_toFinset.mp he)
    obtain ⟨b, hb, hbe, -⟩ := hbest.matched x hx
    exact mem_edgesOf.mpr ⟨b, hb, hbe⟩
  · have htotal := hbest.best
    rw [List.toFinset_nil, Finset.sdiff_empty] at htotal
    rw [chosenEdges, List.sum_toFinset _ hbest.nodup, List.map_map, ← htotal]
    congr 1
    refine List.map_congr_left fun x hx => ?_
    obtain ⟨b, hb, hbe, -, hutility⟩ := hbest.matched x hx
    rw [Function.comp_apply, ← hbe, utility_mem hunique _ hb, hutility]

theorem linked_thinned (h : Stages digest s mp cp d solver pre g cs a r)
    (h' : Stages digest s' mp cp d' solver' pre' g' cs' a' r') (ht : Thinned pre pre' gone barred)
    (hlimits : g.limitedRecordIds = []) (hp : part ∈ partsOf cs mp.assignmentFloorBp)
    (hc : c ∈ part) (hcc : Twin Eq c c') {b' : CandidateEvidence}
    (hl : Linked (eligible cs' mp.assignmentFloorBp) c' b') : ∃ b ∈ part, Twin Eq b b' := by
  have hparts := partsOf_spec cs mp.assignmentFloorBp
  induction hl with
  | refl => exact ⟨c, hc, hcc⟩
  | @tail x' y' _ hstep ih =>
    obtain ⟨x, hx, hxx⟩ := ih
    obtain ⟨hy', htouch⟩ := hstep
    obtain ⟨hmem', hfloor'⟩ := mem_eligible.mp hy'
    obtain ⟨y, hy, hyy, -⟩ := candidate_kept ht (preprocessed_distinct h.partitioned)
      (preprocessed_distinct h'.partitioned) h.gen h.scoredAll hlimits h'.gen h'.scoredAll hmem'
    have hflip : Relator.BiUnique (flip (Eq : String → String → Prop)) := flip_biUnique eq_biUnique
    exact ⟨y, hparts.closed hp hx (mem_eligible.mpr ⟨hy, hyy.score ▸ hfloor'⟩)
      (hxx.flip.touch hflip hyy.flip htouch), hyy⟩

theorem room_thinned (hunique' : (part'.map (·.edge)).Nodup)
    (hback : ∀ b' ∈ part', ∃ b ∈ part, Twin Eq b b') {limited : List String}
    (hnone : limitReason limited (lefts part) (rights part) mp.limits part = none)
    (hcomplete : ∀ b' ∈ part', b'.completeComputation = true) :
    limitReason [] (lefts part') (rights part') mp.limits part' = none := by
  obtain ⟨-, hnodes, hedges⟩ := limitReason_none.mp hnone
  have hleft : lefts part' ⊆ lefts part := by
    intro i hi
    obtain ⟨b', hb', rfl⟩ := mem_lefts.mp hi
    obtain ⟨b, hb, ht⟩ := hback b' hb'
    exact mem_lefts.mpr ⟨b, hb, ht.edge.1⟩
  have hright : rights part' ⊆ rights part := by
    intro i hi
    obtain ⟨b', hb', rfl⟩ := mem_rights.mp hi
    obtain ⟨b, hb, ht⟩ := hback b' hb'
    exact mem_rights.mpr ⟨b, hb, ht.edge.2⟩
  have hsub : part'.map (·.edge) ⊆ part.map (·.edge) := by
    intro e he
    obtain ⟨b', hb', rfl⟩ := List.mem_map.mp he
    obtain ⟨b, hb, ht⟩ := hback b' hb'
    exact twin_edge ht ▸ List.mem_map_of_mem hb
  have hleftLength : (lefts part').length ≤ (lefts part).length :=
    (List.subperm_of_subset (sortedSet_nodup _) hleft).length_le
  have hrightLength : (rights part').length ≤ (rights part).length :=
    (List.subperm_of_subset (sortedSet_nodup _) hright).length_le
  have hlength := (List.subperm_of_subset hunique' hsub).length_le
  simp only [List.length_map] at hlength
  exact limitReason_none.mpr ⟨⟨by simp, hcomplete⟩, by omega, by omega⟩

/-- What a kept edge loses in its component does not shrink when the component's
proposals stay or go as a whole. -/
theorem gap_thinned (h : Stages digest s mp cp d solver pre g cs a r)
    (h' : Stages digest s' mp cp d' solver' pre' g' cs' a' r') (hopt : Optimal solver.minimize)
    (ht : Thinned pre pre' gone barred) (hlimits : g.limitedRecordIds = [])
    (hlimits' : g'.limitedRecordIds = []) (hp : part ∈ partsOf cs mp.assignmentFloorBp)
    (hnone : limitReason g.limitedRecordIds (lefts part) (rights part) mp.limits part = none)
    (hwhole : ∀ e ∈ chosenEdges digest g.limitedRecordIds mp solver part,
      Spared gone barred e ∨ gone .left e.1 ∧ gone .right e.2) {e : Edge} (he : e ∈ edgesOf part)
    (hkept : Spared gone barred e) :
    gap (edgesOf part) (utility part mp.assignmentFloorBp) e ≤
      gap (graph cs' mp.assignmentFloorBp) (utility cs' mp.assignmentFloorBp) e := by
  have hd := preprocessed_distinct h.partitioned
  have hd' := preprocessed_distinct h'.partitioned
  have hparts := partsOf_spec cs mp.assignmentFloorBp
  have hmem : ∀ {f : Edge}, f ∈ graph cs' mp.assignmentFloorBp ↔
      f ∈ graph cs mp.assignmentFloorBp ∧ Spared gone barred f := fun {f} =>
    mem_graph_thinned ht hd hd' h.gen h.scoredAll hlimits h'.gen h'.scoredAll hlimits'
  have hpart : edgesOf part ⊆ graph cs mp.assignmentFloorBp := by
    intro f hf
    obtain ⟨b, hb, rfl⟩ := mem_edgesOf.mp hf
    exact mem_edgesOf.mpr ⟨b, hparts.mem hp hb, rfl⟩
  -- What is left of the component shares no end with the rest of the graph.
  have hsplit : graph cs' mp.assignmentFloorBp = edgesOf part ∩ graph cs' mp.assignmentFloorBp ∪
      graph cs' mp.assignmentFloorBp \ edgesOf part := by
    rw [Finset.inter_comm, Finset.union_comm, Finset.sdiff_union_inter]
  have hapart : Matching.Apart (edgesOf part ∩ graph cs' mp.assignmentFloorBp)
      (graph cs' mp.assignmentFloorBp \ edgesOf part) := by
    intro f hf k hk
    obtain ⟨b, hb, rfl⟩ := mem_edgesOf.mp (Finset.mem_inter.mp hf).1
    obtain ⟨hk', hno⟩ := Finset.mem_sdiff.mp hk
    obtain ⟨x, hx, rfl⟩ := mem_edgesOf.mp (hmem.mp hk').1
    exact not_or.mp fun htouch => hno (mem_edgesOf.mpr ⟨x, hparts.closed hp hb hx htouch, rfl⟩)
  have hlocal : e ∈ edgesOf part ∩ graph cs' mp.assignmentFloorBp :=
    Finset.mem_inter.mpr ⟨he, hmem.mpr ⟨hpart he, hkept⟩⟩
  have hutility : ∀ f ∈ edgesOf part ∩ graph cs' mp.assignmentFloorBp,
      utility cs' mp.assignmentFloorBp f = utility part mp.assignmentFloorBp f := by
    intro f hf
    obtain ⟨hfp, hfg⟩ := Finset.mem_inter.mp hf
    rw [utility_thinned ht hd hd' h.gen h.scoredAll hlimits h'.gen h'.scoredAll hfg,
      part_utility h.scoredSet hp f hfp]
  obtain ⟨hsub, hone, hbest⟩ := chosen_optimal hopt h.scoredSet h.version hp
    hnone
  have hdropped : Matching.Apart
      (chosenEdges digest g.limitedRecordIds mp solver part \
        (edgesOf part ∩ graph cs' mp.assignmentFloorBp))
      (edgesOf part ∩ graph cs' mp.assignmentFloorBp) := by
    intro f hf k hk
    obtain ⟨hfm, hfno⟩ := Finset.mem_sdiff.mp hf
    obtain ⟨hleft, hright, -⟩ := (hmem.mp (Finset.mem_inter.mp hk).2).2
    rcases hwhole f hfm with hfk | ⟨hfl, hfr⟩
    · exact absurd (Finset.mem_inter.mpr ⟨hsub hfm, hmem.mpr ⟨hpart (hsub hfm), hfk⟩⟩) hfno
    · exact ⟨fun heq => hleft (heq ▸ hfl), fun heq => hright (heq ▸ hfr)⟩
  calc gap (edgesOf part) (utility part mp.assignmentFloorBp) e
      ≤ gap (edgesOf part ∩ graph cs' mp.assignmentFloorBp)
          (utility part mp.assignmentFloorBp) e :=
        gap_le_pruned _ Finset.inter_subset_left hsub hone hbest hdropped hlocal
    _ = gap (edgesOf part ∩ graph cs' mp.assignmentFloorBp)
          (utility cs' mp.assignmentFloorBp) e := by
        rw [gap, gap, best_congr hutility,
          best_congr fun f hf => hutility f (Finset.mem_of_mem_erase hf)]
    _ = gap (graph cs' mp.assignmentFloorBp) (utility cs' mp.assignmentFloorBp) e := by
        conv_rhs => rw [hsplit]
        exact (gap_local _ hapart hlocal).symm

/-- A kept pair that the other run accepts is accepted, with the same score and
no smaller gap. -/
theorem accepts_thinned (h : Stages digest s mp cp d solver pre g cs a r)
    (h' : Stages digest s' mp cp d' solver' pre' g' cs' a' r') (hopt : Optimal solver.minimize)
    (hopt' : Optimal solver'.minimize) (hgap : 1 ≤ mp.minimumGlobalGapBp)
    (ht : Thinned pre pre' gone barred) (hlimits : g.limitedRecordIds = [])
    (hlimits' : g'.limitedRecordIds = []) (ha : Accepts digest mp solver g cs part c)
    (hwhole : ∀ e ∈ chosenEdges digest g.limitedRecordIds mp solver part,
      Spared gone barred e ∨ gone .left e.1 ∧ gone .right e.2)
    (hkept : Spared gone barred c.edge) :
    ∃ part' c', Accepts digest mp solver' g' cs' part' c' ∧ Twin Eq c c' ∧
      gapOf part mp.assignmentFloorBp c.edge ≤ gapOf part' mp.assignmentFloorBp c'.edge := by
  have hp := ha.part_mem
  have hparts' := partsOf_spec cs' mp.assignmentFloorBp
  obtain ⟨hccs, hfloor⟩ := mem_eligible.mp ((partsOf_spec cs _).mem hp ha.mem)
  obtain ⟨c', hc', hcc⟩ := kept_candidate ht (preprocessed_distinct h.partitioned)
    (preprocessed_distinct h'.partitioned) h.gen h.scoredAll h'.gen h'.scoredAll hlimits' hccs hkept
  obtain ⟨part', hp', hcp'⟩ := hparts'.exists_mem
    (mem_eligible.mpr ⟨hc', (hcc.score ▸ hfloor : mp.assignmentFloorBp < c'.scoreBp)⟩)
  have hback : ∀ b' ∈ part', ∃ b ∈ part, Twin Eq b b' := fun b' hb' =>
    linked_thinned h h' ht hlimits hp ha.mem hcc ((hparts'.linked part' hp' c' hcp' b').mp hb')
  have hcomplete : ∀ b' ∈ part', b'.completeComputation = true := fun b' hb' =>
    (h'.scoredAll.complete b' (mem_eligible.mp (hparts'.mem hp' hb')).1).mpr (by simp [hlimits'])
  have hnone : limitReason g'.limitedRecordIds (lefts part') (rights part') mp.limits part' =
      none := by
    rw [hlimits']
    exact room_thinned (hparts'.unique (eligible_nodup h'.scoredSet.unique _) hp') hback ha.solved
      hcomplete
  have hle : gapOf part mp.assignmentFloorBp c.edge ≤
      gapOf part' mp.assignmentFloorBp c'.edge := by
    rw [gap_global h'.scoredSet hp' hcp', twin_edge hcc]
    exact gap_thinned h h' hopt ht hlimits hlimits' hp ha.solved hwhole
      (mem_edgesOf.mpr ⟨c, ha.mem, rfl⟩) hkept
  obtain ⟨hthreshold, hcoverage, hcontradictions, -, hminimum⟩ := gateReasons_nil.mp ha.passes
  have hminimum' : (mp.minimumGlobalGapBp : ℤ) ≤ gapOf part' mp.assignmentFloorBp c'.edge := by
    omega
  refine ⟨part', c', ⟨hp', hcp', hnone, ?_, gateReasons_nil.mpr ⟨?_, ?_, ?_, hcomplete c' hcp',
    hminimum'⟩⟩, hcc, hle⟩
  · exact selected_of_gap hopt' h'.scoredSet h'.version hp' hnone (by omega)
  · exact hcc.score ▸ hthreshold
  · exact hcc.coverage ▸ hcoverage
  · exact hcc.contradictions.mp hcontradictions

end Runs

section Fields
variable {digest : Digest} {s s' : EngineSnapshot} {mp : MatchingPolicy} {cp : ComparisonPolicy}
  {d : DecisionInputs} {solver : AssignmentSolver} {r : EngineResult} {p p' q q' : PairOutcome}

theorem recompared (hr : reconcile digest s mp cp d solver = .ok r) (hp : p ∈ r.pairs) :
    comparePair s mp cp (bare p) = .ok p := by
  simp only [reconcile, bind_ok] at hr
  obtain ⟨pre, -, g, -, cs, -, a, -, gated, -, est, hest, acc, hacc, us, -, primary, hprimary, ds,
    -, hr⟩ := hr
  obtain ⟨-, -, rfl⟩ := create_ok.mp hprimary
  obtain ⟨-, -, rfl⟩ := create_ok.mp hr
  have hmem : p ∈ est ++ acc := (sortOn_perm _ _).mem_iff.mp ((sortOn_perm _ _).mem_iff.mp hp)
  have hcompared : ∃ q, comparePair s mp cp q = .ok p := by
    rcases List.mem_append.mp hmem with hp | hp
    · obtain ⟨q, -, hq⟩ := mapM_mem_right hest hp
      exact ⟨q, hq⟩
    · obtain ⟨q, -, hq⟩ := mapM_mem_right hacc hp
      exact ⟨_, (acceptPair_ok.mp hq).2.2.2⟩
  obtain ⟨q, hq⟩ := hcompared
  rw [comparePair_bare hq]
  exact hq

theorem same_comparisons (h : comparePair s mp cp p = .ok q) (h' : comparePair s' mp cp p' = .ok q')
    (hleft : lookup (·.observationId) s.left p.leftId =
      lookup (·.observationId) s'.left p'.leftId)
    (hright : lookup (·.observationId) s.right p.rightId =
      lookup (·.observationId) s'.right p'.rightId)
    (horigin : p.origin = p'.origin) : q.comparisons = q'.comparisons := by
  unfold comparePair at h h'
  rw [← hleft, ← hright, ← horigin] at h'
  split at h
  · rename_i l q hl hq
    rw [hl, hq] at h'
    obtain ⟨fields, hfields, h⟩ := bind_ok.mp h
    obtain ⟨fields', hfields', h'⟩ := bind_ok.mp h'
    obtain rfl : fields' = fields := Except.ok.inj (hfields'.symm.trans hfields)
    obtain ⟨-, -, -, -, rfl⟩ := pair_create_ok.mp h
    obtain ⟨-, -, -, -, rfl⟩ := pair_create_ok.mp h'
    rfl
  · simp at h

end Fields

section Pairs
variable {digest : Digest} {s : EngineSnapshot} {mp : MatchingPolicy} {cp : ComparisonPolicy}
  {d : DecisionInputs} {solver : AssignmentSolver} {pre : ReferencePreprocessingResult}
  {g : CandidateGenerationResult} {cs : List CandidateEvidence} {a : AssignmentSolveResult}
  {r : EngineResult}

theorem bare_pairs (h : Stages digest s mp cp d solver pre g cs a r) {p : PairOutcome} :
    (∃ x ∈ r.pairs, bare x = p) ↔ p ∈ pre.pairs ∨ Weighted r p := by
  constructor
  · rintro ⟨x, hx, rfl⟩
    by_cases hw : x.origin = .weightedGlobal
    · exact .inr ⟨x, hx, hw, rfl⟩
    · exact .inl (h.established hx hw)
  · rintro (hp | ⟨x, hx, -, rfl⟩)
    · exact List.mem_map.mp (h.pairs.mem_iff.mpr (List.mem_append_left _ hp))
    · exact ⟨x, hx, rfl⟩

theorem mem_pairs (hr : reconcile digest s mp cp d solver = .ok r) {p : PairOutcome} :
    p ∈ r.pairs ↔ (∃ x ∈ r.pairs, bare x = bare p) ∧ comparePair s mp cp (bare p) = .ok p := by
  constructor
  · intro hp
    exact ⟨⟨p, hp, rfl⟩, recompared hr hp⟩
  · rintro ⟨⟨x, hx, hbare⟩, hp⟩
    have hsame := recompared hr hx
    rw [hbare, hp] at hsame
    exact Except.ok.inj hsame ▸ hx

end Pairs

end Workbench.Thinning
