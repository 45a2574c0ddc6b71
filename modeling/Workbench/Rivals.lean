import Workbench.Agreement
import Workbench.Exchange

/-!
# What the proposals are better than

A complete component leaves no candidate on the table: what is proposed at the
ends of a candidate is worth at least as much. An accepted pair beats every
candidate that would take one of its records, by its gap.
-/

set_option autoImplicit false

namespace Workbench.Rivals
open Workbench.Listing Workbench.Raising Workbench.Records Workbench.Evidence
open Workbench.References Workbench.Candidates Workbench.Json Workbench.Assignment
open Workbench.Components Workbench.Optimum Workbench.Matching Workbench.AssignmentOptimality
open Workbench.Gating Workbench.Acceptance Workbench.Engine Workbench.Reconciled
open Workbench.PaddedAssignment Workbench.Correspondence Workbench.Thinning Workbench.Agreement
open Workbench.Exchange
open Workbench.Renaming (rivalRun)

/-- The proposals at the ends of a candidate. -/
def atEnds (c : CandidateEvidence) (proposals : List ProposalEvidence) : List ProposalEvidence :=
  proposals.filter fun q => Touches c.edge q.edge

section Run
variable {digest : Digest} {s : EngineSnapshot} {mp : MatchingPolicy} {cp : ComparisonPolicy}
  {d : DecisionInputs} {solver : AssignmentSolver} {pre : ReferencePreprocessingResult}
  {g : CandidateGenerationResult} {cs part : List CandidateEvidence} {a : AssignmentSolveResult}
  {r : EngineResult} {y : AssignmentComponentEvidence} {c : CandidateEvidence}

def evidenceOf (digest : Digest) (g : CandidateGenerationResult) (cs : List CandidateEvidence)
    (mp : MatchingPolicy) (solver : AssignmentSolver) (part : List CandidateEvidence) :
    AssignmentComponentEvidence :=
  gatedOf cs mp (report digest g.limitedRecordIds mp solver part)

theorem component_part (hopt : Optimal solver.minimize)
    (h : Stages digest s mp cp d solver pre g cs a r) (hy : y ∈ r.components) :
    ∃ part ∈ partsOf cs mp.assignmentFloorBp, y = evidenceOf digest g cs mp solver part := by
  obtain ⟨x, hx, rfl⟩ := List.mem_map.mp (h.components.mem_iff.mp hy)
  obtain ⟨part, hp, rfl⟩ := List.mem_map.mp ((h.graph hopt).components.mem_iff.mp hx)
  exact ⟨part, hp, rfl⟩

theorem proposal_candidate (hopt : Optimal solver.minimize)
    (h : Stages digest s mp cp d solver pre g cs a r)
    (hp : part ∈ partsOf cs mp.assignmentFloorBp) {q : ProposalEvidence}
    (hq : q ∈ (evidenceOf digest g cs mp solver part).proposals) :
    ∃ b ∈ part, b.edge = q.edge ∧ b.scoreBp = q.scoreBp := by
  obtain ⟨-, b, hb, -, -, -, rfl⟩ := gated_proposal h.scoredSet hopt hp
    (report_spec digest g.limitedRecordIds h.scoredSet hopt h.version hp) hq
  exact ⟨b, hb, rfl, rfl⟩

theorem proposal_utility (hopt : Optimal solver.minimize)
    (h : Stages digest s mp cp d solver pre g cs a r)
    (hp : part ∈ partsOf cs mp.assignmentFloorBp) {q : ProposalEvidence}
    (hq : q ∈ (evidenceOf digest g cs mp solver part).proposals) :
    utility part mp.assignmentFloorBp q.edge = q.scoreBp-mp.assignmentFloorBp := by
  obtain ⟨b, hb, hedge, hscore⟩ := proposal_candidate hopt h hp hq
  rw [← hedge, utility_mem (part_solvable h.scoredSet hp).unique _ hb, hscore]

theorem chosen_toFinset (hopt : Optimal solver.minimize)
    (h : Stages digest s mp cp d solver pre g cs a r)
    (hp : part ∈ partsOf cs mp.assignmentFloorBp) :
    chosenEdges digest g.limitedRecordIds mp solver part =
      ((evidenceOf digest g cs mp solver part).proposals.map (·.edge)).toFinset := by
  rw [chosenEdges, evidenceOf, gated_edges h.scoredSet hopt hp
    (report_spec digest g.limitedRecordIds h.scoredSet hopt h.version hp)]

/-- A proposal that shares a record with a candidate is of the candidate's
component. -/
theorem proposal_here (hopt : Optimal solver.minimize)
    (h : Stages digest s mp cp d solver pre g cs a r)
    (hp : part ∈ partsOf cs mp.assignmentFloorBp) (hc : c ∈ part) {q : ProposalEvidence}
    (hy : y ∈ r.components) (hq : q ∈ y.proposals) (htouch : Touches c.edge q.edge) :
    q ∈ (evidenceOf digest g cs mp solver part).proposals := by
  obtain ⟨other, ho, rfl⟩ := component_part hopt h hy
  obtain ⟨b, hb, hedge, -⟩ := proposal_candidate hopt h ho hq
  obtain rfl := (partsOf_spec cs mp.assignmentFloorBp).same hp ho hc hb
    (show Touches c.edge b.edge from hedge ▸ htouch)
  exact hq

theorem worth_at_ends (hopt : Optimal solver.minimize)
    (h : Stages digest s mp cp d solver pre g cs a r)
    (hp : part ∈ partsOf cs mp.assignmentFloorBp)
    (hcomplete : (evidenceOf digest g cs mp solver part).complete = true) :
    ∑ x ∈ (chosenEdges digest g.limitedRecordIds mp solver part).filter (Touches c.edge),
        utility part mp.assignmentFloorBp x =
      ((atEnds c (evidenceOf digest g cs mp solver part).proposals).map
        fun q => q.scoreBp-mp.assignmentFloorBp).sum := by
  have hpart := report_spec digest g.limitedRecordIds h.scoredSet hopt h.version hp
  have hnodup : ((evidenceOf digest g cs mp solver part).proposals.map (·.edge)).Nodup := by
    rw [evidenceOf, gated_edges h.scoredSet hopt hp hpart]
    exact (hpart.selected hcomplete).nodup
  have hsublist : ((atEnds c (evidenceOf digest g cs mp solver part).proposals).map
      (·.edge)).Nodup := hnodup.sublist (List.filter_sublist.map _)
  have hfilter : (chosenEdges digest g.limitedRecordIds mp solver part).filter (Touches c.edge) =
      ((atEnds c (evidenceOf digest g cs mp solver part).proposals).map (·.edge)).toFinset := by
    rw [chosen_toFinset hopt h hp]
    ext x
    simp only [atEnds, Finset.mem_filter, List.mem_toFinset, List.mem_map, List.mem_filter,
      decide_eq_true_eq]
    constructor
    · rintro ⟨⟨q, hq, rfl⟩, ht⟩
      exact ⟨q, ⟨hq, ht⟩, rfl⟩
    · rintro ⟨q, ⟨hq, ht⟩, rfl⟩
      exact ⟨⟨q, hq, rfl⟩, ht⟩
  rw [hfilter, List.sum_toFinset _ hsublist, List.map_map]
  congr 1
  exact List.map_congr_left fun q hq =>
    proposal_utility hopt h hp (List.mem_of_mem_filter hq)

theorem complete_unlimited (hopt : Optimal solver.minimize)
    (h : Stages digest s mp cp d solver pre g cs a r)
    (hp : part ∈ partsOf cs mp.assignmentFloorBp) :
    (evidenceOf digest g cs mp solver part).complete = true ↔
      limitReason g.limitedRecordIds (lefts part) (rights part) mp.limits part = none :=
  report_complete hopt h.scoredSet h.version g.limitedRecordIds hp

/-- What a complete component proposes at the ends of a candidate above the
floor is worth at least the candidate. -/
theorem complete_leaves_nothing (hopt : Optimal solver.minimize)
    (hr : reconcile digest s mp cp d solver = .ok r) (hy : y ∈ r.components)
    (hcomplete : y.complete = true) (hc : c ∈ r.candidates)
    (hfloor : mp.assignmentFloorBp < c.scoreBp)
    (hin : c.leftId ∈ y.leftIds ∨ c.rightId ∈ y.rightIds) :
    atEnds c y.proposals ≠ [] ∧ c.scoreBp-mp.assignmentFloorBp ≤
      ((atEnds c y.proposals).map fun q => q.scoreBp-mp.assignmentFloorBp).sum := by
  obtain ⟨pre, g, cs, a, h⟩ := reconcile_stages hopt hr
  obtain ⟨part, hp, rfl⟩ := component_part hopt h hy
  have hpart := report_spec digest g.limitedRecordIds h.scoredSet hopt h.version hp
  have heligible : c ∈ eligible cs mp.assignmentFloorBp :=
    mem_eligible.mpr ⟨h.candidates.mem_iff.mp hc, hfloor⟩
  have hmember : ∃ b ∈ part, Touch b c := by
    rcases hin with hin | hin
    · have hleft : c.leftId ∈ lefts part := hpart.leftIds ▸ hin
      obtain ⟨b, hb, hbc⟩ := mem_lefts.mp hleft
      exact ⟨b, hb, .inl hbc⟩
    · have hright : c.rightId ∈ rights part := hpart.rightIds ▸ hin
      obtain ⟨b, hb, hbc⟩ := mem_rights.mp hright
      exact ⟨b, hb, .inr hbc⟩
  obtain ⟨b, hb, hbc⟩ := hmember
  have hcp : c ∈ part := (partsOf_spec cs mp.assignmentFloorBp).closed hp hb heligible hbc
  obtain ⟨hsub, hone, hbest⟩ := chosen_optimal hopt h.scoredSet h.version hp
    ((complete_unlimited hopt h hp).mp hcomplete)
  have hle := rival_le _ hsub hone hbest (mem_edgesOf.mpr ⟨c, hcp, rfl⟩)
  rw [utility_mem (part_solvable h.scoredSet hp).unique _ hcp,
    worth_at_ends hopt h hp hcomplete] at hle
  refine ⟨fun hnil => ?_, hle⟩
  rw [hnil, List.map_nil, List.sum_nil] at hle
  omega

/-- A candidate above the floor that would take a record of an accepted pair
scores less by the gap of the pair, once what is proposed for its other record
is made up for. -/
theorem accepted_beats_rivals (hopt : Optimal solver.minimize)
    (hr : reconcile digest s mp cp d solver = .ok r) {p : PairOutcome} (hp : p ∈ r.pairs)
    (hw : p.origin = .weightedGlobal) (hc : c ∈ r.candidates)
    (hfloor : mp.assignmentFloorBp < c.scoreBp) (hne : c.edge ≠ p.edge)
    (htouch : Touches c.edge p.edge) :
    ∃ scoreBp ∈ p.scoreBp, ∃ gapBp ∈ p.globalGapBp, mp.minimumGlobalGapBp ≤ gapBp ∧
      ((∀ e ∈ proposedEdges r, Touches c.edge e → e = p.edge) → c.scoreBp+gapBp ≤ scoreBp) ∧
      ∀ y ∈ r.components, ∀ q ∈ y.proposals, Touches c.edge q.edge → q.edge ≠ p.edge →
        c.scoreBp+gapBp+mp.assignmentFloorBp ≤ scoreBp+q.scoreBp := by
  obtain ⟨pre, g, cs, a, h⟩ := reconcile_stages hopt hr
  obtain ⟨part, b, ha, hpb⟩ := (weighted_iff hopt h).mp ⟨p, hp, hw, rfl⟩
  have hpart := ha.part_mem
  have hedge : p.edge = b.edge := (congrArg PairOutcome.edge hpb :)
  rw [hedge] at hne htouch
  have hcp : c ∈ part := (partsOf_spec cs mp.assignmentFloorBp).closed hpart ha.mem
    (mem_eligible.mpr ⟨h.candidates.mem_iff.mp hc, hfloor⟩)
    (htouch.imp Eq.symm Eq.symm : b.leftId = c.leftId ∨ b.rightId = c.rightId)
  have hunique := (part_solvable h.scoredSet hpart).unique
  have hbfloor := (mem_eligible.mp ((partsOf_spec cs _).mem hpart ha.mem)).2
  obtain ⟨hsub, hone, hbest⟩ := chosen_optimal hopt h.scoredSet h.version hpart ha.solved
  have hchosen : b.edge ∈ chosenEdges digest g.limitedRecordIds mp solver part := by
    obtain ⟨e, he, hbe⟩ := ha.selected
    exact List.mem_toFinset.mpr (hbe ▸ List.mem_map_of_mem he)
  have hle := rival_gap _ hsub hone hbest (mem_edgesOf.mpr ⟨c, hcp, rfl⟩) hne htouch
  rw [utility_mem hunique _ hcp] at hle
  have hgap : mp.minimumGlobalGapBp ≤ gapOf part mp.assignmentFloorBp b.edge := by
    exact_mod_cast (gateReasons_nil.mp ha.passes).2.2.2.2
  have hproposed : ∀ {e}, e ∈ chosenEdges digest g.limitedRecordIds mp solver part →
      e ∈ proposedEdges r := fun he => (mem_proposedEdges hopt h).mpr ⟨part, hpart, he⟩
  have hhere : ∀ {y q}, y ∈ r.components → q ∈ y.proposals → Touches c.edge q.edge →
      q ∈ (evidenceOf digest g cs mp solver part).proposals ∧
        q.edge ∈ chosenEdges digest g.limitedRecordIds mp solver part := by
    intro y q hy hq ht
    have hq := proposal_here hopt h hpart hcp hy hq ht
    rw [chosen_toFinset hopt h hpart]
    exact ⟨hq, List.mem_toFinset.mpr (List.mem_map_of_mem hq)⟩
  refine ⟨b.scoreBp, (congrArg PairOutcome.scoreBp hpb :),
    gapOf part mp.assignmentFloorBp b.edge, (congrArg PairOutcome.globalGapBp hpb :), hgap,
    fun halone => ?_, fun y hy q hq ht hqp => ?_⟩
  · rcases touching_cases hone hchosen htouch with hsingle | ⟨k, hk, hkb, hkc, -⟩
    · rw [hsingle, Finset.sum_singleton, utility_mem hunique _ ha.mem] at hle
      unfold gapOf
      omega
    · exact absurd ((halone k (hproposed hk) hkc).trans hedge) hkb
  · obtain ⟨hqpart, hqchosen⟩ := hhere hy hq ht
    have hqmem : q.edge ∈ (chosenEdges digest g.limitedRecordIds mp solver part).filter
        (Touches c.edge) := Finset.mem_filter.mpr ⟨hqchosen, ht⟩
    rw [hedge] at hqp
    rcases touching_cases hone hchosen htouch with hsingle | ⟨k, -, hkb, -, hpair⟩
    · rw [hsingle, Finset.mem_singleton] at hqmem
      exact absurd hqmem hqp
    · rw [hpair, Finset.mem_insert, Finset.mem_singleton] at hqmem
      obtain rfl := hqmem.resolve_left hqp
      rw [hpair, Finset.sum_pair hkb.symm, utility_mem hunique _ ha.mem,
        proposal_utility hopt h hpart hqpart] at hle
      obtain ⟨x, hx, -, hscore⟩ := proposal_candidate hopt h hpart hqpart
      have hqfloor := (mem_eligible.mp ((partsOf_spec cs _).mem hpart hx)).2
      unfold gapOf
      omega

end Run

set_option synthInstance.maxSize 256 in
theorem rivalRun_outcome : rivalRun.toOption.map (fun r =>
    (r.candidates.map fun c => (c.edge, c.scoreBp), (weightedOf r.pairs).map (·.edge),
      r.components.map fun y => (y.leftIds, y.complete), proposedEdges r)) =
    some ([(("L1", "R1"), 10000), (("L1", "R2"), 8500)], [("L1", "R1")], [(["L1"], true)],
      [("L1", "R1")]) := by
  decide +kernel

theorem rivalRun_returns : ∃ r, rivalRun = .ok r ∧
    (∃ c ∈ r.candidates, c.edge = ("L1", "R2") ∧ c.scoreBp = 8500) ∧
    (∃ p ∈ r.pairs, p.origin = .weightedGlobal ∧ p.edge = ("L1", "R1")) ∧
    (∃ y ∈ r.components, y.leftIds = ["L1"] ∧ y.complete = true) ∧
    proposedEdges r = [("L1", "R1")] := by
  obtain ⟨r, hr, hall⟩ := ok_of_toOption rivalRun_outcome
  obtain ⟨hcandidates, hall⟩ := Prod.mk.inj hall
  obtain ⟨hpairs, hall⟩ := Prod.mk.inj hall
  obtain ⟨hcomponents, hproposed⟩ := Prod.mk.inj hall
  refine ⟨r, hr, ?_, ?_, ?_, hproposed⟩
  · obtain ⟨c, hc, heq⟩ := List.mem_map.mp (hcandidates ▸ by decide :
      (("L1", "R2"), 8500) ∈ r.candidates.map fun c => (c.edge, c.scoreBp))
    exact ⟨c, hc, Prod.mk.inj heq⟩
  · obtain ⟨p, hp, hedge⟩ := List.mem_map.mp (hpairs ▸ by decide :
      ("L1", "R1") ∈ (weightedOf r.pairs).map (·.edge))
    obtain ⟨hmem, horigin⟩ := List.mem_filter.mp hp
    exact ⟨p, hmem, of_decide_eq_true horigin, hedge⟩
  · obtain ⟨y, hy, heq⟩ := List.mem_map.mp (hcomponents ▸ by decide :
      (["L1"], true) ∈ r.components.map fun y => (y.leftIds, y.complete))
    exact ⟨y, hy, Prod.mk.inj heq⟩

theorem complete_leaves_nothing_sample : ∃ r, rivalRun = .ok r ∧ ∃ y ∈ r.components,
    ∃ c ∈ r.candidates, c.edge = ("L1", "R2") ∧ atEnds c y.proposals ≠ [] ∧
      3500 ≤ ((atEnds c y.proposals).map fun q => q.scoreBp-5000).sum := by
  obtain ⟨r, hr, ⟨c, hc, hedge, hscore⟩, -, ⟨y, hy, hids, hcomplete⟩, -⟩ := rivalRun_returns
  have hleft : c.leftId = "L1" := (congrArg Prod.fst hedge :)
  have hfloor : (samplePolicy sampleLimits).assignmentFloorBp < c.scoreBp := by
    rw [hscore]
    decide
  have hin : c.leftId ∈ y.leftIds := by
    rw [hleft, hids]
    exact List.mem_singleton_self _
  obtain ⟨hne, hworth⟩ :=
    complete_leaves_nothing sample_optimal hr hy hcomplete hc hfloor (.inl hin)
  rw [hscore] at hworth
  exact ⟨r, hr, y, hy, c, hc, hedge, hne, hworth⟩

theorem accepted_beats_rivals_sample : ∃ r, rivalRun = .ok r ∧ ∃ p ∈ r.pairs,
    p.edge = ("L1", "R1") ∧ ∃ scoreBp ∈ p.scoreBp, ∃ gapBp ∈ p.globalGapBp,
      8500+gapBp ≤ scoreBp := by
  obtain ⟨r, hr, ⟨c, hc, hedge, hscore⟩, ⟨p, hp, hw, hpe⟩, -, hproposed⟩ := rivalRun_returns
  have hfloor : (samplePolicy sampleLimits).assignmentFloorBp < c.scoreBp := by
    rw [hscore]
    decide
  obtain ⟨scoreBp, hs, gapBp, hg, -, halone, -⟩ := accepted_beats_rivals sample_optimal hr hp hw hc
    hfloor (by rw [hedge, hpe]; decide) (by rw [hedge, hpe]; decide)
  refine ⟨r, hr, p, hp, hpe, scoreBp, hs, gapBp, hg, hscore ▸ halone fun e he _ => ?_⟩
  rw [hproposed, List.mem_singleton] at he
  rw [he, hpe]

end Workbench.Rivals
