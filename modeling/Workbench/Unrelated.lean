import Workbench.Agreement
import Workbench.LiftedLimits

/-!
# Records that have nothing to do with each other

A snapshot gains records that carry no reference of an old record and that no
pass compares with one. The graph falls apart into the old part and the new
one, so the pairs between old records are what they were.
-/

set_option autoImplicit false

namespace Workbench.Unrelated
open Workbench.Listing Workbench.Raising Workbench.Records Workbench.Evidence
open Workbench.References Workbench.Reservations Workbench.Candidates Workbench.Json
open Workbench.SearchSpace Workbench.Generation Workbench.Scores Workbench.Assignment
open Workbench.Components Workbench.Optimum Workbench.Matching Workbench.AssignmentOptimality
open Workbench.Gating Workbench.Acceptance Workbench.Engine Workbench.Reconciled
open Workbench.PaddedAssignment Workbench.Correspondence Workbench.Thinning
open Workbench.LiftedLimits Workbench.Renaming Workbench.Totality Workbench.Agreement

/-- The larger snapshot adds records that share no reference with an old record
of either side and are compared with none. -/
structure Enlarges (contract : ReferenceContract) (passes : List BlockingPassPolicy)
    (s s' : EngineSnapshot) : Prop where
  old : ∀ side, ∀ q ∈ s.records side, q ∈ s'.records side
  unshared : ∀ side, ∀ q ∈ s'.records side, q ∉ s.records side → ∀ other, ∀ o ∈ s.records other,
    ∀ key, referenceKey contract q = some key → referenceKey contract o ≠ some key
  apart : ∀ pass ∈ passes, ∀ l ∈ s'.left, ∀ q ∈ s'.right, Compatible pass l q →
    (l ∈ s.left ↔ q ∈ s.right)

def added (s : EngineSnapshot) (side : RecordSide) (i : String) : Prop := i ∉ ids (s.records side)

section Snapshots
variable {contract : ReferenceContract} {passes : List BlockingPassPolicy}
  {s s' : EngineSnapshot} {d : DecisionInputs} {side : RecordSide} {i key : String}
  {p : PairOutcome}

theorem Enlarges.same (h : Enlarges contract passes s s') {q : MatchRecord}
    (hq : q ∈ s'.records side) : q.observationId ∈ ids (s.records side) ↔ q ∈ s.records side := by
  refine ⟨fun hin => ?_, fun hin => List.mem_map_of_mem hin⟩
  obtain ⟨o, ho, hid⟩ := mem_ids hin
  exact s'.record_eq (h.old side o ho) hq hid ▸ ho

theorem Enlarges.available (h : Enlarges contract passes s s') :
    i ∈ available s side ↔ i ∈ available s' side ∧ i ∈ ids (s.records side) := by
  rw [mem_available, mem_available]
  constructor
  · rintro ⟨q, hq, he, rfl⟩
    exact ⟨⟨q, h.old side q hq, he, rfl⟩, List.mem_map_of_mem hq⟩
  · rintro ⟨⟨q, hq, he, rfl⟩, hin⟩
    exact ⟨q, (h.same hq).mp hin, he, rfl⟩

theorem Enlarges.free (h : Enlarges contract passes s s') :
    Free s d side i ↔ Free s' d side i ∧ i ∈ ids (s.records side) := by
  unfold Free
  rw [h.available]
  constructor
  · rintro ⟨⟨ha, hin⟩, hrest⟩
    exact ⟨⟨ha, hrest⟩, hin⟩
  · rintro ⟨⟨ha, hrest⟩, hin⟩
    exact ⟨⟨ha, hin⟩, hrest⟩

theorem Enlarges.sharing (h : Enlarges contract passes s s') :
    i ∈ Reservations.sharing s d contract side key ↔
      i ∈ Reservations.sharing s' d contract side key ∧ i ∈ ids (s.records side) := by
  simp only [mem_sharing, mem_freeRecords]
  constructor
  · rintro ⟨q, ⟨hq, hf⟩, hk, rfl⟩
    obtain ⟨hf', hin⟩ := h.free.mp hf
    exact ⟨⟨q, ⟨h.old side q hq, hf'⟩, hk, rfl⟩, hin⟩
  · rintro ⟨⟨q, ⟨hq, hf⟩, hk, rfl⟩, hin⟩
    exact ⟨q, ⟨(h.same hq).mp hin, h.free.mpr ⟨hf, hin⟩⟩, hk, rfl⟩

theorem Enlarges.carriers (h : Enlarges contract passes s s') {o : RecordSide} {j : String}
    (hj : j ∈ Reservations.sharing s d contract o key) (side : RecordSide) :
    Reservations.sharing s' d contract side key = Reservations.sharing s d contract side key := by
  obtain ⟨q, hq, hqk, -⟩ := mem_sharing.mp hj
  have hold := (mem_freeRecords.mp hq).1
  have hall : ∀ i, i ∈ Reservations.sharing s' d contract side key ↔
      i ∈ Reservations.sharing s d contract side key := by
    intro i
    rw [h.sharing]
    refine (and_iff_left_of_imp fun hi => ?_).symm
    obtain ⟨x, hx, hxk, rfl⟩ := mem_sharing.mp hi
    have hx' := (mem_freeRecords.mp hx).1
    by_contra hnew
    exact h.unshared side x hx' (fun hin => hnew ((h.same hx').mpr hin)) o q hold key hxk hqk
  refine List.Perm.eq_of_pairwise ?_ (sortOn_pairwise id _) (sortOn_pairwise id _)
    ((List.perm_ext_iff_of_nodup (sharing_nodup side key) (sharing_nodup side key)).mpr hall)
  intro a b _ _ hab hba
  exact le_antisymm hab hba

theorem Enlarges.conflict (h : Enlarges contract passes s s') :
    i ∈ conflictIds s d contract side ↔
      i ∈ conflictIds s' d contract side ∧ i ∈ ids (s.records side) := by
  have hdup : ∀ {k}, i ∈ Reservations.sharing s d contract side k →
      (Duplicated s d contract k ↔ Duplicated s' d contract k) := by
    intro k hi
    unfold Duplicated Conflicting
    rw [h.carriers hi .left, h.carriers hi .right]
  rw [mem_conflictIds, mem_conflictIds]
  constructor
  · rintro ⟨k, hd, hi⟩
    obtain ⟨hi', hin⟩ := h.sharing.mp hi
    exact ⟨⟨k, (hdup hi).mp hd, hi'⟩, hin⟩
  · rintro ⟨⟨k, hd, hi'⟩, hin⟩
    have hi := h.sharing.mpr ⟨hi', hin⟩
    exact ⟨k, (hdup hi).mpr hd, hi⟩

theorem Enlarges.prohibits (h : Enlarges contract passes s s') {e : Edge} :
    e ∈ (prohibitedRelationships s d).map (·.edge) ↔
      e ∈ (prohibitedRelationships s' d).map (·.edge) ∧ e.1 ∈ ids s.left ∧ e.2 ∈ ids s.right := by
  rw [Workbench.Overrides.mem_prohibited, Workbench.Overrides.mem_prohibited]
  constructor
  · rintro ⟨hr, hl, hq⟩
    obtain ⟨l, hl', hlid⟩ := mem_ids hl
    obtain ⟨q, hq', hqid⟩ := mem_ids hq
    exact ⟨⟨hr, hlid ▸ List.mem_map_of_mem (h.old .left l hl'),
      hqid ▸ List.mem_map_of_mem (h.old .right q hq')⟩, hl, hq⟩
  · rintro ⟨⟨hr, -⟩, hends⟩
    exact ⟨hr, hends⟩

/-- The references establish the same pairs between old records, and no pair of
an old record with a new one. -/
theorem Enlarges.established (h : Enlarges contract passes s s') :
    p ∈ referencePairs s d contract ↔ p ∈ referencePairs s' d contract ∧
      ∃ side, p.endId side ∈ ids (s.records side) := by
  constructor
  · intro hp
    obtain ⟨k, hp⟩ := mem_referencePairs.mp hp
    obtain ⟨hl, hr, hno, hp⟩ := mem_established.mp hp
    have hleft : p.leftId ∈ Reservations.sharing s d contract .left k :=
      hl ▸ List.mem_singleton_self _
    have hright : p.rightId ∈ Reservations.sharing s d contract .right k :=
      hr ▸ List.mem_singleton_self _
    refine ⟨mem_referencePairs.mpr ⟨k, mem_established.mpr ⟨(h.carriers hleft .left).trans hl,
      (h.carriers hleft .right).trans hr, fun hp' => hno (h.prohibits.mpr ⟨hp', ?_, ?_⟩), hp⟩⟩,
      .left, (h.sharing.mp hleft).2⟩
    · exact (h.sharing.mp hleft).2
    · exact (h.sharing.mp hright).2
  · rintro ⟨hp, side, hin⟩
    obtain ⟨k, hp⟩ := mem_referencePairs.mp hp
    obtain ⟨hl, hr, hno, hp⟩ := mem_established.mp hp
    have hmem : p.endId side ∈ Reservations.sharing s' d contract side k := by
      cases side
      · exact hl ▸ List.mem_singleton_self _
      · exact hr ▸ List.mem_singleton_self _
    have hmem' := h.sharing.mpr ⟨hmem, hin⟩
    exact mem_referencePairs.mpr ⟨k, mem_established.mpr ⟨(h.carriers hmem' .left).symm.trans hl,
      (h.carriers hmem' .right).symm.trans hr, fun hp' => hno (h.prohibits.mp hp').1, hp⟩⟩

theorem Enlarges.remains (h : Enlarges contract passes s s') :
    Open s d contract side i ↔ Open s' d contract side i ∧ i ∈ ids (s.records side) := by
  have hreferred : i ∈ ids (s.records side) → (i ∈ (referencePairs s d contract).map (·.endId side)
      ↔ i ∈ (referencePairs s' d contract).map (·.endId side)) := by
    intro hin
    simp only [List.mem_map, h.established]
    constructor
    · rintro ⟨x, ⟨hx, -⟩, hend⟩
      exact ⟨x, hx, hend⟩
    · rintro ⟨x, hx, rfl⟩
      exact ⟨x, ⟨hx, side, hin⟩, rfl⟩
  unfold Open
  by_cases hin : i ∈ ids (s.records side)
  · rw [h.free, h.conflict, hreferred hin]
    simp only [hin, and_true]
  · rw [h.free]
    simp only [hin, and_false, false_and]

end Snapshots

theorem twins_symm {p q : List CandidateEvidence} (h : Twins Eq p q) : Twins Eq q p := by
  refine ⟨h.right_unique, h.left_unique, fun c hc => ?_, fun c hc => ?_⟩
  · obtain ⟨b, hb, ht⟩ := h.from_twin c hc
    exact ⟨b, hb, ⟨ht.edge.1.symm, ht.edge.2.symm⟩, ht.score.symm, ht.contradictions.symm,
      ht.coverage.symm⟩
  · obtain ⟨b, hb, ht⟩ := h.twin c hc
    exact ⟨b, hb, ⟨ht.edge.1.symm, ht.edge.2.symm⟩, ht.score.symm, ht.contradictions.symm,
      ht.coverage.symm⟩

section Runs
variable {digest : Digest} {s s' : EngineSnapshot} {mp : MatchingPolicy} {cp : ComparisonPolicy}
  {d d' : DecisionInputs} {solver : AssignmentSolver} {pre pre' : ReferencePreprocessingResult}
  {g g' : CandidateGenerationResult} {cs cs' part part' : List CandidateEvidence}
  {a a' : AssignmentSolveResult} {r r' : EngineResult} {c c' : CandidateEvidence}

/-- A candidate accepted in one run is accepted in another one that has the same
component. -/
theorem accepts_twins (hopt : Optimal solver.minimize)
    (h : Stages digest s mp cp d solver pre g cs a r)
    (h' : Stages digest s' mp cp d' solver pre' g' cs' a' r') (hlimits' : g'.limitedRecordIds = [])
    (hp' : part' ∈ partsOf cs' mp.assignmentFloorBp) (hc' : c' ∈ part') (ht : Twin Eq c c')
    (htwins : Twins Eq part part') (ha : Accepts digest mp solver g cs part c) :
    Accepts digest mp solver g' cs' part' c' ∧ pairOf mp part' c' = pairOf mp part c := by
  obtain ⟨hlefts, hrights, hlength⟩ := htwins.sizes eq_biUnique
  obtain ⟨-, hnodes, hedges⟩ := limitReason_none.mp ha.solved
  have hgap : gapOf part' mp.assignmentFloorBp c'.edge =
      gapOf part mp.assignmentFloorBp c.edge := by
    rw [same_edge ht, twins_gap htwins]
  have hnone : limitReason g'.limitedRecordIds (lefts part') (rights part') mp.limits part' =
      none := by
    refine limitReason_none.mpr ⟨⟨by simp [hlimits'], fun b hb => ?_⟩, by omega, by omega⟩
    have hmem := (mem_eligible.mp ((partsOf_spec cs' _).mem hp' hb)).1
    exact (h'.scoredAll.complete b hmem).mpr (by simp [hlimits'])
  have hreport : solveConnected digest g'.limitedRecordIds (mp.withLimits mp.limits) solver part' =
      .ok (report digest g'.limitedRecordIds mp solver part') :=
    report_ok h'.scoredSet hopt h'.version hp'
  have hsame : (report digest g'.limitedRecordIds mp solver part').selectedEdges =
      (report digest g.limitedRecordIds mp solver part).selectedEdges :=
    selection_twins htwins (report_ok h.scoredSet hopt h.version ha.part_mem) hreport
      ((report_complete hopt h.scoredSet h.version _ ha.part_mem).mpr ha.solved)
      ((report_complete hopt h'.scoredSet h'.version _ hp').mpr hnone)
  have hselected : ∃ e ∈ (report digest g'.limitedRecordIds mp solver part').selectedEdges,
      c'.edge = e.edge := by
    obtain ⟨e, he, hce⟩ := ha.selected
    exact ⟨e, hsame ▸ he, (same_edge ht).symm.trans hce⟩
  have hacc : Accepts digest (mp.withLimits mp.limits) solver g' cs' part' c' :=
    ha.transfer ht hp' hc' hnone hselected hgap
  refine ⟨hacc, ?_⟩
  have hleft : c.leftId = c'.leftId := ht.edge.1
  have hright : c.rightId = c'.rightId := ht.edge.2
  rw [pairOf, pairOf, hgap, hleft, hright, ht.score]

theorem Enlarges.thinned (he : Enlarges mp.referenceContract mp.blockingPasses s s')
    (hpre : Preprocessed s d mp.referenceContract pre)
    (hpre' : Preprocessed s' d mp.referenceContract pre') :
    Thinned pre' pre (added s) fun _ => False := by
  have hremaining : ∀ side q, q ∈ pre.remaining side ↔
      q ∈ pre'.remaining side ∧ ¬added s side q.observationId := by
    intro side q
    rw [hpre.remaining side, hpre'.remaining side, List.mem_filter, List.mem_filter,
      decide_eq_true_eq, decide_eq_true_eq, he.remains, added, not_not]
    constructor
    · rintro ⟨hq, hopen, hin⟩
      exact ⟨⟨he.old side q hq, hopen⟩, hin⟩
    · rintro ⟨⟨hq, hopen⟩, hin⟩
      exact ⟨(he.same hq).mp hin, hopen, hin⟩
  refine ⟨hremaining, fun l hl q hq => ?_⟩
  rw [Workbench.Reasons.prohibited_iff hpre hl hq, Workbench.Reasons.prohibited_iff hpre'
    ((hremaining .left l).mp hl).1 ((hremaining .right q).mp hq).1, or_false]

theorem Enlarges.cut (he : Enlarges mp.referenceContract mp.blockingPasses s s')
    (h' : Stages digest s' mp cp d solver pre' g' cs' a' r') (hc : c ∈ cs') :
    added s .left c.leftId ↔ added s .right c.rightId := by
  obtain ⟨l, hl, q, hq, hscored, ⟨pass, hpass, hcompatible⟩, -⟩ :=
    scored_records (preprocessed_distinct h'.partitioned) h'.gen h'.scoredAll hc
  have hl' : l ∈ s'.records .left := remaining_mem h'.partitioned .left hl
  have hq' : q ∈ s'.records .right := remaining_mem h'.partitioned .right hq
  rw [added, added, hscored.leftId, hscored.rightId, he.same hl', he.same hq']
  exact not_congr (he.apart pass hpass l hl' q hq' hcompatible)

/-- What is linked to an old candidate in the larger run is old. -/
theorem linked_old (he : Enlarges mp.referenceContract mp.blockingPasses s s')
    (h : Stages digest s mp cp d solver pre g cs a r)
    (h' : Stages digest s' mp cp d solver pre' g' cs' a' r') (hlimits : g.limitedRecordIds = [])
    (hp : part ∈ partsOf cs mp.assignmentFloorBp) (hc : c ∈ part) (hcc : Twin Eq c' c)
    {b' : CandidateEvidence} (hl : Linked (eligible cs' mp.assignmentFloorBp) c' b') :
    ∃ b ∈ part, Twin Eq b' b := by
  have hparts := partsOf_spec cs mp.assignmentFloorBp
  induction hl with
  | refl => exact ⟨c, hc, hcc⟩
  | @tail x' y' _ hstep ih =>
    obtain ⟨x, hx, hxx⟩ := ih
    obtain ⟨hy', htouch⟩ := hstep
    obtain ⟨hmem', hfloor'⟩ := mem_eligible.mp hy'
    obtain ⟨hleft, hright⟩ := candidate_ends h.partitioned h.scoredAll x
      (mem_eligible.mp (hparts.mem hp hx)).1
    have hcut := he.cut h' hmem'
    have hl : x'.leftId = x.leftId := hxx.edge.1
    have hq : x'.rightId = x.rightId := hxx.edge.2
    -- The end that the two share is old, so the other one is.
    have hkept : Spared (added s) (fun _ => False) y'.edge := by
      rcases htouch with hend | hend
      · have hold : ¬added s .left y'.leftId :=
          not_not.mpr (hend ▸ hl ▸ hleft)
        exact ⟨hold, mt hcut.mpr hold, not_false⟩
      · have hold : ¬added s .right y'.rightId :=
          not_not.mpr (hend ▸ hq ▸ hright)
        exact ⟨mt hcut.mp hold, hold, not_false⟩
    obtain ⟨y, hy, hyy⟩ := kept_candidate (he.thinned h.partitioned h'.partitioned)
      (preprocessed_distinct h'.partitioned) (preprocessed_distinct h.partitioned) h'.gen
      h'.scoredAll h.gen h.scoredAll hlimits hmem' hkept
    exact ⟨y, hparts.closed hp hx (mem_eligible.mpr ⟨hy, hyy.score ▸ hfloor'⟩)
      (hxx.touch eq_biUnique hyy htouch), hyy⟩

theorem old_twins (he : Enlarges mp.referenceContract mp.blockingPasses s s')
    (h : Stages digest s mp cp d solver pre g cs a r)
    (h' : Stages digest s' mp cp d solver pre' g' cs' a' r') (hlimits : g.limitedRecordIds = [])
    (hlimits' : g'.limitedRecordIds = []) (hp : part ∈ partsOf cs mp.assignmentFloorBp)
    (hp' : part' ∈ partsOf cs' mp.assignmentFloorBp) (hc : c ∈ part) (hc' : c' ∈ part')
    (hcc : Twin Eq c' c) : Twins Eq part' part := by
  have hparts := partsOf_spec cs mp.assignmentFloorBp
  have hparts' := partsOf_spec cs' mp.assignmentFloorBp
  refine ⟨hparts'.unique (eligible_nodup h'.scoredSet.unique _) hp',
    hparts.unique (eligible_nodup h.scoredSet.unique _) hp, fun b' hb' => ?_, fun b hb => ?_⟩
  · exact linked_old he h h' hlimits hp hc hcc ((hparts'.linked part' hp' c' hc' b').mp hb')
  · exact linked_thinned h' h (he.thinned h.partitioned h'.partitioned) hlimits' hp' hc' hcc
      ((hparts.linked part hp c hc b).mp hb)

/-- The weighted pairs of the smaller run are those of the larger one between
old records. -/
theorem weighted_old (he : Enlarges mp.referenceContract mp.blockingPasses s s')
    (hopt : Optimal solver.minimize) (h : Stages digest s mp cp d solver pre g cs a r)
    (h' : Stages digest s' mp cp d solver pre' g' cs' a' r') (hlimits : g.limitedRecordIds = [])
    (hlimits' : g'.limitedRecordIds = []) {p : PairOutcome} :
    Weighted r p ↔ Weighted r' p ∧ p.leftId ∈ ids s.left ∧ p.rightId ∈ ids s.right := by
  have ht := he.thinned h.partitioned h'.partitioned
  have hd := preprocessed_distinct h.partitioned
  have hd' := preprocessed_distinct h'.partitioned
  have hparts := partsOf_spec cs mp.assignmentFloorBp
  have hparts' := partsOf_spec cs' mp.assignmentFloorBp
  rw [weighted_iff hopt h, weighted_iff hopt h']
  constructor
  · rintro ⟨part, c, ha, rfl⟩
    obtain ⟨hmem, hfloor⟩ := mem_eligible.mp (hparts.mem ha.part_mem ha.mem)
    obtain ⟨c', hmem', hcc, -⟩ := candidate_kept ht hd' hd h'.gen h'.scoredAll hlimits' h.gen
      h.scoredAll hmem
    obtain ⟨part', hp', hc'⟩ := hparts'.exists_mem
      (mem_eligible.mpr ⟨hmem', (hcc.score ▸ hfloor : mp.assignmentFloorBp < c'.scoreBp)⟩)
    have htwins := old_twins he h h' hlimits hlimits' ha.part_mem hp' ha.mem hc' hcc
    have hback : Twin Eq c c' := ⟨⟨hcc.edge.1.symm, hcc.edge.2.symm⟩, hcc.score.symm,
      hcc.contradictions.symm, hcc.coverage.symm⟩
    obtain ⟨ha', hpair⟩ := accepts_twins hopt h h' hlimits' hp' hc' hback (twins_symm htwins) ha
    exact ⟨⟨part', c', ha', hpair.symm⟩, candidate_ends h.partitioned h.scoredAll c hmem⟩
  · rintro ⟨⟨part', c', ha', rfl⟩, hleft, hright⟩
    obtain ⟨hmem', hfloor'⟩ := mem_eligible.mp (hparts'.mem ha'.part_mem ha'.mem)
    obtain ⟨c, hmem, hcc⟩ := kept_candidate ht hd' hd h'.gen h'.scoredAll h.gen h.scoredAll hlimits
      hmem' ⟨not_not.mpr hleft, not_not.mpr hright, not_false⟩
    obtain ⟨part, hp, hc⟩ := hparts.exists_mem
      (mem_eligible.mpr ⟨hmem, (hcc.score ▸ hfloor' : mp.assignmentFloorBp < c.scoreBp)⟩)
    have htwins := old_twins he h h' hlimits hlimits' hp ha'.part_mem hc ha'.mem hcc
    obtain ⟨ha, hpair⟩ := accepts_twins hopt h' h hlimits hp hc hcc htwins ha'
    exact ⟨part, c, ha, hpair.symm⟩

theorem manual_old (he : Enlarges mp.referenceContract mp.blockingPasses s s') {p : PairOutcome} :
    p ∈ manualPairs s d ↔
      p ∈ manualPairs s' d ∧ p.leftId ∈ ids s.left ∧ p.rightId ∈ ids s.right := by
  simp only [manualPairs, List.mem_flatMap]
  constructor
  · rintro ⟨m, hm, hp⟩
    split_ifs at hp with hends
    · obtain ⟨hl, hlid⟩ := he.available.mp hends.1
      obtain ⟨hq, hqid⟩ := he.available.mp hends.2
      obtain rfl := List.mem_singleton.mp hp
      refine ⟨⟨m, hm, ?_⟩, hlid, hqid⟩
      rw [if_pos ⟨hl, hq⟩]
      exact List.mem_singleton_self _
    · simp at hp
  · rintro ⟨⟨m, hm, hp⟩, hlid, hqid⟩
    split_ifs at hp with hends
    · obtain rfl := List.mem_singleton.mp hp
      refine ⟨m, hm, ?_⟩
      rw [if_pos ⟨he.available.mpr ⟨hends.1, hlid⟩, he.available.mpr ⟨hends.2, hqid⟩⟩]
      exact List.mem_singleton_self _
    · simp at hp

theorem established_old (he : Enlarges mp.referenceContract mp.blockingPasses s s')
    (hpre : Preprocessed s d mp.referenceContract pre)
    (hpre' : Preprocessed s' d mp.referenceContract pre') {p : PairOutcome} :
    p ∈ pre.pairs ↔ p ∈ pre'.pairs ∧ p.leftId ∈ ids s.left ∧ p.rightId ∈ ids s.right := by
  constructor
  · intro hp
    obtain ⟨l, hl, q, hq, hleft, hright⟩ := pre_ends hpre hp
    refine ⟨?_, hleft ▸ List.mem_map_of_mem hl, hright ▸ List.mem_map_of_mem hq⟩
    refine hpre'.pairs.mem_iff.mpr (List.mem_append.mpr ?_)
    exact (List.mem_append.mp (hpre.pairs.mem_iff.mp hp)).imp (fun hm => (manual_old he).mp hm |>.1)
      fun hr => (he.established.mp hr).1
  · rintro ⟨hp, hends⟩
    refine hpre.pairs.mem_iff.mpr (List.mem_append.mpr ?_)
    exact (List.mem_append.mp (hpre'.pairs.mem_iff.mp hp)).imp
      (fun hm => (manual_old he).mpr ⟨hm, hends⟩)
      fun hr => he.established.mpr ⟨hr, .left, hends.1⟩

theorem Enlarges.lookup (he : Enlarges mp.referenceContract mp.blockingPasses s s')
    (side : RecordSide) {i : String} (hi : i ∈ ids (s.records side)) :
    Listing.lookup (·.observationId) (s.records side) i =
      Listing.lookup (·.observationId) (s'.records side) i := by
  obtain ⟨q, hq, rfl⟩ := mem_ids hi
  rw [lookup_mem (s.nodup side) hq, lookup_mem (s'.nodup side) (he.old side q hq)]

/-- Pairs of the two runs between the same old records are the same pair, their
compared fields included. -/
theorem same_pair (he : Enlarges mp.referenceContract mp.blockingPasses s s')
    (hr : reconcile digest s mp cp d solver = .ok r)
    (hr' : reconcile digest s' mp cp d solver = .ok r') {p p' : PairOutcome} (hp : p ∈ r.pairs)
    (hp' : p' ∈ r'.pairs) (hbare : bare p = bare p') (hleft : p.leftId ∈ ids s.left)
    (hright : p.rightId ∈ ids s.right) : p = p' := by
  have hl : p.leftId = p'.leftId := (congrArg PairOutcome.leftId hbare :)
  have hq : p.rightId = p'.rightId := (congrArg PairOutcome.rightId hbare :)
  have hcompared := same_comparisons (recompared hr hp) (recompared hr' hp')
    ((he.lookup .left hleft).trans (congrArg _ hl))
    ((he.lookup .right hright).trans (congrArg _ hq))
    (congrArg PairOutcome.origin hbare)
  calc p = { bare p with comparisons := p.comparisons } := rfl
    _ = { bare p' with comparisons := p'.comparisons } := by rw [hbare, hcompared]
    _ = p' := rfl

/-- When records arrive that share no reference with the old ones and that no
pass compares with one, the pairs between old records stay as they were. -/
theorem unrelated_pairs (hopt : Optimal solver.minimize)
    (he : Enlarges mp.referenceContract mp.blockingPasses s s')
    (hr : reconcile digest s mp cp d solver = .ok r)
    (hr' : reconcile digest s' mp cp d solver = .ok r') (hcomplete : SearchComplete digest s' mp d)
    (p : PairOutcome) :
    p ∈ r.pairs ↔ p ∈ r'.pairs ∧ p.leftId ∈ ids s.left ∧ p.rightId ∈ ids s.right := by
  obtain ⟨pre, g, cs, a, h⟩ := reconcile_stages hopt hr
  obtain ⟨pre', g', cs', a', h'⟩ := reconcile_stages hopt hr'
  have hdone := hcomplete pre' g' h'.preprocessed h'.generated
  have hroomy := roomy_thinned (he.thinned h.partitioned h'.partitioned) (h'.gen.roomy.mpr hdone)
  have hlimits := h.gen.complete.mp (h.gen.roomy.mp hroomy)
  have hlimits' := h'.gen.complete.mp hdone
  have hsame : ∀ q, (∃ x ∈ r.pairs, bare x = q) ↔
      (∃ x ∈ r'.pairs, bare x = q) ∧ q.leftId ∈ ids s.left ∧ q.rightId ∈ ids s.right := by
    intro q
    rw [bare_pairs h, bare_pairs h', established_old he h.partitioned h'.partitioned,
      weighted_old he hopt h h' hlimits hlimits', or_and_right]
  constructor
  · intro hp
    obtain ⟨⟨x, hx, hbare⟩, hends⟩ := (hsame (bare p)).mp ⟨p, hp, rfl⟩
    exact ⟨same_pair he hr hr' hp hx hbare.symm hends.1 hends.2 ▸ hx, hends⟩
  · rintro ⟨hp, hends⟩
    obtain ⟨x, hx, hbare⟩ := (hsame (bare p)).mpr ⟨⟨p, hp, rfl⟩, hends⟩
    have hl : x.leftId = p.leftId := (congrArg PairOutcome.leftId hbare :)
    have hq : x.rightId = p.rightId := (congrArg PairOutcome.rightId hbare :)
    exact same_pair he hr hr' hx hp hbare (hl ▸ hends.1) (hq ▸ hends.2) ▸ hx

end Runs

theorem twoPairs_enlarges :
    Enlarges .sharedMustAgree [samplePass] (sampleSnapshot noon) twoPairs := by
  have hnone : ∀ side, ∀ q ∈ (sampleSnapshot noon).records side,
      referenceKey .sharedMustAgree q = none := by
    intro side q hq
    cases side <;> obtain rfl := List.mem_singleton.mp hq <;> rfl
  refine ⟨fun side q hq => ?_, fun _ _ _ _ side o ho _ _ => ?_, fun pass hpass l hl q hq hc => ?_⟩
  · cases side <;> exact List.mem_of_mem_head? (by rw [List.mem_singleton.mp hq]; rfl)
  · rw [hnone side o ho]
    simp
  · obtain rfl := List.mem_singleton.mp hpass
    obtain ⟨key, hkey, hkey', -⟩ := hc
    have hsame := hkey.trans hkey'.symm
    rcases List.mem_pair.mp hl with rfl | rfl <;> rcases List.mem_pair.mp hq with rfl | rfl
    · exact iff_of_true (List.mem_singleton_self _) (List.mem_singleton_self _)
    · exact absurd hsame (by decide)
    · exact absurd hsame (by decide)
    · exact iff_of_false
        (fun hin => absurd (congrArg MatchRecord.observationId (List.mem_singleton.mp hin))
          (by decide))
        (fun hin => absurd (congrArg MatchRecord.observationId (List.mem_singleton.mp hin))
          (by decide))

/-- The pair of the small run is a pair of the larger one. -/
theorem unrelated_pairs_sample : ∃ r r', sampleRun noon = .ok r ∧ twoRun noDecisions = .ok r' ∧
    ∀ p, p ∈ r.pairs ↔ p ∈ r'.pairs ∧ p.leftId = "L1" ∧ p.rightId = "R1" := by
  obtain ⟨r, hr, -⟩ := ok_of_toOption sampleRun_pairs
  obtain ⟨r', hr', -⟩ := ok_of_toOption twoRun_proposes
  refine ⟨r, r', hr, hr', fun p => ?_⟩
  have hpairs := unrelated_pairs sample_optimal twoPairs_enlarges hr hr' twoPairs_complete p
  rwa [show ids (sampleSnapshot noon).left = ["L1"] from rfl,
    show ids (sampleSnapshot noon).right = ["R1"] from rfl, List.mem_singleton,
    List.mem_singleton] at hpairs

end Workbench.Unrelated
