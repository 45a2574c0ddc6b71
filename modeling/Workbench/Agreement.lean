import Workbench.Thinning
import Workbench.Reasons
import Workbench.Renaming

/-!
# Reviews that agree with the proposals

Between two runs the reviewers link pairs that the first one proposed, reject
relationships it did not propose, and set aside records that it left unpaired
and proposed for nothing. No reference gains or loses a carrier by that, so the
second run searches what is left, and every other accepted pair is accepted
again.
-/

set_option autoImplicit false

namespace Workbench.Agreement
open Workbench.Listing Workbench.Raising Workbench.Records Workbench.Evidence
open Workbench.References Workbench.Reservations Workbench.Candidates Workbench.Json
open Workbench.SearchSpace Workbench.Generation Workbench.Scores Workbench.Assignment
open Workbench.Components Workbench.Optimum Workbench.Matching Workbench.AssignmentOptimality
open Workbench.Gating Workbench.Acceptance Workbench.Engine Workbench.Reconciled
open Workbench.PaddedAssignment Workbench.Correspondence Workbench.Thinning
open Workbench.Overrides Workbench.Reasons Workbench.Renaming

/-- The edges that a run proposes, accepted or not. -/
def proposedEdges (r : EngineResult) : List Edge :=
  r.components.flatMap fun y => y.proposals.map (·.edge)

/-- The later decisions add links, rejections and reserved records to the
earlier ones, none of them against the proposals of the run. -/
structure Agrees (r : EngineResult) (d d' : DecisionInputs) (links rejections : List Edge)
    (singles : List String) : Prop where
  manual : ∀ e, e ∈ d'.manualLinks.map (·.edge) ↔ e ∈ d.manualLinks.map (·.edge) ∨ e ∈ links
  rejected : ∀ e, e ∈ d'.rejectedEdges ↔ e ∈ d.rejectedEdges ∨ e ∈ rejections
  single : ∀ i, i ∈ d'.singleIds ↔ i ∈ d.singleIds ∨ i ∈ singles
  links_proposed : ∀ e ∈ links, e ∈ proposedEdges r
  rejections_apart : ∀ e ∈ rejections, e ∉ proposedEdges r ∧ e ∉ r.pairs.map (·.edge)
  singles_unproposed : ∀ i ∈ singles, (∃ u ∈ r.unpaired, u.recordId = i ∧ ¬Settled u.reason) ∧
    ∀ e ∈ proposedEdges r, e.1 ≠ i ∧ e.2 ≠ i

def endOf (e : Edge) : RecordSide → String
  | .left => e.1
  | .right => e.2

def taken (links : List Edge) (singles : List String) (side : RecordSide) (i : String) : Prop :=
  (∃ e ∈ links, endOf e side = i) ∨ i ∈ singles

section Proposals
variable {digest : Digest} {s : EngineSnapshot} {mp : MatchingPolicy} {cp : ComparisonPolicy}
  {d : DecisionInputs} {solver : AssignmentSolver} {pre : ReferencePreprocessingResult}
  {g : CandidateGenerationResult} {cs : List CandidateEvidence} {a : AssignmentSolveResult}
  {r : EngineResult} {e f : Edge}

theorem mem_proposedEdges (hopt : Optimal solver.minimize)
    (h : Stages digest s mp cp d solver pre g cs a r) : e ∈ proposedEdges r ↔
      ∃ part ∈ partsOf cs mp.assignmentFloorBp,
        e ∈ chosenEdges digest g.limitedRecordIds mp solver part := by
  have hedges : ∀ {part}, part ∈ partsOf cs mp.assignmentFloorBp →
      (gatedOf cs mp (report digest g.limitedRecordIds mp solver part)).proposals.map (·.edge) =
        (report digest g.limitedRecordIds mp solver part).selectedEdges.map (·.edge) :=
    fun hp => gated_edges h.scoredSet hopt hp
      (report_spec digest g.limitedRecordIds h.scoredSet hopt h.version hp)
  simp only [proposedEdges, List.mem_flatMap, chosenEdges, List.mem_toFinset]
  constructor
  · rintro ⟨y, hy, he⟩
    obtain ⟨x, hx, rfl⟩ := List.mem_map.mp (h.components.mem_iff.mp hy)
    obtain ⟨part, hp, rfl⟩ := List.mem_map.mp ((h.graph hopt).components.mem_iff.mp hx)
    exact ⟨part, hp, hedges hp ▸ he⟩
  · rintro ⟨part, hp, he⟩
    refine ⟨_, h.components.mem_iff.mpr (List.mem_map_of_mem
      ((h.graph hopt).components.mem_iff.mpr (List.mem_map_of_mem hp))), ?_⟩
    rw [hedges hp]
    exact he

theorem proposed_unique (hopt : Optimal solver.minimize)
    (h : Stages digest s mp cp d solver pre g cs a r) (he : e ∈ proposedEdges r)
    (hf : f ∈ proposedEdges r) (hef : e.1 = f.1 ∨ e.2 = f.2) : e = f := by
  obtain ⟨hl, hr⟩ := selections_nodup digest g.limitedRecordIds mp h.scoredSet hopt h.version
  have hselected : ∀ {k : Edge}, k ∈ proposedEdges r →
      ∃ x ∈ ((partsOf cs mp.assignmentFloorBp).map
        (report digest g.limitedRecordIds mp solver)).flatMap (·.selectedEdges), x.edge = k := by
    intro k hk
    obtain ⟨part, hp, hk⟩ := (mem_proposedEdges hopt h).mp hk
    obtain ⟨x, hx, rfl⟩ := List.mem_map.mp (List.mem_toFinset.mp hk)
    exact ⟨x, List.mem_flatMap.mpr ⟨_, List.mem_map_of_mem hp, hx⟩, rfl⟩
  obtain ⟨x, hx, rfl⟩ := hselected he
  obtain ⟨y, hy, rfl⟩ := hselected hf
  rcases hef with hef | hef
  · exact congrArg _ (List.inj_on_of_nodup_map hl hx hy hef)
  · exact congrArg _ (List.inj_on_of_nodup_map hr hx hy hef)

theorem proposed_open (hopt : Optimal solver.minimize)
    (h : Stages digest s mp cp d solver pre g cs a r) (he : e ∈ proposedEdges r)
    (side : RecordSide) : ∃ q ∈ pre.remaining side, q.observationId = endOf e side := by
  obtain ⟨part, hp, he⟩ := (mem_proposedEdges hopt h).mp he
  have hpart := report_spec digest g.limitedRecordIds h.scoredSet hopt h.version hp
  obtain ⟨x, hx, rfl⟩ := List.mem_map.mp (List.mem_toFinset.mp he)
  cases hc : (report digest g.limitedRecordIds mp solver part).complete with
  | false =>
    rw [hpart.withheld hc] at hx
    simp at hx
  | true =>
    obtain ⟨b, hb, hbe, -⟩ := (hpart.selected hc).matched x hx
    have hbcs := (mem_eligible.mp ((partsOf_spec cs _).mem hp hb)).1
    obtain ⟨l, hl, q, hq, -, hedge, -⟩ := candidate_records h hbcs
    rw [← hbe, hedge]
    cases side with
    | left => exact ⟨l, hl, rfl⟩
    | right => exact ⟨q, hq, rfl⟩

theorem accepted_proposed (hopt : Optimal solver.minimize)
    (h : Stages digest s mp cp d solver pre g cs a r) {part : List CandidateEvidence}
    {c : CandidateEvidence} (ha : Accepts digest mp solver g cs part c) :
    c.edge ∈ proposedEdges r := by
  obtain ⟨x, hx, hcx⟩ := ha.selected
  exact (mem_proposedEdges hopt h).mpr ⟨part, ha.part_mem,
    List.mem_toFinset.mpr (hcx ▸ List.mem_map_of_mem hx)⟩

end Proposals

section References
variable {s : EngineSnapshot} {d d' : DecisionInputs} {contract : ReferenceContract}
  {gone : RecordSide → String → Prop} {side : RecordSide} {key i : String} {links : List Edge}

/-- Later decisions that reserve more records, all of them open before, and
prohibit more relationships, none of them established by a reference. -/
structure Narrows (s : EngineSnapshot) (contract : ReferenceContract) (d d' : DecisionInputs)
    (gone : RecordSide → String → Prop) : Prop where
  free : ∀ side i, Free s d' side i ↔ Free s d side i ∧ ¬gone side i
  opened : ∀ side, ∀ i ∈ ids (s.records side), gone side i → Open s d contract side i
  prohibits : ∀ e ∈ (prohibitedRelationships s d).map (·.edge),
    e ∈ (prohibitedRelationships s d').map (·.edge)
  spares : ∀ p ∈ referencePairs s d contract,
    p.edge ∉ (prohibitedRelationships s d').map (·.edge)

theorem Narrows.sharing (h : Narrows s contract d d' gone) :
    i ∈ Reservations.sharing s d' contract side key ↔
      i ∈ Reservations.sharing s d contract side key ∧ ¬gone side i := by
  simp only [mem_sharing, mem_freeRecords, h.free]
  constructor
  · rintro ⟨q, ⟨hq, hf, hno⟩, hk, rfl⟩
    exact ⟨⟨q, ⟨hq, hf⟩, hk, rfl⟩, hno⟩
  · rintro ⟨⟨q, ⟨hq, hf⟩, hk, rfl⟩, hno⟩
    exact ⟨q, ⟨hq, hf, hno⟩, hk, rfl⟩

theorem sharing_input (hi : i ∈ Reservations.sharing s d contract side key) :
    i ∈ ids (s.records side) := by
  obtain ⟨q, hq, -, rfl⟩ := mem_sharing.mp hi
  exact List.mem_map_of_mem (mem_freeRecords.mp hq).1

theorem Narrows.length_le (h : Narrows s contract d d' gone) (side : RecordSide) (key : String) :
    (Reservations.sharing s d' contract side key).length ≤
      (Reservations.sharing s d contract side key).length :=
  (List.subperm_of_subset (sharing_nodup side key) fun _ hi => (h.sharing.mp hi).1).length_le

theorem Narrows.duplicated (h : Narrows s contract d d' gone) (hd : Duplicated s d contract key)
    (side : RecordSide) : (Reservations.sharing s d' contract side key).length =
      (Reservations.sharing s d contract side key).length := by
  refine ((List.perm_ext_iff_of_nodup (sharing_nodup side key) (sharing_nodup side key)).mpr
    fun j => ?_).length_eq
  rw [h.sharing]
  refine and_iff_left_of_imp fun hj hgone => ?_
  exact (h.opened side j (sharing_input hj) hgone).2.1 (mem_conflictIds.mpr ⟨key, hd, hj⟩)

theorem Narrows.conflict (h : Narrows s contract d d' gone) (hno : ¬gone side i) :
    i ∈ conflictIds s d' contract side ↔ i ∈ conflictIds s d contract side := by
  rw [mem_conflictIds, mem_conflictIds]
  constructor
  · rintro ⟨k, hd, hi⟩
    refine ⟨k, fun hle => hd ⟨?_, ?_⟩, (h.sharing.mp hi).1⟩
    · exact (h.length_le .left k).trans hle.1
    · exact (h.length_le .right k).trans hle.2
  · rintro ⟨k, hd, hi⟩
    refine ⟨k, fun hle => hd ⟨?_, ?_⟩, h.sharing.mpr ⟨hi, hno⟩⟩
    · exact (h.duplicated hd .left).symm.trans_le hle.1
    · exact (h.duplicated hd .right).symm.trans_le hle.2

theorem Narrows.alone (h : Narrows s contract d d' gone)
    (hi : Reservations.sharing s d' contract side key = [i]) :
    Reservations.sharing s d contract side key = [i] := by
  have hmem : i ∈ Reservations.sharing s d' contract side key := hi ▸ List.mem_singleton_self i
  by_cases hd : Duplicated s d contract key
  · have hlength := h.duplicated hd side
    rw [hi, List.length_singleton] at hlength
    obtain ⟨j, hj⟩ := List.length_eq_one_iff.mp hlength.symm
    have hij := (h.sharing.mp hmem).1
    rw [hj, List.mem_singleton] at hij
    rw [hj, hij]
  · obtain ⟨hleft, hright⟩ := not_not.mp hd
    have hle : (Reservations.sharing s d contract side key).length ≤ 1 := by
      cases side
      · exact hleft
      · exact hright
    have hin := (h.sharing.mp hmem).1
    have hpos := List.length_pos_of_mem hin
    obtain ⟨j, hj⟩ := List.length_eq_one_iff.mp (le_antisymm hle hpos)
    rw [hj, List.mem_singleton] at hin
    rw [hj, hin]

theorem Narrows.still_alone (h : Narrows s contract d d' gone)
    (hi : Reservations.sharing s d contract side key = [i]) (hno : ¬gone side i) :
    Reservations.sharing s d' contract side key = [i] := by
  have hmem : i ∈ Reservations.sharing s d' contract side key :=
    h.sharing.mpr ⟨hi ▸ List.mem_singleton_self i, hno⟩
  have hle := h.length_le side key
  rw [hi, List.length_singleton] at hle
  obtain ⟨j, hj⟩ := List.length_eq_one_iff.mp (le_antisymm hle (List.length_pos_of_mem hmem))
  rw [hj, List.mem_singleton] at hmem
  rw [hj, hmem]

theorem Narrows.established (h : Narrows s contract d d' gone) {p : PairOutcome} :
    p ∈ referencePairs s d' contract ↔ p ∈ referencePairs s d contract := by
  constructor
  · intro hp
    obtain ⟨k, hp⟩ := mem_referencePairs.mp hp
    obtain ⟨hl, hr, hno, hp⟩ := mem_established.mp hp
    exact mem_referencePairs.mpr ⟨k, mem_established.mpr ⟨h.alone hl, h.alone hr,
      fun hprohibited => hno (h.prohibits _ hprohibited), hp⟩⟩
  · intro hp
    obtain ⟨k, hk⟩ := mem_referencePairs.mp hp
    obtain ⟨hl, hr, -, heq⟩ := mem_established.mp hk
    have hstays : ∀ t, ¬gone t (p.endId t) := by
      intro t hgone
      have hin : p.endId t ∈ Reservations.sharing s d contract t k := by
        cases t
        · exact hl ▸ List.mem_singleton_self _
        · exact hr ▸ List.mem_singleton_self _
      exact (h.opened t _ (sharing_input hin) hgone).2.2 (List.mem_map_of_mem hp)
    exact mem_referencePairs.mpr ⟨k, mem_established.mpr ⟨h.still_alone hl (hstays .left),
      h.still_alone hr (hstays .right), h.spares p hp, heq⟩⟩

theorem Narrows.remains (h : Narrows s contract d d' gone) :
    Open s d' contract side i ↔ Open s d contract side i ∧ ¬gone side i := by
  have hreferred : i ∈ (referencePairs s d' contract).map (·.endId side) ↔
      i ∈ (referencePairs s d contract).map (·.endId side) := by
    simp only [List.mem_map, h.established]
  unfold Open
  rw [h.free, hreferred]
  by_cases hno : gone side i
  · simp [hno]
  · rw [h.conflict hno]
    tauto

end References

section Later
variable {digest : Digest} {s : EngineSnapshot} {mp : MatchingPolicy} {cp : ComparisonPolicy}
  {d d' : DecisionInputs} {solver solver' : AssignmentSolver}
  {pre pre' : ReferencePreprocessingResult} {g g' : CandidateGenerationResult}
  {cs cs' : List CandidateEvidence} {a a' : AssignmentSolveResult} {r r' : EngineResult}
  {links rejections : List Edge} {singles : List String}

theorem remaining_open (h : Preprocessed s d mp.referenceContract pre) {side : RecordSide}
    {q : MatchRecord} (hq : q ∈ pre.remaining side) :
    Open s d mp.referenceContract side q.observationId := by
  rw [h.remaining side] at hq
  exact of_decide_eq_true (List.mem_filter.mp hq).2

theorem Agrees.taken_open (ha : Agrees r d d' links rejections singles)
    (hopt : Optimal solver.minimize) (h : Stages digest s mp cp d solver pre g cs a r)
    (hr : reconcile digest s mp cp d solver = .ok r) {side : RecordSide} {i : String}
    (hin : i ∈ ids (s.records side)) (ht : taken links singles side i) :
    Open s d mp.referenceContract side i := by
  rcases ht with ⟨e, he, rfl⟩ | hi
  · obtain ⟨q, hq, hid⟩ := proposed_open hopt h (ha.links_proposed e he) side
    exact hid ▸ remaining_open h.partitioned hq
  · obtain ⟨⟨u, hu, rfl, hreason⟩, -⟩ := ha.singles_unproposed i hi
    obtain ⟨q, hq, hid, -⟩ := (unpaired_origin h hr hu).resolve_left hreason
    by_cases hside : u.side = side
    · exact hid ▸ hside ▸ remaining_open h.partitioned hq
    · have hown : q.observationId ∈ ids (s.records u.side) :=
        List.mem_map_of_mem (remaining_mem h.partitioned u.side hq)
      exact absurd (hid ▸ hown) (sides_apart s hside hin)

theorem Agrees.free (ha : Agrees r d d' links rejections singles) (side : RecordSide)
    (i : String) : Free s d' side i ↔ Free s d side i ∧ ¬taken links singles side i := by
  have hends : ∀ x : DecisionInputs, manualEnds x side =
      (x.manualLinks.map (·.edge)).map (endOf · side) := by
    intro x
    rw [manualEnds, List.map_map]
    exact List.map_congr_left fun m _ => by cases side <;> rfl
  have hmanual : i ∈ manualEnds d' side ↔
      i ∈ manualEnds d side ∨ ∃ e ∈ links, endOf e side = i := by
    rw [hends, hends, List.mem_map, List.mem_map]
    simp only [ha.manual, or_and_right, exists_or]
  unfold Free taken
  rw [hmanual, ha.single, not_or, not_or, not_or]
  constructor
  · rintro ⟨hin, ⟨hm, hl⟩, hs, hi⟩
    exact ⟨⟨hin, hm, hs⟩, hl, hi⟩
  · rintro ⟨⟨hin, hm, hs⟩, hl, hi⟩
    exact ⟨hin, ⟨hm, hl⟩, hs, hi⟩

theorem Agrees.narrows (ha : Agrees r d d' links rejections singles)
    (hopt : Optimal solver.minimize) (h : Stages digest s mp cp d solver pre g cs a r)
    (hr : reconcile digest s mp cp d solver = .ok r) :
    Narrows s mp.referenceContract d d' (taken links singles) := by
  refine ⟨ha.free, fun side i hin ht => ha.taken_open hopt h hr hin ht, fun e he => ?_,
    fun p hp hprohibited => ?_⟩
  · obtain ⟨hrejected, hends⟩ := mem_prohibited.mp he
    exact mem_prohibited.mpr ⟨(ha.rejected e).mpr (.inl hrejected), hends⟩
  · obtain ⟨hrejected, hends⟩ := mem_prohibited.mp hprohibited
    rcases (ha.rejected p.edge).mp hrejected with hold | hnew
    · obtain ⟨key, hk⟩ := mem_referencePairs.mp hp
      exact (mem_established.mp hk).2.2.1 (mem_prohibited.mpr ⟨hold, hends⟩)
    · have hpre : p ∈ pre.pairs :=
        h.partitioned.pairs.mem_iff.mpr (List.mem_append_right _ hp)
      obtain ⟨x, hx, rfl⟩ := List.mem_map.mp
        (h.pairs.mem_iff.mpr (List.mem_append_left _ hpre))
      exact (ha.rejections_apart _ hnew).2 (List.mem_map.mpr ⟨x, hx, rfl⟩)

theorem Agrees.thinned (ha : Agrees r d d' links rejections singles)
    (hopt : Optimal solver.minimize) (h : Stages digest s mp cp d solver pre g cs a r)
    (hr : reconcile digest s mp cp d solver = .ok r)
    (hpre' : Preprocessed s d' mp.referenceContract pre') :
    Thinned pre pre' (taken links singles) (· ∈ rejections) := by
  have hremaining : ∀ side q, q ∈ pre'.remaining side ↔
      q ∈ pre.remaining side ∧ ¬taken links singles side q.observationId := by
    intro side q
    rw [h.partitioned.remaining side, hpre'.remaining side, List.mem_filter, List.mem_filter,
      decide_eq_true_eq, decide_eq_true_eq, (ha.narrows hopt h hr).remains, and_assoc]
  refine ⟨hremaining, fun l hl q hq => ?_⟩
  rw [prohibited_iff hpre' hl hq, prohibited_iff h.partitioned ((hremaining .left l).mp hl).1
    ((hremaining .right q).mp hq).1, ha.rejected]

theorem Agrees.whole (ha : Agrees r d d' links rejections singles)
    (hopt : Optimal solver.minimize) (h : Stages digest s mp cp d solver pre g cs a r) {e : Edge}
    (he : e ∈ proposedEdges r) :
    e ∉ links ∧ Spared (taken links singles) (· ∈ rejections) e ∨
      e ∈ links ∧ taken links singles .left e.1 ∧ taken links singles .right e.2 := by
  by_cases hl : e ∈ links
  · exact .inr ⟨hl, .inl ⟨e, hl, rfl⟩, .inl ⟨e, hl, rfl⟩⟩
  · refine .inl ⟨hl, ?_, ?_, fun hrejected => (ha.rejections_apart e hrejected).1 he⟩
    · rintro (⟨f, hf, hfe⟩ | hi)
      · exact hl (proposed_unique hopt h (ha.links_proposed f hf) he (.inl hfe) ▸ hf)
      · exact ((ha.singles_unproposed _ hi).2 e he).1 rfl
    · rintro (⟨f, hf, hfe⟩ | hi)
      · exact hl (proposed_unique hopt h (ha.links_proposed f hf) he (.inr hfe) ▸ hf)
      · exact ((ha.singles_unproposed _ hi).2 e he).2 rfl

/-- The same pair with the same compared fields, its gap not smaller. -/
structure Strengthened (p p' : PairOutcome) : Prop where
  edge : p'.edge = p.edge
  origin : p'.origin = p.origin
  score : p'.scoreBp = p.scoreBp
  comparisons : p'.comparisons = p.comparisons
  gap : ∀ gapBp ∈ p.globalGapBp, ∃ gapBp' ∈ p'.globalGapBp, gapBp ≤ gapBp'

theorem comparisons_kept (hr : reconcile digest s mp cp d solver = .ok r)
    (hr' : reconcile digest s mp cp d' solver' = .ok r') {p p' : PairOutcome} (hp : p ∈ r.pairs)
    (hp' : p' ∈ r'.pairs) (hedge : p'.edge = p.edge) (horigin : p'.origin = p.origin) :
    p'.comparisons = p.comparisons := by
  obtain ⟨hleft, hright⟩ := Prod.mk.inj hedge
  exact same_comparisons (recompared hr' hp') (recompared hr hp)
    (congrArg (lookup (·.observationId) s.left) hleft)
    (congrArg (lookup (·.observationId) s.right) hright) horigin

theorem established_pair (h : Stages digest s mp cp d solver pre g cs a r) {q : PairOutcome}
    (hq : q ∈ manualPairs s d ++ referencePairs s d mp.referenceContract) :
    ∃ p ∈ r.pairs, bare p = q :=
  List.mem_map.mp (h.pairs.mem_iff.mpr
    (List.mem_append_left _ (h.partitioned.pairs.mem_iff.mpr hq)))

theorem linked_pair {l q : String} (hm : (l, q) ∈ d.manualLinks.map (·.edge))
    (hl : l ∈ available s .left) (hq : q ∈ available s .right) :
    (⟨l, q, .manual, none, none, []⟩ : PairOutcome) ∈ manualPairs s d := by
  obtain ⟨m, hm, hedge⟩ := List.mem_map.mp hm
  obtain ⟨hml, hmq⟩ := Prod.mk.inj hedge
  have hends : m.leftId ∈ available s .left ∧ m.rightId ∈ available s .right :=
    ⟨hml ▸ hl, hmq ▸ hq⟩
  refine List.mem_flatMap.mpr ⟨m, hm, ?_⟩
  rw [if_pos hends, manualPair, hml, hmq]
  exact List.mem_singleton_self _

/-- Every pair of the earlier run that the reviewers did not link is a pair of
the later one, and what they linked are its manual pairs. -/
theorem reviews_keep_pairs (hgap : 1 ≤ mp.minimumGlobalGapBp) (hopt : Optimal solver.minimize)
    (hopt' : Optimal solver'.minimize) (hr : reconcile digest s mp cp d solver = .ok r)
    (hcomplete : SearchComplete digest s mp d) (ha : Agrees r d d' links rejections singles)
    (hr' : reconcile digest s mp cp d' solver' = .ok r') :
    (∀ e ∈ links, ∃ p ∈ r'.pairs, p.origin = .manual ∧ p.edge = e) ∧
      ∀ p ∈ r.pairs, p.edge ∉ links → ∃ p' ∈ r'.pairs, Strengthened p p' := by
  obtain ⟨pre, g, cs, a, h⟩ := reconcile_stages hopt hr
  obtain ⟨pre', g', cs', a', h'⟩ := reconcile_stages hopt' hr'
  have ht := ha.thinned hopt h hr h'.partitioned
  have hdone := hcomplete pre g h.preprocessed h.generated
  have hlimits := h.gen.complete.mp hdone
  have hlimits' := h'.gen.complete.mp (h'.gen.roomy.mp (roomy_thinned ht (h.gen.roomy.mpr hdone)))
  refine ⟨fun e he => ?_, fun p hp hno => ?_⟩
  · have hopen : ∀ side, endOf e side ∈ available s side := by
      intro side
      obtain ⟨q, hq, hid⟩ := proposed_open hopt h (ha.links_proposed e he) side
      exact hid ▸ (remaining_open h.partitioned hq).1.1
    obtain ⟨x, hx, hbare⟩ := established_pair h' (List.mem_append_left _
      (linked_pair ((ha.manual e).mpr (.inr he)) (hopen .left) (hopen .right)))
    exact ⟨x, hx, (congrArg PairOutcome.origin hbare :), (congrArg PairOutcome.edge hbare :)⟩
  · by_cases hw : p.origin = .weightedGlobal
    · obtain ⟨part, c, hacc, hpc⟩ := (weighted_iff hopt h).mp ⟨p, hp, hw, rfl⟩
      have hedge : p.edge = c.edge := (congrArg PairOutcome.edge hpc :)
      have hproposed := accepted_proposed hopt h hacc
      have hkept := ((ha.whole hopt h hproposed).resolve_right fun hin => hno (hedge ▸ hin.1)).2
      obtain ⟨part', c', hacc', hcc, hle⟩ := accepts_thinned h h' hopt hopt' hgap ht hlimits
        hlimits' hacc (fun e he => (ha.whole hopt h ((mem_proposedEdges hopt h).mpr
          ⟨part, hacc.part_mem, he⟩)).imp And.right And.right) hkept
      obtain ⟨p', hp', horigin, hpc'⟩ := (weighted_iff hopt' h').mpr ⟨part', c', hacc', rfl⟩
      have hscore : p.scoreBp = some c.scoreBp := (congrArg PairOutcome.scoreBp hpc :)
      have hscore' : p'.scoreBp = some c'.scoreBp := (congrArg PairOutcome.scoreBp hpc' :)
      have hgapBp : p.globalGapBp = some (gapOf part mp.assignmentFloorBp c.edge) :=
        (congrArg PairOutcome.globalGapBp hpc :)
      have hgapBp' : p'.globalGapBp = some (gapOf part' mp.assignmentFloorBp c'.edge) :=
        (congrArg PairOutcome.globalGapBp hpc' :)
      have hedge' : p'.edge = p.edge := by
        rw [hedge, ← twin_edge hcc]
        exact (congrArg PairOutcome.edge hpc' :)
      have horigin' : p'.origin = p.origin := horigin.trans hw.symm
      refine ⟨p', hp', hedge', horigin', ?_, comparisons_kept hr hr' hp hp' hedge' horigin',
        fun gapBp hg => ?_⟩
      · rw [hscore, hscore', hcc.score]
      · rw [hgapBp] at hg
        obtain rfl := Option.some.inj hg
        exact ⟨_, hgapBp', hle⟩
    · have hpre := h.established hp hw
      have hkept : bare p ∈ manualPairs s d' ++ referencePairs s d' mp.referenceContract := by
        rcases List.mem_append.mp (h.partitioned.pairs.mem_iff.mp hpre) with hm | href
        · obtain ⟨m, hm, hpair⟩ := List.mem_flatMap.mp hm
          split_ifs at hpair with hends
          · rw [List.mem_singleton] at hpair
            rw [hpair]
            exact List.mem_append_left _ (linked_pair ((ha.manual m.edge).mpr
              (.inl (List.mem_map_of_mem hm))) hends.1 hends.2)
          · simp at hpair
        · exact List.mem_append_right _ ((ha.narrows hopt h hr).established.mpr href)
      obtain ⟨p', hp', hbare⟩ := established_pair h' hkept
      have hedge : p'.edge = p.edge := (congrArg PairOutcome.edge hbare :)
      have horigin : p'.origin = p.origin := (congrArg PairOutcome.origin hbare :)
      have hgap' : p'.globalGapBp = p.globalGapBp := (congrArg PairOutcome.globalGapBp hbare :)
      exact ⟨p', hp', hedge, horigin, (congrArg PairOutcome.scoreBp hbare :),
        comparisons_kept hr hr' hp hp' hedge horigin, fun gapBp hg => ⟨gapBp, hgap' ▸ hg, le_rfl⟩⟩

end Later

theorem twoLefts_sorted : ["L1", "L2"].Pairwise (· < ·) := by decide

theorem two_apart : ∀ i ∈ ["L1", "L2"], i ∉ ["R1", "R2"] := by decide

theorem reference_text : OptionalText (some "REF") := by
  rintro _ ⟨⟩
  rfl

def referring (q : MatchRecord) : MatchRecord :=
  { q with referenceValue := some "REF", referenceValue_text := reference_text }

def twoPairs : EngineSnapshot where
  leftRevisionId := "left-1"
  rightRevisionId := "right-1"
  left := [sampleRecord "L1" "ACME" left_text acme_text noon,
    referring (sampleRecord "L2" "ZETA" l2_text zeta_text noon)]
  right := [sampleRecord "R1" "ACME" right_text acme_text noon,
    referring (sampleRecord "R2" "ZETA" r2_text zeta_text noon)]
  leftRevisionId_text := leftRevision_text
  rightRevisionId_text := rightRevision_text
  left_sorted := twoLefts_sorted
  right_sorted := twoRights_sorted
  apart := two_apart

theorem link_text : nonblank "link" = true := rfl

theorem reject_text : nonblank "reject" = true := rfl

def linkDecision : ManualLink :=
  ⟨"link", "link", "L1", "R1", link_text, link_text, left_text, right_text⟩

def rejectDecision : RejectedRelationship :=
  ⟨"reject", "reject", "L1", "R2", reject_text, reject_text, left_text, r2_text⟩

theorem reviewed_unique : ["link", "reject"].Nodup := by decide

/-- One proposed pair is linked, and one that nothing proposed is rejected. -/
def reviewedDecisions : DecisionInputs where
  manualLinks := [linkDecision]
  acceptedUnmatched := []
  rejectedRelationships := [rejectDecision]
  reservedIdentities := []
  manual_sorted := List.pairwise_singleton _ _
  accepted_sorted := accepted_none
  rejected_sorted := List.pairwise_singleton _ _
  reserved_sorted := reserved_none
  decisions_unique := reviewed_unique
  manualLeft_unique := List.nodup_singleton _
  manualRight_unique := List.nodup_singleton _
  singles_unique := List.nodup_nil
  singles_apart := fun _ _ => List.not_mem_nil
  rejected_unique := List.nodup_singleton _

def twoRun (d : DecisionInputs) : Outcome EngineResult :=
  reconcile checksum twoPairs (samplePolicy sampleLimits) sampleComparison d sampleSolver

theorem twoRun_proposes : (twoRun noDecisions).toOption.map (fun r =>
    (proposedEdges r, r.pairs.map (·.edge))) =
      some ([("L1", "R1")], [("L1", "R1"), ("L2", "R2")]) := by
  decide +kernel

theorem reviewedRun_pairs : (twoRun reviewedDecisions).toOption.map (fun r =>
    r.pairs.map (·.edge)) = some [("L1", "R1"), ("L2", "R2")] := by
  decide +kernel

theorem twoPairs_complete : SearchComplete checksum twoPairs (samplePolicy sampleLimits)
    noDecisions := by
  intro pre g hpre hg
  have hsearch : (do
      let pre ← preprocessReferences twoPairs noDecisions .sharedMustAgree
      generateCandidates checksum pre (samplePolicy sampleLimits)).toOption.map
        CandidateGenerationResult.complete = some true := by
    decide +kernel
  obtain ⟨g', hg', hcomplete⟩ := ok_of_toOption hsearch
  obtain ⟨pre', hpre', hg'⟩ := bind_ok.mp hg'
  obtain rfl : pre' = pre := Except.ok.inj (hpre'.symm.trans hpre)
  obtain rfl : g' = g := Except.ok.inj (hg'.symm.trans hg)
  exact hcomplete

theorem reviews_keep_pairs_sample : ∃ r r', twoRun noDecisions = .ok r ∧
    twoRun reviewedDecisions = .ok r' ∧ (∃ p ∈ r'.pairs, p.origin = .manual) ∧
      ∃ p ∈ r.pairs, p.edge = ("L2", "R2") ∧ ∃ p' ∈ r'.pairs, Strengthened p p' := by
  obtain ⟨r, hr, hr₂⟩ := ok_of_toOption twoRun_proposes
  obtain ⟨r', hr', -⟩ := ok_of_toOption reviewedRun_pairs
  obtain ⟨hproposed, hpairs⟩ := Prod.mk.inj hr₂
  have hagrees : Agrees r noDecisions reviewedDecisions [("L1", "R1")] [("L1", "R2")] [] := by
    refine ⟨fun e => ?_, fun e => ?_, fun i => ?_, ?_, ?_, by simp⟩
    · simp [noDecisions, reviewedDecisions, linkDecision, Relationship.edge]
    · simp [noDecisions, reviewedDecisions, rejectDecision, Relationship.edge,
        DecisionInputs.rejectedEdges]
    · simp [noDecisions, reviewedDecisions, DecisionInputs.singleIds]
    · rw [hproposed]
      decide
    · rw [hproposed, hpairs]
      decide
  have hgap : 1 ≤ (samplePolicy sampleLimits).minimumGlobalGapBp := by decide
  obtain ⟨hlinked, hkept⟩ := reviews_keep_pairs hgap sample_optimal sample_optimal hr
    twoPairs_complete hagrees hr'
  obtain ⟨m, hm, hmanual, -⟩ := hlinked ("L1", "R1") (List.mem_singleton_self _)
  obtain ⟨p, hp, hedge⟩ := List.mem_map.mp
    (hpairs ▸ List.mem_cons_of_mem _ (List.mem_singleton_self ("L2", "R2")) :
      ("L2", "R2") ∈ r.pairs.map (·.edge))
  exact ⟨r, r', hr, hr', ⟨m, hm, hmanual⟩, p, hp, hedge, hkept p hp (hedge ▸ by decide)⟩

end Workbench.Agreement
