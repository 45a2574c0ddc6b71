import Workbench.Eligibility

/-!
# Decisions override the engine

Manual links are pairs, reserved and cancelled records are in none, rejected
relationships are never made again, and a rejection takes neither of its ends
out of reach of any other record.
-/

set_option autoImplicit false

namespace Workbench.Overrides
open Workbench.Listing Workbench.Decimals Workbench.Raising Workbench.Records Workbench.Evidence
open Workbench.References Workbench.Reservations Workbench.Candidates Workbench.Json
open Workbench.Generation Workbench.SearchSpace Workbench.Assignment Workbench.Acceptance
open Workbench.AssignmentOptimality Workbench.Engine Workbench.Results Workbench.Reconciled
open Workbench.Eligibility Workbench.PaddedAssignment

section Free
variable {s : EngineSnapshot} {d : DecisionInputs} {contract : ReferenceContract}

theorem manualEnds_subset {side : RecordSide} {i : String} (h : i ∈ manualEnds d side) :
    i ∈ d.manualIds := by
  cases side
  · exact List.mem_append_left _ h
  · exact List.mem_append_right _ h

theorem undecided_free {side : RecordSide} {q : MatchRecord} (hq : q ∈ s.records side)
    (h : Undecided d q) : Free s d side q.observationId :=
  ⟨(available_eligible hq).mpr (decide_eq_true h.active),
    fun hm => h.unlinked (manualEnds_subset hm), h.unreserved⟩

structure Carries (s : EngineSnapshot) (d : DecisionInputs) (contract : ReferenceContract)
    (side : RecordSide) (key : String) (q : MatchRecord) : Prop where
  record : q ∈ s.records side
  undecided : Undecided d q
  reference : referenceKey contract q = some key

/-- The reference is carried twice on one side. -/
def Repeated (s : EngineSnapshot) (d : DecisionInputs) (contract : ReferenceContract)
    (key : String) : Prop :=
  ∃ side q q', Carries s d contract side key q ∧ Carries s d contract side key q' ∧ q ≠ q'

def SoleCarrier (s : EngineSnapshot) (d : DecisionInputs) (contract : ReferenceContract)
    (side : RecordSide) (key : String) (q : MatchRecord) : Prop :=
  Carries s d contract side key q ∧ ∀ q', Carries s d contract side key q' → q' = q

theorem mem_sharing_carries (ho : Oriented s d) {side : RecordSide} {key i : String} :
    i ∈ sharing s d contract side key ↔
      ∃ q, Carries s d contract side key q ∧ q.observationId = i := by
  rw [mem_sharing]
  constructor
  · rintro ⟨q, hq, hkey, hi⟩
    obtain ⟨hmem, hfree⟩ := mem_freeRecords.mp hq
    exact ⟨q, ⟨hmem, free_undecided ho hmem hfree, hkey⟩, hi⟩
  · rintro ⟨q, hq, hi⟩
    exact ⟨q, mem_freeRecords.mpr ⟨hq.record, undecided_free hq.record hq.undecided⟩,
      hq.reference, hi⟩

theorem sharing_sole (ho : Oriented s d) {side : RecordSide} {key : String} {q : MatchRecord}
    (h : SoleCarrier s d contract side key q) :
    sharing s d contract side key = [q.observationId] := by
  have hnodup : (sharing s d contract side key).Nodup := sharing_nodup side key
  refine List.perm_singleton.mp ((List.perm_ext_iff_of_nodup hnodup (List.nodup_singleton _)).mpr ?_)
  intro i
  rw [mem_sharing_carries ho, List.mem_singleton]
  constructor
  · rintro ⟨q', hq', rfl⟩
    rw [h.2 q' hq']
  · rintro rfl
    exact ⟨q, h.1, rfl⟩

theorem duplicated_repeated (ho : Oriented s d) {key : String}
    (h : Duplicated s d contract key) : Repeated s d contract key := by
  have hside : ∃ side, 1 < (sharing s d contract side key).length := by
    by_contra hno
    push Not at hno
    exact h ⟨hno .left, hno .right⟩
  obtain ⟨side, hlength⟩ := hside
  have hnodup : (sharing s d contract side key).Nodup := sharing_nodup side key
  obtain ⟨i, hi, j, hj, hij⟩ :=
    (List.toFinset_card_of_nodup hnodup ▸ hlength |> Finset.one_lt_card.mp : _)
  obtain ⟨q, hq, rfl⟩ := (mem_sharing_carries ho).mp (List.mem_toFinset.mp hi)
  obtain ⟨q', hq', rfl⟩ := (mem_sharing_carries ho).mp (List.mem_toFinset.mp hj)
  exact ⟨side, q, q', hq, hq', fun he => hij (by rw [he])⟩

end Free

section Run
variable {digest : Digest} {s : EngineSnapshot} {mp : MatchingPolicy} {cp : ComparisonPolicy}
  {d : DecisionInputs} {solver : AssignmentSolver} {pre : ReferencePreprocessingResult}
  {g : CandidateGenerationResult} {cs : List CandidateEvidence} {a : AssignmentSolveResult}
  {r : EngineResult}

/-- The manual links whose two ends are present and not cancelled. -/
def effectiveLinks (s : EngineSnapshot) (d : DecisionInputs) : List ManualLink :=
  d.manualLinks.filter fun link =>
    link.leftId ∈ available s .left ∧ link.rightId ∈ available s .right

def manualOf (pairs : List PairOutcome) : List PairOutcome := pairs.filter (·.origin = .manual)

theorem manualOf_bare (pairs : List PairOutcome) :
    (manualOf pairs).map (·.edge) = (manualOf (pairs.map bare)).map (·.edge) := by
  rw [manualOf, manualOf, List.filter_map, List.map_map]
  rfl

theorem manualPairs_eq (s : EngineSnapshot) (d : DecisionInputs) :
    manualPairs s d = (effectiveLinks s d).map manualPair := by
  rw [manualPairs, effectiveLinks]
  induction d.manualLinks with
  | nil => rfl
  | cons link rest ih =>
    rw [List.flatMap_cons, ih, List.filter_cons]
    by_cases h : link.leftId ∈ available s .left ∧ link.rightId ∈ available s .right
    · simp [h]
    · simp only [h, if_false, decide_false, Bool.false_eq_true, List.nil_append]

theorem manual_pairs (h : Stages digest s mp cp d solver pre g cs a r) :
    ((manualOf r.pairs).map (·.edge)).Perm ((effectiveLinks s d).map (·.edge)) := by
  have hmanual : manualOf (manualPairs s d) = manualPairs s d := by
    refine List.filter_eq_self.mpr fun p hp => decide_eq_true ?_
    rw [manualPairs_eq] at hp
    obtain ⟨link, -, rfl⟩ := List.mem_map.mp hp
    rfl
  have hreference : manualOf (referencePairs s d mp.referenceContract) = [] := by
    refine List.filter_eq_nil_iff.mpr fun p hp => ?_
    obtain ⟨key, hkey⟩ := mem_referencePairs.mp hp
    rw [(mem_established.mp hkey).2.2.2]
    simp [referencePair]
  have haccepted : manualOf (acceptedPairs cs mp a) = [] := by
    refine List.filter_eq_nil_iff.mpr fun p hp => ?_
    obtain ⟨q, -, rfl⟩ := List.mem_map.mp hp
    simp [proposedPair]
  have hpairs := h.pairs.trans (h.partitioned.pairs.append_right _)
  have hfilter : (manualOf (r.pairs.map bare)).Perm (manualPairs s d) := by
    refine (hpairs.filter _).trans (List.Perm.of_eq ?_)
    rw [List.filter_append, List.filter_append]
    simp only [manualOf] at hmanual hreference haccepted
    rw [hmanual, hreference, haccepted, List.append_nil, List.append_nil]
  rw [manualOf_bare]
  refine (hfilter.map _).trans (List.Perm.of_eq ?_)
  rw [manualPairs_eq, List.map_map]
  rfl

theorem pre_pair_mem (h : Stages digest s mp cp d solver pre g cs a r) {p : PairOutcome}
    (hp : p ∈ pre.pairs) : ∃ q ∈ r.pairs, q.origin = p.origin ∧ q.edge = p.edge := by
  obtain ⟨q, hq, rfl⟩ := List.mem_map.mp (h.pairs.mem_iff.mpr (List.mem_append_left _ hp))
  exact ⟨q, hq, rfl, rfl⟩

/-- An end of a pair is not reserved and not cancelled. -/
theorem pair_end (hopt : Optimal solver.minimize) (h : Stages digest s mp cp d solver pre g cs a r)
    {p : PairOutcome} (hp : p ∈ r.pairs) (side : RecordSide) :
    p.endId side ∈ available s side ∧ p.endId side ∉ d.singleIds := by
  have hopen : ∀ i, Open s d mp.referenceContract side i →
      i ∈ available s side ∧ i ∉ d.singleIds := fun i hi => ⟨hi.1.1, hi.1.2.2⟩
  have hb := h.pairs.mem_iff.mp (List.mem_map_of_mem hp)
  have hend : p.endId side = (bare p).endId side := (bare_endId p side).symm
  rw [hend]
  rcases List.mem_append.mp hb with hb | hb
  · rcases List.mem_append.mp (h.partitioned.pairs.mem_iff.mp hb) with hm | hm
    · rw [manualPairs_eq] at hm
      obtain ⟨link, hlink, he⟩ := List.mem_map.mp hm
      obtain ⟨hmem, havailable⟩ := List.mem_filter.mp hlink
      obtain ⟨hleft, hright⟩ := of_decide_eq_true havailable
      rw [← he]
      have hlinked : ∀ t, (manualPair link).endId t ∈ available s t ∧
          (manualPair link).endId t ∈ d.manualIds := by
        intro t
        cases t
        · exact ⟨hleft, List.mem_append_left _ (List.mem_map_of_mem hmem)⟩
        · exact ⟨hright, List.mem_append_right _ (List.mem_map_of_mem hmem)⟩
      exact ⟨(hlinked side).1, d.singles_apart _ (hlinked side).2⟩
    · obtain ⟨key, hkey⟩ := mem_referencePairs.mp hm
      obtain ⟨hleft, hright, -, -⟩ := mem_established.mp hkey
      have hshares : (bare p).endId side ∈ sharing s d mp.referenceContract side key := by
        cases side
        · exact hleft ▸ List.mem_singleton.mpr rfl
        · exact hright ▸ List.mem_singleton.mpr rfl
      have hfree := sharing_free hshares
      exact ⟨hfree.1, hfree.2.2⟩
  · have hrem := accepted_remaining h.scoredAll h.scoredSet hopt h.version (h.graph hopt) side _
      (List.mem_map_of_mem hb)
    obtain ⟨q, hq, hid⟩ := List.mem_map.mp hrem
    rw [h.partitioned.remaining side, List.mem_filter] at hq
    exact hid ▸ hopen _ (of_decide_eq_true hq.2)

theorem mem_prohibited {e : Edge} :
    e ∈ (prohibitedRelationships s d).map (·.edge) ↔
      e ∈ d.rejectedEdges ∧ e.1 ∈ ids s.left ∧ e.2 ∈ ids s.right := by
  simp only [prohibitedRelationships, DecisionInputs.rejectedEdges, List.mem_map, List.mem_filter,
    decide_eq_true_eq]
  constructor
  · rintro ⟨x, ⟨hx, hl, hr⟩, rfl⟩
    exact ⟨⟨x, hx, rfl⟩, hl, hr⟩
  · rintro ⟨⟨x, hx, rfl⟩, hl, hr⟩
    exact ⟨x, ⟨hx, hl, hr⟩, rfl⟩

theorem pair_allowed (hopt : Optimal solver.minimize)
    (h : Stages digest s mp cp d solver pre g cs a r) {p : PairOutcome} (hp : p ∈ r.pairs)
    (hm : p.origin ≠ .manual) : p.edge ∉ d.rejectedEdges := by
  intro hrejected
  obtain ⟨l, hl, q, hq, hleft, hright, -⟩ := h.compared p hp
  have hpair : p.edge = (l.observationId, q.observationId) := Prod.ext hleft hright
  have hprohibited := rejected_prohibited h.partitioned hl hq (hpair ▸ hrejected)
  rw [← hpair] at hprohibited
  by_cases hw : p.origin = .weightedGlobal
  · obtain ⟨part, hpart, -, -, -, -, c, hc, hedge, -⟩ := weighted_origin hopt h hp hw
    have hcs : c ∈ cs := (mem_eligible.mp ((partsOf_spec cs _).mem hpart hc)).1
    obtain ⟨e, he, hec⟩ := List.mem_map.mp
      (h.scoredAll.edges.mem_iff.mp (List.mem_map_of_mem hcs))
    exact h.gen.allowed e he (hec ▸ hedge ▸ hprohibited)
  · rcases List.mem_append.mp (h.partitioned.pairs.mem_iff.mp (h.established hp hw)) with hb | hb
    · rw [manualPairs_eq] at hb
      obtain ⟨link, -, he⟩ := List.mem_map.mp hb
      exact hm (congrArg PairOutcome.origin he).symm
    · obtain ⟨key, hkey⟩ := mem_referencePairs.mp hb
      refine (mem_established.mp hkey).2.2.1 ?_
      rwa [prohibitedEdges, h.partitioned.prohibited] at hprohibited

/-- The only undecided carriers of a reference are paired by it, unless this
very relationship was rejected. -/
theorem reference_pair (h : Stages digest s mp cp d solver pre g cs a r) {key : String}
    {l q : MatchRecord} (hl : SoleCarrier s d mp.referenceContract .left key l)
    (hq : SoleCarrier s d mp.referenceContract .right key q)
    (hno : (l.observationId, q.observationId) ∉ d.rejectedEdges) :
    ∃ p ∈ r.pairs, p.origin = .authoritativeReference ∧
      p.edge = (l.observationId, q.observationId) := by
  have hmem : referencePair l.observationId q.observationId ∈
      referencePairs s d mp.referenceContract :=
    mem_referencePairs.mpr ⟨key, mem_established.mpr ⟨sharing_sole h.oriented hl,
      sharing_sole h.oriented hq, fun hp => hno (mem_prohibited.mp hp).1, rfl⟩⟩
  exact pre_pair_mem h (h.partitioned.pairs.mem_iff.mpr (List.mem_append_right _ hmem))

/-- An undecided record stays open to candidate generation, unless its
reference is repeated or pairs it. -/
theorem undecided_stays (h : Stages digest s mp cp d solver pre g cs a r) {side : RecordSide}
    {q : MatchRecord} (hq : q ∈ s.records side) (hu : Undecided d q) :
    q ∈ pre.remaining side ∨
      (∃ key ∈ referenceKey mp.referenceContract q, Repeated s d mp.referenceContract key) ∨
      ∃ p ∈ r.pairs, p.origin = .authoritativeReference ∧ p.endId side = q.observationId := by
  have hfree := undecided_free hq hu
  by_cases hconflict : q.observationId ∈ conflictIds s d mp.referenceContract side
  · obtain ⟨key, hdup, hi⟩ := mem_conflictIds.mp hconflict
    obtain ⟨q', hq', hid⟩ := (mem_sharing_carries h.oriented).mp hi
    have hsame : q' = q := s.record_eq hq'.record hq hid
    subst hsame
    exact .inr (.inl ⟨key, hq'.reference, duplicated_repeated h.oriented hdup⟩)
  · by_cases hpaired : q.observationId ∈
        (referencePairs s d mp.referenceContract).map (·.endId side)
    · obtain ⟨p, hp, hid⟩ := List.mem_map.mp hpaired
      obtain ⟨key, hkey⟩ := mem_referencePairs.mp hp
      obtain ⟨p', hp', horigin, hedge⟩ :=
        pre_pair_mem h (h.partitioned.pairs.mem_iff.mpr (List.mem_append_right _ hp))
      refine .inr (.inr ⟨p', hp', ?_, ?_⟩)
      · rw [horigin, (mem_established.mp hkey).2.2.2]
        rfl
      · rw [← hid]
        cases side
        · exact congrArg Prod.fst hedge
        · exact congrArg Prod.snd hedge
    · left
      rw [h.partitioned.remaining side, List.mem_filter]
      exact ⟨hq, decide_eq_true ⟨hfree, hconflict, hpaired⟩⟩

/-- The only carriers of a reference stay open when their relationship was
rejected. -/
theorem rejected_stays (h : Stages digest s mp cp d solver pre g cs a r) {key : String}
    {l q : MatchRecord} (hl : SoleCarrier s d mp.referenceContract .left key l)
    (hq : SoleCarrier s d mp.referenceContract .right key q)
    (hrejected : (l.observationId, q.observationId) ∈ d.rejectedEdges) :
    l ∈ pre.remainingLeft ∧ q ∈ pre.remainingRight := by
  have hleft := sharing_sole h.oriented hl
  have hright := sharing_sole h.oriented hq
  have hends : ∀ side, ∀ i ∈ sharing s d mp.referenceContract side key, ∀ key',
      i ∈ sharing s d mp.referenceContract side key' → key' = key :=
    fun side i hi key' hi' => sharing_key hi' hi
  have hunique : ¬Duplicated s d mp.referenceContract key := by
    simp [Duplicated, Conflicting, hleft, hright]
  have hopen : ∀ side, ∀ i ∈ sharing s d mp.referenceContract side key,
      Open s d mp.referenceContract side i := by
    intro side i hi
    refine ⟨sharing_free hi, fun hconflict => ?_, fun hpaired => ?_⟩
    · obtain ⟨key', hdup, hi'⟩ := mem_conflictIds.mp hconflict
      exact hunique (hends side i hi key' hi' ▸ hdup)
    · obtain ⟨p, hp, rfl⟩ := List.mem_map.mp hpaired
      obtain ⟨key', hkey'⟩ := mem_referencePairs.mp hp
      obtain ⟨hl', hr', hallowed, -⟩ := mem_established.mp hkey'
      have hi' : p.endId side ∈ sharing s d mp.referenceContract side key' := by
        cases side
        · exact hl' ▸ List.mem_singleton.mpr rfl
        · exact hr' ▸ List.mem_singleton.mpr rfl
      rw [hends side _ hi key' hi'] at hl' hr'
      have hpl : l.observationId = p.leftId := by simpa [hleft] using hl'
      have hpr : q.observationId = p.rightId := by simpa [hright] using hr'
      refine hallowed (mem_prohibited.mpr ?_)
      rw [PairOutcome.edge, ← hpl, ← hpr]
      exact ⟨hrejected, List.mem_map_of_mem hl.1.record, List.mem_map_of_mem hq.1.record⟩
  have hremaining : ∀ side, ∀ x ∈ s.records side,
      Open s d mp.referenceContract side x.observationId → x ∈ pre.remaining side := by
    intro side x hx ho
    rw [h.partitioned.remaining side, List.mem_filter]
    exact ⟨hx, decide_eq_true ho⟩
  exact ⟨hremaining .left l hl.1.record (hopen .left _ (by simp [hleft])),
    hremaining .right q hq.1.record (hopen .right _ (by simp [hright]))⟩

/-- In a result every manual link whose ends are present and not cancelled is
a pair once and nothing else is manual, reserved and cancelled records are in
no pair, and no other pair was rejected. A rejection keeps its ends from each
other only: undecided records stay open to references and to candidates. -/
theorem decisions_respected (hopt : Optimal solver.minimize)
    (h : reconcile digest s mp cp d solver = .ok r) :
    (((manualOf r.pairs).map (·.edge)).Perm ((effectiveLinks s d).map (·.edge)) ∧
      ((manualOf r.pairs).map (·.edge)).Nodup) ∧
    (∀ side, ∀ q ∈ s.records side, q.state = .cancelled ∨ q.observationId ∈ d.singleIds →
      ∀ p ∈ r.pairs, q.observationId ≠ p.leftId ∧ q.observationId ≠ p.rightId) ∧
    (∀ p ∈ r.pairs, p.origin ≠ .manual → p.edge ∉ d.rejectedEdges) ∧
    (∀ key l q, SoleCarrier s d mp.referenceContract .left key l →
      SoleCarrier s d mp.referenceContract .right key q →
        (l.observationId, q.observationId) ∉ d.rejectedEdges →
          ∃ p ∈ r.pairs, p.origin = .authoritativeReference ∧
            p.edge = (l.observationId, q.observationId)) ∧
    ∃ pre g, preprocessReferences s d mp.referenceContract = .ok pre ∧
      generateCandidates digest pre mp = .ok g ∧
      (∀ side, ∀ q ∈ s.records side, Undecided d q → q ∈ pre.remaining side ∨
        (∃ key ∈ referenceKey mp.referenceContract q, Repeated s d mp.referenceContract key) ∨
        ∃ p ∈ r.pairs, p.origin = .authoritativeReference ∧ p.endId side = q.observationId) ∧
      (∀ key l q, SoleCarrier s d mp.referenceContract .left key l →
        SoleCarrier s d mp.referenceContract .right key q →
          (l.observationId, q.observationId) ∈ d.rejectedEdges →
            l ∈ pre.remainingLeft ∧ q ∈ pre.remainingRight) ∧
      ∀ pass ∈ mp.blockingPasses, ∀ l ∈ pre.remainingLeft, ∀ q ∈ pre.remainingRight,
        Compatible pass l q → (l.observationId, q.observationId) ∉ d.rejectedEdges →
          (l.observationId, q.observationId) ∈ g.candidates.map (·.edge) ∨
            l.observationId ∈ g.limitedRecordIds ∧ q.observationId ∈ g.limitedRecordIds := by
  obtain ⟨pre, g, cs, a, hstages⟩ := reconcile_stages hopt h
  refine ⟨⟨manual_pairs hstages, ?_⟩, ?_, fun p hp => pair_allowed hopt hstages hp,
    fun key l q => reference_pair hstages, pre, g, hstages.preprocessed, hstages.generated,
    fun side q hq => undecided_stays hstages hq, fun key l q => rejected_stays hstages, ?_⟩
  · have hnodup := hstages.checked.pairLeft_nodup.sublist
      ((List.filter_sublist (p := fun p => decide (p.origin = .manual))).map PairOutcome.leftId)
    exact nodup_map_of_nodup_map_comp PairOutcome.edge Prod.fst hnodup
  · intro side q hq hdecided p hp
    have hnot : ∀ t, q.observationId ≠ p.endId t := by
      intro t he
      obtain ⟨havailable, hsingle⟩ := pair_end hopt hstages hp t
      rw [← he] at havailable hsingle
      rcases hdecided with hc | hc
      · obtain ⟨q', hq', heligible, hid⟩ := mem_available.mp havailable
        have hside : t = side := by
          by_contra hne
          have hother : side = t.other := by cases t <;> cases side <;> simp_all [RecordSide.other]
          exact s.apart_other t _ (List.mem_map_of_mem hq') (hid ▸ hother ▸ List.mem_map_of_mem hq)
        subst hside
        rw [s.record_eq hq' hq hid] at heligible
        exact of_decide_eq_true heligible hc
      · exact hsingle hc
    exact ⟨hnot .left, hnot .right⟩
  · intro pass hpass l hl q hq hcompatible hno
    refine hstages.gen.full _ ⟨pass, hpass, l, hl, q, hq, rfl, hcompatible⟩ fun hp => hno ?_
    rw [prohibitedEdges, hstages.partitioned.prohibited] at hp
    exact (mem_prohibited.mp hp).1

end Run

def distant (q : MatchRecord) : MatchRecord :=
  { q with
    quantity := some (ofInt 9)
    quantity_nonneg := by decide
    unitPrice := some (ofInt 9)
    unitPrice_nonneg := by decide }

theorem crowdedLefts_sorted : ["L1", "L2", "L3", "L4"].Pairwise (· < ·) := by decide

theorem crowdedRights_sorted : ["R1", "R2", "R3", "R4"].Pairwise (· < ·) := by decide

theorem crowded_apart : ∀ i ∈ ["L1", "L2", "L3", "L4"], i ∉ ["R1", "R2", "R3", "R4"] := by decide

/-- Two rivals for one record, a record on its own, two that differ and a pair. -/
def crowdedSnapshot : EngineSnapshot where
  leftRevisionId := "left-1"
  rightRevisionId := "right-1"
  left := [sampleRecord "L1" "ACME" left_text acme_text noon,
    sampleRecord "L2" "BETA" l2_text rfl noon, sampleRecord "L3" "CARA" l3_text rfl noon,
    sampleRecord "L4" "DELT" rfl rfl noon]
  right := [sampleRecord "R1" "ACME" right_text acme_text noon,
    sampleRecord "R2" "ACME" r2_text acme_text noon,
    distant (sampleRecord "R3" "CARA" rfl rfl noon), sampleRecord "R4" "DELT" rfl rfl noon]
  leftRevisionId_text := leftRevision_text
  rightRevisionId_text := rightRevision_text
  left_sorted := crowdedLefts_sorted
  right_sorted := crowdedRights_sorted
  apart := crowded_apart

def crowdedLink : ManualLink := ⟨"link", "link-1", "L2", "R3", rfl, rfl, rfl, rfl⟩

def crowdedRejection : RejectedRelationship := ⟨"reject", "reject-1", "L1", "R1", rfl, rfl, rfl, rfl⟩

def crowdedAccepted : AcceptedUnmatched := ⟨"accept", "accept-1", "L4", rfl, rfl, rfl⟩

theorem crowded_unique : ["link", "accept", "reject"].Nodup := by decide

theorem crowdedSingles_apart : ∀ i ∈ ["L2", "R3"], i ∉ ["L4"] := by decide

/-- The record on its own is linked, one of the rivals is rejected and one end of
the pair is accepted as unmatched. -/
def crowdedDecisions : DecisionInputs where
  manualLinks := [crowdedLink]
  acceptedUnmatched := [crowdedAccepted]
  rejectedRelationships := [crowdedRejection]
  reservedIdentities := []
  manual_sorted := List.pairwise_singleton _ _
  accepted_sorted := List.pairwise_singleton _ _
  rejected_sorted := List.pairwise_singleton _ _
  reserved_sorted := reserved_none
  decisions_unique := crowded_unique
  manualLeft_unique := List.nodup_singleton _
  manualRight_unique := List.nodup_singleton _
  singles_unique := List.nodup_singleton _
  singles_apart := crowdedSingles_apart
  rejected_unique := List.nodup_singleton _

def crowdedRun (limits : CapacityLimits) (d : DecisionInputs) : Outcome EngineResult :=
  reconcile checksum crowdedSnapshot (samplePolicy limits) sampleComparison d sampleSolver

theorem crowdedRun_pairs : (crowdedRun sampleLimits crowdedDecisions).toOption.map (fun r =>
    r.pairs.map fun p => (p.edge, p.origin)) =
      some [(("L1", "R2"), .weightedGlobal), (("L2", "R3"), .manual)] := by
  decide +kernel

theorem decisions_respected_sample : ∃ r, crowdedRun sampleLimits crowdedDecisions = .ok r ∧
    (manualOf r.pairs).map (·.edge) = [("L2", "R3")] ∧
    (∀ p ∈ r.pairs, "L4" ≠ p.leftId) ∧
    (∀ p ∈ r.pairs, p.origin ≠ .manual → p.edge ≠ ("L1", "R1")) ∧
    ∃ p ∈ r.pairs, p.origin = .weightedGlobal ∧ p.edge = ("L1", "R2") := by
  obtain ⟨r, hr, hpairs⟩ := ok_of_toOption crowdedRun_pairs
  obtain ⟨⟨hmanual, -⟩, hreserved, hrejected, -⟩ := decisions_respected sample_optimal hr
  have hlinks : (effectiveLinks crowdedSnapshot crowdedDecisions).map (·.edge) =
      [("L2", "R3")] := by
    decide
  refine ⟨r, hr, ?_, fun p hp => ?_, fun p hp horigin hedge => ?_, ?_⟩
  · rw [hlinks] at hmanual
    exact List.perm_singleton.mp hmanual
  · exact (hreserved .left (sampleRecord "L4" "DELT" rfl rfl noon) (by decide +kernel)
      (.inr (by decide)) p hp).1
  · exact hrejected p hp horigin (hedge ▸ by decide)
  · obtain ⟨p, hp, heq⟩ := List.mem_map.mp (hpairs ▸ List.mem_cons_self ..)
    obtain ⟨hedge, horigin⟩ := Prod.mk.inj heq
    exact ⟨p, hp, horigin, hedge⟩

end Workbench.Overrides
