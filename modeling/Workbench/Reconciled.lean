import Workbench.Results
import Workbench.Reservations
import Workbench.Comparisons
import Workbench.Diagnosis

/-!
# A run and its stages

What every stage of a successful run handed over, and what it takes for a run
to succeed once its candidates are scored.
-/

set_option autoImplicit false

namespace Workbench.Reconciled
open Workbench.Listing Workbench.Raising Workbench.Records Workbench.Evidence
open Workbench.References Workbench.Reservations Workbench.Candidates Workbench.Json
open Workbench.Generation Workbench.Scoring Workbench.Scores Workbench.Assignment
open Workbench.AssignmentOptimality Workbench.Gating Workbench.Acceptance
open Workbench.Comparison Workbench.Comparisons Workbench.Diagnostics Workbench.Diagnosis
open Workbench.Engine Workbench.Results Workbench.PaddedAssignment

theorem scoredSet {pre : ReferencePreprocessingResult} {policy : MatchingPolicy}
    {g : CandidateGenerationResult} {cs : List CandidateEvidence} (hg : Generated pre policy g)
    (h : ScoredAll pre g policy cs) : ScoredSet cs := by
  refine ⟨h.edges.nodup_iff.mpr hg.nodup, fun c hc => ?_, fun c hc => ?_⟩
  · obtain ⟨l, -, r, -, hscored⟩ := h.scored c hc
    exact ⟨hscored.leftId ▸ l.observationId_text, hscored.rightId ▸ r.observationId_text⟩
  · obtain ⟨l, -, r, -, hscored⟩ := h.scored c hc
    obtain ⟨fs, hfs, hscore⟩ := hscored.score
    exact hscore ▸ (features_spec hfs).2

theorem preprocessed_distinct {s : EngineSnapshot} {d : DecisionInputs}
    {contract : ReferenceContract} {pre : ReferencePreprocessingResult}
    (h : Preprocessed s d contract pre) : Distinct pre := by
  intro side
  rw [h.remaining side]
  exact (s.nodup side).sublist (List.filter_sublist.map _)

theorem remaining_mem {s : EngineSnapshot} {d : DecisionInputs}
    {contract : ReferenceContract} {pre : ReferencePreprocessingResult}
    (h : Preprocessed s d contract pre) (side : RecordSide) {r : MatchRecord}
    (hr : r ∈ pre.remaining side) : r ∈ s.records side := by
  rw [h.remaining side] at hr
  exact List.mem_of_mem_filter hr

/-- A pair before its fields are compared. -/
def bare (p : PairOutcome) : PairOutcome := { p with comparisons := [] }

section Pairs
variable {s : EngineSnapshot} {mp : MatchingPolicy} {cp : ComparisonPolicy}

theorem pair_create_ok {p q : PairOutcome} : p.create = .ok q ↔
    nonblank p.leftId = true ∧ nonblank p.rightId = true ∧ p.checkScores = .ok () ∧
      (p.comparisons.map (·.field)).Nodup ∧
      q = { p with comparisons := sortOn (·.field) p.comparisons } := by
  simp only [PairOutcome.create, requiredText, unique, bind_ok, exists_require, pure_ok]
  constructor
  · rintro ⟨hl, hr, ⟨⟩, hs, hf, rfl⟩
    exact ⟨hl, hr, hs, hf, rfl⟩
  · rintro ⟨hl, hr, hs, hf, rfl⟩
    exact ⟨hl, hr, (), hs, hf, rfl⟩

theorem comparePair_bare {p q : PairOutcome} (h : comparePair s mp cp p = .ok q) :
    bare q = bare p := by
  unfold comparePair at h
  split at h
  · obtain ⟨cs, -, h⟩ := bind_ok.mp h
    obtain ⟨-, -, -, -, rfl⟩ := pair_create_ok.mp h
    rfl
  · simp at h

theorem comparePair_total {p : PairOutcome} {l r : MatchRecord} (hl : l ∈ s.left)
    (hr : r ∈ s.right) (hleft : p.leftId = l.observationId) (hright : p.rightId = r.observationId)
    (hs : p.checkScores = .ok ()) (hc : Comparable cp mp.referenceContract p.origin l r) :
    ∃ q, comparePair s mp cp p = .ok q := by
  obtain ⟨cs, hcs⟩ := hc
  have hll : lookup (·.observationId) s.left p.leftId = some l := by
    rw [hleft]
    exact lookup_mem s.left_nodup hl
  have hrr : lookup (·.observationId) s.right p.rightId = some r := by
    rw [hright]
    exact lookup_mem s.right_nodup hr
  simp only [comparePair, hll, hrr, hcs, ok_bind]
  exact ⟨_, pair_create_ok.mpr ⟨hleft ▸ l.observationId_text, hright ▸ r.observationId_text, hs,
    comparePairFields_nodup hcs, rfl⟩⟩

theorem comparePair_ends {p q : PairOutcome} (h : comparePair s mp cp p = .ok q) :
    ∃ l ∈ s.left, ∃ r ∈ s.right, p.leftId = l.observationId ∧ p.rightId = r.observationId ∧
      Comparable cp mp.referenceContract p.origin l r := by
  unfold comparePair at h
  split at h
  · rename_i l r hl hr
    obtain ⟨cs, hcs, -⟩ := bind_ok.mp h
    obtain ⟨hl, hll⟩ := lookup_some hl
    obtain ⟨hr, hrr⟩ := lookup_some hr
    exact ⟨l, hl, r, hr, hll.symm, hrr.symm, cs, hcs⟩
  · simp at h

theorem proposedPair_ok {p : ProposalEvidence} {q : PairOutcome} :
    (proposedPair p).create = .ok q ↔ nonblank p.leftId = true ∧ nonblank p.rightId = true ∧
      p.scoreBp ≤ scoreScaleBp ∧ q = proposedPair p := by
  have hs : (proposedPair p).checkScores = .ok () ↔ p.scoreBp ≤ scoreScaleBp := by
    simp [PairOutcome.checkScores, proposedPair]
  rw [pair_create_ok, hs]
  constructor
  · rintro ⟨hl, hr, hscale, -, rfl⟩
    exact ⟨hl, hr, hscale, rfl⟩
  · rintro ⟨hl, hr, hscale, rfl⟩
    exact ⟨hl, hr, hscale, List.nodup_nil, rfl⟩

theorem acceptPair_ok {p : ProposalEvidence} {q : PairOutcome} :
    acceptPair s mp cp p = .ok q ↔ nonblank p.leftId = true ∧ nonblank p.rightId = true ∧
      p.scoreBp ≤ scoreScaleBp ∧ comparePair s mp cp (proposedPair p) = .ok q := by
  simp only [acceptPair, bind_ok, proposedPair_ok]
  constructor
  · rintro ⟨_, ⟨hl, hr, hs, rfl⟩, h⟩
    exact ⟨hl, hr, hs, h⟩
  · rintro ⟨hl, hr, hs, h⟩
    exact ⟨_, ⟨hl, hr, hs, rfl⟩, h⟩

end Pairs

theorem unpaired_create_total {u : UnpairedOutcome} (hid : nonblank u.recordId = true)
    (htext : nonblank u.explanation = true) (hn : u.relatedIds.Nodup) :
    ∃ v, u.create = .ok v ∧ v.recordId = u.recordId ∧ v.side = u.side :=
  ⟨_, unpaired_create hid htext hn, rfl, rfl⟩

theorem automaticUnpaired_total (cs : List CandidateEvidence)
    (prohibited : List ProhibitedRelationship) (limited : List String) (floorBp : ℕ)
    (side : RecordSide) (record : MatchRecord) :
    ∃ u, automaticUnpaired cs prohibited limited floorBp side record = .ok u ∧
      u.recordId = record.observationId ∧ u.side = side := by
  unfold automaticUnpaired
  simp only
  split_ifs
  all_goals
    refine unpaired_create_total record.observationId_text ?_ ?_
    · dsimp only
      decide
    · first | exact sortedSet_nodup _ | exact List.nodup_nil

theorem unpairedOutcomes_total (pre : ReferencePreprocessingResult) (cs : List CandidateEvidence)
    (limited : List String) (floorBp : ℕ) (pairs : List PairOutcome) :
    ∃ us, unpairedOutcomes pre cs limited floorBp pairs = .ok us ∧
      ∀ side, on side us = on side pre.terminalUnpaired ++ ids (leftover pre pairs side) := by
  have heach : ∀ side, ∃ us, (leftover pre pairs side).mapM
      (automaticUnpaired cs pre.prohibitedRelationships limited floorBp side) = .ok us ∧
        us.map (·.recordId) = ids (leftover pre pairs side) ∧
        us.map (·.side) = (leftover pre pairs side).map fun _ => side := by
    intro side
    obtain ⟨us, hus⟩ := mapM_exists (l := leftover pre pairs side) fun record _ =>
      (automaticUnpaired_total cs pre.prohibitedRelationships limited floorBp side record).imp
        fun u hu => hu.1
    have hspec : ∀ record ∈ leftover pre pairs side, ∀ u,
        automaticUnpaired cs pre.prohibitedRelationships limited floorBp side record = .ok u →
          u.recordId = record.observationId ∧ u.side = side := by
      intro record _ u hu
      obtain ⟨v, hv, hspec⟩ := automaticUnpaired_total cs pre.prohibitedRelationships limited
        floorBp side record
      rw [hu, Except.ok.injEq] at hv
      exact hv ▸ hspec
    exact ⟨us, hus, mapM_map hus fun r hr u hu => (hspec r hr u hu).1,
      mapM_map hus fun r hr u hu => (hspec r hr u hu).2⟩
  obtain ⟨ls, hls, hlids, hlsides⟩ := heach .left
  obtain ⟨rs, hrs, hrids, hrsides⟩ := heach .right
  have hside : ∀ {us : List UnpairedOutcome} {side : RecordSide},
      (us.map (·.side) = (leftover pre pairs side).map fun _ => side) →
        ∀ u ∈ us, u.side = side := by
    intro us side h u hu
    obtain ⟨r, -, hr⟩ := List.mem_map.mp (h ▸ List.mem_map_of_mem hu)
    exact hr.symm
  refine ⟨_, by simp only [unpairedOutcomes, hls, hrs, ok_bind]; rfl, fun side => ?_⟩
  simp only [on, List.filter_append, List.map_append]
  cases side with
  | left =>
    have hl : ls.filter (·.side = .left) = ls :=
      List.filter_eq_self.mpr fun u hu => decide_eq_true (hside hlsides u hu)
    have hr : rs.filter (·.side = .left) = [] :=
      List.filter_eq_nil_iff.mpr fun u hu => by simp [hside hrsides u hu]
    rw [hl, hr, hlids, List.map_nil, List.append_nil]
  | right =>
    have hl : ls.filter (·.side = .right) = [] :=
      List.filter_eq_nil_iff.mpr fun u hu => by simp [hside hlsides u hu]
    have hr : rs.filter (·.side = .right) = rs :=
      List.filter_eq_self.mpr fun u hu => decide_eq_true (hside hrsides u hu)
    rw [hl, hr, hrids, List.map_nil, List.nil_append]

section Outcomes
variable {digest : Digest} {s : EngineSnapshot} {mp : MatchingPolicy} {cp : ComparisonPolicy}
  {d : DecisionInputs} {solver : AssignmentSolver} {pre : ReferencePreprocessingResult}
  {g : CandidateGenerationResult} {cs : List CandidateEvidence} {a : AssignmentSolveResult}

def acceptedPairs (cs : List CandidateEvidence) (mp : MatchingPolicy)
    (a : AssignmentSolveResult) : List PairOutcome :=
  (acceptedOf (gatedComponents cs mp a)).map proposedPair

theorem accepted_spec (hs : ScoredSet cs) (hopt : Optimal solver.minimize)
    (hversion : nonblank solver.version = true) (h : SolvedGraph digest cs g mp solver a)
    {q : ProposalEvidence} (hq : q ∈ acceptedOf (gatedComponents cs mp a)) :
    ∃ x ∈ a.components, x.complete = true ∧ ∃ part ∈ partsOf cs mp.assignmentFloorBp,
      SolvedPart digest g.limitedRecordIds mp solver part x ∧
      ∃ c ∈ part, (∃ e ∈ x.selectedEdges, c.edge = e.edge) ∧
        q = proposalOf mp (componentCandidates cs mp.assignmentFloorBp x) c ∧
        q.accepted = true := by
  obtain ⟨hmem, haccepted⟩ := List.mem_filter.mp hq
  obtain ⟨y, hy, hqy⟩ := List.mem_flatMap.mp hmem
  obtain ⟨x, hx, rfl⟩ := List.mem_map.mp hy
  obtain ⟨part, hp, hpart⟩ := exists_part hs hopt hversion h hx
  obtain ⟨hcomplete, c, hc, e, he, hce, rfl⟩ := gated_proposal hs hopt hp hpart hqy
  exact ⟨x, hx, hcomplete, part, hp, hpart, c, hc, ⟨e, he, hce⟩, rfl, haccepted⟩

theorem accepted_ends (hscored : ScoredAll pre g mp cs) (hs : ScoredSet cs)
    (hopt : Optimal solver.minimize) (hversion : nonblank solver.version = true)
    (h : SolvedGraph digest cs g mp solver a) {p : PairOutcome} (hp : p ∈ acceptedPairs cs mp a) :
    ∃ l ∈ pre.remainingLeft, ∃ r ∈ pre.remainingRight, p.leftId = l.observationId ∧
      p.rightId = r.observationId := by
  obtain ⟨q, hq, rfl⟩ := List.mem_map.mp hp
  obtain ⟨x, -, -, part, hpart, -, c, hc, -, rfl, -⟩ := accepted_spec hs hopt hversion h hq
  have hcs := (mem_eligible.mp ((partsOf_spec cs _).mem hpart hc)).1
  obtain ⟨l, hl, r, hr, hsc⟩ := hscored.scored c hcs
  exact ⟨l, hl, r, hr, hsc.leftId, hsc.rightId⟩

theorem accepted_remaining (hscored : ScoredAll pre g mp cs) (hs : ScoredSet cs)
    (hopt : Optimal solver.minimize) (hversion : nonblank solver.version = true)
    (h : SolvedGraph digest cs g mp solver a) (side : RecordSide) :
    ∀ i ∈ (acceptedPairs cs mp a).map (·.endId side), i ∈ ids (pre.remaining side) := by
  intro i hi
  obtain ⟨p, hp, rfl⟩ := List.mem_map.mp hi
  obtain ⟨l, hl, r, hr, hleft, hright⟩ := accepted_ends hscored hs hopt hversion h hp
  cases side
  · have hmem : p.leftId ∈ ids pre.remainingLeft := hleft ▸ List.mem_map_of_mem hl
    exact hmem
  · have hmem : p.rightId ∈ ids pre.remainingRight := hright ▸ List.mem_map_of_mem hr
    exact hmem

theorem accepted_ends_nodup (hs : ScoredSet cs) (hopt : Optimal solver.minimize)
    (hversion : nonblank solver.version = true) (h : SolvedGraph digest cs g mp solver a)
    (side : RecordSide) : ((acceptedPairs cs mp a).map (·.endId side)).Nodup := by
  obtain ⟨hl, hr⟩ := proposal_ends_nodup hs hopt hversion h
  rw [acceptedPairs, List.map_map]
  cases side
  · exact hl.sublist (List.filter_sublist.map _)
  · exact hr.sublist (List.filter_sublist.map _)

theorem mem_pairedIds {pairs : List PairOutcome} {i : String} :
    i ∈ pairedIds pairs ↔ ∃ side, i ∈ pairs.map (·.endId side) := by
  simp only [pairedIds, List.mem_flatMap, List.mem_cons, List.not_mem_nil, or_false, List.mem_map]
  constructor
  · rintro ⟨p, hp, rfl | rfl⟩
    · exact ⟨.left, p, hp, rfl⟩
    · exact ⟨.right, p, hp, rfl⟩
  · rintro ⟨side, p, hp, rfl⟩
    refine ⟨p, hp, ?_⟩
    cases side
    · exact .inl rfl
    · exact .inr rfl

/-- Every record of a side ends up in one pair or in one unpaired outcome. -/
theorem outcomes_perm (hpre : Preprocessed s d mp.referenceContract pre)
    {accepted pairs : List PairOutcome}
    (hends : ∀ side, pairs.map (·.endId side) =
      pre.pairs.map (·.endId side) ++ accepted.map (·.endId side))
    (hwithin : ∀ side, ∀ i ∈ accepted.map (·.endId side), i ∈ ids (pre.remaining side))
    (hnodup : ∀ side, (accepted.map (·.endId side)).Nodup) {us : List UnpairedOutcome}
    (hus : ∀ side, on side us = on side pre.terminalUnpaired ++ ids (leftover pre pairs side))
    (side : RecordSide) :
    (pairs.map (·.endId side) ++ on side us).Perm (ids (s.records side)) := by
  have hpart := hpre.partition
  have hall : ∀ t, (pre.pairs.map (·.endId t) ++ on t pre.terminalUnpaired ++
      ids (pre.remaining t)).Nodup := fun t => (hpart t).nodup_iff.mpr (s.nodup t)
  have hremaining : ∀ t, ∀ i ∈ ids (pre.remaining t), i ∈ ids (s.records t) :=
    fun t i hi => (hpart t).mem_iff.mp (List.mem_append_right _ hi)
  have hother : ∀ t u, t ≠ u → ∀ i ∈ ids (s.records t), i ∉ ids (s.records u) := by
    intro t u htu i hi hj
    have hu : u = t.other := by cases t <;> cases u <;> simp_all [RecordSide.other]
    exact s.apart_other t i hi (hu ▸ hj)
  have hpaired : ∀ i ∈ ids (pre.remaining side),
      i ∈ pairedIds pairs ↔ i ∈ accepted.map (·.endId side) := by
    intro i hi
    rw [mem_pairedIds]
    constructor
    · rintro ⟨t, ht⟩
      rw [hends t] at ht
      by_cases hside : t = side
      · subst hside
        rcases List.mem_append.mp ht with ht | ht
        · obtain ⟨-, -, hd⟩ := List.nodup_append.mp (hall t)
          exact absurd rfl (hd i (List.mem_append_left _ ht) i hi)
        · exact ht
      · have hit : i ∈ ids (s.records t) := by
          rcases List.mem_append.mp ht with ht | ht
          · exact (hpart t).mem_iff.mp (List.mem_append_left _ (List.mem_append_left _ ht))
          · exact hremaining t i (hwithin t i ht)
        exact absurd (hremaining side i hi) (hother t side hside i hit)
    · intro ht
      exact ⟨side, by rw [hends side]; exact List.mem_append_right _ ht⟩
  have hsplit : (accepted.map (·.endId side) ++ ids (leftover pre pairs side)).Perm
      (ids (pre.remaining side)) := by
    have hrem : (ids (pre.remaining side)).Nodup := (List.nodup_append.mp (hall side)).2.1
    have hleft : ∀ i, i ∈ ids (leftover pre pairs side) ↔
        i ∈ ids (pre.remaining side) ∧ i ∉ accepted.map (·.endId side) := by
      intro i
      constructor
      · intro hi
        obtain ⟨r, hr, rfl⟩ := List.mem_map.mp hi
        obtain ⟨hr, hno⟩ := List.mem_filter.mp hr
        have hmem : r.observationId ∈ ids (pre.remaining side) := List.mem_map_of_mem hr
        exact ⟨hmem, fun ha => of_decide_eq_true hno ((hpaired _ hmem).mpr ha)⟩
      · rintro ⟨hi, hno⟩
        obtain ⟨r, hr, rfl⟩ := List.mem_map.mp hi
        refine List.mem_map_of_mem (List.mem_filter.mpr ⟨hr, decide_eq_true fun hp => ?_⟩)
        exact hno ((hpaired _ hi).mp hp)
    refine (List.perm_ext_iff_of_nodup ?_ hrem).mpr fun i => ?_
    · refine List.nodup_append.mpr ⟨hnodup side, hrem.sublist (List.filter_sublist.map _), ?_⟩
      rintro i hi j hj rfl
      exact ((hleft i).mp hj).2 hi
    · rw [List.mem_append, hleft]
      constructor
      · rintro (hi | ⟨hi, -⟩)
        · exact hwithin side i hi
        · exact hi
      · intro hi
        by_cases ha : i ∈ accepted.map (·.endId side)
        · exact .inl ha
        · exact .inr ⟨hi, ha⟩
  rw [hends side, hus side]
  refine List.Perm.trans ?_ (hpart side)
  rw [List.append_assoc, List.append_assoc]
  refine List.Perm.append_left _ ?_
  refine List.Perm.trans ?_ (hsplit.append_left _)
  rw [← List.append_assoc, ← List.append_assoc]
  exact List.perm_append_comm.append_right _

theorem pre_bare (hpre : Preprocessed s d mp.referenceContract pre) {p : PairOutcome}
    (hp : p ∈ pre.pairs) : bare p = p ∧ p.checkScores = .ok () ∧ p.origin ≠ .weightedGlobal := by
  rcases List.mem_append.mp (hpre.pairs.mem_iff.mp hp) with hp | hp
  · obtain ⟨link, -, hlink⟩ := List.mem_flatMap.mp hp
    split_ifs at hlink
    · rw [List.mem_singleton.mp hlink]
      exact ⟨rfl, by simp [PairOutcome.checkScores, manualPair], by simp [manualPair]⟩
    · simp at hlink
  · obtain ⟨key, -, hkey⟩ := List.mem_flatMap.mp hp
    rw [(mem_established.mp hkey).2.2.2]
    exact ⟨rfl, by simp [PairOutcome.checkScores, referencePair], by simp [referencePair]⟩

theorem bare_endId (p : PairOutcome) (side : RecordSide) : (bare p).endId side = p.endId side := by
  cases side <;> rfl

theorem ends_of_bare {l m : List PairOutcome} (h : l.map bare = m.map bare) (side : RecordSide) :
    l.map (·.endId side) = m.map (·.endId side) := by
  have hl := congrArg (List.map (·.endId side)) h
  simpa only [List.map_map, Function.comp_def, bare_endId] using hl

theorem gated_member (hs : ScoredSet cs) (hopt : Optimal solver.minimize)
    (hversion : nonblank solver.version = true) (h : SolvedGraph digest cs g mp solver a)
    {q : ProposalEvidence} (hq : q ∈ proposalsOf (gatedComponents cs mp a)) :
    ∃ c ∈ cs, c.edge = q.edge ∧ q.scoreBp = c.scoreBp := by
  obtain ⟨y, hy, hqy⟩ := List.mem_flatMap.mp hq
  obtain ⟨x, hx, rfl⟩ := List.mem_map.mp hy
  obtain ⟨part, hp, hpart⟩ := exists_part hs hopt hversion h hx
  obtain ⟨-, c, hc, -, -, -, rfl⟩ := gated_proposal hs hopt hp hpart hqy
  exact ⟨c, (mem_eligible.mp ((partsOf_spec cs _).mem hp hc)).1, rfl, rfl⟩

theorem primary_consistent (hpre : Preprocessed s d mp.referenceContract pre)
    (hscored : ScoredAll pre g mp cs) (hs : ScoredSet cs) (hopt : Optimal solver.minimize)
    (hversion : nonblank solver.version = true) (h : SolvedGraph digest cs g mp solver a)
    (htexts : (cs.map fun c => edgeText c.edge).Nodup)
    {components : List AssignmentComponentEvidence}
    (hcomponents : components.Perm (gatedComponents cs mp a)) {pairs : List PairOutcome}
    (hpairs : (pairs.map bare).Perm (pre.pairs.map bare ++ acceptedPairs cs mp a))
    {us : List UnpairedOutcome}
    (hperm : ∀ side, (pairs.map (·.endId side) ++ on side us).Perm (ids (s.records side))) :
    Consistent (primaryResult s mp cp cs components pairs us) := by
  have hnodup : ∀ side, (pairs.map (·.endId side)).Nodup ∧ (on side us).Nodup ∧
      Evidence.Apart (pairs.map (·.endId side)) (on side us) := by
    intro side
    obtain ⟨h1, h2, h3⟩ := List.nodup_append.mp ((hperm side).nodup_iff.mpr (s.nodup side))
    exact ⟨h1, h2, fun i hi hj => h3 i hi i hj rfl⟩
  have hcover : ∀ side, SameMembers (pairs.map (·.endId side) ++ on side us)
      (ids (s.records side)) :=
    fun side => ⟨fun i hi => (hperm side).mem_iff.mp hi, fun i hi => (hperm side).mem_iff.mpr hi⟩
  have hends : ∀ c ∈ cs, c.leftId ∈ ids s.left ∧ c.rightId ∈ ids s.right := by
    intro c hc
    obtain ⟨l, hl, r, hr, hsc⟩ := hscored.scored c hc
    refine ⟨hsc.leftId ▸ List.mem_map_of_mem ?_, hsc.rightId ▸ List.mem_map_of_mem ?_⟩
    · exact remaining_mem hpre .left hl
    · exact remaining_mem hpre .right hr
  have hproposals : (proposalsOf components).Perm (proposalsOf (gatedComponents cs mp a)) :=
    hcomponents.flatMap_right _
  have haccepted : (acceptedOf components).Perm (acceptedOf (gatedComponents cs mp a)) :=
    hproposals.filter _
  have hweighted : ∀ p ∈ weightedOf pairs, bare p ∈ acceptedPairs cs mp a := by
    intro p hp
    obtain ⟨hmem, horigin⟩ := List.mem_filter.mp hp
    rcases List.mem_append.mp (hpairs.mem_iff.mp (List.mem_map_of_mem hmem)) with hb | hb
    · obtain ⟨q, hq, hqp⟩ := List.mem_map.mp hb
      have hqo : (bare q).origin = (bare p).origin := congrArg PairOutcome.origin hqp
      exact absurd (hqo.trans (of_decide_eq_true horigin)) (pre_bare hpre hq).2.2
    · exact hb
  refine ⟨⟨s.leftRevisionId_text, s.rightRevisionId_text, mp.policyVersion_text,
    cp.policyVersion_text, mp.engineVersion_text, mp.solverVersion_text⟩, s.left_nodup,
    s.right_nodup, s.apart, (hnodup .left).1, (hnodup .right).1, (hnodup .left).2.1,
    (hnodup .right).2.1, ⟨(hnodup .left).2.2, (hnodup .right).2.2⟩,
    ⟨hcover .left, hcover .right⟩, htexts, hends, ?_, ?_, ?_, ⟨⟨?_, ?_⟩, ?_⟩⟩
  · have hids : (gatedComponents cs mp a).map (·.componentId) =
        a.components.map (·.componentId) := by
      rw [gatedComponents, List.map_map]
      rfl
    exact (hcomponents.map _).nodup_iff.mpr (hids ▸ h.distinct)
  · intro y hy
    obtain ⟨x, hx, rfl⟩ := List.mem_map.mp (hcomponents.mem_iff.mp hy)
    obtain ⟨part, hp, hpart⟩ := exists_part hs hopt hversion h hx
    have hcs : ∀ c ∈ part, c ∈ cs :=
      fun c hc => (mem_eligible.mp ((partsOf_spec cs _).mem hp hc)).1
    refine ⟨fun i hi => ?_, fun i hi => ?_⟩
    · obtain ⟨c, hc, rfl⟩ := mem_lefts.mp (hpart.leftIds ▸ hi : i ∈ lefts part)
      exact (hends c (hcs c hc)).1
    · obtain ⟨c, hc, rfl⟩ := mem_rights.mp (hpart.rightIds ▸ hi : i ∈ rights part)
      exact (hends c (hcs c hc)).2
  · intro q hq
    obtain ⟨c, hc, hce, hscore⟩ :=
      gated_member hs hopt hversion h (hproposals.mem_iff.mp hq)
    rw [← hce]
    have hlookup := lookup_mem hs.unique hc
    simp only [primaryResult, hlookup, Option.map_some, hscore]
  · intro e he
    obtain ⟨q, hq, rfl⟩ := List.mem_map.mp he
    have hmem : proposedPair q ∈ pairs.map bare := by
      refine hpairs.mem_iff.mpr (List.mem_append_right _ ?_)
      exact List.mem_map_of_mem (haccepted.mem_iff.mp hq)
    obtain ⟨p, hp, hpq⟩ := List.mem_map.mp hmem
    refine List.mem_map.mpr ⟨p, List.mem_filter.mpr ⟨hp, ?_⟩, ?_⟩
    · exact decide_eq_true (congrArg PairOutcome.origin hpq)
    · exact congrArg PairOutcome.edge hpq
  · intro e he
    obtain ⟨p, hp, rfl⟩ := List.mem_map.mp he
    obtain ⟨q, hq, hqp⟩ := List.mem_map.mp (hweighted p hp)
    refine List.mem_map.mpr ⟨q, haccepted.mem_iff.mpr hq, ?_⟩
    exact congrArg PairOutcome.edge hqp
  · intro q hq p hp hpq
    obtain ⟨q', hq', hqp⟩ := List.mem_map.mp (hweighted p hp)
    have hsame : q' = q := by
      have hedges := (proposal_ends_nodup hs hopt hversion h).1
      refine eq_of_key_eq (·.leftId) (hedges.sublist (List.filter_sublist.map _)) hq'
        (haccepted.mem_iff.mp hq) ?_
      have hleft := congrArg PairOutcome.leftId hqp
      exact hleft.trans (congrArg Prod.fst hpq)
    subst hsame
    exact ⟨(congrArg PairOutcome.scoreBp hqp).symm, (congrArg PairOutcome.globalGapBp hqp).symm⟩

/-- What the stages of a successful run handed over, and how its result is
made of it. -/
structure Stages (digest : Digest) (s : EngineSnapshot) (mp : MatchingPolicy)
    (cp : ComparisonPolicy) (d : DecisionInputs) (solver : AssignmentSolver)
    (pre : ReferencePreprocessingResult) (g : CandidateGenerationResult)
    (cs : List CandidateEvidence) (a : AssignmentSolveResult) (r : EngineResult) : Prop where
  preprocessed : preprocessReferences s d mp.referenceContract = .ok pre
  generated : generateCandidates digest pre mp = .ok g
  scored : scoreCandidates pre g mp = .ok cs
  solved : solveAssignment digest cs g mp solver = .ok a
  candidates : r.candidates.Perm cs
  components : r.components.Perm (gatedComponents cs mp a)
  pairs : (r.pairs.map bare).Perm (pre.pairs ++ acceptedPairs cs mp a)
  compared : ∀ p ∈ r.pairs, ∃ l ∈ s.left, ∃ q ∈ s.right, p.leftId = l.observationId ∧
    p.rightId = q.observationId ∧ Comparable cp mp.referenceContract p.origin l q
  diagnosed : ∃ pairs, diagnoseAcceptedUnmatched digest s d mp pairs = .ok r.diagnostics
  inputs : r.inputLeftIds = ids s.left ∧ r.inputRightIds = ids s.right
  checked : Consistent r
  reporting : (r.diagnostics.map (·.key)).Nodup

theorem pre_pairs_bare (hpre : Preprocessed s d mp.referenceContract pre) :
    pre.pairs.map bare = pre.pairs := by
  conv_rhs => rw [← List.map_id pre.pairs]
  exact List.map_congr_left fun p hp => (pre_bare hpre hp).1

theorem established_bare {pairs out : List PairOutcome}
    (h : pairs.mapM (comparePair s mp cp) = .ok out) : out.map bare = pairs.map bare :=
  mapM_map h fun _ _ _ hq => comparePair_bare hq

theorem acceptPairs_bare {ps : List ProposalEvidence} {out : List PairOutcome}
    (h : ps.mapM (acceptPair s mp cp) = .ok out) : out.map bare = ps.map proposedPair := by
  refine mapM_map h fun p _ q hq => ?_
  exact comparePair_bare (acceptPair_ok.mp hq).2.2.2

theorem diagnose_sorted {pairs : List PairOutcome} {ds : List DecisionHealthDiagnostic}
    (h : diagnoseAcceptedUnmatched digest s d mp pairs = .ok ds) : sortOn (·.order) ds = ds := by
  simp only [diagnoseAcceptedUnmatched, bind_ok, pure_ok] at h
  obtain ⟨acc, -, rfl⟩ := h
  exact sortOn_idem _ _

theorem sorted_ids (s : EngineSnapshot) (side : RecordSide) :
    sortOn id (ids (s.records side)) = ids (s.records side) :=
  sortOn_eq_self _ ((s.sorted side).imp fun hab => le_of_lt hab)

theorem comparePair_compared {p q : PairOutcome} (h : comparePair s mp cp p = .ok q) :
    ∃ l ∈ s.left, ∃ r ∈ s.right, q.leftId = l.observationId ∧ q.rightId = r.observationId ∧
      Comparable cp mp.referenceContract q.origin l r := by
  have hb := comparePair_bare h
  have hl : (bare q).leftId = (bare p).leftId := congrArg PairOutcome.leftId hb
  have hr : (bare q).rightId = (bare p).rightId := congrArg PairOutcome.rightId hb
  have ho : (bare q).origin = (bare p).origin := congrArg PairOutcome.origin hb
  obtain ⟨l, hl', r, hr', hll, hrr, hc⟩ := comparePair_ends h
  have horigin : q.origin = p.origin := ho
  exact ⟨l, hl', r, hr', hl.trans hll, hr.trans hrr, horigin ▸ hc⟩

theorem solver_version (h : solveAssignment digest cs g mp solver = .ok a) :
    solver.version = mp.solverVersion := by
  simp only [solveAssignment, bind_ok, exists_require] at h
  exact h.1

theorem reconcile_stages (hopt : Optimal solver.minimize) {r : EngineResult}
    (h : reconcile digest s mp cp d solver = .ok r) :
    ∃ pre g cs a, Stages digest s mp cp d solver pre g cs a r := by
  simp only [reconcile, bind_ok] at h
  obtain ⟨pre, hpre, g, hg, cs, hcs, a, ha, gated, hgated, est, hest, acc, hacc, us, hus, primary,
    hprimary, ds, hds, hr⟩ := h
  obtain ⟨-, hP⟩ := preprocess_spec hpre
  have hG : g = Generation.generated digest pre mp :=
    ((generate_ok (preprocessed_distinct hP)).mp hg).2.2
  have hgen : Generated pre mp g := hG ▸ generated_spec digest mp
  have hs := scoredSet hgen (scoreCandidates_spec hcs)
  have hversion := solver_text ha
  have hsolved := solveAssignment_spec hs hopt hversion ha
  obtain ⟨-, rfl⟩ := (gateAssignment_ok hs hopt (solver_version ha) hsolved).mp hgated
  obtain ⟨hc, -, rfl⟩ := create_ok.mp hprimary
  obtain ⟨hc', hrep, rfl⟩ := create_ok.mp hr
  have hsort := diagnose_sorted hds
  have hpairs : ((est ++ acc).map bare).Perm (pre.pairs ++ acceptedPairs cs mp a) := by
    rw [List.map_append, established_bare hest, acceptPairs_bare hacc, pre_pairs_bare hP]
    exact ((sortOn_perm _ _).map _).append_left _
  refine ⟨pre, g, cs, a, hpre, hg, hcs, ha, ?_, ?_, ?_, ?_, ⟨_, hds.trans (congrArg _ hsort.symm)⟩, ⟨?_, ?_⟩, ?_, ?_⟩
  · exact (sortOn_perm _ _).trans (sortOn_perm _ _)
  · exact (sortOn_perm _ _).trans ((sortOn_perm _ _).trans (sortOn_perm _ _))
  · exact (((sortOn_perm _ _).trans (sortOn_perm _ _)).map _).trans hpairs
  · intro p hp
    have hmem : p ∈ est ++ acc := (sortOn_perm _ _).mem_iff.mp ((sortOn_perm _ _).mem_iff.mp hp)
    rcases List.mem_append.mp hmem with hp | hp
    · obtain ⟨q, -, hq⟩ := mapM_mem_right hest hp
      exact comparePair_compared hq
    · obtain ⟨q, -, hq⟩ := mapM_mem_right hacc hp
      exact comparePair_compared (acceptPair_ok.mp hq).2.2.2
  · exact (sortOn_idem _ _).trans (sorted_ids s .left)
  · exact (sortOn_idem _ _).trans (sorted_ids s .right)
  · exact hc'.reordered (ordered_reordered _)
  · exact (nodup_map_sortOn _ _ _).mpr hrep.keys

section Handed
variable {r : EngineResult}

theorem Stages.oriented (h : Stages digest s mp cp d solver pre g cs a r) : Oriented s d :=
  (preprocess_spec h.preprocessed).1

theorem Stages.partitioned (h : Stages digest s mp cp d solver pre g cs a r) :
    Preprocessed s d mp.referenceContract pre :=
  (preprocess_spec h.preprocessed).2

theorem Stages.gen (h : Stages digest s mp cp d solver pre g cs a r) : Generated pre mp g := by
  have hg := ((generate_ok (preprocessed_distinct h.partitioned)).mp h.generated).2.2
  exact hg ▸ generated_spec digest mp

theorem Stages.scoredAll (h : Stages digest s mp cp d solver pre g cs a r) :
    ScoredAll pre g mp cs :=
  scoreCandidates_spec h.scored

theorem Stages.scoredSet (h : Stages digest s mp cp d solver pre g cs a r) : ScoredSet cs :=
  Reconciled.scoredSet h.gen h.scoredAll

theorem Stages.version (h : Stages digest s mp cp d solver pre g cs a r) :
    nonblank solver.version = true :=
  solver_text h.solved

theorem Stages.graph (h : Stages digest s mp cp d solver pre g cs a r)
    (hopt : Optimal solver.minimize) : SolvedGraph digest cs g mp solver a :=
  solveAssignment_spec h.scoredSet hopt h.version h.solved

theorem Stages.weighted (h : Stages digest s mp cp d solver pre g cs a r) {p : PairOutcome}
    (hp : p ∈ r.pairs) (hw : p.origin = .weightedGlobal) :
    ∃ q ∈ acceptedOf (gatedComponents cs mp a), bare p = proposedPair q := by
  rcases List.mem_append.mp (h.pairs.mem_iff.mp (List.mem_map_of_mem hp)) with hb | hb
  · exact absurd hw (pre_bare h.partitioned hb).2.2
  · obtain ⟨q, hq, hqp⟩ := List.mem_map.mp hb
    exact ⟨q, hq, hqp.symm⟩

theorem Stages.accepted (h : Stages digest s mp cp d solver pre g cs a r) {q : ProposalEvidence}
    (hq : q ∈ acceptedOf (gatedComponents cs mp a)) :
    ∃ p ∈ r.pairs, bare p = proposedPair q := by
  have hmem : proposedPair q ∈ pre.pairs ++ acceptedPairs cs mp a :=
    List.mem_append_right _ (List.mem_map_of_mem hq)
  exact List.mem_map.mp (h.pairs.mem_iff.mpr hmem)

theorem Stages.established (h : Stages digest s mp cp d solver pre g cs a r) {p : PairOutcome}
    (hp : p ∈ r.pairs) (hw : p.origin ≠ .weightedGlobal) : bare p ∈ pre.pairs := by
  rcases List.mem_append.mp (h.pairs.mem_iff.mp (List.mem_map_of_mem hp)) with hb | hb
  · exact hb
  · obtain ⟨q, -, hqp⟩ := List.mem_map.mp hb
    have ho : (proposedPair q).origin = (bare p).origin := congrArg PairOutcome.origin hqp
    exact absurd ho.symm hw

end Handed

theorem pre_ends (hpre : Preprocessed s d mp.referenceContract pre) {p : PairOutcome}
    (hp : p ∈ pre.pairs) :
    ∃ l ∈ s.left, ∃ r ∈ s.right, p.leftId = l.observationId ∧ p.rightId = r.observationId := by
  have hmem : ∀ side, p.endId side ∈ ids (s.records side) := fun side =>
    (hpre.partition side).mem_iff.mp
      (List.mem_append_left _ (List.mem_append_left _ (List.mem_map_of_mem hp)))
  obtain ⟨l, hl, hle⟩ := List.mem_map.mp (hmem .left)
  obtain ⟨r, hr, hre⟩ := List.mem_map.mp (hmem .right)
  exact ⟨l, hl, r, hr, hle.symm, hre.symm⟩

/-- Once its candidates are scored, a run of an optimal solver fails on
colliding identity texts, on comparisons and on the health search only. -/
theorem reconcile_total (hopt : Optimal solver.minimize)
    (hpre : preprocessReferences s d mp.referenceContract = .ok pre)
    (hg : generateCandidates digest pre mp = .ok g) (hcs : scoreCandidates pre g mp = .ok cs)
    (hversion : solver.version = mp.solverVersion)
    (hids : ((partsOf cs mp.assignmentFloorBp).map fun p =>
      componentId digest (lefts p) (rights p)).Nodup)
    (htexts : (cs.map fun c => edgeText c.edge).Nodup)
    (hcompare : ∀ a, solveAssignment digest cs g mp solver = .ok a →
      ∀ p ∈ pre.pairs ++ acceptedPairs cs mp a, ∀ l ∈ s.left, ∀ r ∈ s.right,
        p.leftId = l.observationId → p.rightId = r.observationId →
          Comparable cp mp.referenceContract p.origin l r)
    (hdiag : ∃ pairs ds, diagnoseAcceptedUnmatched digest s d mp pairs = .ok ds ∧
      (ds.map (·.key)).Nodup) :
    ∃ r, reconcile digest s mp cp d solver = .ok r := by
  obtain ⟨-, hP⟩ := preprocess_spec hpre
  have hG : g = Generation.generated digest pre mp :=
    ((generate_ok (preprocessed_distinct hP)).mp hg).2.2
  have hgen : Generated pre mp g := hG ▸ generated_spec digest mp
  have hscored := scoreCandidates_spec hcs
  have hs := scoredSet hgen hscored
  have htext : nonblank solver.version = true := hversion ▸ mp.solverVersion_text
  obtain ⟨a, ha⟩ := solveAssignment_total (g := g) hs hopt hversion
    ⟨fun e he => hscored.edges.mem_iff.mp he, fun e he => hscored.edges.mem_iff.mpr he⟩
    hgen.limited_nodup hids
  have hsolved := solveAssignment_spec hs hopt htext ha
  have hgated := (gateAssignment_ok hs hopt hversion hsolved).mpr
    ⟨texts_apart hs hopt htext hsolved htexts, rfl⟩
  obtain ⟨est, hest⟩ := mapM_exists (f := comparePair s mp cp) (l := pre.pairs) fun p hp => by
    obtain ⟨l, hl, r, hr, hle, hre⟩ := pre_ends hP hp
    exact comparePair_total hl hr hle hre (pre_bare hP hp).2.1
      (hcompare a ha p (List.mem_append_left _ hp) l hl r hr hle hre)
  obtain ⟨acc, hacc⟩ := mapM_exists (f := acceptPair s mp cp)
    (l := (gatedResult cs mp a).acceptedProposals) fun q hq => by
    have hq : q ∈ acceptedOf (gatedComponents cs mp a) := (mem_sortOn _ _ _).mp hq
    have hp : proposedPair q ∈ acceptedPairs cs mp a := List.mem_map_of_mem hq
    obtain ⟨l, hl, r, hr, hle, hre⟩ := accepted_ends hscored hs hopt htext hsolved hp
    have hl := remaining_mem hP .left hl
    have hr := remaining_mem hP .right hr
    obtain ⟨c, hc, -, hscore⟩ :=
      gated_member hs hopt htext hsolved (List.mem_of_mem_filter hq)
    have hscale : q.scoreBp ≤ scoreScaleBp := hscore ▸ hs.scale c hc
    obtain ⟨z, hz⟩ : ∃ z, comparePair s mp cp (proposedPair q) = .ok z := comparePair_total hl hr hle hre
      (by simpa [PairOutcome.checkScores, proposedPair] using hscale)
      (hcompare a ha _ (List.mem_append_right _ hp) l hl r hr hle hre)
    have hleft : q.leftId = l.observationId := hle
    have hright : q.rightId = r.observationId := hre
    exact ⟨z, acceptPair_ok.mpr ⟨hleft ▸ l.observationId_text, hright ▸ r.observationId_text,
      hscale, hz⟩⟩
  obtain ⟨us, hus, hon⟩ := unpairedOutcomes_total pre cs a.limitedRecordIds mp.assignmentFloorBp
    (est ++ acc)
  have haccbare : (acc.map bare).Perm (acceptedPairs cs mp a) := by
    rw [acceptPairs_bare hacc]
    exact (sortOn_perm _ _).map _
  have hends : ∀ side, (est ++ acc).map (·.endId side) =
      pre.pairs.map (·.endId side) ++ acc.map (·.endId side) := by
    intro side
    rw [List.map_append, ends_of_bare (established_bare hest) side]
  have haccends : ∀ side, (acc.map (·.endId side)).Perm
      ((acceptedPairs cs mp a).map (·.endId side)) := by
    intro side
    have hmap := haccbare.map (·.endId side)
    simpa only [List.map_map, Function.comp_def, bare_endId] using hmap
  have hperm := outcomes_perm hP hends
    (fun side i hi => accepted_remaining hscored hs hopt htext hsolved side i
      ((haccends side).mem_iff.mp hi))
    (fun side => (haccends side).nodup_iff.mpr (accepted_ends_nodup hs hopt htext hsolved side)) hon
  have hprimary : Consistent (primaryResult s mp cp cs (gatedResult cs mp a).components
      (est ++ acc) us) := by
    refine primary_consistent hP hscored hs hopt htext hsolved htexts (sortOn_perm _ _) ?_ hperm
    rw [List.map_append, established_bare hest]
    exact haccbare.append_left _
  obtain ⟨pairs, ds₀, hds₀, hkeys₀⟩ := hdiag
  obtain ⟨ds, hds, hkeys⟩ := diagnose_pairs
    (ordered (primaryResult s mp cp cs (gatedResult cs mp a).components (est ++ acc) us)).pairs hds₀
  obtain ⟨href, -⟩ := diagnose_referring hds
  have hempty : Reporting (primaryResult s mp cp cs (gatedResult cs mp a).components
      (est ++ acc) us) [] := ⟨by simp, by simp, by simp⟩
  have hinputs : ∀ i ∈ ids s.left ++ ids s.right,
      i ∈ sortOn id (ids s.left) ++ sortOn id (ids s.right) := by
    intro i hi
    rcases List.mem_append.mp hi with hi | hi
    · exact List.mem_append_left _ ((mem_sortOn _ _ _).mpr hi)
    · exact List.mem_append_right _ ((mem_sortOn _ _ _).mpr hi)
  have hreporting : Reporting (diagnosed (primaryResult s mp cp cs
      (gatedResult cs mp a).components (est ++ acc) us) ds) ds :=
    ⟨hkeys.nodup_iff.mpr hkeys₀,
      fun x hx => ⟨hinputs _ (href.record x hx), fun i hi => hinputs _ (href.candidate x hx i hi)⟩,
      href.current⟩
  refine ⟨ordered (diagnosed (primaryResult s mp cp cs (gatedResult cs mp a).components
    (est ++ acc) us) ds), ?_⟩
  simp only [reconcile, bind_ok]
  exact ⟨pre, hpre, g, hg, cs, hcs, a, ha, _, hgated, est, hest, acc, hacc, us, hus, _,
    create_ok.mpr ⟨hprimary, hempty, rfl⟩, ds, hds,
    create_ok.mpr ⟨hprimary.diagnosed ds, hreporting, rfl⟩⟩

end Outcomes

end Workbench.Reconciled
