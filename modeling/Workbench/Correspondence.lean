import Workbench.Totality
import Mathlib.Logic.Relator

/-!
# Runs that correspond

Two runs search the same records under identities that a one-to-one relation
matches. Where no cap hides a member, a component of one run is a component of
the other, with the same scores.
-/

set_option autoImplicit false

namespace Workbench.Correspondence
open Workbench.Listing Workbench.Raising Workbench.Records Workbench.Evidence
open Workbench.References Workbench.Reservations Workbench.Candidates Workbench.Json
open Workbench.SearchSpace Workbench.Generation Workbench.Scoring Workbench.Scores
open Workbench.Assignment Workbench.Components Workbench.Optimum Workbench.Matching
open Workbench.AssignmentOptimality Workbench.Gating Workbench.Acceptance Workbench.Engine
open Workbench.Reconciled Workbench.PaddedAssignment

section Related
variable {α β : Type*} {R : α → β → Prop}

theorem length_le_related (hR : Relator.LeftUnique R) {l : List α} {m : List β} (hl : l.Nodup)
    (h : ∀ a ∈ l, ∃ b ∈ m, R a b) : l.length ≤ m.length := by
  by_cases hnil : l = []
  · simp [hnil]
  obtain ⟨a, ha⟩ := List.exists_mem_of_ne_nil l hnil
  obtain ⟨b, -⟩ := h a ha
  have : Nonempty β := ⟨b⟩
  choose! φ hmem hrel using h
  have hnodup : (l.map φ).Nodup :=
    hl.map_on fun a ha b hb hab => hR (hrel a ha) (hab ▸ hrel b hb)
  have hsub : l.map φ ⊆ m := by
    intro b hb
    obtain ⟨a, ha, rfl⟩ := List.mem_map.mp hb
    exact hmem a ha
  simpa using (List.subperm_of_subset hnodup hsub).length_le

theorem flip_biUnique (hR : Relator.BiUnique R) : Relator.BiUnique (flip R) :=
  ⟨fun _ _ _ h h' => hR.2 h h', fun _ _ _ h h' => hR.1 h h'⟩

theorem length_eq_related (hR : Relator.BiUnique R) {l : List α} {m : List β} (hl : l.Nodup)
    (hm : m.Nodup) (h : ∀ a ∈ l, ∃ b ∈ m, R a b) (h' : ∀ b ∈ m, ∃ a ∈ l, R a b) :
    l.length = m.length := by
  have hflip : Relator.LeftUnique (flip R) := (flip_biUnique hR).1
  exact le_antisymm (length_le_related hR.1 hl h) (length_le_related hflip hm h')

theorem injective_biUnique {f : α → β} (hf : Function.Injective f) :
    Relator.BiUnique fun a b => f a = b :=
  ⟨fun _ _ _ ha hb => hf (ha.trans hb.symm), fun _ _ _ ha hb => ha.symm.trans hb⟩

end Related

def EdgeRelated (R : String → String → Prop) (e e' : Edge) : Prop := R e.1 e'.1 ∧ R e.2 e'.2

theorem EdgeRelated.biUnique {R : String → String → Prop} (hR : Relator.BiUnique R) :
    Relator.BiUnique (EdgeRelated R) :=
  ⟨fun _ _ _ h h' => Prod.ext (hR.1 h.1 h'.1) (hR.1 h.2 h'.2),
    fun _ _ _ h h' => Prod.ext (hR.2 h.1 h'.1) (hR.2 h.2 h'.2)⟩

def named (r : MatchRecord) (i : String) (h : nonblank i = true) : MatchRecord :=
  { r with observationId := i, observationId_text := h }

def SameRecord (R : String → String → Prop) (r r' : MatchRecord) : Prop :=
  R r.observationId r'.observationId ∧ ∃ i h, r' = named r i h

theorem SameRecord.flip {R : String → String → Prop} {r r' : MatchRecord} (h : SameRecord R r r') :
    SameRecord (flip R) r' r := by
  obtain ⟨hid, i, hi, rfl⟩ := h
  exact ⟨hid, r.observationId, r.observationId_text, rfl⟩

structure Corresponding (R : String → String → Prop) (pre pre' : ReferencePreprocessingResult) :
    Prop where
  forward : ∀ side, ∀ r ∈ pre.remaining side, ∃ r' ∈ pre'.remaining side, SameRecord R r r'
  back : ∀ side, ∀ r' ∈ pre'.remaining side, ∃ r ∈ pre.remaining side, SameRecord R r r'
  prohibited : ∀ e e', EdgeRelated R e e' → (e ∈ prohibitedEdges pre ↔ e' ∈ prohibitedEdges pre')

structure Twin (R : String → String → Prop) (c d : CandidateEvidence) : Prop where
  edge : EdgeRelated R c.edge d.edge
  score : c.scoreBp = d.scoreBp
  contradictions : c.contradictions = [] ↔ d.contradictions = []
  coverage : c.coverageSufficient = d.coverageSufficient

structure Twins (R : String → String → Prop) (p q : List CandidateEvidence) : Prop where
  left_unique : (p.map (·.edge)).Nodup
  right_unique : (q.map (·.edge)).Nodup
  twin : ∀ c ∈ p, ∃ d ∈ q, Twin R c d
  from_twin : ∀ d ∈ q, ∃ c ∈ p, Twin R c d

section Flip
variable {R : String → String → Prop} {pre pre' : ReferencePreprocessingResult}
  {c d : CandidateEvidence} {p q : List CandidateEvidence}

theorem Corresponding.refl (pre : ReferencePreprocessingResult) : Corresponding Eq pre pre := by
  refine ⟨fun _ r hr => ⟨r, hr, rfl, r.observationId, r.observationId_text, rfl⟩,
    fun _ r hr => ⟨r, hr, rfl, r.observationId, r.observationId_text, rfl⟩, fun e e' he => ?_⟩
  rw [Prod.ext he.1 he.2]

theorem Corresponding.flip (h : Corresponding R pre pre') : Corresponding (flip R) pre' pre := by
  refine ⟨fun side r' hr' => ?_, fun side r hr => ?_, fun e e' he => ?_⟩
  · obtain ⟨r, hr, hsame⟩ := h.back side r' hr'
    exact ⟨r, hr, hsame.flip⟩
  · obtain ⟨r', hr', hsame⟩ := h.forward side r hr
    exact ⟨r', hr', hsame.flip⟩
  · exact (h.prohibited e' e he).symm

theorem Twin.flip (h : Twin R c d) : Twin (flip R) d c :=
  ⟨h.edge, h.score.symm, h.contradictions.symm, h.coverage.symm⟩

theorem Twins.flip (h : Twins R p q) : Twins (flip R) q p := by
  refine ⟨h.right_unique, h.left_unique, fun d hd => ?_, fun c hc => ?_⟩
  · obtain ⟨c, hc, ht⟩ := h.from_twin d hd
    exact ⟨c, hc, ht.flip⟩
  · obtain ⟨d, hd, ht⟩ := h.twin c hc
    exact ⟨d, hd, ht.flip⟩

theorem Twin.touch (hR : Relator.BiUnique R) {e f : CandidateEvidence} (h : Twin R c d)
    (h' : Twin R e f) (ht : Touch c e) : Touch d f := by
  rcases ht with hl | hr
  · exact .inl (hR.2 h.edge.1 (show R c.leftId f.leftId from hl ▸ h'.edge.1))
  · exact .inr (hR.2 h.edge.2 (show R c.rightId f.rightId from hr ▸ h'.edge.2))

end Flip

section Search
variable {R : String → String → Prop} {mp : MatchingPolicy} {limits : CapacityLimits}
  {pre pre' : ReferencePreprocessingResult} {g g' : CandidateGenerationResult}
  {cs cs' : List CandidateEvidence}

theorem scored_same {l r l' r' : MatchRecord} {c c' : CandidateEvidence}
    (hl : SameRecord R l l') (hr : SameRecord R r r') (h : Scored mp l r c)
    (h' : Scored (mp.withLimits limits) l' r' c') : Twin R c c' := by
  obtain ⟨hli, i, hi, rfl⟩ := hl
  obtain ⟨hri, j, hj, rfl⟩ := hr
  have hsame : Scored (mp.withLimits limits) (named l i hi) (named r j hj)
      { c with leftId := i, rightId := j } :=
    ⟨rfl, rfl, h.contradictions, h.coverage, h.score, h.score_le⟩
  obtain ⟨hscore, hcontradictions, hcoverage⟩ := hsame.agree h'
  refine ⟨⟨?_, ?_⟩, hscore, hcontradictions, hcoverage⟩
  · have hleft : R c.leftId c'.leftId := h.leftId ▸ h'.leftId ▸ hli
    exact hleft
  · have hright : R c.rightId c'.rightId := h.rightId ▸ h'.rightId ▸ hri
    exact hright

theorem compatible_same {pass : BlockingPassPolicy} {l r l' r' : MatchRecord}
    (hl : SameRecord R l l') (hr : SameRecord R r r') (h : Compatible pass l r) :
    Compatible pass l' r' := by
  obtain ⟨-, i, hi, rfl⟩ := hl
  obtain ⟨-, j, hj, rfl⟩ := hr
  exact h

/-- A candidate of one run corresponds to a candidate of the other, unless the
other run limits both its ends. -/
theorem rescored (limits : CapacityLimits) (hpre : Corresponding R pre pre') (hd : Distinct pre)
    (hd' : Distinct pre') (hg : Generated pre mp g) (hcs : ScoredAll pre g mp cs)
    (hg' : Generated pre' (mp.withLimits limits) g')
    (hcs' : ScoredAll pre' g' (mp.withLimits limits) cs') {c : CandidateEvidence} (hc : c ∈ cs)
    (hfree : ∀ e, EdgeRelated R c.edge e →
      e.1 ∉ g'.limitedRecordIds ∨ e.2 ∉ g'.limitedRecordIds) :
    ∃ c' ∈ cs', Twin R c c' := by
  obtain ⟨l, hl, r, hr, hscored, ⟨pass, hpass, hcompatible⟩, hno⟩ := scored_records hd hg hcs hc
  obtain ⟨l', hl', hsl⟩ := hpre.forward .left l hl
  obtain ⟨r', hr', hsr⟩ := hpre.forward .right r hr
  have hedge : c.edge = (l.observationId, r.observationId) :=
    Prod.ext hscored.leftId hscored.rightId
  have hrelated : EdgeRelated R (l.observationId, r.observationId)
      (l'.observationId, r'.observationId) := ⟨hsl.1, hsr.1⟩
  rcases records_scored hd' hg' hcs' hl' hr' ⟨pass, hpass, compatible_same hsl hsr hcompatible⟩
    (fun hp => hno ((hpre.prohibited _ _ hrelated).mpr hp)) with ⟨c', hc', hscored'⟩ | ⟨hll, hrl⟩
  · exact ⟨c', hc', scored_same hsl hsr hscored hscored'⟩
  · rcases hfree _ (hedge ▸ hrelated) with h | h
    · exact absurd hll h
    · exact absurd hrl h

/-- A step to a candidate of one run is a step of the other, as long as the
component reached there has no limited member. -/
theorem linked_twin (limits : CapacityLimits) (hR : Relator.BiUnique R)
    (hpre : Corresponding R pre pre') (hd : Distinct pre) (hd' : Distinct pre')
    (hg : Generated pre mp g) (hcs : ScoredAll pre g mp cs)
    (hg' : Generated pre' (mp.withLimits limits) g')
    (hcs' : ScoredAll pre' g' (mp.withLimits limits) cs') {part' : List CandidateEvidence}
    (hp' : part' ∈ partsOf cs' mp.assignmentFloorBp)
    (hfree : ∀ b ∈ part', b.leftId ∉ g'.limitedRecordIds ∧ b.rightId ∉ g'.limitedRecordIds)
    {c c' e : CandidateEvidence} (hc' : c' ∈ part') (ht : Twin R c c')
    (h : Linked (eligible cs mp.assignmentFloorBp) c e) : ∃ e' ∈ part', Twin R e e' := by
  have hparts' := partsOf_spec cs' mp.assignmentFloorBp
  induction h with
  | refl => exact ⟨c', hc', ht⟩
  | @tail b e _ hstep ih =>
    obtain ⟨b', hb', hbt⟩ := ih
    obtain ⟨he, htouch⟩ := hstep
    obtain ⟨hecs, hfloor⟩ := mem_eligible.mp he
    -- The end it shares with the component is not limited.
    have hends : ∀ f, EdgeRelated R e.edge f →
        f.1 ∉ g'.limitedRecordIds ∨ f.2 ∉ g'.limitedRecordIds := by
      intro f hf
      obtain ⟨hl, hr⟩ := hfree b' hb'
      rcases htouch with h | h
      · have hsame : b'.leftId = f.1 := hR.2 hbt.edge.1 (show R b.leftId f.1 from h ▸ hf.1)
        exact .inl (hsame ▸ hl)
      · have hsame : b'.rightId = f.2 := hR.2 hbt.edge.2 (show R b.rightId f.2 from h ▸ hf.2)
        exact .inr (hsame ▸ hr)
    obtain ⟨e', he', het⟩ := rescored limits hpre hd hd' hg hcs hg' hcs' hecs hends
    have hfloor' : mp.assignmentFloorBp < e'.scoreBp := het.score ▸ hfloor
    exact ⟨e', hparts'.closed hp' hb' (mem_eligible.mpr ⟨he', hfloor'⟩)
      (hbt.touch hR het htouch), het⟩

/-- Components without limited members that have a candidate in common
correspond as a whole. -/
theorem part_twins (limits : CapacityLimits) (hR : Relator.BiUnique R)
    (hpre : Corresponding R pre pre') (hd : Distinct pre) (hd' : Distinct pre')
    (hg : Generated pre mp g) (hcs : ScoredAll pre g mp cs)
    (hg' : Generated pre' (mp.withLimits limits) g')
    (hcs' : ScoredAll pre' g' (mp.withLimits limits) cs') {part part' : List CandidateEvidence}
    (hp : part ∈ partsOf cs mp.assignmentFloorBp) (hp' : part' ∈ partsOf cs' mp.assignmentFloorBp)
    (hfree : ∀ b ∈ part, b.leftId ∉ g.limitedRecordIds ∧ b.rightId ∉ g.limitedRecordIds)
    (hfree' : ∀ b ∈ part', b.leftId ∉ g'.limitedRecordIds ∧ b.rightId ∉ g'.limitedRecordIds)
    {c c' : CandidateEvidence} (hc : c ∈ part) (hc' : c' ∈ part') (ht : Twin R c c') :
    Twins R part part' := by
  have hparts := partsOf_spec cs mp.assignmentFloorBp
  have hparts' := partsOf_spec cs' mp.assignmentFloorBp
  refine ⟨?_, ?_, fun e he => ?_, fun e' he' => ?_⟩
  · exact hparts.unique (eligible_nodup (scoredSet hg hcs).unique _) hp
  · exact hparts'.unique (eligible_nodup (scoredSet hg' hcs').unique _) hp'
  · exact linked_twin limits hR hpre hd hd' hg hcs hg' hcs' hp' hfree' hc' ht
      ((hparts.linked part hp c hc e).mp he)
  · obtain ⟨e, he, het⟩ := linked_twin mp.limits (flip_biUnique hR) hpre.flip hd' hd hg' hcs'
      hg hcs hp hfree hc ht.flip ((hparts'.linked part' hp' c' hc' e').mp he')
    exact ⟨e, he, het.flip⟩

theorem mem_lefts_twins (h : Twins R cs cs') : ∀ i ∈ lefts cs, ∃ i' ∈ lefts cs', R i i' := by
  intro i hi
  obtain ⟨c, hc, rfl⟩ := mem_lefts.mp hi
  obtain ⟨d, hd, ht⟩ := h.twin c hc
  exact ⟨d.leftId, mem_lefts.mpr ⟨d, hd, rfl⟩, ht.edge.1⟩

theorem mem_rights_twins (h : Twins R cs cs') : ∀ i ∈ rights cs, ∃ i' ∈ rights cs', R i i' := by
  intro i hi
  obtain ⟨c, hc, rfl⟩ := mem_rights.mp hi
  obtain ⟨d, hd, ht⟩ := h.twin c hc
  exact ⟨d.rightId, mem_rights.mpr ⟨d, hd, rfl⟩, ht.edge.2⟩

theorem Twins.sizes (hR : Relator.BiUnique R) (h : Twins R cs cs') :
    (lefts cs).length = (lefts cs').length ∧ (rights cs).length = (rights cs').length ∧
      cs.length = cs'.length := by
  refine ⟨length_eq_related hR (sortedSet_nodup _) (sortedSet_nodup _) (mem_lefts_twins h)
    (mem_lefts_twins h.flip), length_eq_related hR (sortedSet_nodup _) (sortedSet_nodup _)
      (mem_rights_twins h) (mem_rights_twins h.flip), ?_⟩
  have hedges := length_eq_related (EdgeRelated.biUnique hR) h.left_unique h.right_unique
    (fun e he => ?_) fun e he => ?_
  · simpa only [List.length_map] using hedges
  · obtain ⟨c, hc, rfl⟩ := List.mem_map.mp he
    obtain ⟨d, hd, ht⟩ := h.twin c hc
    exact ⟨d.edge, List.mem_map_of_mem hd, ht.edge⟩
  · obtain ⟨d, hd, rfl⟩ := List.mem_map.mp he
    obtain ⟨c, hc, ht⟩ := h.from_twin d hd
    exact ⟨c.edge, List.mem_map_of_mem hc, ht.edge⟩

end Search

theorem limitReason_none {limits : CapacityLimits} {limited leftIds rightIds : List String}
    {edges : List CandidateEvidence} :
    limitReason limited leftIds rightIds limits edges = none ↔
      ((∀ i ∈ leftIds ++ rightIds, i ∉ limited) ∧ ∀ c ∈ edges, c.completeComputation = true) ∧
        leftIds.length+rightIds.length ≤ limits.maxComponentNodes ∧
        edges.length ≤ limits.maxComponentEdges := by
  unfold limitReason
  split_ifs with h1 h2 h3
  · simp only [false_iff, not_and]
    intro h
    rcases h1 with ⟨i, hi, hl⟩ | ⟨c, hc, hfalse⟩
    · exact absurd hl (h.1 i hi)
    · exact absurd (h.2 c hc) (by simp [hfalse])
  · simp only [false_iff]
    omega
  · simp only [false_iff]
    omega
  · rw [not_or, not_exists, not_exists] at h1
    simp only [true_iff]
    refine ⟨⟨fun i hi hl => h1.1 i ⟨hi, hl⟩, fun c hc => ?_⟩, by omega, by omega⟩
    simpa using fun hfalse => h1.2 c ⟨hc, hfalse⟩

section Accepted
variable {digest : Digest} {s : EngineSnapshot} {mp : MatchingPolicy} {cp : ComparisonPolicy}
  {d : DecisionInputs} {solver : AssignmentSolver} {pre : ReferencePreprocessingResult}
  {g : CandidateGenerationResult} {cs : List CandidateEvidence} {a : AssignmentSolveResult}
  {r : EngineResult} {part : List CandidateEvidence} {c : CandidateEvidence}

theorem gap_part (mp : MatchingPolicy) {limited : List String} {x : SolvedAssignmentComponent}
    (hs : ScoredSet cs) (hp : part ∈ partsOf cs mp.assignmentFloorBp)
    (h : SolvedPart digest limited mp solver part x) (e : Edge) :
    gapOf (componentCandidates cs mp.assignmentFloorBp x) mp.assignmentFloorBp e =
      gapOf part mp.assignmentFloorBp e := by
  have hperm := componentCandidates_perm hs hp h
  have hunique := (part_solvable hs hp).unique
  rw [gapOf, gapOf, edgesOf_perm hperm, utility_perm hperm ((hperm.map _).nodup_iff.mpr hunique)]

/-- A component that no cap limits, and a selected candidate of it that passes
the gate. -/
structure Accepts (digest : Digest) (mp : MatchingPolicy) (solver : AssignmentSolver)
    (g : CandidateGenerationResult) (cs part : List CandidateEvidence) (c : CandidateEvidence) :
    Prop where
  part_mem : part ∈ partsOf cs mp.assignmentFloorBp
  mem : c ∈ part
  solved : limitReason g.limitedRecordIds (lefts part) (rights part) mp.limits part = none
  selected : ∃ e ∈ (report digest g.limitedRecordIds mp solver part).selectedEdges,
    c.edge = e.edge
  passes : gateReasons c (gapOf part mp.assignmentFloorBp c.edge) mp = []

theorem Accepts.unlimited (h : Accepts digest mp solver g cs part c) {b : CandidateEvidence}
    (hb : b ∈ part) : b.leftId ∉ g.limitedRecordIds ∧ b.rightId ∉ g.limitedRecordIds := by
  obtain ⟨⟨hfree, -⟩, -⟩ := limitReason_none.mp h.solved
  exact ⟨hfree _ (List.mem_append_left _ (mem_lefts.mpr ⟨b, hb, rfl⟩)),
    hfree _ (List.mem_append_right _ (mem_rights.mpr ⟨b, hb, rfl⟩))⟩

theorem report_complete (hopt : Optimal solver.minimize) (hs : ScoredSet cs)
    (hversion : nonblank solver.version = true) (limited : List String)
    (hp : part ∈ partsOf cs mp.assignmentFloorBp) :
    (report digest limited mp solver part).complete = true ↔
      limitReason limited (lefts part) (rights part) mp.limits part = none := by
  have hpart := report_spec digest limited hs hopt hversion hp
  rw [hpart.complete, hpart.reason, Option.isNone_iff_eq_none]

def pairOf (mp : MatchingPolicy) (part : List CandidateEvidence) (c : CandidateEvidence) :
    PairOutcome :=
  ⟨c.leftId, c.rightId, .weightedGlobal, some c.scoreBp,
    some (gapOf part mp.assignmentFloorBp c.edge), []⟩

/-- A weighted pair of a result, its compared fields apart. -/
def Weighted (r : EngineResult) (p : PairOutcome) : Prop :=
  ∃ x ∈ r.pairs, x.origin = .weightedGlobal ∧ bare x = p

/-- The accepted proposals are the selected candidates that pass. -/
theorem accepted_iff (hopt : Optimal solver.minimize) (hs : ScoredSet cs)
    (hversion : nonblank solver.version = true) (h : SolvedGraph digest cs g mp solver a)
    {p : PairOutcome} :
    (∃ q ∈ acceptedOf (gatedComponents cs mp a), proposedPair q = p) ↔
      ∃ part c, Accepts digest mp solver g cs part c ∧ p = pairOf mp part c := by
  constructor
  · rintro ⟨q, hq, rfl⟩
    obtain ⟨hmem, haccepted⟩ := List.mem_filter.mp hq
    obtain ⟨y, hy, hqy⟩ := List.mem_flatMap.mp hmem
    obtain ⟨x, hx, rfl⟩ := List.mem_map.mp hy
    obtain ⟨part, hp, rfl⟩ := List.mem_map.mp (h.components.mem_iff.mp hx)
    have hpart := report_spec digest g.limitedRecordIds hs hopt hversion hp
    obtain ⟨hcomplete, c, hc, e, he, hce, rfl⟩ := gated_proposal hs hopt hp hpart hqy
    have hgap := gap_part mp hs hp hpart c.edge
    have hpasses : gateReasons c (gapOf (componentCandidates cs mp.assignmentFloorBp
        (report digest g.limitedRecordIds mp solver part)) mp.assignmentFloorBp c.edge) mp = [] :=
      of_decide_eq_true haccepted
    rw [hgap] at hpasses
    refine ⟨part, c, ⟨hp, hc, (report_complete hopt hs hversion _ hp).mp hcomplete,
      ⟨e, he, hce⟩, hpasses⟩, ?_⟩
    rw [proposedPair, proposalOf, hgap]
    rfl
  · rintro ⟨part, c, ha, rfl⟩
    have hp := ha.part_mem
    have hpart := report_spec digest g.limitedRecordIds hs hopt hversion hp
    have hgap := gap_part mp hs hp hpart c.edge
    obtain ⟨e, he, hce⟩ := ha.selected
    have hccs := (mem_eligible.mp ((partsOf_spec cs _).mem hp ha.mem)).1
    have hcandidate : candidateOf cs e.edge = c := by
      have hlookup : lookup (·.edge) cs e.edge = some c := hce ▸ lookup_mem hs.unique hccs
      rw [candidateOf, hlookup, Option.getD_some]
    refine ⟨proposalOf mp (componentCandidates cs mp.assignmentFloorBp
      (report digest g.limitedRecordIds mp solver part)) c, ?_, ?_⟩
    · refine List.mem_filter.mpr ⟨List.mem_flatMap.mpr ⟨_, List.mem_map_of_mem
        (h.components.mem_iff.mpr (List.mem_map_of_mem hp)), ?_⟩, ?_⟩
      · exact List.mem_map.mpr ⟨e, he, by rw [hcandidate]⟩
      · have hpasses := ha.passes
        rw [← hgap] at hpasses
        exact decide_eq_true hpasses
    · rw [proposedPair, proposalOf, hgap]
      rfl

/-- The weighted pairs of a result, their compared fields apart, are the
selected candidates that pass. -/
theorem weighted_iff (hopt : Optimal solver.minimize)
    (h : Stages digest s mp cp d solver pre g cs a r) {p : PairOutcome} :
    Weighted r p ↔
      ∃ part c, Accepts digest mp solver g cs part c ∧ p = pairOf mp part c := by
  rw [← accepted_iff hopt h.scoredSet h.version (h.graph hopt)]
  constructor
  · rintro ⟨x, hx, hw, rfl⟩
    obtain ⟨q, hq, hqx⟩ := h.weighted hx hw
    exact ⟨q, hq, hqx.symm⟩
  · rintro ⟨q, hq, rfl⟩
    obtain ⟨x, hx, hxq⟩ := h.accepted hq
    exact ⟨x, hx, congrArg PairOutcome.origin hxq, hxq⟩

theorem selected_of_gap (hopt : Optimal solver.minimize) (hs : ScoredSet cs)
    (hversion : nonblank solver.version = true) {limited : List String}
    (hp : part ∈ partsOf cs mp.assignmentFloorBp)
    (hnone : limitReason limited (lefts part) (rights part) mp.limits part = none)
    (hgap : 0 < gapOf part mp.assignmentFloorBp c.edge) :
    ∃ e ∈ (report digest limited mp solver part).selectedEdges, c.edge = e.edge := by
  have hpart := report_spec digest limited hs hopt hversion hp
  have hbest := hpart.selected ((report_complete hopt hs hversion limited hp).mpr hnone)
  have hunique := (part_solvable hs hp).unique
  have hsub : ((report digest limited mp solver part).selectedEdges.map (·.edge)).toFinset ⊆
      edgesOf part := by
    intro e he
    obtain ⟨x, hx, rfl⟩ := List.mem_map.mp (List.mem_toFinset.mp he)
    obtain ⟨b, hb, hbe, -⟩ := hbest.matched x hx
    exact mem_edgesOf.mpr ⟨b, hb, hbe⟩
  have hsum : ∑ e ∈ ((report digest limited mp solver part).selectedEdges.map (·.edge)).toFinset,
      utility part mp.assignmentFloorBp e =
        best (edgesOf part) (utility part mp.assignmentFloorBp) := by
    have htotal := hbest.best
    rw [List.toFinset_nil, Finset.sdiff_empty] at htotal
    rw [List.sum_toFinset _ hbest.nodup, List.map_map, ← htotal]
    congr 1
    refine List.map_congr_left fun x hx => ?_
    obtain ⟨b, hb, hbe, -, hutility⟩ := hbest.matched x hx
    rw [Function.comp_apply, ← hbe, utility_mem hunique _ hb, hutility]
  obtain ⟨x, hx, hxe⟩ := List.mem_map.mp
    (List.mem_toFinset.mp (mem_of_gap_pos hgap hsub hbest.oneToOne hsum))
  exact ⟨x, hx, hxe.symm⟩

end Accepted

section Counterparts
variable {R : String → String → Prop} {digest : Digest} {s s' : EngineSnapshot}
  {mp : MatchingPolicy} {cp : ComparisonPolicy} {d d' : DecisionInputs}
  {solver solver' : AssignmentSolver} {limits : CapacityLimits}
  {pre pre' : ReferencePreprocessingResult} {g g' : CandidateGenerationResult}
  {cs cs' part part' : List CandidateEvidence} {a a' : AssignmentSolveResult}
  {r r' : EngineResult} {c c' : CandidateEvidence}

/-- Where no cap hides a member, an accepted candidate has a counterpart in a
component that corresponds. -/
theorem Accepts.counterpart (hR : Relator.BiUnique R) (hpre : Corresponding R pre pre')
    (h : Stages digest s mp cp d solver pre g cs a r)
    (h' : Stages digest s' (mp.withLimits limits) cp d' solver' pre' g' cs' a' r')
    (hlimits : g'.limitedRecordIds = []) (ha : Accepts digest mp solver g cs part c) :
    ∃ part' ∈ partsOf cs' mp.assignmentFloorBp, ∃ c' ∈ part', Twin R c c' ∧
      Twins R part part' := by
  have hd := preprocessed_distinct h.partitioned
  have hd' := preprocessed_distinct h'.partitioned
  have hp := ha.part_mem
  obtain ⟨hccs, hfloor⟩ := mem_eligible.mp ((partsOf_spec cs _).mem hp ha.mem)
  obtain ⟨c', hc', ht⟩ := rescored limits hpre hd hd' h.gen h.scoredAll h'.gen h'.scoredAll hccs
    fun _ _ => .inl (by simp [hlimits])
  have hfloor' : mp.assignmentFloorBp < c'.scoreBp := ht.score ▸ hfloor
  obtain ⟨part', hp', hcp'⟩ := (partsOf_spec cs' mp.assignmentFloorBp).exists_mem
    (mem_eligible.mpr ⟨hc', hfloor'⟩)
  exact ⟨part', hp', c', hcp', ht, part_twins limits hR hpre hd hd' h.gen h.scoredAll h'.gen
    h'.scoredAll hp hp' (fun b hb => ha.unlimited hb) (by simp [hlimits]) ha.mem hcp' ht⟩

theorem Accepts.transfer (ha : Accepts digest mp solver g cs part c) (ht : Twin R c c')
    (hp' : part' ∈ partsOf cs' mp.assignmentFloorBp) (hc' : c' ∈ part')
    (hnone : limitReason g'.limitedRecordIds (lefts part') (rights part') limits part' = none)
    (hselected : ∃ e ∈ (report digest g'.limitedRecordIds (mp.withLimits limits) solver'
      part').selectedEdges, c'.edge = e.edge)
    (hgap : gapOf part' mp.assignmentFloorBp c'.edge = gapOf part mp.assignmentFloorBp c.edge) :
    Accepts digest (mp.withLimits limits) solver' g' cs' part' c' := by
  obtain ⟨hthreshold, hcoverage, hcontradictions, -, hminimum⟩ := gateReasons_nil.mp ha.passes
  obtain ⟨⟨-, hcomplete⟩, -⟩ := limitReason_none.mp hnone
  refine ⟨hp', hc', hnone, hselected, gateReasons_nil.mpr ⟨?_, ?_, ?_, hcomplete c' hc', ?_⟩⟩
  · exact ht.score ▸ hthreshold
  · exact ht.coverage ▸ hcoverage
  · exact ht.contradictions.mp hcontradictions
  · exact hminimum.trans_eq (congrArg Nat.cast hgap.symm)

end Counterparts

end Workbench.Correspondence
