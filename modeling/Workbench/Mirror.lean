import Workbench.Contributions
import Workbench.Overrides
import Workbench.Renaming
import Workbench.Thinning
import Workbench.Transposes

/-!
# The sides change places

A run over the same records and decisions with left and right exchanged makes
the same pairs the other way round, with the same scores and gaps: neither side
is preferred by references, blocking, scores, assignment or gates.
-/

set_option autoImplicit false

namespace Workbench.Mirror
open Workbench.Listing Workbench.Raising Workbench.Calendar Workbench.Records Workbench.Evidence
open Workbench.References Workbench.Reservations Workbench.Candidates Workbench.Json
open Workbench.SearchSpace Workbench.Generation Workbench.Scoring Workbench.Scores
open Workbench.Assignment Workbench.Components Workbench.Optimum Workbench.Matching
open Workbench.AssignmentOptimality Workbench.Gating Workbench.Acceptance Workbench.Engine
open Workbench.Reconciled Workbench.Totality Workbench.PaddedAssignment Workbench.Contributions
open Workbench.Correspondence Workbench.Renaming Workbench.Overrides Workbench.Transposes

def mirrored (p : PairOutcome) : PairOutcome :=
  { p with leftId := p.rightId, rightId := p.leftId }

theorem mirrored_end (p : PairOutcome) (side : RecordSide) :
    (mirrored p).endId side = p.endId side.other := by
  cases side <;> rfl

theorem other_other (side : RecordSide) : side.other.other = side := by
  cases side <;> rfl

/-- The two sides have changed places, also in the decisions. -/
structure Mirrored (s : EngineSnapshot) (d : DecisionInputs) (s' : EngineSnapshot)
    (d' : DecisionInputs) : Prop where
  records : ∀ side, s'.records side = s.records side.other
  manual : ∀ e, e ∈ d'.manualLinks.map (·.edge) ↔ e.swap ∈ d.manualLinks.map (·.edge)
  singles : ∀ i, i ∈ d'.singleIds ↔ i ∈ d.singleIds
  rejected : ∀ e, e ∈ d'.rejectedEdges ↔ e.swap ∈ d.rejectedEdges

section Inputs
variable {s s' : EngineSnapshot} {d d' : DecisionInputs} {contract : ReferenceContract}
  {pre pre' : ReferencePreprocessingResult} {p : PairOutcome} {i : String}

theorem Mirrored.symm (h : Mirrored s d s' d') : Mirrored s' d' s d where
  records side := by rw [h.records, other_other]
  manual e := by rw [h.manual, Prod.swap_swap]
  singles i := (h.singles i).symm
  rejected e := by rw [h.rejected, Prod.swap_swap]

theorem Mirrored.available (h : Mirrored s d s' d') (side : RecordSide) :
    available s' side = available s side.other := by
  rw [Reservations.available, Reservations.available, h.records]

theorem mem_manualEnds {side : RecordSide} :
    i ∈ manualEnds d side ↔ ∃ e ∈ d.manualLinks.map (·.edge),
      (match side with | .left => e.1 | .right => e.2) = i := by
  simp only [manualEnds, List.mem_map]
  constructor
  · rintro ⟨m, hm, rfl⟩
    exact ⟨m.edge, ⟨m, hm, rfl⟩, by cases side <;> rfl⟩
  · rintro ⟨_, ⟨m, hm, rfl⟩, rfl⟩
    exact ⟨m, hm, by cases side <;> rfl⟩

theorem Mirrored.manualEnds (h : Mirrored s d s' d') (side : RecordSide) :
    i ∈ manualEnds d' side ↔ i ∈ manualEnds d side.other := by
  rw [mem_manualEnds, mem_manualEnds]
  constructor
  · rintro ⟨e, he, hend⟩
    exact ⟨e.swap, (h.manual e).mp he, by cases side <;> exact hend⟩
  · rintro ⟨e, he, hend⟩
    exact ⟨e.swap, (h.manual e.swap).mpr (by rwa [Prod.swap_swap]), by cases side <;> exact hend⟩

theorem Mirrored.free (h : Mirrored s d s' d') (side : RecordSide) :
    Free s' d' side i ↔ Free s d side.other i := by
  unfold Free
  rw [h.available, h.manualEnds, h.singles]

theorem Mirrored.prohibited (h : Mirrored s d s' d') {e : Edge} :
    e ∈ (prohibitedRelationships s' d').map (·.edge) ↔
      e.swap ∈ (prohibitedRelationships s d).map (·.edge) := by
  have hleft : s'.left = s.right := h.records .left
  have hright : s'.right = s.left := h.records .right
  rw [mem_prohibited, mem_prohibited, h.rejected, hleft, hright]
  exact and_congr_right fun _ => and_comm

theorem Mirrored.sharing (h : Mirrored s d s' d') (side : RecordSide) (key : String) :
    sharing s' d' contract side key = sharing s d contract side.other key := by
  have hfree : freeRecords s' d' side = freeRecords s d side.other := by
    rw [freeRecords, freeRecords, h.records]
    exact List.filter_congr fun r _ => by simp only [h.free]
  rw [Reservations.sharing, Reservations.sharing, hfree]

theorem Mirrored.duplicated (h : Mirrored s d s' d') {key : String} :
    Duplicated s' d' contract key ↔ Duplicated s d contract key := by
  unfold Duplicated Conflicting
  rw [h.sharing, h.sharing]
  exact not_congr and_comm

theorem Mirrored.conflict (h : Mirrored s d s' d') (side : RecordSide) :
    i ∈ conflictIds s' d' contract side ↔ i ∈ conflictIds s d contract side.other := by
  rw [mem_conflictIds, mem_conflictIds]
  exact exists_congr fun key => by rw [h.duplicated, h.sharing]

theorem Mirrored.referencePairs (h : Mirrored s d s' d') :
    p ∈ referencePairs s' d' contract → mirrored p ∈ referencePairs s d contract := by
  rw [mem_referencePairs, mem_referencePairs]
  rintro ⟨key, hp⟩
  obtain ⟨hleft, hright, hno, hpair⟩ := mem_established.mp hp
  rw [h.sharing] at hleft hright
  refine ⟨key, mem_established.mpr ⟨hright, hleft, fun hin => hno (h.prohibited.mpr hin), ?_⟩⟩
  rw [hpair]
  rfl

theorem Mirrored.referred (h : Mirrored s d s' d') (side : RecordSide)
    (hi : i ∈ (Reservations.referencePairs s' d' contract).map (·.endId side)) :
    i ∈ (Reservations.referencePairs s d contract).map (·.endId side.other) := by
  obtain ⟨p, hp, rfl⟩ := List.mem_map.mp hi
  exact List.mem_map.mpr ⟨_, h.referencePairs hp, by rw [mirrored_end, other_other]⟩

theorem Mirrored.remains (h : Mirrored s d s' d') (side : RecordSide) :
    Open s' d' contract side i ↔ Open s d contract side.other i := by
  unfold Open
  rw [h.free, h.conflict]
  refine and_congr_right fun _ => and_congr_right fun _ => not_congr ⟨h.referred side, ?_⟩
  intro hi
  have hback := h.symm.referred side.other hi
  rwa [other_other] at hback

theorem Mirrored.manualPairs (h : Mirrored s d s' d') (hp : p ∈ manualPairs s' d') :
    mirrored p ∈ manualPairs s d := by
  obtain ⟨m, hm, hpair⟩ := List.mem_flatMap.mp hp
  split_ifs at hpair with hends
  · obtain rfl := List.mem_singleton.mp hpair
    rw [h.available, h.available] at hends
    obtain ⟨n, hn, hedge⟩ := List.mem_map.mp ((h.manual m.edge).mp (List.mem_map_of_mem hm))
    obtain ⟨hleft, hright⟩ := Prod.mk.inj hedge
    refine List.mem_flatMap.mpr ⟨n, hn, ?_⟩
    rw [if_pos ⟨hleft ▸ hends.2, hright ▸ hends.1⟩, manualPair, hleft, hright]
    exact List.mem_singleton_self _
  · simp at hpair

theorem Mirrored.established (h : Mirrored s d s' d') (hpre : Preprocessed s d contract pre)
    (hpre' : Preprocessed s' d' contract pre') (hp : p ∈ pre'.pairs) :
    mirrored p ∈ pre.pairs := by
  refine hpre.pairs.mem_iff.mpr (List.mem_append.mpr ?_)
  exact (List.mem_append.mp (hpre'.pairs.mem_iff.mp hp)).imp h.manualPairs h.referencePairs

structure Facing (pre pre' : ReferencePreprocessingResult) : Prop where
  remaining : ∀ side, pre'.remaining side = pre.remaining side.other
  prohibited : ∀ e, e ∈ prohibitedEdges pre' ↔ e.swap ∈ prohibitedEdges pre

theorem Facing.symm (h : Facing pre pre') : Facing pre' pre where
  remaining side := by rw [h.remaining, other_other]
  prohibited e := by rw [h.prohibited, Prod.swap_swap]

theorem Mirrored.facing (h : Mirrored s d s' d') (hpre : Preprocessed s d contract pre)
    (hpre' : Preprocessed s' d' contract pre') : Facing pre pre' where
  remaining side := by
    rw [hpre.remaining, hpre'.remaining, h.records]
    exact List.filter_congr fun r _ => by simp only [h.remains]
  prohibited e := by
    rw [prohibitedEdges, prohibitedEdges, hpre.prohibited, hpre'.prohibited]
    exact h.prohibited

/-- Being on one side of the result without a pair is being on that side of the
snapshot without one. -/
theorem mem_unpaired {r : EngineResult} (h : OneOutcome s r) (side : RecordSide) :
    i ∈ on side r.unpaired ↔
      i ∈ ids (s.records side) ∧ ∀ x ∈ r.pairs, (bare x).endId side ≠ i := by
  have hend : ∀ x : PairOutcome, (bare x).endId side = x.endId side := fun x => by
    cases side <;> rfl
  simp only [hend, ← (h side).mem_iff, List.mem_append, List.mem_map]
  have hnodup := (h side).nodup_iff.mpr (s.nodup side)
  constructor
  · intro hi
    refine ⟨.inr hi, fun x hx hxi => ?_⟩
    exact (List.nodup_append.mp hnodup).2.2 _ (List.mem_map_of_mem hx) i hi hxi
  · rintro ⟨⟨x, hx, hxi⟩ | hi, hno⟩
    · exact absurd hxi (hno x hx)
    · exact hi

end Inputs

theorem inWindow_swap (window : Duration) (l r : MatchRecord) :
    inWindow window r l = inWindow window l r := by
  unfold inWindow
  cases l.executedAt with
  | none => cases r.executedAt <;> rfl
  | some t =>
    cases r.executedAt with
    | none => rfl
    | some u =>
      refine decide_eq_decide.mpr ?_
      omega

theorem compatible_swap {pass : BlockingPassPolicy} {l r : MatchRecord}
    (h : Compatible pass l r) : Compatible pass r l := by
  obtain ⟨key, hl, hr, hwindow⟩ := h
  exact ⟨key, hr, hl, fun window hw => inWindow_swap window l r ▸ hwindow window hw⟩

theorem Facing.roomy {pre pre' : ReferencePreprocessingResult} (h : Facing pre pre')
    {passes : List BlockingPassPolicy} {limits : CapacityLimits}
    (hroomy : Roomy pre passes limits) : Roomy pre' passes limits := by
  intro edges hnodup hall
  have hturned : ∀ e ∈ edges.map Prod.swap, CompatibleEdge pre passes e ∧
      e ∉ prohibitedEdges pre := by
    intro e he
    obtain ⟨f, hf, rfl⟩ := List.mem_map.mp he
    obtain ⟨⟨pass, hpass, l, hl, r, hr, rfl, hcompatible⟩, hno⟩ := hall f hf
    have hleft : pre'.remainingLeft = pre.remainingRight := h.remaining .left
    have hright : pre'.remainingRight = pre.remainingLeft := h.remaining .right
    exact ⟨⟨pass, hpass, r, hright ▸ hr, l, hleft ▸ hl, rfl, compatible_swap hcompatible⟩,
      fun hin => hno ((h.prohibited _).mpr hin)⟩
  obtain ⟨hl, hr, hlength⟩ := hroomy _ (hnodup.map Prod.swap_injective) hturned
  refine ⟨fun i => ?_, fun i => ?_, by rwa [List.length_map] at hlength⟩
  · have hcount := hr i
    rwa [List.countP_map] at hcount
  · have hcount := hl i
    rwa [List.countP_map] at hcount

theorem differ_swap {α : Type} [DecidableEq α] (a b : Option α) : differ b a = differ a b := by
  cases a <;> cases b <;> simp [differ, eq_comm]

theorem missing_swap {α : Type} (a b : Option α) : missing b a = missing a b :=
  Bool.or_comm _ _

theorem contradictions_swap (l r : MatchRecord) (contract : ReferenceContract) :
    contradictions r l contract = contradictions l r contract := by
  unfold contradictions
  simp only [differ_swap l.instrument, differ_swap l.side, differ_swap l.currency,
    differ_swap l.referenceValue, differ_swap l.sharedReferenceAlias]

theorem coverageFailures_swap (l r : MatchRecord) :
    coverageFailures r l = coverageFailures l r := by
  unfold coverageFailures
  simp only [missing_swap l.instrument, missing_swap l.side, missing_swap l.currency,
    missing_swap l.quantity, missing_swap l.executedAt, missing_swap l.unitPrice,
    missing_swap l.grossAmount]

structure Reflects (c c' : CandidateEvidence) : Prop where
  edge : c'.edge = c.edge.swap
  score : c'.scoreBp = c.scoreBp
  contradictions : c.contradictions = [] ↔ c'.contradictions = []
  coverage : c.coverageSufficient = c'.coverageSufficient

theorem Reflects.symm {c c' : CandidateEvidence} (h : Reflects c c') : Reflects c' c :=
  ⟨by rw [h.edge, Prod.swap_swap], h.score.symm, h.contradictions.symm, h.coverage.symm⟩

theorem Reflects.touch {b b' c c' : CandidateEvidence} (hb : Reflects b b') (hc : Reflects c c')
    (h : Touch b c) : Touch b' c' := by
  obtain ⟨hleft, hright⟩ := Prod.mk.inj hb.edge
  obtain ⟨hleft', hright'⟩ := Prod.mk.inj hc.edge
  rcases h with h | h
  · exact .inr (hright.trans (h.trans hright'.symm))
  · exact .inl (hleft.trans (h.trans hleft'.symm))

theorem scored_swap {mp : MatchingPolicy} (hp : OrdinaryPolicy mp) {l r : MatchRecord}
    (hl : OrdinaryRecord l) (hr : OrdinaryRecord r) {c c' : CandidateEvidence}
    (h : Scored mp l r c) (h' : Scored mp r l c') : Reflects c c' := by
  obtain ⟨fs, hfs, hscore⟩ := h.score
  obtain ⟨fs', hfs', hscore'⟩ := h'.score
  refine ⟨?_, ?_, ?_, ?_⟩
  · exact Prod.ext (h'.leftId.trans h.rightId.symm) (h'.rightId.trans h.leftId.symm)
  · rw [hscore, hscore', features_contributions hfs hl hr hp,
      features_contributions hfs' hr hl hp]
    simp only [measure_swap]
  · rw [h.contradictions, h'.contradictions, contradictions_swap]
  · rw [Bool.eq_iff_iff, h.coverage, h'.coverage, coverageFailures_swap]

structure Opposed (mp : MatchingPolicy) (pre : ReferencePreprocessingResult)
    (g : CandidateGenerationResult) (cs : List CandidateEvidence)
    (pre' : ReferencePreprocessingResult) (g' : CandidateGenerationResult)
    (cs' : List CandidateEvidence) : Prop where
  facing : Facing pre pre'
  policy : OrdinaryPolicy mp
  records : ∀ side, ∀ r ∈ pre.remaining side, OrdinaryRecord r
  distinct : Distinct pre
  distinct' : Distinct pre'
  gen : Generated pre mp g
  gen' : Generated pre' mp g'
  scored : ScoredAll pre g mp cs
  scored' : ScoredAll pre' g' mp cs'
  unlimited : g.limitedRecordIds = []
  unlimited' : g'.limitedRecordIds = []

structure ReflectedPart (p q : List CandidateEvidence) : Prop where
  left_unique : (p.map (·.edge)).Nodup
  right_unique : (q.map (·.edge)).Nodup
  there : ∀ c ∈ p, ∃ c' ∈ q, Reflects c c'
  back : ∀ c' ∈ q, ∃ c ∈ p, Reflects c c'

section Search
variable {mp : MatchingPolicy} {pre pre' : ReferencePreprocessingResult}
  {g g' : CandidateGenerationResult} {cs cs' p q part part' : List CandidateEvidence}
  {c c' b : CandidateEvidence} {floorBp : ℕ}

theorem Opposed.symm (h : Opposed mp pre g cs pre' g' cs') : Opposed mp pre' g' cs' pre g cs :=
  ⟨h.facing.symm, h.policy, fun side r hr => h.records side.other r (h.facing.remaining side ▸ hr),
    h.distinct', h.distinct, h.gen', h.gen, h.scored', h.scored, h.unlimited', h.unlimited⟩

theorem ReflectedPart.symm (h : ReflectedPart p q) : ReflectedPart q p := by
  refine ⟨h.right_unique, h.left_unique, fun c hc => ?_, fun c hc => ?_⟩
  · obtain ⟨c', hc', hr⟩ := h.back c hc
    exact ⟨c', hc', hr.symm⟩
  · obtain ⟨c', hc', hr⟩ := h.there c hc
    exact ⟨c', hc', hr.symm⟩

theorem Opposed.reflected (h : Opposed mp pre g cs pre' g' cs') (hc : c ∈ cs) :
    ∃ c' ∈ cs', Reflects c c' := by
  obtain ⟨l, hl, r, hr, hscored, ⟨pass, hpass, hcompatible⟩, hno⟩ :=
    scored_records h.distinct h.gen h.scored hc
  have hleft : pre'.remainingLeft = pre.remainingRight := h.facing.remaining .left
  have hright : pre'.remainingRight = pre.remainingLeft := h.facing.remaining .right
  have hno' : (r.observationId, l.observationId) ∉ prohibitedEdges pre' := fun hin =>
    hno ((h.facing.prohibited _).mp hin)
  rcases records_scored h.distinct' h.gen' h.scored' (hleft ▸ hr) (hright ▸ hl)
    ⟨pass, hpass, compatible_swap hcompatible⟩ hno' with ⟨c', hc', hscored'⟩ | ⟨hlimited, -⟩
  · exact ⟨c', hc', scored_swap h.policy (h.records .left l hl) (h.records .right r hr) hscored
      hscored'⟩
  · rw [h.unlimited'] at hlimited
    simp at hlimited

theorem Opposed.linked (h : Opposed mp pre g cs pre' g' cs')
    (hp' : part' ∈ partsOf cs' floorBp) (hc' : c' ∈ part') (hcc : Reflects c c')
    (hl : Linked (eligible cs floorBp) c b) : ∃ b' ∈ part', Reflects b b' := by
  have hparts' := partsOf_spec cs' floorBp
  induction hl with
  | refl => exact ⟨c', hc', hcc⟩
  | @tail x y _ hstep ih =>
    obtain ⟨x', hx', hxx⟩ := ih
    obtain ⟨hy, htouch⟩ := hstep
    obtain ⟨hycs, hfloor⟩ := mem_eligible.mp hy
    obtain ⟨y', hy', hyy⟩ := h.reflected hycs
    have hfloor' : floorBp < y'.scoreBp := hyy.score ▸ hfloor
    exact ⟨y', hparts'.closed hp' hx' (mem_eligible.mpr ⟨hy', hfloor'⟩)
      (hxx.touch hyy htouch), hyy⟩

theorem Opposed.parts (h : Opposed mp pre g cs pre' g' cs') (hp : part ∈ partsOf cs floorBp)
    (hp' : part' ∈ partsOf cs' floorBp) (hc : c ∈ part) (hc' : c' ∈ part')
    (hcc : Reflects c c') : ReflectedPart part part' := by
  have hparts := partsOf_spec cs floorBp
  have hparts' := partsOf_spec cs' floorBp
  refine ⟨hparts.unique (eligible_nodup (scoredSet h.gen h.scored).unique _) hp,
    hparts'.unique (eligible_nodup (scoredSet h.gen' h.scored').unique _) hp',
    fun b hb => h.linked hp' hc' hcc ((hparts.linked part hp c hc b).mp hb), fun b' hb' => ?_⟩
  obtain ⟨b, hb, hbb⟩ := h.symm.linked hp hc hcc.symm ((hparts'.linked part' hp' c' hc' b').mp hb')
  exact ⟨b, hb, hbb.symm⟩

theorem ReflectedPart.rights (h : ReflectedPart p q) : (rights q).Perm (lefts p) := by
  refine (List.perm_ext_iff_of_nodup (sortedSet_nodup _) (sortedSet_nodup _)).mpr fun i => ?_
  have hmem : i ∈ Assignment.rights q ↔ i ∈ lefts p := by
    rw [mem_rights, mem_lefts]
    constructor
    · rintro ⟨c', hc', rfl⟩
      obtain ⟨c, hc, hcc⟩ := h.back c' hc'
      exact ⟨c, hc, (Prod.mk.inj hcc.edge).2.symm⟩
    · rintro ⟨c, hc, rfl⟩
      obtain ⟨c', hc', hcc⟩ := h.there c hc
      exact ⟨c', hc', (Prod.mk.inj hcc.edge).2⟩
  exact hmem

theorem ReflectedPart.edges (h : ReflectedPart p q) : edgesOf q = (edgesOf p).image Prod.swap := by
  ext e
  rw [mem_transposed, mem_edgesOf, mem_edgesOf]
  constructor
  · rintro ⟨c', hc', rfl⟩
    obtain ⟨c, hc, hcc⟩ := h.back c' hc'
    exact ⟨c, hc, by rw [hcc.edge, Prod.swap_swap]⟩
  · rintro ⟨c, hc, hedge⟩
    obtain ⟨c', hc', hcc⟩ := h.there c hc
    exact ⟨c', hc', by rw [hcc.edge, hedge, Prod.swap_swap]⟩

theorem ReflectedPart.length (h : ReflectedPart p q) : q.length = p.length := by
  have hsize : ∀ {l : List CandidateEvidence}, (l.map (·.edge)).Nodup →
      (edgesOf l).card = l.length := fun hl => by
    rw [edgesOf, List.toFinset_card_of_nodup hl, List.length_map]
  rw [← hsize h.right_unique, ← hsize h.left_unique, h.edges]
  exact Finset.card_image_of_injective _ Prod.swap_injective

theorem ReflectedPart.gap (h : ReflectedPart p q) (hcc : Reflects c c') :
    gapOf q floorBp c'.edge = gapOf p floorBp c.edge := by
  have hutility : ∀ e ∈ edgesOf p, (utility q floorBp ∘ Prod.swap) e = utility p floorBp e := by
    intro e he
    obtain ⟨b, hb, rfl⟩ := mem_edgesOf.mp he
    obtain ⟨b', hb', hbb⟩ := h.there b hb
    rw [Function.comp_apply, ← hbb.edge, utility_mem h.right_unique floorBp hb',
      utility_mem h.left_unique floorBp hb, hbb.score]
  rw [gapOf, gapOf, h.edges, hcc.edge, gap_transposed, Matching.gap, Matching.gap,
    best_congr hutility, best_congr fun e he => hutility e (Finset.mem_of_mem_erase he)]

theorem Opposed.room (h : Opposed mp pre g cs pre' g' cs') (hpart : ReflectedPart part part')
    (hp' : part' ∈ partsOf cs' floorBp)
    (hnone : limitReason g.limitedRecordIds (lefts part) (rights part) mp.limits part = none) :
    limitReason g'.limitedRecordIds (lefts part') (rights part') mp.limits part' = none := by
  obtain ⟨-, hnodes, hedges⟩ := limitReason_none.mp hnone
  have hlefts := hpart.symm.rights.length_eq
  have hrights := hpart.rights.length_eq
  have hlength := hpart.length
  refine limitReason_none.mpr ⟨⟨by simp [h.unlimited'], fun b hb => ?_⟩, by omega, by omega⟩
  exact (h.scored'.complete b (mem_eligible.mp ((partsOf_spec cs' _).mem hp' hb)).1).mpr
    (by simp [h.unlimited'])

end Search

section Runs
variable {digest : Digest} {s s' : EngineSnapshot} {mp : MatchingPolicy} {cp : ComparisonPolicy}
  {d d' : DecisionInputs} {solver solver' : AssignmentSolver}
  {pre pre' : ReferencePreprocessingResult} {g g' : CandidateGenerationResult}
  {cs cs' part : List CandidateEvidence} {a a' : AssignmentSolveResult} {r r' : EngineResult}
  {c : CandidateEvidence} {p : PairOutcome}

theorem Mirrored.opposed (hm : Mirrored s d s' d') (hpolicy : OrdinaryPolicy mp)
    (hrecords : ∀ side, ∀ x ∈ s.records side, OrdinaryRecord x)
    (h : Stages digest s mp cp d solver pre g cs a r)
    (h' : Stages digest s' mp cp d' solver' pre' g' cs' a' r') (hdone : g.complete = true) :
    Opposed mp pre g cs pre' g' cs' where
  facing := hm.facing h.partitioned h'.partitioned
  policy := hpolicy
  records side x hx := hrecords side x (remaining_mem h.partitioned side hx)
  distinct := preprocessed_distinct h.partitioned
  distinct' := preprocessed_distinct h'.partitioned
  gen := h.gen
  gen' := h'.gen
  scored := h.scoredAll
  scored' := h'.scoredAll
  unlimited := h.gen.complete.mp hdone
  unlimited' := h'.gen.complete.mp (h'.gen.roomy.mp
    ((hm.facing h.partitioned h'.partitioned).roomy (h.gen.roomy.mpr hdone)))

/-- What the gate accepts of one search it accepts of the other, whatever the
solvers. -/
theorem Opposed.accepts (ho : Opposed mp pre g cs pre' g' cs')
    (hgap : 1 ≤ mp.minimumGlobalGapBp) (hopt' : Optimal solver'.minimize)
    (h' : Stages digest s' mp cp d' solver' pre' g' cs' a' r')
    (ha : Accepts digest mp solver g cs part c) :
    ∃ part' c', Accepts digest mp solver' g' cs' part' c' ∧
      pairOf mp part' c' = mirrored (pairOf mp part c) := by
  obtain ⟨hthreshold, hcoverage, hcontradictions, -, hminimum⟩ := gateReasons_nil.mp ha.passes
  obtain ⟨hccs, hfloor⟩ := mem_eligible.mp ((partsOf_spec cs _).mem ha.part_mem ha.mem)
  obtain ⟨c', hc', hcc⟩ := ho.reflected hccs
  have hfloor' : mp.assignmentFloorBp < c'.scoreBp := hcc.score ▸ hfloor
  obtain ⟨part', hp', hcp'⟩ := (partsOf_spec cs' mp.assignmentFloorBp).exists_mem
    (mem_eligible.mpr ⟨hc', hfloor'⟩)
  have hpart := ho.parts ha.part_mem hp' ha.mem hcp' hcc
  have hnone := ho.room hpart hp' ha.solved
  have hsame : gapOf part' mp.assignmentFloorBp c'.edge = gapOf part mp.assignmentFloorBp c.edge :=
    hpart.gap hcc
  obtain ⟨⟨-, hcomplete⟩, -⟩ := limitReason_none.mp hnone
  refine ⟨part', c', ⟨hp', hcp', hnone, ?_, gateReasons_nil.mpr ⟨?_, ?_, ?_, hcomplete c' hcp',
    ?_⟩⟩, ?_⟩
  · exact selected_of_gap hopt' h'.scoredSet h'.version hp' hnone
      (hsame ▸ Accepts.gap_pos hgap ha)
  · exact hcc.score ▸ hthreshold
  · exact hcc.coverage ▸ hcoverage
  · exact hcc.contradictions.mp hcontradictions
  · exact hminimum.trans_eq (congrArg Nat.cast hsame.symm)
  · have hleft : c'.leftId = c.rightId := (Prod.mk.inj hcc.edge).1
    have hright : c'.rightId = c.leftId := (Prod.mk.inj hcc.edge).2
    simp only [pairOf, mirrored, hsame, hcc.score, hleft, hright]

theorem weighted_mirrored (ho : Opposed mp pre g cs pre' g' cs')
    (hgap : 1 ≤ mp.minimumGlobalGapBp) (hopt : Optimal solver.minimize)
    (hopt' : Optimal solver'.minimize) (h : Stages digest s mp cp d solver pre g cs a r)
    (h' : Stages digest s' mp cp d' solver' pre' g' cs' a' r') (hw : Weighted r p) :
    Weighted r' (mirrored p) := by
  obtain ⟨part, c, ha, rfl⟩ := (weighted_iff hopt h).mp hw
  obtain ⟨part', c', ha', hpair⟩ := ho.accepts hgap hopt' h' ha
  exact (weighted_iff hopt' h').mpr ⟨part', c', ha', hpair.symm⟩

theorem pair_mirrored (hm : Mirrored s d s' d') (ho : Opposed mp pre g cs pre' g' cs')
    (hgap : 1 ≤ mp.minimumGlobalGapBp) (hopt : Optimal solver.minimize)
    (hopt' : Optimal solver'.minimize) (h : Stages digest s mp cp d solver pre g cs a r)
    (h' : Stages digest s' mp cp d' solver' pre' g' cs' a' r')
    (hp : ∃ x ∈ r.pairs, bare x = p) : ∃ x ∈ r'.pairs, bare x = mirrored p := by
  rw [Thinning.bare_pairs h']
  rcases (Thinning.bare_pairs h).mp hp with hpre | hw
  · exact .inl (hm.symm.established h'.partitioned h.partitioned hpre)
  · exact .inr (weighted_mirrored ho hgap hopt hopt' h h' hw)

/-- A run whose search no cap ended, and a run with the sides exchanged: the
candidates are the same turned around, with the same scores, and so are the
pairs; the records without a pair are the same. -/
theorem sides_change_places (hgap : 1 ≤ mp.minimumGlobalGapBp) (hopt : Optimal solver.minimize)
    (hopt' : Optimal solver'.minimize) (hpolicy : OrdinaryPolicy mp)
    (hrecords : ∀ side, ∀ x ∈ s.records side, OrdinaryRecord x) (hm : Mirrored s d s' d')
    (hcomplete : SearchComplete digest s mp d) (hr : reconcile digest s mp cp d solver = .ok r)
    (hr' : reconcile digest s' mp cp d' solver' = .ok r') :
    (∀ e scoreBp, (∃ c ∈ r'.candidates, c.edge = e.swap ∧ c.scoreBp = scoreBp) ↔
      ∃ c ∈ r.candidates, c.edge = e ∧ c.scoreBp = scoreBp) ∧
    (∀ p, (∃ x ∈ r'.pairs, bare x = mirrored p) ↔ ∃ x ∈ r.pairs, bare x = p) ∧
    ∀ side i, i ∈ on side r'.unpaired ↔ i ∈ on side.other r.unpaired := by
  obtain ⟨pre, g, cs, a, h⟩ := reconcile_stages hopt hr
  obtain ⟨pre', g', cs', a', h'⟩ := reconcile_stages hopt' hr'
  have ho := hm.opposed hpolicy hrecords h h' (hcomplete pre g h.preprocessed h.generated)
  have hpairs : ∀ p, (∃ x ∈ r'.pairs, bare x = mirrored p) ↔ ∃ x ∈ r.pairs, bare x = p :=
    fun p => ⟨fun hx => pair_mirrored hm.symm ho.symm hgap hopt' hopt h' h hx,
      pair_mirrored hm ho hgap hopt hopt' h h'⟩
  refine ⟨fun e scoreBp => ⟨?_, ?_⟩, hpairs, fun side i => ?_⟩
  · rintro ⟨c', hc', hedge, hscore⟩
    obtain ⟨c, hc, hcc⟩ := ho.symm.reflected (h'.candidates.mem_iff.mp hc')
    refine ⟨c, h.candidates.mem_iff.mpr hc, ?_, hcc.score.trans hscore⟩
    rw [hcc.edge, hedge, Prod.swap_swap]
  · rintro ⟨c, hc, rfl, rfl⟩
    obtain ⟨c', hc', hcc⟩ := ho.reflected (h.candidates.mem_iff.mp hc)
    exact ⟨c', h'.candidates.mem_iff.mpr hc', hcc.edge, hcc.score⟩
  · rw [mem_unpaired (oneOutcome h'), mem_unpaired (oneOutcome h), hm.records]
    refine and_congr_right fun _ => ⟨fun hno x hx hend => ?_, fun hno x hx hend => ?_⟩
    · obtain ⟨x', hx', hbare⟩ := (hpairs (bare x)).mpr ⟨x, hx, rfl⟩
      exact hno x' hx' (by rw [hbare, mirrored_end, hend])
    · obtain ⟨y, hy, hbare⟩ := (hpairs (mirrored (bare x))).mp ⟨x, hx, rfl⟩
      exact hno y hy (by rw [hbare, mirrored_end, other_other, hend])

end Runs

def exchanged (s : EngineSnapshot) : EngineSnapshot where
  leftRevisionId := s.rightRevisionId
  rightRevisionId := s.leftRevisionId
  left := s.right
  right := s.left
  leftRevisionId_text := s.rightRevisionId_text
  rightRevisionId_text := s.leftRevisionId_text
  left_sorted := s.right_sorted
  right_sorted := s.left_sorted
  apart := fun i hi hl => s.apart i hl hi

theorem exchanged_mirrored (s : EngineSnapshot) :
    Mirrored s noDecisions (exchanged s) noDecisions where
  records side := by cases side <;> rfl
  manual e := by simp [noDecisions]
  singles i := Iff.rfl
  rejected e := by simp [noDecisions, DecisionInputs.rejectedEdges]

def exchangedRun : Outcome EngineResult :=
  reconcile checksum (exchanged Renaming.rivalSnapshot) (samplePolicy sampleLimits)
    sampleComparison noDecisions sampleSolver

theorem exchangedRun_outcome : exchangedRun.toOption.map (fun r =>
    (r.pairs.map (·.edge), on .left r.unpaired)) = some ([("R1", "L1")], ["R2"]) := by
  decide +kernel

theorem rival_ordinary : ∀ side, ∀ x ∈ Renaming.rivalSnapshot.records side, OrdinaryRecord x := by
  intro side x hx
  cases side with
  | left =>
    obtain rfl := List.mem_singleton.mp hx
    exact sampleRecord_ordinary _ _ _
  | right =>
    rcases List.mem_pair.mp hx with rfl | rfl
    · exact sampleRecord_ordinary _ _ _
    · exact sampleRecord_ordinary _ _ _

/-- The record that loses its partner to a rival loses it from the other side too. -/
theorem sides_change_places_sample : ∃ r r', Renaming.rivalRun = .ok r ∧ exchangedRun = .ok r' ∧
    r'.pairs.map (·.edge) = [("R1", "L1")] ∧
    (∀ p, (∃ x ∈ r'.pairs, bare x = mirrored p) ↔ ∃ x ∈ r.pairs, bare x = p) ∧
    "R2" ∈ on .right r.unpaired := by
  obtain ⟨r, hr, -⟩ := ok_of_toOption Renaming.rivalRun_pairs
  obtain ⟨r', hr', houtcome⟩ := ok_of_toOption exchangedRun_outcome
  obtain ⟨hpairs, hleft⟩ := Prod.mk.inj houtcome
  obtain ⟨-, hsame, hunpaired⟩ := sides_change_places (by decide) sample_optimal sample_optimal
    (samplePolicy_ordinary _) rival_ordinary (exchanged_mirrored _) Renaming.rival_complete hr hr'
  refine ⟨r, r', hr, hr', hpairs, hsame, (hunpaired .left "R2").mp ?_⟩
  rw [hleft]
  exact List.mem_singleton_self _

end Workbench.Mirror
