import Workbench.Reconciled

/-!
# Who can be paired automatically

A weighted pair of a result joins two records that no decision and no
cancellation took away, whose evidence is complete and free of contradictions,
and that no cap touched.
-/

set_option autoImplicit false

namespace Workbench.Eligibility
open Workbench.Listing Workbench.Raising Workbench.Records Workbench.Evidence
open Workbench.References Workbench.Reservations Workbench.Candidates Workbench.Json
open Workbench.Generation Workbench.Scoring Workbench.Scores Workbench.Assignment
open Workbench.AssignmentOptimality Workbench.Components Workbench.Gating Workbench.Acceptance
open Workbench.Engine Workbench.Results Workbench.Reconciled Workbench.PaddedAssignment

/-- Available to automatic pairing: not cancelled, not an end of a manual link
and not reserved. -/
structure Undecided (d : DecisionInputs) (r : MatchRecord) : Prop where
  active : r.state ≠ .cancelled
  unlinked : r.observationId ∉ d.manualIds
  unreserved : r.observationId ∉ d.singleIds

def Shared {α : Type} (a b : Option α) : Prop := ∃ v, a = some v ∧ b = some v

def Both {α : Type} (a b : Option α) : Prop := (∃ v, a = some v) ∧ ∃ v, b = some v

/-- The evidence automatic acceptance asks of two records. -/
structure Sufficient (contract : ReferenceContract) (l r : MatchRecord) : Prop where
  instrument : Shared l.instrument r.instrument
  side : Shared l.side r.side
  currency : Shared l.currency r.currency
  quantity : Both l.quantity r.quantity
  executedAt : Both l.executedAt r.executedAt
  money : Both l.unitPrice r.unitPrice ∨ Both l.grossAmount r.grossAmount
  reference : ∀ x ∈ referenceKey contract l, ∀ y ∈ referenceKey contract r, x = y

theorem sufficient {contract : ReferenceContract} {l r : MatchRecord}
    (hc : contradictions l r contract = []) (hf : coverageFailures l r = []) :
    Sufficient contract l r := by
  obtain ⟨hinstrument, hside, hcurrency, hreference⟩ := contradictions_nil.mp hc
  obtain ⟨minstrument, mside, mcurrency, hquantity, htime, hmoney⟩ := coverageFailures_nil.mp hf
  have hshared : ∀ {α : Type} [DecidableEq α] {a b : Option α}, differ a b = false →
      missing a b = false → Shared a b := by
    intro α _ a b hdiffer hmissing
    obtain ⟨⟨x, rfl⟩, y, rfl⟩ := missing_eq_false.mp hmissing
    exact ⟨x, rfl, by rw [differ_eq_false.mp hdiffer x rfl y rfl]⟩
  exact ⟨hshared hinstrument minstrument, hshared hside mside, hshared hcurrency mcurrency,
    missing_eq_false.mp hquantity, missing_eq_false.mp htime,
    hmoney.imp missing_eq_false.mp missing_eq_false.mp, differ_eq_false.mp hreference⟩

section Run
variable {digest : Digest} {s : EngineSnapshot} {mp : MatchingPolicy} {cp : ComparisonPolicy}
  {d : DecisionInputs} {solver : AssignmentSolver} {pre : ReferencePreprocessingResult}
  {g : CandidateGenerationResult} {cs : List CandidateEvidence} {a : AssignmentSolveResult}
  {r : EngineResult}

theorem free_undecided (ho : Oriented s d) {side : RecordSide} {q : MatchRecord}
    (hq : q ∈ s.records side) (h : Free s d side q.observationId) : Undecided d q := by
  refine ⟨of_decide_eq_true ((available_eligible hq).mp h.1), fun hin => ?_, h.2.2⟩
  have hids : q.observationId ∈ ids (s.records side) := List.mem_map_of_mem hq
  rcases List.mem_append.mp hin with hl | hr
  · obtain ⟨link, hlink, he⟩ := List.mem_map.mp hl
    cases side with
    | left => exact h.2.1 (List.mem_map.mpr ⟨link, hlink, he⟩)
    | right => exact (ho link (List.mem_append_left _ hlink)).1 (he ▸ hids)
  · obtain ⟨link, hlink, he⟩ := List.mem_map.mp hr
    cases side with
    | left => exact (ho link (List.mem_append_left _ hlink)).2 (he ▸ hids)
    | right => exact h.2.1 (List.mem_map.mpr ⟨link, hlink, he⟩)

theorem remaining_undecided (ho : Oriented s d) (hpre : Preprocessed s d mp.referenceContract pre)
    {side : RecordSide} {q : MatchRecord} (hq : q ∈ pre.remaining side) : Undecided d q := by
  rw [hpre.remaining side, List.mem_filter] at hq
  obtain ⟨hmem, hopen⟩ := hq
  exact free_undecided ho hmem (of_decide_eq_true hopen).1

theorem rejected_prohibited (hpre : Preprocessed s d mp.referenceContract pre) {l q : MatchRecord}
    (hl : l ∈ s.left) (hq : q ∈ s.right)
    (h : (l.observationId, q.observationId) ∈ d.rejectedEdges) :
    (l.observationId, q.observationId) ∈ prohibitedEdges pre := by
  obtain ⟨x, hx, he⟩ := List.mem_map.mp h
  obtain ⟨hleft, hright⟩ := Prod.mk.inj he
  rw [prohibitedEdges, hpre.prohibited]
  refine List.mem_map.mpr ⟨x, List.mem_filter.mpr ⟨hx, decide_eq_true ⟨?_, ?_⟩⟩, he⟩
  · exact hleft ▸ List.mem_map_of_mem hl
  · exact hright ▸ List.mem_map_of_mem hq

/-- The candidate a weighted pair was made of, and the complete component it
was selected in. -/
theorem weighted_origin (hopt : Optimal solver.minimize)
    (h : Stages digest s mp cp d solver pre g cs a r) {p : PairOutcome} (hp : p ∈ r.pairs)
    (hw : p.origin = .weightedGlobal) :
    ∃ part ∈ partsOf cs mp.assignmentFloorBp, ∃ x ∈ a.components,
      SolvedPart digest g.limitedRecordIds mp solver part x ∧ x.complete = true ∧
      ∃ c ∈ part, p.edge = c.edge ∧ p.scoreBp = some c.scoreBp ∧
        ∃ gapBp : ℕ, p.globalGapBp = some gapBp ∧ gateReasons c gapBp mp = [] := by
  obtain ⟨q, hq, hpq⟩ := h.weighted hp hw
  obtain ⟨x, hx, hcomplete, part, hpart, hsolved, c, hc, -, rfl, haccepted⟩ :=
    accepted_spec h.scoredSet hopt h.version (h.graph hopt) hq
  exact ⟨part, hpart, x, hx, hsolved, hcomplete, c, hc, congrArg PairOutcome.edge hpq,
    congrArg PairOutcome.scoreBp hpq, _, congrArg PairOutcome.globalGapBp hpq,
    of_decide_eq_true haccepted⟩

/-- Every component an end of a candidate belongs to is as complete as the
candidate's own. -/
theorem component_complete (hopt : Optimal solver.minimize)
    (h : Stages digest s mp cp d solver pre g cs a r) {part : List CandidateEvidence}
    (hpart : part ∈ partsOf cs mp.assignmentFloorBp) {x : SolvedAssignmentComponent}
    (hx : SolvedPart digest g.limitedRecordIds mp solver part x) (hcomplete : x.complete = true)
    {c : CandidateEvidence} (hc : c ∈ part) {y : AssignmentComponentEvidence}
    (hy : y ∈ r.components) (hend : c.leftId ∈ y.leftIds ∨ c.rightId ∈ y.rightIds) :
    y.complete = true := by
  obtain ⟨x', hx', rfl⟩ := List.mem_map.mp (h.components.mem_iff.mp hy)
  obtain ⟨other, hother, hsolved⟩ :=
    exists_part h.scoredSet hopt h.version (h.graph hopt) hx'
  have hparts := partsOf_spec cs mp.assignmentFloorBp
  have hsame : part = other := by
    rcases hend with hl | hr
    · obtain ⟨e, he, hel⟩ := mem_lefts.mp (hsolved.leftIds ▸ hl : c.leftId ∈ lefts other)
      exact hparts.same hpart hother hc he (.inl hel.symm)
    · obtain ⟨e, he, her⟩ := mem_rights.mp (hsolved.rightIds ▸ hr : c.rightId ∈ rights other)
      exact hparts.same hpart hother hc he (.inr her.symm)
  subst hsame
  have hreason : x'.complete = x.complete := by
    rw [hsolved.complete, hx.complete, hsolved.reason, hx.reason]
  exact hreason.trans hcomplete

/-- Neither end of a weighted pair is in a truncated partition or in a limited
component. -/
theorem weighted_unlimited (hopt : Optimal solver.minimize)
    (h : Stages digest s mp cp d solver pre g cs a r) {p : PairOutcome} (hp : p ∈ r.pairs)
    (hw : p.origin = .weightedGlobal) :
    (∀ x ∈ g.partitions, x.complete = false → p.leftId ∉ x.members ∧ p.rightId ∉ x.members) ∧
      ∀ y ∈ r.components, p.leftId ∈ y.leftIds ++ y.rightIds ∨ p.rightId ∈ y.leftIds ++ y.rightIds →
        y.complete = true := by
  obtain ⟨part, hpart, x, hx, hsolved, hcomplete, c, hc, hedge, -, gapBp, -, hgates⟩ :=
    weighted_origin hopt h hp hw
  have hcs : c ∈ cs := (mem_eligible.mp ((partsOf_spec cs _).mem hpart hc)).1
  obtain ⟨l, hl, q, hq, hscored⟩ := h.scoredAll.scored c hcs
  obtain ⟨-, -, -, hcomputed, -⟩ := gateReasons_nil.mp hgates
  have hcl : p.leftId = c.leftId := congrArg Prod.fst hedge
  have hcr : p.rightId = c.rightId := congrArg Prod.snd hedge
  have hleft : p.leftId = l.observationId := hcl.trans hscored.leftId
  have hright : p.rightId = q.observationId := hcr.trans hscored.rightId
  have hls : l ∈ s.left := remaining_mem h.partitioned .left hl
  have hqs : q ∈ s.right := remaining_mem h.partitioned .right hq
  constructor
  · obtain ⟨hlimitedLeft, hlimitedRight⟩ := (h.scoredAll.complete c hcs).mp hcomputed
    intro y hy hincomplete
    refine ⟨fun hm => hlimitedLeft ?_, fun hm => hlimitedRight ?_⟩
    · rw [← hcl]
      exact (h.gen.limited _).mpr ⟨y, hy, hincomplete, hm⟩
    · rw [← hcr]
      exact (h.gen.limited _).mpr ⟨y, hy, hincomplete, hm⟩
  · intro y hy hend
    have hwithin := h.checked.components_within y hy
    rw [h.inputs.1, h.inputs.2] at hwithin
    refine component_complete hopt h hpart hsolved hcomplete hc hy ?_
    rw [← hcl, ← hcr]
    rcases hend with hend | hend
    · refine .inl ((List.mem_append.mp hend).resolve_right fun hr => ?_)
      exact s.apart _ (List.mem_map_of_mem hls) (hleft ▸ hwithin.2 hr)
    · refine .inr ((List.mem_append.mp hend).resolve_left fun hl' => ?_)
      exact s.apart _ (hright ▸ hwithin.1 hl') (List.mem_map_of_mem hqs)

/-- A weighted pair joins two undecided records whose relationship was not
rejected, on sufficient evidence, above the threshold and by the required gap,
and neither record is in a truncated partition or in a limited component. -/
theorem weighted_pair_eligible (hopt : Optimal solver.minimize)
    (h : reconcile digest s mp cp d solver = .ok r) {p : PairOutcome} (hp : p ∈ r.pairs)
    (hw : p.origin = .weightedGlobal) :
    ∃ l ∈ s.left, ∃ q ∈ s.right, p.leftId = l.observationId ∧ p.rightId = q.observationId ∧
      Undecided d l ∧ Undecided d q ∧ p.edge ∉ d.rejectedEdges ∧
      Sufficient mp.referenceContract l q ∧
      (∃ score ∈ p.scoreBp, mp.automaticThresholdBp ≤ score) ∧
      (∃ gapBp ∈ p.globalGapBp, mp.minimumGlobalGapBp ≤ gapBp) ∧
      (∃ pre g, preprocessReferences s d mp.referenceContract = .ok pre ∧
        generateCandidates digest pre mp = .ok g ∧ ∀ x ∈ g.partitions, x.complete = false →
          p.leftId ∉ x.members ∧ p.rightId ∉ x.members) ∧
      ∀ y ∈ r.components, p.leftId ∈ y.leftIds ++ y.rightIds ∨ p.rightId ∈ y.leftIds ++ y.rightIds →
        y.complete = true := by
  obtain ⟨pre, g, cs, a, hstages⟩ := reconcile_stages hopt h
  obtain ⟨part, hpart, x, hx, hsolved, hcomplete, c, hc, hedge, hscore, gapBp, hgap, hgates⟩ :=
    weighted_origin hopt hstages hp hw
  have hcs : c ∈ cs := (mem_eligible.mp ((partsOf_spec cs _).mem hpart hc)).1
  obtain ⟨l, hl, q, hq, hscored⟩ := hstages.scoredAll.scored c hcs
  obtain ⟨hthreshold, hcoverage, hcontradictions, -, hmin⟩ := gateReasons_nil.mp hgates
  have hcl : p.leftId = c.leftId := congrArg Prod.fst hedge
  have hcr : p.rightId = c.rightId := congrArg Prod.snd hedge
  have hleft : p.leftId = l.observationId := hcl.trans hscored.leftId
  have hright : p.rightId = q.observationId := hcr.trans hscored.rightId
  have hrecord : ∀ side, ∀ x ∈ pre.remaining side, x ∈ s.records side :=
    fun side x hx => remaining_mem hstages.partitioned side hx
  have hls : l ∈ s.left := hrecord .left l hl
  have hqs : q ∈ s.right := hrecord .right q hq
  have hundecided : ∀ side, ∀ x ∈ pre.remaining side, Undecided d x :=
    fun side x hx => remaining_undecided hstages.oriented hstages.partitioned hx
  refine ⟨l, hls, q, hqs, hleft, hright, hundecided .left l hl, hundecided .right q hq, ?_,
    sufficient (hscored.contradictions.mp hcontradictions) (hscored.coverage.mp hcoverage),
    ⟨c.scoreBp, hscore, hthreshold⟩, ⟨gapBp, hgap, by exact_mod_cast hmin⟩,
    ⟨pre, g, hstages.preprocessed, hstages.generated, (weighted_unlimited hopt hstages hp hw).1⟩,
    (weighted_unlimited hopt hstages hp hw).2⟩
  · intro hrejected
    have hpair : p.edge = (l.observationId, q.observationId) := Prod.ext hleft hright
    obtain ⟨e, he, hec⟩ := List.mem_map.mp
      (hstages.scoredAll.edges.mem_iff.mp (List.mem_map_of_mem hcs))
    refine hstages.gen.allowed e he ?_
    rw [hec, ← hedge, hpair]
    exact rejected_prohibited hstages.partitioned hls hqs (hpair ▸ hrejected)

end Run

theorem weighted_pair_eligible_sample : ∃ r, sampleRun noon = .ok r ∧ ∃ p ∈ r.pairs,
    ∃ l ∈ (sampleSnapshot noon).left, ∃ q ∈ (sampleSnapshot noon).right,
      p.leftId = l.observationId ∧ p.rightId = q.observationId ∧ Undecided noDecisions l ∧
        Sufficient .sharedMustAgree l q := by
  obtain ⟨r, hr, hpairs⟩ := ok_of_toOption sampleRun_pairs
  obtain ⟨p, hp, he⟩ := List.mem_map.mp (hpairs ▸ List.mem_singleton_self _)
  obtain ⟨l, hl, q, hq, hleft, hright, hu, -, -, hs, -⟩ :=
    weighted_pair_eligible sample_optimal hr hp (congrArg (·.2.1) he)
  exact ⟨r, hr, p, hp, l, hl, q, hq, hleft, hright, hu, hs⟩

end Workbench.Eligibility
