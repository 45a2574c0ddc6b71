import Workbench.Agreement

/-!
# Stricter gates

A policy with a higher threshold or a higher minimal gap searches, scores and
assigns as before. A run under it succeeds where the other did and keeps its
pairs, except the weighted ones that miss the new gates: their records become
ambiguous.
-/

set_option autoImplicit false

namespace Workbench.Tuning
open Workbench.Listing Workbench.Raising Workbench.Records Workbench.Evidence
open Workbench.References Workbench.Reservations Workbench.Candidates Workbench.Json
open Workbench.Generation Workbench.Scoring Workbench.Scores Workbench.Assignment
open Workbench.Components Workbench.AssignmentOptimality Workbench.Gating Workbench.Acceptance
open Workbench.Comparison Workbench.Comparisons Workbench.Diagnostics Workbench.Diagnosis
open Workbench.Engine Workbench.Results Workbench.Reconciled Workbench.PaddedAssignment
open Workbench.Correspondence Workbench.Thinning Workbench.Agreement Workbench.Reasons
open Workbench.Totality

/-- The automatic gates of a policy, within the bounds that policies keep. -/
structure Gates (mp : MatchingPolicy) where
  thresholdBp : ℕ
  gapBp : ℕ
  threshold_le : thresholdBp ≤ scoreScaleBp
  floor_lt : mp.assignmentFloorBp < thresholdBp
  gap_le : gapBp ≤ thresholdBp

def withGates (mp : MatchingPolicy) (gates : Gates mp) : MatchingPolicy :=
  { mp with
    automaticThresholdBp := gates.thresholdBp
    minimumGlobalGapBp := gates.gapBp
    threshold_le := gates.threshold_le
    floor_lt := gates.floor_lt
    gap_le := gates.gap_le }

/-- Gates at least as strict as those of the policy. -/
structure Stricter (mp : MatchingPolicy) (gates : Gates mp) : Prop where
  threshold : mp.automaticThresholdBp ≤ gates.thresholdBp
  gap : mp.minimumGlobalGapBp ≤ gates.gapBp

/-- A weighted pair reaches both gates; the other pairs are not gated. -/
def Meets {mp : MatchingPolicy} (gates : Gates mp) (p : PairOutcome) : Prop :=
  p.origin = .weightedGlobal → (∃ scoreBp ∈ p.scoreBp, gates.thresholdBp ≤ scoreBp) ∧
    ∃ gapBp ∈ p.globalGapBp, gates.gapBp ≤ gapBp

def ungated (p : ProposalEvidence) : ProposalEvidence :=
  { p with accepted := false, gateReasons := [] }

def ungatedComponent (y : AssignmentComponentEvidence) : AssignmentComponentEvidence :=
  { y with proposals := y.proposals.map ungated }

section Stages
variable {digest : Digest} {s : EngineSnapshot} {mp : MatchingPolicy} {cp : ComparisonPolicy}
  {d : DecisionInputs} {solver : AssignmentSolver} {pre : ReferencePreprocessingResult}
  {g : CandidateGenerationResult} {cs part : List CandidateEvidence} {a : AssignmentSolveResult}
  {r r' : EngineResult} {gates : Gates mp} {c : CandidateEvidence} {p : PairOutcome}

theorem graph_gates (gates : Gates mp) (h : SolvedGraph digest cs g mp solver a) :
    SolvedGraph digest cs g (withGates mp gates) solver a :=
  ⟨h.components, h.selected, h.limited, h.distinct⟩

theorem accepts_gates (hs : Stricter mp gates) :
    Accepts digest (withGates mp gates) solver g cs part c ↔
      Accepts digest mp solver g cs part c ∧ gates.thresholdBp ≤ c.scoreBp ∧
        gates.gapBp ≤ gapOf part mp.assignmentFloorBp c.edge := by
  have hle := hs.threshold
  have hgap := hs.gap
  constructor
  · intro h
    obtain ⟨hthreshold, hcoverage, hcontradictions, hcomplete, hminimum⟩ :=
      gateReasons_nil.mp h.passes
    have hnew : gates.thresholdBp ≤ c.scoreBp := hthreshold
    have hwide : (gates.gapBp : ℤ) ≤ gapOf part mp.assignmentFloorBp c.edge := hminimum
    exact ⟨⟨h.part_mem, h.mem, h.solved, h.selected, gateReasons_nil.mpr ⟨by omega, hcoverage,
      hcontradictions, hcomplete, by omega⟩⟩, hnew, by omega⟩
  · rintro ⟨h, hthreshold, hwide⟩
    obtain ⟨-, hcoverage, hcontradictions, hcomplete, -⟩ := gateReasons_nil.mp h.passes
    exact ⟨h.part_mem, h.mem, h.solved, h.selected, gateReasons_nil.mpr ⟨hthreshold, hcoverage,
      hcontradictions, hcomplete, Int.ofNat_le.mpr hwide⟩⟩

theorem weighted_gates (hopt : Optimal solver.minimize) (hs : Stricter mp gates)
    (h : Stages digest s mp cp d solver pre g cs a r)
    (h' : Stages digest s (withGates mp gates) cp d solver pre g cs a r') :
    Weighted r' p ↔ Weighted r p ∧ Meets gates p := by
  rw [weighted_iff hopt h, weighted_iff hopt h']
  constructor
  · rintro ⟨part, c, ha, rfl⟩
    obtain ⟨hold, hthreshold, hwide⟩ := (accepts_gates hs).mp ha
    exact ⟨⟨part, c, hold, rfl⟩, fun _ => ⟨⟨_, rfl, hthreshold⟩, _, rfl, hwide⟩⟩
  · rintro ⟨⟨part, c, ha, rfl⟩, hmeets⟩
    obtain ⟨⟨scoreBp, hscore, hthreshold⟩, gapBp, hgap, hwide⟩ := hmeets rfl
    obtain rfl := Option.some.inj hscore
    obtain rfl := Option.some.inj hgap
    exact ⟨part, c, (accepts_gates hs).mpr ⟨ha, hthreshold, hwide⟩, rfl⟩

end Stages

section Health
variable {digest : Digest} {s : EngineSnapshot} {mp : MatchingPolicy} {d : DecisionInputs}
  {pairs : List PairOutcome} {gates : Gates mp}

theorem plausible_gates (hs : Stricter mp gates) {c : CandidateEvidence}
    (h : plausibleCandidate (withGates mp gates) c = true) : plausibleCandidate mp c = true := by
  have hle := hs.threshold
  obtain ⟨hthreshold, hrest⟩ : gates.thresholdBp ≤ c.scoreBp ∧ c.coverageSufficient = true ∧
      c.contradictions = [] := of_decide_eq_true h
  exact decide_eq_true ⟨hle.trans hthreshold, hrest⟩

theorem findings_gates (hs : Stricter mp gates) (side : RecordSide) (recordId : String)
    (complete : Bool) (cs : List CandidateEvidence) :
    (findings (withGates mp gates) pairs side recordId complete cs).Sublist
      (findings mp pairs side recordId complete cs) := by
  have hfilter : (cs.filter (plausibleCandidate (withGates mp gates))).Sublist
      (cs.filter (plausibleCandidate mp)) :=
    List.monotone_filter_right cs fun c hc => plausible_gates hs hc
  exact (hfilter.map _).append_right _

theorem diagnoseAccepted_gates (hs : Stricter mp gates) {acc acc' acc₂ : Diagnosis}
    {x : AcceptedUnmatched} (hremaining : acc₂.remainingRunEdges = acc.remainingRunEdges)
    (hsub : acc₂.diagnostics.Sublist acc.diagnostics)
    (h : diagnoseAccepted digest s d mp pairs acc x = .ok acc') :
    ∃ acc₂', diagnoseAccepted digest s d (withGates mp gates) pairs acc₂ x = .ok acc₂' ∧
      acc₂'.remainingRunEdges = acc'.remainingRunEdges ∧
      acc₂'.diagnostics.Sublist acc'.diagnostics := by
  obtain ⟨remaining, reports⟩ := acc
  obtain ⟨remaining₂, reports₂⟩ := acc₂
  simp only at hremaining hsub
  subst hremaining
  rw [diagnoseAccepted_eq] at h ⊢
  cases hsearch : searched s x with
  | none =>
    simp only [hsearch, Except.ok.injEq] at h
    subst h
    exact ⟨_, rfl, rfl, hsub⟩
  | some y =>
    obtain ⟨side, record⟩ := y
    obtain ⟨hr, -⟩ := searched_mem hsearch
    simp only [hsearch] at h ⊢
    split_ifs at h ⊢ with hbudget
    · obtain ⟨hw, hp, cs, hcs, rfl⟩ := (diagnoseRecord_ok hr hbudget).mp h
      refine ⟨_, (diagnoseRecord_ok hr hbudget).mpr ⟨hw, hp, cs, hcs, rfl⟩, rfl, ?_⟩
      exact hsub.append (findings_gates hs side record.observationId _ cs)
    · simp only [outOfBudget, incomplete_ok x.recordId_text, bind_ok, pure_ok, Except.ok.injEq,
        exists_eq_left'] at h ⊢
      subst h
      exact ⟨rfl, hsub.append_right _⟩

theorem diagnoses_gates (hs : Stricter mp gates) {l : List AcceptedUnmatched}
    {acc acc' acc₂ : Diagnosis} (hremaining : acc₂.remainingRunEdges = acc.remainingRunEdges)
    (hsub : acc₂.diagnostics.Sublist acc.diagnostics)
    (h : l.foldlM (diagnoseAccepted digest s d mp pairs) acc = .ok acc') :
    ∃ acc₂', l.foldlM (diagnoseAccepted digest s d (withGates mp gates) pairs) acc₂ = .ok acc₂' ∧
      acc₂'.diagnostics.Sublist acc'.diagnostics := by
  induction l generalizing acc acc₂ with
  | nil =>
    rw [List.foldlM_nil, pure_ok] at h
    subst h
    exact ⟨acc₂, rfl, hsub⟩
  | cons x rest ih =>
    rw [List.foldlM_cons, bind_ok] at h
    obtain ⟨mid, hmid, h⟩ := h
    obtain ⟨mid₂, hmid₂, hrem, hfewer⟩ := diagnoseAccepted_gates hs hremaining hsub hmid
    obtain ⟨acc₂', hacc₂, hfinal⟩ := ih hrem hfewer h
    exact ⟨acc₂', by rw [List.foldlM_cons, hmid₂]; exact hacc₂, hfinal⟩

theorem diagnose_gates (hs : Stricter mp gates) {ds : List DecisionHealthDiagnostic}
    (h : diagnoseAcceptedUnmatched digest s d mp pairs = .ok ds) :
    ∃ ds', diagnoseAcceptedUnmatched digest s d (withGates mp gates) pairs = .ok ds' ∧
      ds'.Subperm ds := by
  simp only [diagnoseAcceptedUnmatched, bind_ok, pure_ok] at h ⊢
  obtain ⟨acc, hacc, rfl⟩ := h
  obtain ⟨acc₂, hacc₂, hsub⟩ := diagnoses_gates hs rfl (List.Sublist.refl _) hacc
  refine ⟨_, ⟨acc₂, hacc₂, rfl⟩, ?_⟩
  exact (sortOn_perm _ _).subperm.trans (hsub.subperm.trans (sortOn_perm _ _).symm.subperm)

end Health

section Runs
variable {digest : Digest} {s : EngineSnapshot} {mp : MatchingPolicy} {cp : ComparisonPolicy}
  {d : DecisionInputs} {solver : AssignmentSolver} {pre : ReferencePreprocessingResult}
  {g : CandidateGenerationResult} {cs : List CandidateEvidence} {a : AssignmentSolveResult}
  {r r' : EngineResult} {gates : Gates mp} {p : PairOutcome} {u : UnpairedOutcome}

theorem stages_gates (hopt : Optimal solver.minimize)
    (h : Stages digest s mp cp d solver pre g cs a r)
    (hr' : reconcile digest s (withGates mp gates) cp d solver = .ok r') :
    Stages digest s (withGates mp gates) cp d solver pre g cs a r' := by
  obtain ⟨pre', g', cs', a', h'⟩ := reconcile_stages hopt hr'
  obtain rfl : pre = pre' := Except.ok.inj (h.preprocessed.symm.trans h'.preprocessed)
  obtain rfl : g = g' := Except.ok.inj (h.generated.symm.trans h'.generated)
  obtain rfl : cs = cs' := Except.ok.inj (h.scored.symm.trans h'.scored)
  obtain rfl : a = a' := Except.ok.inj (h.solved.symm.trans h'.solved)
  exact h'

theorem pairs_gates (hopt : Optimal solver.minimize) (hs : Stricter mp gates)
    (h : Stages digest s mp cp d solver pre g cs a r)
    (hr : reconcile digest s mp cp d solver = .ok r)
    (hr' : reconcile digest s (withGates mp gates) cp d solver = .ok r') :
    p ∈ r'.pairs ↔ p ∈ r.pairs ∧ Meets gates p := by
  have h' := stages_gates hopt h hr'
  have hstaged : (∃ x ∈ r'.pairs, bare x = bare p) ↔
      (∃ x ∈ r.pairs, bare x = bare p) ∧ Meets gates p := by
    rw [bare_pairs h, bare_pairs h', weighted_gates hopt hs h h']
    constructor
    · rintro (hp | ⟨hp, hmeets⟩)
      · exact ⟨.inl hp, fun hw => absurd hw (pre_bare h.partitioned hp).2.2⟩
      · exact ⟨.inr hp, hmeets⟩
    · rintro ⟨hp | hp, hmeets⟩
      · exact .inl hp
      · exact .inr ⟨hp, hmeets⟩
  rw [mem_pairs hr', mem_pairs hr, hstaged]
  exact and_right_comm

theorem mem_unpaired (h : Stages digest s mp cp d solver pre g cs a r)
    (hr : reconcile digest s mp cp d solver = .ok r) :
    u ∈ r.unpaired ↔ u ∈ pre.terminalUnpaired ∨ ∃ side, ∃ q ∈ pre.remaining side,
      q.observationId ∉ pairedIds r.pairs ∧ automaticUnpaired cs pre.prohibitedRelationships
        a.limitedRecordIds mp.assignmentFloorBp side q = .ok u := by
  obtain ⟨pairs, us, hus, hperm, hpairs⟩ := unpaired_stage h hr
  simp only [unpairedOutcomes, bind_ok, pure_ok] at hus
  obtain ⟨lefts, hl, rights, hr', rfl⟩ := hus
  have hpaired : ∀ i, i ∈ pairedIds pairs ↔ i ∈ pairedIds r.pairs := fun i =>
    (hpairs.flatMap_right _).mem_iff.symm
  have heach : ∀ {side : RecordSide} {l : List UnpairedOutcome},
      (leftover pre pairs side).mapM (automaticUnpaired cs pre.prohibitedRelationships
        a.limitedRecordIds mp.assignmentFloorBp side) = .ok l →
      (u ∈ l ↔ ∃ q ∈ pre.remaining side, q.observationId ∉ pairedIds r.pairs ∧
        automaticUnpaired cs pre.prohibitedRelationships a.limitedRecordIds
          mp.assignmentFloorBp side q = .ok u) := by
    intro side l hmap
    constructor
    · intro hu
      obtain ⟨q, hq, hqu⟩ := mapM_mem_right hmap hu
      obtain ⟨hq, hno⟩ := List.mem_filter.mp hq
      exact ⟨q, hq, mt (hpaired _).mpr (of_decide_eq_true hno), hqu⟩
    · rintro ⟨q, hq, hno, hqu⟩
      obtain ⟨v, hv, hqv⟩ := mapM_mem hmap
        (List.mem_filter.mpr ⟨hq, decide_eq_true (mt (hpaired _).mp hno)⟩)
      exact Except.ok.inj (hqu.symm.trans hqv) ▸ hv
  rw [hperm.mem_iff, List.mem_append, List.mem_append, heach hl, heach hr']
  refine or_congr_right ⟨?_, ?_⟩
  · rintro (hu | hu)
    · exact ⟨.left, hu⟩
    · exact ⟨.right, hu⟩
  · rintro ⟨side, hu⟩
    cases side with
    | left => exact .inl hu
    | right => exact .inr hu

theorem pair_of_end (h : Stages digest s mp cp d solver pre g cs a r) {x : PairOutcome}
    (hx : x ∈ r.pairs) (hp : p ∈ r.pairs) {t side : RecordSide}
    (hend : x.endId t = p.endId side) : x = p := by
  have hwithin : ∀ {y : PairOutcome}, y ∈ r.pairs → ∀ side, y.endId side ∈ ids (s.records side) :=
    fun hy side => (oneOutcome h side).mem_iff.mp
      (List.mem_append_left _ (List.mem_map_of_mem hy))
  have hnodup : ∀ side, (r.pairs.map (·.endId side)).Nodup := fun side =>
    (List.nodup_append.mp ((oneOutcome h side).nodup_iff.mpr (s.nodup side))).1
  by_cases hside : t = side
  · subst hside
    exact eq_of_key_eq _ (hnodup t) hx hp hend
  · have hother : side = t.other := by cases t <;> cases side <;> simp_all [RecordSide.other]
    have hp' : p.endId side ∈ ids (s.records t.other) := hother ▸ hwithin hp side
    exact absurd (hend ▸ hp') (s.apart_other t _ (hwithin hx t))

/-- A record with a candidate above the floor, and no limit on it, is ambiguous
once it is in no pair. -/
theorem automaticUnpaired_ambiguous {prohibited : List ProhibitedRelationship}
    {limited : List String} {floorBp : ℕ} {side : RecordSide} {q : MatchRecord}
    {c : CandidateEvidence} (hlimited : q.observationId ∉ limited) (hc : c ∈ cs)
    (hend : c.endId side = q.observationId) (hcontradictions : c.contradictions = [])
    (hfloor : floorBp < c.scoreBp)
    (h : automaticUnpaired cs prohibited limited floorBp side q = .ok u) :
    u.reason = .ambiguous := by
  have hmem : c ∈ cs.filter (·.endId side = q.observationId) :=
    List.mem_filter.mpr ⟨hc, decide_eq_true hend⟩
  have hrelated : cs.filter (·.endId side = q.observationId) ≠ [] := List.ne_nil_of_mem hmem
  have hclear : ¬∀ x ∈ cs.filter (·.endId side = q.observationId), x.contradictions ≠ [] :=
    fun hall => hall c hmem hcontradictions
  have habove : ¬∀ x ∈ cs.filter (·.endId side = q.observationId), x.scoreBp ≤ floorBp :=
    fun hall => absurd (hall c hmem) (not_le.mpr hfloor)
  unfold automaticUnpaired at h
  simp only at h
  rw [if_neg hlimited, if_neg hrelated, if_neg hclear, if_neg habove] at h
  exact created_reason h

/-- Both records of a weighted pair that misses the gates become ambiguous. -/
theorem dropped_ambiguous (hopt : Optimal solver.minimize) (hs : Stricter mp gates)
    (h : Stages digest s mp cp d solver pre g cs a r)
    (hr : reconcile digest s mp cp d solver = .ok r)
    (hr' : reconcile digest s (withGates mp gates) cp d solver = .ok r') (hp : p ∈ r.pairs)
    (hmisses : ¬Meets gates p) (side : RecordSide) :
    ∃ u ∈ r'.unpaired, u.side = side ∧ u.recordId = p.endId side ∧ u.reason = .ambiguous := by
  have hw : p.origin = .weightedGlobal := by
    by_contra hw
    exact hmisses fun hno => absurd hno hw
  obtain ⟨part, c, ha, hpc⟩ := (weighted_iff hopt h).mp ⟨p, hp, hw, rfl⟩
  have hend : c.endId side = p.endId side := by
    have hleft : p.leftId = c.leftId := (congrArg PairOutcome.leftId hpc :)
    have hright : p.rightId = c.rightId := (congrArg PairOutcome.rightId hpc :)
    cases side with
    | left => exact hleft.symm
    | right => exact hright.symm
  obtain ⟨hccs, hfloor⟩ := mem_eligible.mp ((partsOf_spec cs _).mem ha.part_mem ha.mem)
  obtain ⟨l, hl, q, hq, hscored⟩ := h.scoredAll.scored c hccs
  obtain ⟨o, ho, hoid⟩ : ∃ o ∈ pre.remaining side, o.observationId = p.endId side := by
    rw [← hend]
    cases side with
    | left => exact ⟨l, hl, hscored.leftId.symm⟩
    | right => exact ⟨q, hq, hscored.rightId.symm⟩
  have hunlimited : o.observationId ∉ a.limitedRecordIds := fun hlimited =>
    limited_unpaired hopt h ho hlimited hp side hoid.symm
  obtain ⟨u, hu, hid, hside⟩ := automaticUnpaired_total cs pre.prohibitedRelationships
    a.limitedRecordIds mp.assignmentFloorBp side o
  refine ⟨u, (mem_unpaired (stages_gates hopt h hr') hr').mpr (.inr ⟨side, o, ho, ?_, hu⟩), hside,
    hid.trans hoid, ?_⟩
  · intro hpaired
    obtain ⟨t, ht⟩ := mem_pairedIds.mp hpaired
    obtain ⟨x, hx, hxend⟩ := List.mem_map.mp ht
    obtain ⟨hx, hmeets⟩ := (pairs_gates hopt hs h hr hr').mp hx
    exact hmisses (pair_of_end h hx hp (hxend.trans hoid) ▸ hmeets)
  · exact automaticUnpaired_ambiguous hunlimited hccs (hend.trans hoid.symm)
      (gateReasons_nil.mp ha.passes).2.2.1 hfloor hu

/-- A run under stricter gates succeeds where the other did. -/
theorem returns_gates (hopt : Optimal solver.minimize) (hs : Stricter mp gates)
    (h : Stages digest s mp cp d solver pre g cs a r) :
    ∃ r', reconcile digest s (withGates mp gates) cp d solver = .ok r' := by
  have hgraph := h.graph hopt
  have hids : ((partsOf cs mp.assignmentFloorBp).map fun p =>
      componentId digest (lefts p) (rights p)).Nodup := by
    rw [← report_ids h.scoredSet hopt h.version]
    exact (hgraph.components.map _).nodup_iff.mp hgraph.distinct
  have htexts : (cs.map fun c => edgeText c.edge).Nodup :=
    (h.candidates.map _).nodup_iff.mp h.checked.edges_nodup
  have hcompared : ∀ p ∈ pre.pairs ++ acceptedPairs cs (withGates mp gates) a, ∀ l ∈ s.left,
      ∀ q ∈ s.right, p.leftId = l.observationId → p.rightId = q.observationId →
        Comparable cp mp.referenceContract p.origin l q := by
    intro p hp l hl q hq hleft hright
    have hold : p ∈ pre.pairs ∨ Weighted r p := by
      refine (List.mem_append.mp hp).imp_right fun hp => ?_
      obtain ⟨part, c, ha, rfl⟩ := (accepted_iff hopt h.scoredSet h.version
        (graph_gates gates hgraph)).mp (List.mem_map.mp hp)
      exact (weighted_iff hopt h).mpr ⟨part, c, ((accepts_gates hs).mp ha).1, rfl⟩
    obtain ⟨x, hx, hbare⟩ := (bare_pairs h).mpr hold
    obtain ⟨l', hl', q', hq', hxl, hxq, hcomparable⟩ := h.compared x hx
    have hxleft : x.leftId = p.leftId := (congrArg PairOutcome.leftId hbare :)
    have hxright : x.rightId = p.rightId := (congrArg PairOutcome.rightId hbare :)
    have hxorigin : x.origin = p.origin := (congrArg PairOutcome.origin hbare :)
    obtain rfl := eq_of_key_eq MatchRecord.observationId s.left_nodup hl' hl
      (hxl.symm.trans (hxleft.trans hleft))
    obtain rfl := eq_of_key_eq MatchRecord.observationId s.right_nodup hq' hq
      (hxq.symm.trans (hxright.trans hright))
    exact hxorigin ▸ hcomparable
  obtain ⟨pairs, hds⟩ := h.diagnosed
  obtain ⟨ds', hds', hsub⟩ := diagnose_gates hs hds
  refine reconcile_total hopt h.preprocessed h.generated h.scored (solver_version h.solved) hids
    htexts (fun a' ha' => ?_) ⟨pairs, ds', hds', ?_⟩
  · obtain rfl : a = a' := Except.ok.inj (h.solved.symm.trans ha')
    exact hcompared
  · obtain ⟨kept, hperm, hsublist⟩ := hsub
    exact (hperm.map _).nodup_iff.mp (h.reporting.sublist (hsublist.map _))

/-- A run under stricter gates succeeds where the run before did. It searches and
proposes the same, keeps exactly the pairs that meet the new gates, reports again
what was unpaired, and leaves the records of the other pairs ambiguous. -/
theorem stricter_gates (hopt : Optimal solver.minimize) (hs : Stricter mp gates)
    (hr : reconcile digest s mp cp d solver = .ok r) :
    ∃ r', reconcile digest s (withGates mp gates) cp d solver = .ok r' ∧
      r'.candidates.Perm r.candidates ∧
      (r'.components.map ungatedComponent).Perm (r.components.map ungatedComponent) ∧
      (∀ p, p ∈ r'.pairs ↔ p ∈ r.pairs ∧ Meets gates p) ∧
      (∀ u ∈ r.unpaired, u ∈ r'.unpaired) ∧
      ∀ p ∈ r.pairs, ¬Meets gates p → ∀ side, ∃ u ∈ r'.unpaired,
        u.side = side ∧ u.recordId = p.endId side ∧ u.reason = .ambiguous := by
  obtain ⟨pre, g, cs, a, h⟩ := reconcile_stages hopt hr
  obtain ⟨r', hr'⟩ := returns_gates hopt hs h
  have h' := stages_gates hopt h hr'
  have hpairs := fun p => pairs_gates (p := p) hopt hs h hr hr'
  refine ⟨r', hr', h'.candidates.trans h.candidates.symm, ?_, hpairs, fun u hu => ?_,
    fun p hp hmisses side => dropped_ambiguous hopt hs h hr hr' hp hmisses side⟩
  · have hsame : (gatedComponents cs (withGates mp gates) a).map ungatedComponent =
        (gatedComponents cs mp a).map ungatedComponent := by
      simp only [gatedComponents, List.map_map]
      refine List.map_congr_left fun x _ => ?_
      simp only [Function.comp_apply, ungatedComponent, gatedOf, List.map_map]
      rfl
    exact (h'.components.map _).trans (hsame ▸ (h.components.map _).symm)
  · refine (mem_unpaired h' hr').mpr (((mem_unpaired h hr).mp hu).imp_right ?_)
    rintro ⟨side, q, hq, hno, hqu⟩
    refine ⟨side, q, hq, fun hpaired => hno ?_, hqu⟩
    obtain ⟨t, ht⟩ := mem_pairedIds.mp hpaired
    obtain ⟨x, hx, hend⟩ := List.mem_map.mp ht
    exact mem_pairedIds.mpr ⟨t, List.mem_map.mpr ⟨x, ((hpairs x).mp hx).1, hend⟩⟩

end Runs

theorem wideThreshold_le : 9000 ≤ scoreScaleBp := by decide

theorem wideFloor_lt : (samplePolicy sampleLimits).assignmentFloorBp < 9000 := by decide

theorem wideGap_le : 6000 ≤ 9000 := by decide

/-- The pair of the sample run leads by half the scale, and is asked for more. -/
def wideGates : Gates (samplePolicy sampleLimits) where
  thresholdBp := 9000
  gapBp := 6000
  threshold_le := wideThreshold_le
  floor_lt := wideFloor_lt
  gap_le := wideGap_le

theorem wideGates_stricter : Stricter (samplePolicy sampleLimits) wideGates :=
  ⟨by decide, by decide⟩

theorem stricter_gates_sample : ∃ r r', sampleRun noon = .ok r ∧
    reconcile checksum (sampleSnapshot noon) (withGates (samplePolicy sampleLimits) wideGates)
      sampleComparison noDecisions sampleSolver = .ok r' ∧
    ∃ p ∈ r.pairs, p.edge = ("L1", "R1") ∧ p ∉ r'.pairs ∧
      ∃ u ∈ r'.unpaired, u.recordId = "R1" ∧ u.reason = .ambiguous := by
  obtain ⟨r, hr, hpairs⟩ := ok_of_toOption sampleRun_pairs
  obtain ⟨p, hp, hfields⟩ := List.mem_map.mp (hpairs ▸ List.mem_singleton_self _ :
    (("L1", "R1"), PairOrigin.weightedGlobal, some 10000, some 5000) ∈
      r.pairs.map fun p => (p.edge, p.origin, p.scoreBp, p.globalGapBp))
  obtain ⟨hedge, hfields⟩ := Prod.mk.inj hfields
  obtain ⟨horigin, hfields⟩ := Prod.mk.inj hfields
  obtain ⟨-, hgap⟩ := Prod.mk.inj hfields
  have hmisses : ¬Meets wideGates p := by
    intro hmeets
    obtain ⟨-, gapBp, hg, hle⟩ := hmeets horigin
    obtain rfl := Option.some.inj (hgap.symm.trans hg)
    exact absurd hle (by decide)
  obtain ⟨r', hr', -, -, hkept, -, hdropped⟩ :=
    stricter_gates sample_optimal wideGates_stricter hr
  obtain ⟨u, hu, -, hid, hreason⟩ := hdropped p hp hmisses .right
  exact ⟨r, r', hr, hr', p, hp, hedge, fun hp' => hmisses ((hkept p).mp hp').2, u, hu,
    hid.trans (congrArg Prod.snd hedge), hreason⟩

end Workbench.Tuning
