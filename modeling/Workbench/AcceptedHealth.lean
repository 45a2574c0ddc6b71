import Workbench.Reasons

/-!
# The health of accepted-unmatched decisions

The search for an accepted record reports every counterpart that only its
reservation keeps from being accepted, or says that it is incomplete. All
searches of a run share one edge budget, and none of them changes what the run
decided.
-/

set_option autoImplicit false

namespace Workbench.AcceptedHealth
open Workbench.Listing Workbench.Raising Workbench.Records Workbench.Evidence
open Workbench.References Workbench.Candidates Workbench.Json Workbench.SearchSpace
open Workbench.Generation Workbench.Scoring Workbench.Scores Workbench.Assignment
open Workbench.Gating Workbench.Diagnostics Workbench.Diagnosis Workbench.Engine
open Workbench.Results Workbench.Comparison Workbench.Overrides Workbench.Reasons

def Plausible (d : DecisionInputs) (mp : MatchingPolicy) (x : MatchRecord × MatchRecord) : Prop :=
  Related d mp x ∧ coverageFailures x.1 x.2 = [] ∧
    contradictions x.1 x.2 mp.referenceContract = [] ∧
    ∃ score, ruleScore mp x = .ok score ∧ mp.automaticThresholdBp ≤ score

theorem plausible_scored {d : DecisionInputs} {mp : MatchingPolicy} {l r : MatchRecord}
    {c : CandidateEvidence} (h : Scored mp l r c) (hrelated : Related d mp (l, r)) :
    plausibleCandidate mp c = true ↔ Plausible d mp (l, r) := by
  simp only [plausibleCandidate, decide_eq_true_eq, Plausible, scored_ruleScore h, hrelated,
    Except.ok.injEq, exists_eq_left', true_and, h.coverage, h.contradictions]
  tauto

theorem scored_budgeted {mp : MatchingPolicy} {remaining : ℕ} {h : 0 < remaining}
    {l r : MatchRecord} {c : CandidateEvidence} (hs : Scored (budgeted mp remaining h) l r c) :
    Scored mp l r c :=
  ⟨hs.leftId, hs.rightId, hs.contradictions, hs.coverage, hs.score, hs.score_le⟩

section Search
variable {digest : Digest} {s : EngineSnapshot} {d : DecisionInputs} {mp : MatchingPolicy}
  {pairs : List PairOutcome} {side : RecordSide} {record : MatchRecord}

theorem space_facing {l r : MatchRecord} :
    l ∈ (space s d side record).remainingLeft ∧ r ∈ (space s d side record).remainingRight ↔
      ∃ o ∈ opposite s side, facing side record o = (l, r) := by
  have hleft : l ∈ (space s d side record).remainingLeft ↔
      l ∈ diagnosticRecords record side (opposite s side) .left := (space_perm d .left).mem_iff
  have hright : r ∈ (space s d side record).remainingRight ↔
      r ∈ diagnosticRecords record side (opposite s side) .right := (space_perm d .right).mem_iff
  rw [hleft, hright]
  cases side <;> simp [diagnosticRecords, facing]
  all_goals tauto

theorem space_prohibited (hr : record ∈ s.records side) {l r : MatchRecord}
    (hl : l ∈ (space s d side record).remainingLeft)
    (hrr : r ∈ (space s d side record).remainingRight) :
    (l.observationId, r.observationId) ∈ prohibitedEdges (space s d side record) ↔
      (l.observationId, r.observationId) ∈ d.rejectedEdges := by
  have hl' := (space_perm d .left).mem_iff.mp hl
  have hr' := (space_perm d .right).mem_iff.mp hrr
  have hleft : l.observationId ∈ ids s.left := List.mem_map_of_mem (space_mem d hr (t := .left) hl)
  have hright : r.observationId ∈ ids s.right :=
    List.mem_map_of_mem (space_mem d hr (t := .right) hrr)
  simp only [prohibitedEdges, space, ReferencePreprocessingResult.ordered, diagnosticInput,
    List.mem_map, mem_sortOn, List.mem_filter, decide_eq_true_eq]
  constructor
  · rintro ⟨x, ⟨hx, -⟩, he⟩
    exact (mem_prohibited.mp (List.mem_map.mpr ⟨x, hx, he⟩)).1
  · intro hrejected
    obtain ⟨x, hx, he⟩ := List.mem_map.mp (mem_prohibited.mpr ⟨hrejected, hleft, hright⟩)
    obtain ⟨hxl, hxr⟩ := Prod.mk.inj he
    exact ⟨x, ⟨hx, hxl ▸ List.mem_map_of_mem hl', hxr ▸ List.mem_map_of_mem hr'⟩, he⟩

/-- A complete search finds exactly the counterparts that only a reservation
keeps apart. -/
theorem search_exact (hr : record ∈ s.records side) {remaining : ℕ} {h : 0 < remaining}
    {cs : List CandidateEvidence}
    (hcs : ScoredAll (space s d side record) (found digest s d mp side record remaining h)
      (budgeted mp remaining h) cs)
    (hcomplete : (found digest s d mp side record remaining h).complete = true) (i : String) :
    (∃ c ∈ cs, plausibleCandidate mp c = true ∧ c.endId side.other = i) ↔
      ∃ o ∈ s.records side.other, o.eligible = true ∧ o.observationId = i ∧
        Plausible d mp (facing side record o) := by
  have hg : Generated (space s d side record) (budgeted mp remaining h)
      (found digest s d mp side record remaining h) := generated_spec digest _
  have hnone : (found digest s d mp side record remaining h).limitedRecordIds = [] :=
    hg.complete.mp hcomplete
  have hother : ∀ {o l r : MatchRecord} {c : CandidateEvidence}, facing side record o = (l, r) →
      Scored mp l r c → c.endId side.other = o.observationId := by
    intro o l r c hface hscored
    cases side
    · exact hscored.rightId.trans (congrArg (·.2.observationId) hface).symm
    · exact hscored.leftId.trans (congrArg (·.1.observationId) hface).symm
  constructor
  · rintro ⟨c, hc, hplausible, rfl⟩
    obtain ⟨l, hl, r, hrr, hscored, hcompatible, hno⟩ :=
      scored_records (space_distinct d) hg hcs hc
    obtain ⟨o, ho, hface⟩ := space_facing.mp ⟨hl, hrr⟩
    have hrelated : Related d mp (l, r) :=
      ⟨hcompatible, fun hrejected => hno ((space_prohibited hr hl hrr).mpr hrejected)⟩
    have hscored' := scored_budgeted hscored
    refine ⟨o, (mem_opposite.mp ho).1, (mem_opposite.mp ho).2, (hother hface hscored').symm, ?_⟩
    rw [hface]
    exact (plausible_scored hscored' hrelated).mp hplausible
  · rintro ⟨o, ho, heligible, rfl, hplausible⟩
    generalize hface : facing side record o = x at hplausible
    obtain ⟨l, r⟩ := x
    obtain ⟨hl, hrr⟩ := (space_facing (d := d)).mpr ⟨o, mem_opposite.mpr ⟨ho, heligible⟩, hface⟩
    have hrelated := hplausible.1
    have hno := (space_prohibited hr hl hrr).not.mpr hrelated.2
    obtain ⟨c, hc, hscored⟩ | ⟨hlimited, -⟩ :=
      records_scored (space_distinct d) hg hcs hl hrr hrelated.1 hno
    · have hscored' := scored_budgeted hscored
      exact ⟨c, hc, (plausible_scored hscored' hrelated).mpr hplausible, hother hface hscored'⟩
    · have hin : l.observationId ∈
          (found digest s d mp side record remaining h).limitedRecordIds := hlimited
      rw [hnone] at hin
      simp at hin

def Flagged (ds : List DecisionHealthDiagnostic) (recordId : String) : Prop :=
  ∃ x ∈ ds, x.kind = .incompleteSearch ∧ x.recordId = recordId

def reportedCandidates (ds : List DecisionHealthDiagnostic) (recordId : String) : List String :=
  (ds.filter fun x => x.kind = .acceptedUnmatchedCandidate ∧ x.recordId = recordId).filterMap
    (·.candidateId)

theorem mem_reported {ds : List DecisionHealthDiagnostic} {recordId i : String} :
    i ∈ reportedCandidates ds recordId ↔ ∃ x ∈ ds, x.kind = .acceptedUnmatchedCandidate ∧
      x.recordId = recordId ∧ x.candidateId = some i := by
  simp [reportedCandidates, and_assoc]

/-- An accepted record that is present and not cancelled is reported to be
searched incompletely, or reported with all its plausible counterparts. -/
def Answered (s : EngineSnapshot) (d : DecisionInputs) (mp : MatchingPolicy)
    (a : AcceptedUnmatched) (ds : List DecisionHealthDiagnostic) : Prop :=
  ∀ side, ∀ q ∈ s.records side, q.observationId = a.recordId → q.eligible = true →
    Flagged ds a.recordId ∨ ∀ i, i ∈ reportedCandidates ds a.recordId ↔
      ∃ o ∈ s.records side.other, o.eligible = true ∧ o.observationId = i ∧
        Plausible d mp (facing side q o)

theorem Answered.congr {a : AcceptedUnmatched} {ds ds' : List DecisionHealthDiagnostic}
    (h : Answered s d mp a ds)
    (hsame : ∀ x, x.recordId = a.recordId → (x ∈ ds ↔ x ∈ ds')) : Answered s d mp a ds' := by
  intro side q hq hid heligible
  refine (h side q hq hid heligible).imp ?_ fun hexact i => ?_
  · rintro ⟨x, hx, hkind, hrecord⟩
    exact ⟨x, (hsame x hrecord).mp hx, hkind, hrecord⟩
  · rw [← hexact i, mem_reported, mem_reported]
    constructor
    · rintro ⟨x, hx, hkind, hrecord, hcandidate⟩
      exact ⟨x, (hsame x hrecord).mpr hx, hkind, hrecord, hcandidate⟩
    · rintro ⟨x, hx, hkind, hrecord, hcandidate⟩
      exact ⟨x, (hsame x hrecord).mp hx, hkind, hrecord, hcandidate⟩

theorem findings_flagged {recordId : String} (cs : List CandidateEvidence) :
    Flagged (findings mp pairs side recordId false cs) recordId :=
  ⟨incompleteFinding recordId "candidate enumeration limit",
    List.mem_append_right _ (List.mem_singleton.mpr rfl), rfl, rfl⟩

theorem findings_reports {recordId i : String} {complete : Bool} {cs : List CandidateEvidence} :
    i ∈ reportedCandidates (findings mp pairs side recordId complete cs) recordId ↔
      ∃ c ∈ cs, plausibleCandidate mp c = true ∧ c.endId side.other = i := by
  rw [mem_reported]
  constructor
  · rintro ⟨x, hx, hkind, -, hcandidate⟩
    rcases List.mem_append.mp hx with hx | hx
    · obtain ⟨c, hc, rfl⟩ := List.mem_map.mp hx
      obtain ⟨hc, hplausible⟩ := List.mem_filter.mp hc
      exact ⟨c, hc, hplausible, Option.some.inj hcandidate⟩
    · rw [mem_limitFindings hx] at hkind
      cases hkind
  · rintro ⟨c, hc, hplausible, rfl⟩
    exact ⟨_, List.mem_append_left _ (List.mem_map_of_mem (List.mem_filter.mpr ⟨hc, hplausible⟩)),
      rfl, rfl, rfl⟩

/-- A present record that is not cancelled is the one its decision has
searched for. -/
theorem searched_present {a : AcceptedUnmatched} {q : MatchRecord} (hq : q ∈ s.records side)
    (hid : q.observationId = a.recordId) (heligible : q.eligible = true) :
    searched s a = some (side, q) := by
  have hown : lookup (·.observationId) (s.records side) a.recordId = some q :=
    hid ▸ lookup_mem (s.nodup side) hq
  unfold searched acceptedRecord
  cases side with
  | left =>
    have hleft : lookup (·.observationId) s.left a.recordId = some q := hown
    simp [hleft, heligible]
  | right =>
    have hright : lookup (·.observationId) s.right a.recordId = some q := hown
    have hleft : lookup (·.observationId) s.left a.recordId = none := by
      refine lookup_none.mpr fun l hl he => s.apart _ (List.mem_map_of_mem hl) ?_
      have hright' : q.observationId ∈ ids s.right := List.mem_map_of_mem hq
      rwa [he, ← hid]
    simp [hleft, hright, heligible]

theorem accepted_answered {acc acc' : Diagnosis} {a : AcceptedUnmatched}
    (h : diagnoseAccepted digest s d mp pairs acc a = .ok acc') :
    ∃ new, acc'.diagnostics = acc.diagnostics ++ new ∧ (∀ x ∈ new, x.recordId = a.recordId) ∧
      Answered s d mp a new := by
  obtain ⟨-, new, hnew, hreported⟩ := diagnoseAccepted_spec h
  refine ⟨new, hnew, hreported.record, fun side q hq hid heligible => ?_⟩
  rw [diagnoseAccepted_eq, searched_present hq hid heligible] at h
  simp only at h
  split_ifs at h with hb
  · obtain ⟨-, -, cs, hcs, rfl⟩ := (diagnoseRecord_ok hq hb).mp h
    obtain rfl := List.append_cancel_left hnew
    rw [hid]
    cases hcomplete : (found digest s d mp side q acc.remainingRunEdges hb).complete with
    | false => exact .inl (findings_flagged cs)
    | true =>
      refine .inr fun i => findings_reports.trans ?_
      exact search_exact hq (scoreCandidates_spec hcs) hcomplete i
  · -- the budget is spent, which is reported too
    simp only [outOfBudget, incomplete_ok a.recordId_text, bind_ok, pure_ok, Except.ok.injEq,
      exists_eq_left'] at h
    subst h
    obtain rfl := List.append_cancel_left hnew
    exact .inl ⟨_, List.mem_singleton.mpr rfl, rfl, rfl⟩

/-- Later decisions report of other records. -/
theorem accepted_all_answered {l : List AcceptedUnmatched} (hl : (l.map (·.recordId)).Nodup)
    {acc acc' : Diagnosis}
    (h : l.foldlM (diagnoseAccepted digest s d mp pairs) acc = .ok acc') :
    ∃ new, acc'.diagnostics = acc.diagnostics ++ new ∧
      (∀ x ∈ new, x.recordId ∈ l.map (·.recordId)) ∧ ∀ a ∈ l, Answered s d mp a new := by
  induction l generalizing acc with
  | nil =>
    rw [List.foldlM_nil, pure_ok] at h
    exact ⟨[], by simp [h], by simp, by simp⟩
  | cons a rest ih =>
    rw [List.foldlM_cons, bind_ok] at h
    obtain ⟨mid, hmid, h⟩ := h
    obtain ⟨ha, hrest⟩ := List.nodup_cons.mp hl
    obtain ⟨first, hfirst, hown, hanswered⟩ := accepted_answered hmid
    obtain ⟨new, hnew, hrecords, hall⟩ := ih hrest h
    refine ⟨first ++ new, by rw [hnew, hfirst, List.append_assoc], fun x hx => ?_, ?_⟩
    · rcases List.mem_append.mp hx with hx | hx
      · exact List.mem_cons.mpr (.inl (hown x hx))
      · exact List.mem_cons.mpr (.inr (hrecords x hx))
    · intro b hb
      rcases List.mem_cons.mp hb with rfl | hb
      · refine hanswered.congr fun x hx => ?_
        have hlater : x ∉ new := by
          intro hin
          have hrecord := hrecords x hin
          rw [hx] at hrecord
          exact ha hrecord
        simp [hlater]
      · refine (hall b hb).congr fun x hx => ?_
        have hearlier : x ∉ first := by
          intro hin
          have hsame : b.recordId = a.recordId := hx.symm.trans (hown x hin)
          exact ha (List.mem_map.mpr ⟨b, hb, hsame⟩)
        simp [hearlier]

/-- The candidate generations of a sequence of decisions, in their order. Each
keeps at most what the ones before it left of the edge budget. -/
inductive Searches (digest : Digest) (s : EngineSnapshot) (d : DecisionInputs)
    (mp : MatchingPolicy) : List AcceptedUnmatched → ℕ → List CandidateGenerationResult → Prop
  | done (n : ℕ) : Searches digest s d mp [] n []
  | passed {a : AcceptedUnmatched} {rest : List AcceptedUnmatched} {n : ℕ}
      {gs : List CandidateGenerationResult} :
      searched s a = none → Searches digest s d mp rest n gs →
      Searches digest s d mp (a::rest) n gs
  | spent {a : AcceptedUnmatched} {rest : List AcceptedUnmatched} {x : RecordSide × MatchRecord}
      {gs : List CandidateGenerationResult} :
      searched s a = some x → Searches digest s d mp rest 0 gs →
      Searches digest s d mp (a::rest) 0 gs
  | search {a : AcceptedUnmatched} {rest : List AcceptedUnmatched} {n : ℕ} {side : RecordSide}
      {record : MatchRecord} {pre : ReferencePreprocessingResult}
      {g : CandidateGenerationResult} {gs : List CandidateGenerationResult} (h : 0 < n) :
      searched s a = some (side, record) →
      diagnosticPreprocessing record side (opposite s side) (prohibitedRelationships s d) =
        .ok pre →
      generateCandidates digest pre (budgeted mp n h) = .ok g →
      Searches digest s d mp rest (n-g.candidates.length) gs →
      Searches digest s d mp (a::rest) n (g::gs)

theorem Searches.within {l : List AcceptedUnmatched} {n : ℕ}
    {gs : List CandidateGenerationResult} (h : Searches digest s d mp l n gs) :
    (gs.map (·.candidates.length)).sum ≤ n := by
  induction h with
  | done n => simp
  | passed _ _ ih => exact ih
  | spent _ _ ih => exact ih
  | @search a rest n side record pre g gs hb hs hpre hg _ ih =>
    obtain ⟨hr, -⟩ := searched_mem hs
    obtain rfl := Except.ok.inj ((diagnosticPreprocessing_ok d hr).symm.trans hpre)
    obtain ⟨-, -, rfl⟩ := (generate_ok (space_distinct d)).mp hg
    have hkept : (generated digest (space s d side record) (budgeted mp n hb)).candidates.length ≤
        n := generated_within digest (budgeted mp n hb)
    simp only [List.map_cons, List.sum_cons]
    omega

theorem accepted_searches {l : List AcceptedUnmatched} {acc acc' : Diagnosis}
    (h : l.foldlM (diagnoseAccepted digest s d mp pairs) acc = .ok acc') :
    ∃ gs, Searches digest s d mp l acc.remainingRunEdges gs := by
  induction l generalizing acc with
  | nil => exact ⟨[], .done _⟩
  | cons a rest ih =>
    rw [List.foldlM_cons, bind_ok] at h
    obtain ⟨mid, hmid, h⟩ := h
    obtain ⟨gs, hgs⟩ := ih h
    rw [(diagnoseAccepted_spec hmid).1] at hgs
    rw [diagnoseAccepted_eq] at hmid
    unfold remainingAfter at hgs
    cases hs : searched s a with
    | none =>
      simp only [hs] at hgs
      exact ⟨gs, .passed hs hgs⟩
    | some x =>
      obtain ⟨side, record⟩ := x
      obtain ⟨hr, -⟩ := searched_mem hs
      simp only [hs] at hgs hmid
      split_ifs at hgs hmid with hb
      · obtain ⟨hw, hp, -⟩ := (diagnoseRecord_ok hr hb).mp hmid
        exact ⟨_, .search hb hs (diagnosticPreprocessing_ok d hr)
          ((generate_ok (space_distinct d)).mpr ⟨hw, hp, rfl⟩) hgs⟩
      · have hspent : acc.remainingRunEdges = 0 := by omega
        rw [hspent] at hgs ⊢
        exact ⟨gs, .spent hs hgs⟩

end Search

section Run
variable {digest : Digest} {s : EngineSnapshot} {mp : MatchingPolicy} {cp : ComparisonPolicy}
  {d : DecisionInputs} {solver : AssignmentSolver} {r : EngineResult}

/-- The run without its last stage. -/
def withoutDiagnostics (digest : Digest) (snapshot : EngineSnapshot)
    (matchingPolicy : MatchingPolicy) (comparisonPolicy : ComparisonPolicy)
    (decisions : DecisionInputs) (solver : AssignmentSolver) : Outcome EngineResult := do
  let preprocessed ← preprocessReferences snapshot decisions matchingPolicy.referenceContract
  let generated ← generateCandidates digest preprocessed matchingPolicy
  let candidates ← scoreCandidates preprocessed generated matchingPolicy
  let assignment ← solveAssignment digest candidates generated matchingPolicy solver
  let gated ← gateAssignment digest candidates assignment matchingPolicy solver
  let established ← preprocessed.pairs.mapM (comparePair snapshot matchingPolicy comparisonPolicy)
  let accepted ← gated.acceptedProposals.mapM
    (acceptPair snapshot matchingPolicy comparisonPolicy)
  let pairs := established ++ accepted
  let unpaired ← unpairedOutcomes preprocessed candidates assignment.limitedRecordIds
    matchingPolicy.assignmentFloorBp pairs
  (primaryResult snapshot matchingPolicy comparisonPolicy candidates gated.components pairs
    unpaired).create

theorem reconcile_diagnosed (h : reconcile digest s mp cp d solver = .ok r) :
    ∃ primary, withoutDiagnostics digest s mp cp d solver = .ok primary ∧
      r = { primary with diagnostics := r.diagnostics } ∧
      ∃ ds, diagnoseAcceptedUnmatched digest s d mp primary.pairs = .ok ds ∧
        r.diagnostics.Perm ds := by
  simp only [reconcile, bind_ok] at h
  obtain ⟨pre, hpre, g, hg, cs, hcs, a, ha, gated, hgated, est, hest, acc, hacc, us, hus, primary,
    hprimary, ds, hds, hr⟩ := h
  refine ⟨primary, ?_, ?_, ds, hds, ?_⟩
  · simp only [withoutDiagnostics, bind_ok]
    exact ⟨pre, hpre, g, hg, cs, hcs, a, ha, gated, hgated, est, hest, acc, hacc, us, hus, hprimary⟩
  · obtain ⟨-, -, rfl⟩ := create_ok.mp hprimary
    obtain ⟨-, -, rfl⟩ := create_ok.mp hr
    simp only [ordered, sortOn_idem]
  · obtain ⟨-, -, rfl⟩ := create_ok.mp hr
    exact sortOn_perm _ _

/-- Every accepted record that is present and not cancelled is flagged as
incompletely searched or reported with exactly its plausible counterparts, all
searches together keep to the run's edge limit, and the pairs and unpaired
outcomes are those of the run without diagnostics. -/
theorem accepted_unmatched_answered (h : reconcile digest s mp cp d solver = .ok r) :
    (∀ a ∈ d.acceptedUnmatched, Answered s d mp a r.diagnostics) ∧
      (∃ gs, Searches digest s d mp d.acceptedUnmatched mp.limits.maxRunCandidateEdges gs ∧
        (gs.map (·.candidates.length)).sum ≤ mp.limits.maxRunCandidateEdges) ∧
      ∃ primary, withoutDiagnostics digest s mp cp d solver = .ok primary ∧
        r.pairs = primary.pairs ∧ r.unpaired = primary.unpaired := by
  obtain ⟨primary, hprimary, hr, ds, hds, hperm⟩ := reconcile_diagnosed h
  simp only [diagnoseAcceptedUnmatched, bind_ok, pure_ok] at hds
  obtain ⟨acc, hacc, rfl⟩ := hds
  obtain ⟨new, hnew, -, hall⟩ := accepted_all_answered (accepted_nodup d) hacc
  obtain ⟨gs, hgs⟩ := accepted_searches hacc
  refine ⟨fun a ha => (hall a ha).congr fun x _ => ?_, ⟨gs, hgs, hgs.within⟩, primary, hprimary,
    ?_, ?_⟩
  · rw [hperm.mem_iff, mem_sortOn, hnew, List.nil_append]
  · rw [hr]
  · rw [hr]

end Run

theorem leftAccepted_decisionId : nonblank "accept-left" = true := by decide

theorem leftAccepted_revisionId : nonblank "accept-left-1" = true := by decide

theorem leftAccepted_recordId : nonblank "L1" = true := by decide

def leftAccepted : AcceptedUnmatched :=
  ⟨"accept-left", "accept-left-1", "L1", leftAccepted_decisionId, leftAccepted_revisionId,
    leftAccepted_recordId⟩

/-- The only left record is accepted as unmatched. -/
def acceptedDecisions : DecisionInputs :=
  { noDecisions with
    acceptedUnmatched := [leftAccepted]
    accepted_sorted := List.pairwise_singleton _ _
    decisions_unique := by simp [noDecisions]
    singles_unique := by simp [noDecisions]
    singles_apart := by simp [noDecisions] }

def acceptedRun : Outcome EngineResult :=
  reconcile checksum (sampleSnapshot noon) (samplePolicy sampleLimits) sampleComparison
    acceptedDecisions sampleSolver

theorem acceptedRun_reports : acceptedRun.toOption.map (fun r =>
    (r.pairs.length, r.diagnostics.map fun x => (x.kind, x.recordId, x.candidateId))) =
      some (0, [(.acceptedUnmatchedCandidate, "L1", some "R1")]) := by
  decide +kernel

theorem accepted_unmatched_answered_sample : ∃ r, acceptedRun = .ok r ∧
    ∀ a ∈ acceptedDecisions.acceptedUnmatched,
      Answered (sampleSnapshot noon) acceptedDecisions (samplePolicy sampleLimits) a
        r.diagnostics := by
  obtain ⟨r, hr, -⟩ := ok_of_toOption acceptedRun_reports
  exact ⟨r, hr, (accepted_unmatched_answered hr).1⟩

end Workbench.AcceptedHealth
