import Workbench.Diagnostics
import Workbench.Scores

/-!
# What the health search reports

A search of one accepted record fails like candidate generation and scoring
do, and in no other way. What it reports names records and pairs of the run,
and apart from the pairs it does not depend on what the run selected.
-/

set_option autoImplicit false

namespace Workbench.Diagnosis
open Workbench.Listing Workbench.Raising Workbench.Records Workbench.Evidence
open Workbench.References Workbench.Candidates Workbench.Scoring Workbench.Json
open Workbench.SearchSpace Workbench.Generation Workbench.Scores Workbench.Diagnostics

section Space
variable {s : EngineSnapshot} {side : RecordSide} {record : MatchRecord}

theorem mem_opposite {r : MatchRecord} :
    r ∈ opposite s side ↔ r ∈ s.records side.other ∧ r.eligible = true := by
  simp [opposite]

theorem opposite_nodup (s : EngineSnapshot) (side : RecordSide) :
    (ids (opposite s side)).Nodup :=
  (s.nodup side.other).sublist (List.filter_sublist.map _)

theorem diagnosticRecords_nodup (t : RecordSide) :
    (ids (diagnosticRecords record side (opposite s side) t)).Nodup := by
  unfold diagnosticRecords
  split_ifs
  · simp [ids]
  · exact opposite_nodup s side

theorem diagnosticRecords_mem (hr : record ∈ s.records side) {t : RecordSide} {r : MatchRecord}
    (h : r ∈ diagnosticRecords record side (opposite s side) t) : r ∈ s.records t := by
  unfold diagnosticRecords at h
  split_ifs at h with ht
  · rw [List.mem_singleton.mp h, ht]
    exact hr
  · have hother : t = side.other := by cases t <;> cases side <;> simp_all [RecordSide.other]
    exact hother ▸ (mem_opposite.mp h).1

def space (s : EngineSnapshot) (d : DecisionInputs) (side : RecordSide) (record : MatchRecord) :
    ReferencePreprocessingResult :=
  (diagnosticInput record side (opposite s side) (prohibitedRelationships s d)).ordered

theorem space_perm (d : DecisionInputs) (t : RecordSide) :
    ((space s d side record).remaining t).Perm
      (diagnosticRecords record side (opposite s side) t) := by
  cases t <;> exact sortOn_perm _ _

theorem space_distinct (d : DecisionInputs) : Distinct (space s d side record) :=
  fun t => ((space_perm d t).map _).nodup_iff.mpr (diagnosticRecords_nodup t)

theorem space_mem (d : DecisionInputs) (hr : record ∈ s.records side) {t : RecordSide}
    {r : MatchRecord} (h : r ∈ (space s d side record).remaining t) : r ∈ s.records t :=
  diagnosticRecords_mem hr ((space_perm d t).mem_iff.mp h)

theorem diagnosticPreprocessing_ok (d : DecisionInputs) (hr : record ∈ s.records side) :
    diagnosticPreprocessing record side (opposite s side) (prohibitedRelationships s d) =
      .ok (space s d side record) := by
  have hnodup : ∀ t, (ids (diagnosticRecords record side (opposite s side) t)).Nodup :=
    fun t => diagnosticRecords_nodup t
  have hapart : Apart (ids (diagnosticRecords record side (opposite s side) .left))
      (ids (diagnosticRecords record side (opposite s side) .right)) := by
    intro i hi hj
    obtain ⟨q, hq, rfl⟩ := List.mem_map.mp hi
    obtain ⟨r, hr', he⟩ := List.mem_map.mp hj
    refine s.apart _ (List.mem_map_of_mem (diagnosticRecords_mem hr hq)) (he ▸ ?_)
    exact List.mem_map_of_mem (diagnosticRecords_mem hr hr')
  have hnone : ∀ t, on t [] = [] := fun t => rfl
  simp only [diagnosticPreprocessing, ReferencePreprocessingResult.create, diagnosticInput,
    bind_ok, exists_require, partUnique, pure_ok, List.map_nil, hnone, List.nil_append,
    (hnodup .left).dedup, (hnodup .right).dedup]
  refine ⟨⟨hnodup .left, hnodup .right⟩, hapart, List.nodup_nil, List.nodup_nil, List.nodup_nil,
    List.nodup_nil, hnodup .left, hnodup .right, ⟨fun i hi => hi, fun i hi => hi⟩,
    ⟨fun i hi => hi, fun i hi => hi⟩, by simp [Apart], ?_⟩
  simp only [space, diagnosticInput, (hnodup .left).dedup, (hnodup .right).dedup]

end Space

theorem diagnostic_create_ok {d z : DecisionHealthDiagnostic} :
    d.create = .ok z ↔ (nonblank d.recordId = true ∧ OptionalText d.candidateId ∧
      OptionalText d.candidateCurrentPairId ∧ nonblank d.explanation = true ∧
      ¬(d.kind = .acceptedUnmatchedCandidate ∧ d.candidateId = none) ∧
      ¬(d.kind = .incompleteSearch ∧ d.complete = true) ∧
      ¬(d.candidateCurrentPairId ≠ none ∧ d.candidateId = none)) ∧ z = d := by
  have hopt : ∀ (v : Option String) (name : String) (q : Unit → Prop),
      (∃ u, optionalText v name = .ok u ∧ q u) ↔ OptionalText v ∧ q () := by
    intro v name q
    have hunit : (∃ u, q u) ↔ q () := ⟨fun ⟨_, h⟩ => h, fun h => ⟨(), h⟩⟩
    cases v <;> simp [optionalText, OptionalText, requiredText, hunit]
  simp only [DecisionHealthDiagnostic.create, bind_ok, exists_require, pure_ok, requiredText,
    hopt, and_assoc]
  tauto

theorem finding_ok {pairs : List PairOutcome} {side : RecordSide} {recordId : String}
    {c : CandidateEvidence} (hid : nonblank recordId = true)
    (hc : nonblank (c.endId side.other) = true) :
    candidateDiagnostic pairs side recordId c = .ok (candidateFinding pairs side recordId c) := by
  refine diagnostic_create_ok.mpr ⟨⟨hid, ?_, ?_, ?_, ?_, ?_, ?_⟩, rfl⟩
  · rintro _ ⟨⟩
    exact hc
  · intro key hkey
    obtain ⟨p, -, rfl⟩ := Option.map_eq_some_iff.mp hkey
    exact nonblank_append_left (nonblank_append_right (by decide))
  · simp only [candidateFinding, candidateExplanation, String.append_assoc]
    exact nonblank_append_left (by decide)
  · simp [candidateFinding]
  · simp [candidateFinding]
  · simp [candidateFinding]

theorem incomplete_ok {recordId : String} (hid : nonblank recordId = true) (limit : String) :
    incompleteDiagnostic recordId limit = .ok (incompleteFinding recordId limit) := by
  refine diagnostic_create_ok.mpr ⟨⟨hid, ?_, ?_, ?_, ?_, ?_, ?_⟩, rfl⟩
  · simp [incompleteFinding, OptionalText]
  · simp [incompleteFinding, OptionalText]
  · simp only [incompleteFinding, String.append_assoc]
    exact nonblank_append_left (by decide)
  all_goals simp [incompleteFinding]

def limitFindings (complete : Bool) (recordId : String) : List DecisionHealthDiagnostic :=
  if complete then [] else [incompleteFinding recordId "candidate enumeration limit"]

theorem incompleteness_ok {recordId : String} (hid : nonblank recordId = true) (complete : Bool) :
    incompleteness complete recordId = .ok (limitFindings complete recordId) := by
  cases complete <;> simp [incompleteness, limitFindings, incomplete_ok hid, pure, Except.pure]

theorem endId_text {policy : MatchingPolicy} {left right : MatchRecord} {c : CandidateEvidence}
    (h : Scored policy left right c) (side : RecordSide) : nonblank (c.endId side) = true := by
  cases side
  · rw [CandidateEvidence.endId, h.leftId]
    exact left.observationId_text
  · rw [CandidateEvidence.endId, h.rightId]
    exact right.observationId_text

def budgeted (policy : MatchingPolicy) (remaining : ℕ) (h : 0 < remaining) : MatchingPolicy :=
  policy.withLimits (remainingLimits policy.limits remaining h)

section Search
variable {digest : Digest} {s : EngineSnapshot} {d : DecisionInputs} {policy : MatchingPolicy}
  {pairs : List PairOutcome} {side : RecordSide} {record : MatchRecord}

def found (digest : Digest) (s : EngineSnapshot) (d : DecisionInputs) (policy : MatchingPolicy)
    (side : RecordSide) (record : MatchRecord) (remaining : ℕ) (h : 0 < remaining) :
    CandidateGenerationResult :=
  generated digest (space s d side record) (budgeted policy remaining h)

def findings (policy : MatchingPolicy) (pairs : List PairOutcome) (side : RecordSide)
    (recordId : String) (complete : Bool) (cs : List CandidateEvidence) :
    List DecisionHealthDiagnostic :=
  (cs.filter (plausibleCandidate policy)).map (candidateFinding pairs side recordId) ++
    limitFindings complete recordId

theorem diagnoseRecord_ok (hr : record ∈ s.records side) {acc acc' : Diagnosis}
    (h : 0 < acc.remainingRunEdges) :
    diagnoseRecord digest s d policy pairs side record acc h = .ok acc' ↔
      WindowsDefined digest (space s d side record) (budgeted policy acc.remainingRunEdges h) ∧
      PartitionsApart digest (space s d side record) policy.blockingPasses ∧
      ∃ cs, scoreCandidates (space s d side record)
          (found digest s d policy side record acc.remainingRunEdges h)
          (budgeted policy acc.remainingRunEdges h) = .ok cs ∧
        acc' = ⟨acc.remainingRunEdges-
            (found digest s d policy side record acc.remainingRunEdges h).candidates.length,
          acc.diagnostics ++ findings policy pairs side record.observationId
            (found digest s d policy side record acc.remainingRunEdges h).complete cs⟩ := by
  have hpre := diagnosticPreprocessing_ok d hr
  have hfindings : ∀ cs, ScoredAll (space s d side record)
      (found digest s d policy side record acc.remainingRunEdges h)
      (budgeted policy acc.remainingRunEdges h) cs →
      (cs.filter (plausibleCandidate policy)).mapM (candidateDiagnostic pairs side record.observationId) =
        .ok ((cs.filter (plausibleCandidate policy)).map
          (candidateFinding pairs side record.observationId)) := by
    intro cs hcs
    refine mapM_total fun c hc => finding_ok record.observationId_text ?_
    obtain ⟨l, -, r, -, hscored⟩ := hcs.scored c (List.mem_of_mem_filter hc)
    exact endId_text hscored side.other
  simp only [diagnoseRecord, bind_ok, hpre, Except.ok.injEq, exists_eq_left', pure_ok]
  constructor
  · rintro ⟨g, hg, cs, hcs, fs, hfs, ls, hls, rfl⟩
    obtain ⟨hw, hp, rfl⟩ := (generate_ok (space_distinct d)).mp hg
    rw [hfindings cs (scoreCandidates_spec hcs), Except.ok.injEq] at hfs
    rw [incompleteness_ok record.observationId_text, Except.ok.injEq] at hls
    exact ⟨hw, hp, cs, hcs, by rw [← hfs, ← hls]; rfl⟩
  · rintro ⟨hw, hp, cs, hcs, rfl⟩
    exact ⟨_, (generate_ok (space_distinct d)).mpr ⟨hw, hp, rfl⟩, cs, hcs, _,
      hfindings cs (scoreCandidates_spec hcs), _,
      incompleteness_ok record.observationId_text _, rfl⟩

/-- The reports name the record, candidates of the snapshot and pairs of the
run; no candidate is reported twice. -/
structure Reported (s : EngineSnapshot) (pairs : List PairOutcome) (recordId : String)
    (new : List DecisionHealthDiagnostic) : Prop where
  record : ∀ x ∈ new, x.recordId = recordId
  present : new ≠ [] → recordId ∈ ids s.left ++ ids s.right
  candidate : ∀ x ∈ new, ∀ i ∈ x.candidateId, i ∈ ids s.left ++ ids s.right
  current : ∀ x ∈ new, ∀ k ∈ x.candidateCurrentPairId, k ∈ pairs.map (·.key)
  distinct : (new.map fun x => (x.candidateId.getD "", x.kind.value)).Nodup

theorem mem_ids {t : RecordSide} {i : String} (h : i ∈ ids (s.records t)) :
    i ∈ ids s.left ++ ids s.right := by
  cases t
  · exact List.mem_append_left _ h
  · exact List.mem_append_right _ h

theorem pairByRecord_mem {i : String} {p : PairOutcome} (h : pairByRecord pairs i = some p) :
    p ∈ pairs := List.mem_reverse.mp (List.mem_of_find?_eq_some h)

theorem mem_limitFindings {complete : Bool} {recordId : String} {x : DecisionHealthDiagnostic}
    (h : x ∈ limitFindings complete recordId) :
    x = incompleteFinding recordId "candidate enumeration limit" := by
  unfold limitFindings at h
  split_ifs at h
  · simp at h
  · exact List.mem_singleton.mp h

theorem scored_end {c : CandidateEvidence} (hr : record ∈ s.records side) {p : MatchingPolicy}
    {l r : MatchRecord} (hl : l ∈ (space s d side record).remainingLeft)
    (hrr : r ∈ (space s d side record).remainingRight) (h : Scored p l r c) :
    c.endId side = record.observationId ∧ c.endId side.other ∈ ids (s.records side.other) := by
  have hleft := (space_perm d .left).mem_iff.mp hl
  have hright := (space_perm d .right).mem_iff.mp hrr
  cases side with
  | left =>
    refine ⟨?_, ?_⟩
    · rw [CandidateEvidence.endId, h.leftId, List.mem_singleton.mp hleft]
    · rw [RecordSide.other, CandidateEvidence.endId, h.rightId]
      exact List.mem_map_of_mem (space_mem d hr (t := .right) hrr)
  | right =>
    refine ⟨?_, ?_⟩
    · rw [CandidateEvidence.endId, h.rightId, List.mem_singleton.mp hright]
    · rw [RecordSide.other, CandidateEvidence.endId, h.leftId]
      exact List.mem_map_of_mem (space_mem d hr (t := .left) hl)

theorem edge_of_ends {c c' : CandidateEvidence} (h : c.endId side = c'.endId side)
    (ho : c.endId side.other = c'.endId side.other) : c.edge = c'.edge := by
  cases side with
  | left => exact Prod.ext h ho
  | right => exact Prod.ext ho h

theorem findings_reported (hr : record ∈ s.records side) {remaining : ℕ} {h : 0 < remaining}
    {cs : List CandidateEvidence}
    (hcs : ScoredAll (space s d side record) (found digest s d policy side record remaining h)
      (budgeted policy remaining h) cs) (complete : Bool) :
    Reported s pairs record.observationId
      (findings policy pairs side record.observationId complete cs) := by
  have hmem : ∀ x ∈ findings policy pairs side record.observationId complete cs,
      (∃ c ∈ cs, x = candidateFinding pairs side record.observationId c) ∨
        x = incompleteFinding record.observationId "candidate enumeration limit" := by
    intro x hx
    rcases List.mem_append.mp hx with hx | hx
    · obtain ⟨c, hc, rfl⟩ := List.mem_map.mp hx
      exact .inl ⟨c, List.mem_of_mem_filter hc, rfl⟩
    · exact .inr (mem_limitFindings hx)
  have hend : ∀ c ∈ cs, c.endId side = record.observationId ∧
      c.endId side.other ∈ ids (s.records side.other) := by
    intro c hc
    obtain ⟨l, hl, r, hrr, hscored⟩ := hcs.scored c hc
    exact scored_end hr hl hrr hscored
  refine ⟨?_, fun _ => mem_ids (List.mem_map_of_mem hr), ?_, ?_, ?_⟩
  · intro x hx
    rcases hmem x hx with ⟨c, -, rfl⟩ | rfl <;> rfl
  · intro x hx i hi
    rcases hmem x hx with ⟨c, hc, rfl⟩ | rfl
    · cases hi
      exact mem_ids (hend c hc).2
    · simp [incompleteFinding] at hi
  · intro x hx k hk
    rcases hmem x hx with ⟨c, hc, rfl⟩ | rfl
    · obtain ⟨p, hp, rfl⟩ := Option.map_eq_some_iff.mp hk
      exact List.mem_map_of_mem (pairByRecord_mem hp)
    · simp [incompleteFinding] at hk
  · rw [findings, List.map_append]
    refine List.nodup_append.mpr ⟨?_, ?_, ?_⟩
    · rw [List.map_map]
      have hnodup : (cs.map (·.edge)).Nodup :=
        hcs.edges.nodup_iff.mpr (generated_spec digest (budgeted policy remaining h)).nodup
      refine (hnodup.of_map _ |>.filter _).map_on ?_
      intro c hc c' hc' he
      have hc := List.mem_of_mem_filter hc
      have hc' := List.mem_of_mem_filter hc'
      refine eq_of_key_eq (·.edge) hnodup hc hc' ?_
      exact edge_of_ends ((hend c hc).1.trans (hend c' hc').1.symm) (Prod.mk.inj he).1
    · cases complete <;> simp [limitFindings]
    · intro x hx y hy hxy
      obtain ⟨z, hz, rfl⟩ := List.mem_map.mp hx
      obtain ⟨c, -, rfl⟩ := List.mem_map.mp hz
      obtain ⟨w, hw, rfl⟩ := List.mem_map.mp hy
      rw [mem_limitFindings hw] at hxy
      exact absurd (Prod.mk.inj hxy).2 (by simp [candidateFinding, incompleteFinding,
        DiagnosticKind.value])

end Search

section Accepted
variable {digest : Digest} {s : EngineSnapshot} {d : DecisionInputs} {policy : MatchingPolicy}
  {pairs : List PairOutcome}

def searched (s : EngineSnapshot) (a : AcceptedUnmatched) : Option (RecordSide × MatchRecord) :=
  match acceptedRecord s a.recordId with
  | (_, none) => none
  | (side, some record) => if record.eligible = false then none else some (side, record)

theorem searched_mem {a : AcceptedUnmatched} {side : RecordSide} {record : MatchRecord}
    (h : searched s a = some (side, record)) :
    record ∈ s.records side ∧ record.observationId = a.recordId := by
  unfold searched acceptedRecord at h
  cases hl : lookup (·.observationId) s.left a.recordId with
  | some r =>
    simp only [hl] at h
    split_ifs at h
    cases h
    exact lookup_some hl
  | none =>
    cases hr : lookup (·.observationId) s.right a.recordId with
    | some r =>
      simp only [hl, hr] at h
      split_ifs at h
      cases h
      exact lookup_some hr
    | none => simp [hl, hr] at h

theorem diagnoseAccepted_eq (acc : Diagnosis) (a : AcceptedUnmatched) :
    diagnoseAccepted digest s d policy pairs acc a =
      match searched s a with
      | none => .ok acc
      | some (side, record) =>
        if h : 0 < acc.remainingRunEdges then
          diagnoseRecord digest s d policy pairs side record acc h
        else outOfBudget a.recordId acc := by
  unfold diagnoseAccepted searched
  generalize acceptedRecord s a.recordId = x
  obtain ⟨side, _ | record⟩ := x
  · rfl
  · by_cases he : record.eligible = false <;> simp [he]

def remainingAfter (digest : Digest) (s : EngineSnapshot) (d : DecisionInputs)
    (policy : MatchingPolicy) (remaining : ℕ) (a : AcceptedUnmatched) : ℕ :=
  match searched s a with
  | none => remaining
  | some (side, record) =>
    if h : 0 < remaining then
      remaining-(found digest s d policy side record remaining h).candidates.length
    else remaining

/-- The search for one decision reaches no window that cannot be represented
and no two passes whose identity texts run together. -/
def SearchDefined (digest : Digest) (s : EngineSnapshot) (d : DecisionInputs)
    (policy : MatchingPolicy) (remaining : ℕ) (a : AcceptedUnmatched) : Prop :=
  ∀ side record, searched s a = some (side, record) → ∀ h : 0 < remaining,
    WindowsDefined digest (space s d side record) (budgeted policy remaining h) ∧
      ReasonsApart (space s d side record) policy.blockingPasses

/-- The searches of all decisions, each with the budget the ones before it
left. -/
def SearchesDefined (digest : Digest) (s : EngineSnapshot) (d : DecisionInputs)
    (policy : MatchingPolicy) : List AcceptedUnmatched → ℕ → Prop
  | [], _ => True
  | a::rest, remaining => SearchDefined digest s d policy remaining a ∧
      SearchesDefined digest s d policy rest (remainingAfter digest s d policy remaining a)

theorem incomplete_reported (s : EngineSnapshot) (pairs : List PairOutcome) {recordId : String}
    (h : recordId ∈ ids s.left ++ ids s.right) (limit : String) :
    Reported s pairs recordId [incompleteFinding recordId limit] := by
  refine ⟨?_, fun _ => h, ?_, ?_, by simp⟩
  all_goals simp [incompleteFinding]

theorem nothing_reported (s : EngineSnapshot) (pairs : List PairOutcome) (recordId : String) :
    Reported s pairs recordId [] := by
  refine ⟨?_, fun h => absurd rfl h, ?_, ?_, by simp⟩ <;> simp

theorem diagnoseAccepted_spec {acc acc' : Diagnosis} {a : AcceptedUnmatched}
    (h : diagnoseAccepted digest s d policy pairs acc a = .ok acc') :
    acc'.remainingRunEdges = remainingAfter digest s d policy acc.remainingRunEdges a ∧
      ∃ new, acc'.diagnostics = acc.diagnostics ++ new ∧ Reported s pairs a.recordId new := by
  rw [diagnoseAccepted_eq] at h
  unfold remainingAfter
  cases hs : searched s a with
  | none =>
    simp only [hs, Except.ok.injEq] at h
    exact ⟨by rw [h], [], by simp [h], nothing_reported _ _ _⟩
  | some x =>
    obtain ⟨side, record⟩ := x
    obtain ⟨hr, hid⟩ := searched_mem hs
    simp only [hs] at h ⊢
    split_ifs at h ⊢ with hb
    · obtain ⟨-, -, cs, hcs, rfl⟩ := (diagnoseRecord_ok hr hb).mp h
      exact ⟨rfl, _, rfl, hid ▸ findings_reported hr (scoreCandidates_spec hcs) _⟩
    · simp only [outOfBudget, incomplete_ok a.recordId_text, bind_ok, pure_ok, Except.ok.injEq,
        exists_eq_left'] at h
      subst h
      exact ⟨rfl, _, rfl, incomplete_reported s pairs (hid ▸ mem_ids (List.mem_map_of_mem hr)) _⟩

/-- A search fails on windows, on partition identities and on scores only. -/
theorem diagnoseAccepted_total {acc : Diagnosis} {a : AcceptedUnmatched}
    (hc : CollisionFree digest (partitionTexts s.left s.right policy.blockingPasses))
    (hscore : ∀ l ∈ s.left, ∀ r ∈ s.right, Scorable policy l r) :
    (∃ acc', diagnoseAccepted digest s d policy pairs acc a = .ok acc') ↔
      SearchDefined digest s d policy acc.remainingRunEdges a := by
  rw [diagnoseAccepted_eq]
  unfold SearchDefined
  cases hs : searched s a with
  | none => simp
  | some x =>
    obtain ⟨side, record⟩ := x
    obtain ⟨hr, hid⟩ := searched_mem hs
    simp only
    split_ifs with hb
    · have hapart : PartitionsApart digest (space s d side record) policy.blockingPasses ↔
          ReasonsApart (space s d side record) policy.blockingPasses :=
        partitions_apart hc (passes_nodup policy) fun r hl => space_mem d hr (t := .left) hl
      constructor
      · rintro ⟨acc', h⟩ _ _ ⟨⟩ -
        obtain ⟨hw, hp, -⟩ := (diagnoseRecord_ok hr hb).mp h
        exact ⟨hw, hapart.mp hp⟩
      · intro hdefined
        obtain ⟨hw, hp⟩ := hdefined side record rfl hb
        obtain ⟨cs, hcs⟩ : ∃ cs, scoreCandidates (space s d side record)
            (found digest s d policy side record acc.remainingRunEdges hb)
            (budgeted policy acc.remainingRunEdges hb) = .ok cs :=
          scoreCandidates_total (space_distinct d) (generated_spec digest _)
            fun l hl r hrr _ => hscore l (space_mem d hr (t := .left) hl) r
              (space_mem d hr (t := .right) hrr)
        exact ⟨_, (diagnoseRecord_ok hr hb).mpr ⟨hw, hapart.mpr hp, cs, hcs, rfl⟩⟩
    · simp [outOfBudget, incomplete_ok a.recordId_text, hb]

theorem diagnoses_total (pairs : List PairOutcome)
    (hc : CollisionFree digest (partitionTexts s.left s.right policy.blockingPasses))
    (hscore : ∀ l ∈ s.left, ∀ r ∈ s.right, Scorable policy l r) (l : List AcceptedUnmatched)
    (acc : Diagnosis) :
    (∃ acc', l.foldlM (diagnoseAccepted digest s d policy pairs) acc = .ok acc') ↔
      SearchesDefined digest s d policy l acc.remainingRunEdges := by
  induction l generalizing acc with
  | nil => exact ⟨fun _ => trivial, fun _ => ⟨acc, rfl⟩⟩
  | cons a rest ih =>
    simp only [List.foldlM_cons, bind_ok, SearchesDefined]
    constructor
    · rintro ⟨acc', mid, hmid, hrest⟩
      refine ⟨(diagnoseAccepted_total hc hscore).mp ⟨mid, hmid⟩, ?_⟩
      rw [← (diagnoseAccepted_spec hmid).1]
      exact (ih mid).mp ⟨acc', hrest⟩
    · rintro ⟨hstep, hrest⟩
      obtain ⟨mid, hmid⟩ : ∃ mid, diagnoseAccepted digest s d policy pairs acc a = .ok mid :=
        (diagnoseAccepted_total hc hscore).mpr hstep
      rw [← (diagnoseAccepted_spec hmid).1] at hrest
      obtain ⟨acc', hacc'⟩ := (ih mid).mpr hrest
      exact ⟨acc', mid, hmid, hacc'⟩

structure Referring (s : EngineSnapshot) (pairs : List PairOutcome)
    (new : List DecisionHealthDiagnostic) : Prop where
  record : ∀ x ∈ new, x.recordId ∈ ids s.left ++ ids s.right
  candidate : ∀ x ∈ new, ∀ i ∈ x.candidateId, i ∈ ids s.left ++ ids s.right
  current : ∀ x ∈ new, ∀ k ∈ x.candidateCurrentPairId, k ∈ pairs.map (·.key)

theorem Reported.referring {recordId : String} {new : List DecisionHealthDiagnostic}
    (h : Reported s pairs recordId new) : Referring s pairs new :=
  ⟨fun x hx => h.record x hx ▸ h.present (List.ne_nil_of_mem hx), h.candidate, h.current⟩

theorem Referring.append {new new' : List DecisionHealthDiagnostic} (h : Referring s pairs new)
    (h' : Referring s pairs new') : Referring s pairs (new ++ new') := by
  refine ⟨fun x hx => ?_, fun x hx => ?_, fun x hx => ?_⟩ <;>
    rcases List.mem_append.mp hx with hx | hx
  · exact h.record x hx
  · exact h'.record x hx
  · exact h.candidate x hx
  · exact h'.candidate x hx
  · exact h.current x hx
  · exact h'.current x hx

/-- Reports of distinct records about identities without NUL have distinct
keys. -/
theorem key_inj {x y : DecisionHealthDiagnostic} (hx : NulFree x.recordId)
    (hy : NulFree y.recordId) (hcx : NulFree (x.candidateId.getD ""))
    (hcy : NulFree (y.candidateId.getD "")) (h : x.key = y.key) :
    x.recordId = y.recordId ∧
      (x.candidateId.getD "", x.kind.value) = (y.candidateId.getD "", y.kind.value) := by
  have hsplit : ∀ z : DecisionHealthDiagnostic, z.key = z.recordId ++
      String.ofList [Char.ofNat 0] ++
        (z.candidateId.getD "" ++ String.ofList [Char.ofNat 0] ++ z.kind.value) := by
    intro z
    simp only [DecisionHealthDiagnostic.key, String.append_assoc]
  rw [hsplit, hsplit] at h
  obtain ⟨hrecord, hrest⟩ := nul_append_inj hx hy h
  obtain ⟨hcandidate, hkind⟩ := nul_append_inj hcx hcy hrest
  exact ⟨hrecord, by rw [hcandidate, hkind]⟩

theorem candidate_nulFree (hnul : ∀ i ∈ ids s.left ++ ids s.right, NulFree i)
    {new : List DecisionHealthDiagnostic} (h : Referring s pairs new)
    {x : DecisionHealthDiagnostic} (hx : x ∈ new) : NulFree (x.candidateId.getD "") := by
  cases hc : x.candidateId with
  | none => simp [NulFree]
  | some i => exact hnul i (h.candidate x hx i hc)

theorem diagnoses_referring {l : List AcceptedUnmatched} {acc acc' : Diagnosis}
    (h : l.foldlM (diagnoseAccepted digest s d policy pairs) acc = .ok acc') :
    ∃ new, acc'.diagnostics = acc.diagnostics ++ new ∧ Referring s pairs new ∧
      (∀ x ∈ new, x.recordId ∈ l.map (·.recordId)) ∧
      ((l.map (·.recordId)).Nodup → (∀ i ∈ ids s.left ++ ids s.right, NulFree i) →
        (new.map (·.key)).Nodup) := by
  induction l generalizing acc with
  | nil =>
    rw [List.foldlM_nil, pure_ok] at h
    exact ⟨[], by simp [h], ⟨by simp, by simp, by simp⟩, by simp, by simp⟩
  | cons a rest ih =>
    rw [List.foldlM_cons, bind_ok] at h
    obtain ⟨mid, hmid, h⟩ := h
    obtain ⟨-, first, hfirst, hreported⟩ := diagnoseAccepted_spec hmid
    obtain ⟨new, hnew, hreferring, hrecords, hkeys⟩ := ih h
    refine ⟨first ++ new, by rw [hnew, hfirst, List.append_assoc],
      hreported.referring.append hreferring, ?_, ?_⟩
    · intro x hx
      rcases List.mem_append.mp hx with hx | hx
      · exact List.mem_cons.mpr (.inl (hreported.record x hx))
      · exact List.mem_cons.mpr (.inr (hrecords x hx))
    · intro hnodup hnul
      obtain ⟨ha, hrest⟩ := List.nodup_cons.mp hnodup
      have hfree := fun x hx => hnul _ (hreported.referring.record x hx)
      rw [List.map_append]
      refine List.nodup_append.mpr ⟨?_, hkeys hrest hnul, ?_⟩
      · refine (hreported.distinct.of_map _).map_on fun x hx y hy he => ?_
        have hinj := key_inj (hfree x hx) (hfree y hy)
          (candidate_nulFree hnul hreported.referring hx)
          (candidate_nulFree hnul hreported.referring hy) he
        exact eq_of_key_eq _ hreported.distinct hx hy hinj.2
      · intro k hk k' hk' he
        obtain ⟨x, hx, rfl⟩ := List.mem_map.mp hk
        obtain ⟨y, hy, rfl⟩ := List.mem_map.mp hk'
        have hinj := key_inj (hfree x hx) (hnul _ (hreferring.record y hy))
          (candidate_nulFree hnul hreported.referring hx)
          (candidate_nulFree hnul hreferring hy) he
        have hsame : a.recordId = y.recordId := (hreported.record x hx).symm.trans hinj.1
        exact ha (hsame ▸ hrecords y hy : a.recordId ∈ _)

theorem diagnoseAccepted_pairs {acc acc' acc₂ : Diagnosis} {a : AcceptedUnmatched}
    (pairs₂ : List PairOutcome) (hremaining : acc.remainingRunEdges = acc₂.remainingRunEdges)
    (hkeys : acc.diagnostics.map (·.key) = acc₂.diagnostics.map (·.key))
    (h : diagnoseAccepted digest s d policy pairs acc a = .ok acc') :
    ∃ acc₂', diagnoseAccepted digest s d policy pairs₂ acc₂ a = .ok acc₂' ∧
      acc'.remainingRunEdges = acc₂'.remainingRunEdges ∧
      acc'.diagnostics.map (·.key) = acc₂'.diagnostics.map (·.key) := by
  obtain ⟨remaining, reports⟩ := acc
  obtain ⟨remaining₂, reports₂⟩ := acc₂
  simp only at hremaining hkeys
  subst hremaining
  rw [diagnoseAccepted_eq] at h ⊢
  cases hs : searched s a with
  | none =>
    simp only [hs, Except.ok.injEq] at h
    exact ⟨_, rfl, by rw [← h], by rw [← h]; exact hkeys⟩
  | some x =>
    obtain ⟨side, record⟩ := x
    obtain ⟨hr, hid⟩ := searched_mem hs
    simp only [hs] at h ⊢
    split_ifs at h ⊢ with hb
    · obtain ⟨hw, hp, cs, hcs, rfl⟩ := (diagnoseRecord_ok hr hb).mp h
      refine ⟨_, (diagnoseRecord_ok hr hb).mpr ⟨hw, hp, cs, hcs, rfl⟩, rfl, ?_⟩
      simp only [findings, List.map_append, hkeys, List.map_map]
      rfl
    · simp only [outOfBudget, incomplete_ok a.recordId_text, bind_ok, pure_ok, Except.ok.injEq,
        exists_eq_left'] at h ⊢
      subst h
      exact ⟨rfl, by simp [hkeys]⟩

theorem diagnoses_pairs (pairs₂ : List PairOutcome) {l : List AcceptedUnmatched}
    {acc acc' acc₂ : Diagnosis} (hremaining : acc.remainingRunEdges = acc₂.remainingRunEdges)
    (hkeys : acc.diagnostics.map (·.key) = acc₂.diagnostics.map (·.key))
    (h : l.foldlM (diagnoseAccepted digest s d policy pairs) acc = .ok acc') :
    ∃ acc₂', l.foldlM (diagnoseAccepted digest s d policy pairs₂) acc₂ = .ok acc₂' ∧
      acc'.diagnostics.map (·.key) = acc₂'.diagnostics.map (·.key) := by
  induction l generalizing acc acc₂ with
  | nil =>
    rw [List.foldlM_nil, pure_ok] at h
    exact ⟨acc₂, rfl, h ▸ hkeys⟩
  | cons a rest ih =>
    rw [List.foldlM_cons, bind_ok] at h
    obtain ⟨mid, hmid, h⟩ := h
    obtain ⟨mid₂, hmid₂, hrem, hk⟩ := diagnoseAccepted_pairs pairs₂ hremaining hkeys hmid
    obtain ⟨acc₂', hacc, hfinal⟩ := ih hrem hk h
    exact ⟨acc₂', by rw [List.foldlM_cons, hmid₂]; exact hacc, hfinal⟩

theorem diagnose_total (pairs : List PairOutcome)
    (hc : CollisionFree digest (partitionTexts s.left s.right policy.blockingPasses))
    (hscore : ∀ l ∈ s.left, ∀ r ∈ s.right, Scorable policy l r) :
    (∃ ds, diagnoseAcceptedUnmatched digest s d policy pairs = .ok ds) ↔
      SearchesDefined digest s d policy d.acceptedUnmatched
        policy.limits.maxRunCandidateEdges := by
  rw [← diagnoses_total pairs hc hscore d.acceptedUnmatched
    ⟨policy.limits.maxRunCandidateEdges, []⟩]
  simp only [diagnoseAcceptedUnmatched, bind_ok, pure_ok]
  constructor
  · rintro ⟨_, acc, hacc, -⟩
    exact ⟨acc, hacc⟩
  · rintro ⟨acc, hacc⟩
    exact ⟨_, acc, hacc, rfl⟩

theorem accepted_nodup (d : DecisionInputs) : (d.acceptedUnmatched.map (·.recordId)).Nodup :=
  (List.nodup_append.mp d.singles_unique).1

theorem diagnose_referring {ds : List DecisionHealthDiagnostic}
    (h : diagnoseAcceptedUnmatched digest s d policy pairs = .ok ds) :
    Referring s pairs ds ∧
      ((∀ i ∈ ids s.left ++ ids s.right, NulFree i) → (ds.map (·.key)).Nodup) := by
  simp only [diagnoseAcceptedUnmatched, bind_ok, pure_ok] at h
  obtain ⟨acc, hacc, rfl⟩ := h
  obtain ⟨new, hnew, hreferring, -, hkeys⟩ := diagnoses_referring hacc
  simp only [List.nil_append] at hnew
  refine ⟨⟨fun x hx => ?_, fun x hx => ?_, fun x hx => ?_⟩, fun hnul => ?_⟩
  · exact hreferring.record x (hnew ▸ (mem_sortOn _ _ _).mp hx)
  · exact hreferring.candidate x (hnew ▸ (mem_sortOn _ _ _).mp hx)
  · exact hreferring.current x (hnew ▸ (mem_sortOn _ _ _).mp hx)
  · rw [nodup_map_sortOn, hnew]
    exact hkeys (accepted_nodup d) hnul

/-- Whether a search succeeds and the keys of what it reports do not depend
on the pairs of the run. -/
theorem diagnose_pairs (pairs₂ : List PairOutcome) {ds : List DecisionHealthDiagnostic}
    (h : diagnoseAcceptedUnmatched digest s d policy pairs = .ok ds) :
    ∃ ds₂, diagnoseAcceptedUnmatched digest s d policy pairs₂ = .ok ds₂ ∧
      (ds₂.map (·.key)).Perm (ds.map (·.key)) := by
  simp only [diagnoseAcceptedUnmatched, bind_ok, pure_ok] at h ⊢
  obtain ⟨acc, hacc, rfl⟩ := h
  obtain ⟨acc₂, hacc₂, hkeys⟩ := diagnoses_pairs pairs₂ rfl rfl hacc
  refine ⟨_, ⟨acc₂, hacc₂, rfl⟩, ?_⟩
  have h₁ := (sortOn_perm (·.order) acc.diagnostics).map (·.key)
  have h₂ := (sortOn_perm (·.order) acc₂.diagnostics).map (·.key)
  exact h₂.trans (hkeys ▸ h₁.symm)

end Accepted

end Workbench.Diagnosis
