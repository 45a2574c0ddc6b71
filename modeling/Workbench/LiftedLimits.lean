import Workbench.Correspondence

/-!
# Lifting the caps

A component that a capped run solves has no limited member, so no cap hid a
candidate that touches it. It is then a component of the graph without caps,
with the same scores and the same table of costs, and the pairs accepted in it
are accepted again with the same gaps. The run without caps may still fail
where the capped one did not: it reaches windows that a cap had cut off.
-/

set_option autoImplicit false

namespace Workbench.LiftedLimits
open Workbench.Listing Workbench.Calendar Workbench.Raising Workbench.Records Workbench.Evidence
open Workbench.References Workbench.Reservations Workbench.Candidates Workbench.Json
open Workbench.SearchSpace Workbench.Generation Workbench.Scores Workbench.Assignment
open Workbench.Components Workbench.Optimum Workbench.Matching Workbench.AssignmentOptimality
open Workbench.Gating Workbench.Acceptance Workbench.Diagnosis Workbench.Engine
open Workbench.Reconciled Workbench.Totality Workbench.PaddedAssignment Workbench.Correspondence

theorem same_edge {c d : CandidateEvidence} (h : Twin Eq c d) : c.edge = d.edge :=
  Prod.ext h.edge.1 h.edge.2

section Twins
variable {p q : List CandidateEvidence}

theorem twins_edges (h : Twins Eq p q) : edgesOf p = edgesOf q := by
  ext e
  simp only [mem_edgesOf]
  constructor
  · rintro ⟨c, hc, rfl⟩
    obtain ⟨d, hd, ht⟩ := h.twin c hc
    exact ⟨d, hd, (same_edge ht).symm⟩
  · rintro ⟨d, hd, rfl⟩
    obtain ⟨c, hc, ht⟩ := h.from_twin d hd
    exact ⟨c, hc, same_edge ht⟩

theorem twins_lefts (h : Twins Eq p q) : lefts p = lefts q := by
  refine sortedSet_congr fun i => ?_
  simp only [List.mem_map]
  constructor
  · rintro ⟨c, hc, rfl⟩
    obtain ⟨d, hd, ht⟩ := h.twin c hc
    exact ⟨d, hd, ht.edge.1.symm⟩
  · rintro ⟨d, hd, rfl⟩
    obtain ⟨c, hc, ht⟩ := h.from_twin d hd
    exact ⟨c, hc, ht.edge.1⟩

theorem twins_rights (h : Twins Eq p q) : rights p = rights q := by
  refine sortedSet_congr fun i => ?_
  simp only [List.mem_map]
  constructor
  · rintro ⟨c, hc, rfl⟩
    obtain ⟨d, hd, ht⟩ := h.twin c hc
    exact ⟨d, hd, ht.edge.2.symm⟩
  · rintro ⟨d, hd, rfl⟩
    obtain ⟨c, hc, ht⟩ := h.from_twin d hd
    exact ⟨c, hc, ht.edge.2⟩

theorem twins_table (h : Twins Eq p q) (e : Edge) :
    (edgeTable p e).map (·.scoreBp) = (edgeTable q e).map (·.scoreBp) := by
  by_cases he : e ∈ edgesOf p
  · obtain ⟨c, hc, rfl⟩ := mem_edgesOf.mp he
    obtain ⟨d, hd, ht⟩ := h.twin c hc
    rw [edgeTable_mem h.left_unique hc, same_edge ht, edgeTable_mem h.right_unique hd]
    exact congrArg some ht.score
  · rw [edgeTable_none he, edgeTable_none (twins_edges h ▸ he)]

theorem twins_utility (h : Twins Eq p q) (floorBp : ℕ) :
    utility p floorBp = utility q floorBp := by
  funext e
  have hscore : ∀ {l : List CandidateEvidence}, (l.map (·.edge)).Nodup →
      scoreOf l e = ((edgeTable l e).map (·.scoreBp)).getD 0 := by
    intro l hl
    rw [scoreOf, edgeTable, lookup_perm (List.reverse_perm l).symm hl]
  rw [utility, utility, hscore h.left_unique, hscore h.right_unique, twins_table h]

theorem twins_gap (h : Twins Eq p q) (floorBp : ℕ) (e : Edge) :
    gapOf p floorBp e = gapOf q floorBp e := by
  rw [gapOf, gapOf, twins_edges h, twins_utility h]

theorem twins_cell (h : Twins Eq p q) (floorBp : ℕ) (cost : ℤ) :
    costCell p floorBp [] cost = costCell q floorBp [] cost := by
  funext l r
  have ht := twins_table h (l, r)
  unfold costCell
  cases hp : edgeTable p (l, r) <;> cases hq : edgeTable q (l, r) <;> simp_all

theorem twins_select (h : Twins Eq p q) (leftIds rightIds : List String) (floorBp : ℕ) :
    selectEdge leftIds rightIds p floorBp [] = selectEdge leftIds rightIds q floorBp [] := by
  funext x
  unfold selectEdge
  cases pairAt leftIds rightIds x with
  | none => rfl
  | some e =>
    have ht := twins_table h e
    cases hp : edgeTable p e <;> cases hq : edgeTable q e <;> simp_all

theorem twins_solve (h : Twins Eq p q) (leftIds rightIds : List String) (floorBp : ℕ)
    (solver : AssignmentSolver) :
    solveComponent leftIds rightIds p floorBp solver [] =
      solveComponent leftIds rightIds q floorBp solver [] := by
  simp only [solveComponent, List.nil_subset, twins_cell h, twins_select h]

end Twins

theorem complete_selection {digest : Digest} {limited : List String} {policy : MatchingPolicy}
    {solver : AssignmentSolver} {part : List CandidateEvidence} {x : SolvedAssignmentComponent}
    (h : solveConnected digest limited policy solver part = .ok x) (hx : x.complete = true) :
    ∃ selected, solveComponent (lefts part) (rights part) part policy.assignmentFloorBp solver [] =
        .ok selected ∧ x.selectedEdges = sortOn (fun e => edgeOrder e.edge) selected := by
  unfold solveConnected at h
  simp only at h
  cases hr : limitReason limited (lefts part) (rights part) policy.limits part with
  | some reason =>
    simp only [hr, SolvedAssignmentComponent.create, bind_ok, exists_require, pure_ok] at h
    obtain ⟨-, -, -, -, -, -, -, -, -, -, -, -, rfl⟩ := h
    simp at hx
  | none =>
    simp only [hr, SolvedAssignmentComponent.create, bind_ok, exists_require, pure_ok] at h
    obtain ⟨selected, hselected, -, -, -, -, -, -, -, -, -, -, -, -, rfl⟩ := h
    exact ⟨selected, hselected, rfl⟩

/-- Complete components with the same edges and scores select the same edges,
whatever the caps. -/
theorem selection_twins {digest : Digest} {limited limited' : List String}
    {policy : MatchingPolicy} {limits : CapacityLimits} {solver : AssignmentSolver}
    {part part' : List CandidateEvidence} {x x' : SolvedAssignmentComponent}
    (htwins : Twins Eq part part') (h : solveConnected digest limited policy solver part = .ok x)
    (h' : solveConnected digest limited' (policy.withLimits limits) solver part' = .ok x')
    (hx : x.complete = true) (hx' : x'.complete = true) : x'.selectedEdges = x.selectedEdges := by
  obtain ⟨selected, hselected, hsorted⟩ := complete_selection h hx
  obtain ⟨selected', hselected', hsorted'⟩ := complete_selection h' hx'
  have hsolve : solveComponent (lefts part) (rights part) part policy.assignmentFloorBp solver [] =
      .ok selected' := by
    rw [twins_solve htwins, twins_lefts htwins, twins_rights htwins]
    exact hselected'
  have hsame : selected = selected' := Except.ok.inj (hselected.symm.trans hsolve)
  rw [hsorted, hsorted', hsame]

/-- No cap can be reached by the records of a snapshot. -/
structure Uncapped (s : EngineSnapshot) (limits : CapacityLimits) : Prop where
  left : s.left.length ≤ limits.maxCandidatesPerRecord
  right : s.right.length ≤ limits.maxCandidatesPerRecord
  run : s.left.length*s.right.length ≤ limits.maxRunCandidateEdges
  nodes : s.left.length+s.right.length ≤ limits.maxComponentNodes
  edges : s.left.length*s.right.length ≤ limits.maxComponentEdges

section Runs
variable {s : EngineSnapshot} {mp : MatchingPolicy} {d : DecisionInputs}
  {limits : CapacityLimits} {pre : ReferencePreprocessingResult}
  {g g' : CandidateGenerationResult} {cs cs' : List CandidateEvidence}

theorem Uncapped.ample (h : Uncapped s limits) (hl : pre.remainingLeft.length ≤ s.left.length)
    (hr : pre.remainingRight.length ≤ s.right.length) : Ample pre limits :=
  ⟨hl.trans h.left, hr.trans h.right, (Nat.mul_le_mul hl hr).trans h.run⟩

theorem remaining_le (hpre : Preprocessed s d mp.referenceContract pre) (side : RecordSide) :
    (pre.remaining side).length ≤ (s.records side).length :=
  (congrArg List.length (hpre.remaining side)).trans_le (List.length_filter_le _ _)

theorem Uncapped.limited (h : Uncapped s limits) (hpre : Preprocessed s d mp.referenceContract pre)
    (hg : Generated pre (mp.withLimits limits) g') : g'.limitedRecordIds = [] :=
  hg.complete.mp (hg.roomy.mp (h.ample (remaining_le hpre .left) (remaining_le hpre .right)).roomy)

end Runs

section Accepted
variable {digest : Digest} {s : EngineSnapshot} {mp : MatchingPolicy} {cp : ComparisonPolicy}
  {d : DecisionInputs} {solver : AssignmentSolver} {limits : CapacityLimits}
  {pre : ReferencePreprocessingResult} {g g' : CandidateGenerationResult}
  {cs cs' : List CandidateEvidence} {a a' : AssignmentSolveResult} {r r' : EngineResult}

theorem length_le_records {l : List String} {records : List MatchRecord} (hl : l.Nodup)
    (h : ∀ i ∈ l, i ∈ ids records) : l.length ≤ records.length := by
  have hle := (List.subperm_of_subset hl h).length_le
  rwa [ids, List.length_map] at hle

theorem solves_all (h : Stages digest s (mp.withLimits limits) cp d solver pre g cs a r)
    (hl : Uncapped s limits) {part : List CandidateEvidence}
    (hp : part ∈ partsOf cs mp.assignmentFloorBp) :
    limitReason g.limitedRecordIds (lefts part) (rights part) limits part = none := by
  have hlifted := hl.limited h.partitioned h.gen
  have hends := candidate_ends h.partitioned h.scoredAll
  have hparts := partsOf_spec cs mp.assignmentFloorBp
  have hmem : ∀ c ∈ part, c ∈ cs := fun c hc => (mem_eligible.mp (hparts.mem hp hc)).1
  have hleft : (lefts part).length ≤ s.left.length := by
    refine length_le_records (sortedSet_nodup _) fun i hi => ?_
    obtain ⟨c, hc, rfl⟩ := mem_lefts.mp hi
    exact (hends c (hmem c hc)).1
  have hright : (rights part).length ≤ s.right.length := by
    refine length_le_records (sortedSet_nodup _) fun i hi => ?_
    obtain ⟨c, hc, rfl⟩ := mem_rights.mp hi
    exact (hends c (hmem c hc)).2
  have hedges : part.length ≤ s.left.length*s.right.length := by
    have hsub : part.map (·.edge) ⊆ ids s.left ×ˢ ids s.right := by
      intro e he
      obtain ⟨c, hc, rfl⟩ := List.mem_map.mp he
      exact List.mem_product.mpr (hends c (hmem c hc))
    have hunique := hparts.unique (eligible_nodup h.scoredSet.unique _) hp
    have hle := (List.subperm_of_subset hunique hsub).length_le
    simpa only [List.length_map, List.length_product, ids] using hle
  refine limitReason_none.mpr ⟨⟨by simp [hlifted], fun c hc => ?_⟩,
    (Nat.add_le_add hleft hright).trans hl.nodes, hedges.trans hl.edges⟩
  exact (h.scoredAll.complete c (hmem c hc)).mpr (by simp [hlifted])

/-- A pair accepted under caps is accepted without them. -/
theorem weighted_lifted (hopt : Optimal solver.minimize)
    (h : Stages digest s mp cp d solver pre g cs a r)
    (h' : Stages digest s (mp.withLimits limits) cp d solver pre g' cs' a' r')
    (hl : Uncapped s limits) {p : PairOutcome} (hp : Weighted r p) : Weighted r' p := by
  obtain ⟨part, c, ha, rfl⟩ := (weighted_iff hopt h).mp hp
  have hlifted := hl.limited h.partitioned h'.gen
  -- The same component without caps.
  obtain ⟨part', hp', c', hc', ht, htwins⟩ := ha.counterpart
    (injective_biUnique Function.injective_id) (Corresponding.refl pre) h h' hlifted
  have hnone := solves_all h' hl hp'
  have hgap : gapOf part' mp.assignmentFloorBp c'.edge =
      gapOf part mp.assignmentFloorBp c.edge := by
    rw [same_edge ht, twins_gap htwins]
  have hreport' : solveConnected digest g'.limitedRecordIds (mp.withLimits limits) solver part' =
      .ok (report digest g'.limitedRecordIds (mp.withLimits limits) solver part') :=
    report_ok h'.scoredSet hopt h'.version hp'
  have hpart' : part' ∈ partsOf cs' (mp.withLimits limits).assignmentFloorBp := hp'
  have hcomplete' : (report digest g'.limitedRecordIds (mp.withLimits limits) solver
      part').complete = true :=
    (report_complete hopt h'.scoredSet h'.version _ hpart').mpr hnone
  have hselected : ∃ e ∈ (report digest g'.limitedRecordIds (mp.withLimits limits) solver
      part').selectedEdges, c'.edge = e.edge := by
    obtain ⟨e, he, hce⟩ := ha.selected
    refine ⟨e, ?_, (same_edge ht).symm.trans hce⟩
    rw [selection_twins htwins (report_ok h.scoredSet hopt h.version ha.part_mem) hreport'
      ((report_complete hopt h.scoredSet h.version _ ha.part_mem).mpr ha.solved) hcomplete']
    exact he
  refine (weighted_iff hopt h').mpr
    ⟨part', c', ha.transfer ht hp' hc' hnone hselected hgap, ?_⟩
  have hleft : c.leftId = c'.leftId := ht.edge.1
  have hright : c.rightId = c'.rightId := ht.edge.2
  have hgap' : gapOf part' (mp.withLimits limits).assignmentFloorBp c'.edge =
      gapOf part mp.assignmentFloorBp c.edge := hgap
  rw [pairOf, pairOf, hgap', hleft, hright, ht.score]

/-- Every time window around a record that a blocking pass groups is inside the
range of instants, and so is every window the health searches reach. -/
structure WindowsInside (digest : Digest) (s : EngineSnapshot) (mp : MatchingPolicy)
    (d : DecisionInputs) : Prop where
  groups : AllWindows (openSpace s d mp.referenceContract) mp.blockingPasses
  searches : SearchesDefined digest s d mp d.acceptedUnmatched mp.limits.maxRunCandidateEdges

theorem representable_iff (hl : Uncapped s limits)
    (hreasons : ReasonsApart (openSpace s d mp.referenceContract) mp.blockingPasses) :
    Representable digest s (mp.withLimits limits) d ↔
      WindowsInside digest s (mp.withLimits limits) d := by
  have hample : Ample (openSpace s d mp.referenceContract) limits :=
    hl.ample (List.length_filter_le _ _) (List.length_filter_le _ _)
  have hwindows : WindowsDefined digest (openSpace s d mp.referenceContract)
      (mp.withLimits limits) ↔
        AllWindows (openSpace s d mp.referenceContract) mp.blockingPasses :=
    windows_roomy hample.roomy
  constructor
  · intro h
    exact ⟨hwindows.mp h.windows, h.searches⟩
  · intro h
    exact ⟨hwindows.mpr h.groups, hreasons, h.searches⟩

/-- A pair that a capped run accepts is accepted with the same score and gap by
every run without caps that returns. Where the inputs of that run are ordinary it
returns exactly when the windows it reaches are inside the range of instants. -/
theorem capped_accepted (hopt : Optimal solver.minimize) (hl : Uncapped s limits)
    (hr : reconcile digest s mp cp d solver = .ok r) {p : PairOutcome} (hp : p ∈ r.pairs)
    (hw : p.origin = .weightedGlobal) :
    (∀ r', reconcile digest s (mp.withLimits limits) cp d solver = .ok r' →
      ∃ p' ∈ r'.pairs, bare p' = bare p) ∧
    (OrdinaryInputs digest s (mp.withLimits limits) cp d →
      ((∃ r', reconcile digest s (mp.withLimits limits) cp d solver = .ok r' ∧
        ∃ p' ∈ r'.pairs, bare p' = bare p) ↔
          WindowsInside digest s (mp.withLimits limits) d)) := by
  obtain ⟨pre, g, cs, a, h⟩ := reconcile_stages hopt hr
  have hkept : ∀ r', reconcile digest s (mp.withLimits limits) cp d solver = .ok r' →
      ∃ p' ∈ r'.pairs, bare p' = bare p := by
    intro r' hr'
    obtain ⟨pre', g', cs', a', h'⟩ := reconcile_stages hopt hr'
    obtain rfl : pre' = pre := Except.ok.inj (h'.preprocessed.symm.trans h.preprocessed)
    obtain ⟨p', hp', -, hbare⟩ := weighted_lifted hopt h h' hl ⟨p, hp, hw, rfl⟩
    exact ⟨p', hp', hbare⟩
  refine ⟨hkept, fun hi => ?_⟩
  have ho := h.oriented
  have hpartitions : CollisionFree digest (partitionTexts s.left s.right mp.blockingPasses) :=
    @partition_texts digest s (mp.withLimits limits) cp d hi
  have hreasons := reasons_of_returned hpartitions h
  have hversion : solver.version = mp.solverVersion := solver_version h.solved
  rw [← representable_iff hl hreasons]
  constructor
  · rintro ⟨r', hr', -⟩
    obtain ⟨_, _, _, _, h'⟩ := reconcile_stages hopt hr'
    exact representable_of_returned hi h'
  · intro hinside
    obtain ⟨r', hr'⟩ := returned_of_representable hopt ho hi hversion hinside
    exact ⟨r', hr', hkept r' hr'⟩

end Accepted

/-- One candidate a run. -/
def cappedLimits : CapacityLimits :=
  { sampleLimits with maxRunCandidateEdges := 1, run_pos := Nat.one_pos }

theorem farLeft_sorted : ["L1", "L2", "L3"].Pairwise (· < ·) := by decide

theorem far_apart : ∀ i ∈ ["L1", "L2", "L3"], i ∉ ["R1", "R2"] := by decide

/-- Two groups, the later one with a record at the given time. -/
def farSnapshot (time : Instant) : EngineSnapshot where
  leftRevisionId := "left-1"
  rightRevisionId := "right-1"
  left := [sampleRecord "L1" "ACME" left_text acme_text noon,
    sampleRecord "L2" "ZETA" l2_text zeta_text noon,
    sampleRecord "L3" "ZETA" l3_text zeta_text time]
  right := [sampleRecord "R1" "ACME" right_text acme_text noon,
    sampleRecord "R2" "ZETA" r2_text zeta_text noon]
  leftRevisionId_text := leftRevision_text
  rightRevisionId_text := rightRevision_text
  left_sorted := farLeft_sorted
  right_sorted := twoRights_sorted
  apart := far_apart

def farRun (limits : CapacityLimits) (time : Instant) : Outcome EngineResult :=
  reconcile checksum (farSnapshot time) (samplePolicy limits) sampleComparison noDecisions
    sampleSolver

def weightedEdges (r : EngineResult) : List Edge := (weightedOf r.pairs).map (·.edge)

theorem exists_weighted {r : EngineResult} {e : Edge} (h : e ∈ weightedEdges r) :
    ∃ p ∈ r.pairs, p.origin = .weightedGlobal ∧ p.edge = e := by
  obtain ⟨p, hp, rfl⟩ := List.mem_map.mp h
  obtain ⟨hmem, horigin⟩ := List.mem_filter.mp hp
  exact ⟨p, hmem, of_decide_eq_true horigin, rfl⟩

theorem sample_withLimits (limits limits' : CapacityLimits) :
    (samplePolicy limits).withLimits limits' = samplePolicy limits' := rfl

theorem far_ordinary : OrdinaryInputs checksum (farSnapshot (noon+1800000000))
    (samplePolicy sampleLimits) sampleComparison noDecisions := by
  refine ⟨?_, ?_, samplePolicy_ordinary _, sampleComparison_ordinary, by decide +kernel⟩
  · simp [ids, farSnapshot, sampleRecord, NulFree]
  · intro side r hr
    cases side
    · rcases List.mem_cons.mp hr with rfl | hr
      · exact sampleRecord_ordinary _ _ _
      · rcases List.mem_cons.mp hr with rfl | hr
        · exact sampleRecord_ordinary _ _ _
        · rw [List.mem_singleton.mp hr]
          exact sampleRecord_ordinary _ _ _
    · rcases List.mem_cons.mp hr with rfl | hr
      · exact sampleRecord_ordinary _ _ _
      · rw [List.mem_singleton.mp hr]
        exact sampleRecord_ordinary _ _ _

/-- The cap cuts off the later group, whose pair is accepted without it. -/
theorem capped_accepted_sample : ∃ r,
    farRun cappedLimits (noon+1800000000) = .ok r ∧
    r.unpaired.map (fun u => (u.recordId, u.reason)) = [("L2", .computationLimited),
      ("L3", .computationLimited), ("R2", .computationLimited)] ∧
    ∃ p ∈ r.pairs, p.edge = ("L1", "R1") ∧
      ∃ r', farRun sampleLimits (noon+1800000000) = .ok r' ∧ ∃ p' ∈ r'.pairs, bare p' = bare p := by
  have hshown : (farRun cappedLimits (noon+1800000000)).toOption.map (fun r =>
      (weightedEdges r, r.unpaired.map fun u => (u.recordId, u.reason))) =
      some ([("L1", "R1")], [("L2", .computationLimited), ("L3", .computationLimited),
        ("R2", .computationLimited)]) := by
    decide +kernel
  obtain ⟨r, hr, hfacts⟩ := ok_of_toOption hshown
  obtain ⟨hpairs, hreasons⟩ := Prod.mk.inj hfacts
  obtain ⟨p, hp, hw, hedge⟩ := exists_weighted (hpairs ▸ List.mem_singleton_self ("L1", "R1"))
  have huncapped : Uncapped (farSnapshot (noon+1800000000)) sampleLimits := by
    constructor <;> decide
  have hgroups : AllWindows (openSpace (farSnapshot (noon+1800000000)) noDecisions .sharedMustAgree)
      [samplePass] := by
    unfold AllWindows
    decide +kernel
  have hlifted := (capped_accepted sample_optimal huncapped hr hp hw).2 far_ordinary
  rw [sample_withLimits] at hlifted
  exact ⟨r, hr, hreasons, p, hp, hedge, hlifted.mpr ⟨hgroups, trivial⟩⟩

/-- The capped run accepts a pair; the run without caps reaches a window that
leaves the range of instants and returns nothing. -/
theorem lifted_overflows : Optimal sampleSolver.minimize ∧
    Uncapped (farSnapshot (Fin.last _)) sampleLimits ∧
    (∃ r, farRun cappedLimits (Fin.last _) = .ok r ∧
      ∃ p ∈ r.pairs, p.origin = .weightedGlobal) ∧
    farRun sampleLimits (Fin.last _) = .error .overflow := by
  have hshown : (farRun cappedLimits (Fin.last _)).toOption.map weightedEdges =
      some [("L1", "R1")] := by decide +kernel
  obtain ⟨r, hr, hpairs⟩ := ok_of_toOption hshown
  obtain ⟨p, hp, hw, -⟩ := exists_weighted (hpairs ▸ List.mem_singleton_self ("L1", "R1"))
  refine ⟨sample_optimal, ?_, ⟨r, hr, p, hp, hw⟩, by decide +kernel⟩
  constructor <;> decide

end Workbench.LiftedLimits
