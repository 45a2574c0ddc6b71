import Workbench.Reconciled

/-!
# When a run returns

On ordinary inputs a run of an optimal solver of the required version fails in
two ways only: a time window that leaves the range of instants, and two
blocking passes whose identity texts run together on a shared key. When it
returns, every record has exactly one outcome.
-/

set_option autoImplicit false

namespace Workbench.Totality
open Workbench.Listing Workbench.Decimals Workbench.Calendar Workbench.Raising
open Workbench.Records Workbench.Evidence
open Workbench.References Workbench.Reservations Workbench.Candidates Workbench.Json
open Workbench.SearchSpace Workbench.Generation Workbench.Scoring Workbench.Scores
open Workbench.Assignment Workbench.AssignmentOptimality Workbench.Acceptance
open Workbench.Comparisons Workbench.Diagnostics Workbench.Diagnosis Workbench.Engine
open Workbench.Results Workbench.Reconciled Workbench.PaddedAssignment

def candidatesOf (digest : Digest) (s : EngineSnapshot) (mp : MatchingPolicy)
    (d : DecisionInputs) : Outcome (List CandidateEvidence) := do
  let pre ← preprocessReferences s d mp.referenceContract
  let g ← generateCandidates digest pre mp
  scoreCandidates pre g mp

/-- The texts that a run takes short digests of: those of the partitions of its
records and those of the components of its candidates. -/
def digestTexts (digest : Digest) (s : EngineSnapshot) (mp : MatchingPolicy)
    (d : DecisionInputs) : List String :=
  partitionTexts s.left s.right mp.blockingPasses ++
    match candidatesOf digest s mp d with
    | .ok cs => componentTexts cs mp.assignmentFloorBp
    | .error _ => []

/-- Texts without NUL, decimals of ordinary size and no digest collisions. -/
structure OrdinaryInputs (digest : Digest) (s : EngineSnapshot) (mp : MatchingPolicy)
    (cp : ComparisonPolicy) (d : DecisionInputs) : Prop where
  texts : ∀ i ∈ ids s.left ++ ids s.right, NulFree i
  records : ∀ side, ∀ r ∈ s.records side, OrdinaryRecord r
  policy : OrdinaryPolicy mp
  tolerances : OrdinaryTolerances cp
  collisionFree : CollisionFree digest (digestTexts digest s mp d)

def openSpace (s : EngineSnapshot) (d : DecisionInputs) (contract : ReferenceContract) :
    ReferencePreprocessingResult where
  inputLeftIds := []
  inputRightIds := []
  pairs := []
  terminalUnpaired := []
  remainingLeft := s.left.filter fun r => Open s d contract .left r.observationId
  remainingRight := s.right.filter fun r => Open s d contract .right r.observationId
  prohibitedRelationships := prohibitedRelationships s d
  referenceConflicts := []

/-- The time windows that the search and the health searches reach stay inside
the range of instants, and passes whose identity texts coincide share no key. -/
structure Representable (digest : Digest) (s : EngineSnapshot) (mp : MatchingPolicy)
    (d : DecisionInputs) : Prop where
  windows : WindowsDefined digest (openSpace s d mp.referenceContract) mp
  reasons : ReasonsApart (openSpace s d mp.referenceContract) mp.blockingPasses
  searches : SearchesDefined digest s d mp d.acceptedUnmatched mp.limits.maxRunCandidateEdges

/-- Every identity of a side is in one pair or in one unpaired outcome. -/
def OneOutcome (s : EngineSnapshot) (r : EngineResult) : Prop :=
  ∀ side, (r.pairs.map (·.endId side) ++ on side r.unpaired).Perm (ids (s.records side))

section Run
variable {digest : Digest} {s : EngineSnapshot} {mp : MatchingPolicy} {cp : ComparisonPolicy}
  {d : DecisionInputs} {solver : AssignmentSolver} {pre : ReferencePreprocessingResult}
  {g : CandidateGenerationResult} {cs : List CandidateEvidence} {a : AssignmentSolveResult}
  {r : EngineResult}

theorem windows_open (hpre : Preprocessed s d mp.referenceContract pre) :
    WindowsDefined digest pre mp ↔ WindowsDefined digest (openSpace s d mp.referenceContract) mp :=
  windows_congr (hpre.remaining .left) (hpre.remaining .right) hpre.prohibited mp

theorem reasons_open (hpre : Preprocessed s d mp.referenceContract pre) :
    ReasonsApart pre mp.blockingPasses ↔
      ReasonsApart (openSpace s d mp.referenceContract) mp.blockingPasses := by
  have hleft : pre.remainingLeft = _ := hpre.remaining .left
  have hright : pre.remainingRight = _ := hpre.remaining .right
  unfold ReasonsApart
  rw [hleft, hright]
  rfl

theorem partition_texts (hi : OrdinaryInputs digest s mp cp d) :
    CollisionFree digest (partitionTexts s.left s.right mp.blockingPasses) :=
  hi.collisionFree.mono fun _ ht => List.mem_append_left _ ht

theorem component_texts (hi : OrdinaryInputs digest s mp cp d)
    (hcs : candidatesOf digest s mp d = .ok cs) :
    CollisionFree digest (componentTexts cs mp.assignmentFloorBp) := by
  refine hi.collisionFree.mono fun t ht => List.mem_append_right _ ?_
  rw [hcs]
  exact ht

theorem oneOutcome (h : Stages digest s mp cp d solver pre g cs a r) : OneOutcome s r := by
  have hc := h.checked
  have hapart : ∀ {l m : List String}, l.Nodup → m.Nodup → Evidence.Apart l m → (l ++ m).Nodup :=
    fun hl hm hlm => List.nodup_append.mpr ⟨hl, hm, fun i hi j hj hij => hlm i hi (hij ▸ hj)⟩
  have hperm : ∀ {l m : List String}, l.Nodup → m.Nodup → SameMembers l m → l.Perm m :=
    fun hl hm hlm => (List.perm_ext_iff_of_nodup hl hm).mpr fun i => ⟨hlm.1 i, hlm.2 i⟩
  intro side
  cases side with
  | left =>
    refine hperm (hapart hc.pairLeft_nodup hc.unpairedLeft_nodup hc.outcomes_apart.1)
      s.left_nodup ?_
    exact h.inputs.1 ▸ hc.cover.1
  | right =>
    refine hperm (hapart hc.pairRight_nodup hc.unpairedRight_nodup hc.outcomes_apart.2)
      s.right_nodup ?_
    exact h.inputs.2 ▸ hc.cover.2

theorem candidate_ends (hpre : Preprocessed s d mp.referenceContract pre)
    (hscored : ScoredAll pre g mp cs) :
    ∀ c ∈ cs, c.leftId ∈ ids s.left ∧ c.rightId ∈ ids s.right := by
  intro c hc
  obtain ⟨l, hl, q, hq, hsc⟩ := hscored.scored c hc
  exact ⟨hsc.leftId ▸ List.mem_map_of_mem (remaining_mem hpre .left hl),
    hsc.rightId ▸ List.mem_map_of_mem (remaining_mem hpre .right hq)⟩

theorem reasons_of_returned
    (hpartitions : CollisionFree digest (partitionTexts s.left s.right mp.blockingPasses))
    (h : Stages digest s mp cp d solver pre g cs a r) :
    ReasonsApart (openSpace s d mp.referenceContract) mp.blockingPasses := by
  have hP := h.partitioned
  have hapart : PartitionsApart digest pre mp.blockingPasses ↔
      ReasonsApart pre mp.blockingPasses :=
    partitions_apart hpartitions (passes_nodup mp) fun q hq => remaining_mem hP .left hq
  obtain ⟨-, hp, -⟩ := (generate_ok (preprocessed_distinct hP)).mp h.generated
  exact (reasons_open hP).mp (hapart.mp hp)

theorem scorable_records (hi : OrdinaryInputs digest s mp cp d) :
    ∀ l ∈ s.left, ∀ q ∈ s.right, Scorable mp l q :=
  fun l hl q hq => scorable (hi.records .left l hl) (hi.records .right q hq) hi.policy

theorem representable_of_returned (hi : OrdinaryInputs digest s mp cp d)
    (h : Stages digest s mp cp d solver pre g cs a r) : Representable digest s mp d := by
  have hP := h.partitioned
  obtain ⟨hw, -, -⟩ := (generate_ok (preprocessed_distinct hP)).mp h.generated
  obtain ⟨pairs, hds⟩ := h.diagnosed
  exact ⟨(windows_open hP).mp hw, reasons_of_returned (partition_texts hi) h,
    (diagnose_total pairs (partition_texts hi) (scorable_records hi)).mp ⟨_, hds⟩⟩

/-- Ordinary inputs whose searches reach only what is representable are
reconciled. -/
theorem returned_of_representable (hopt : Optimal solver.minimize) (ho : Oriented s d)
    (hi : OrdinaryInputs digest s mp cp d) (hversion : solver.version = mp.solverVersion)
    (hrep : Representable digest s mp d) :
    ∃ r, reconcile digest s mp cp d solver = .ok r := by
  have hpartitions := partition_texts hi
  have hscorable := scorable_records hi
  obtain ⟨pre, hpre, hP⟩ := preprocess_total ho mp.referenceContract
  have hapart : PartitionsApart digest pre mp.blockingPasses ↔
      ReasonsApart pre mp.blockingPasses :=
    partitions_apart hpartitions (passes_nodup mp) fun q hq => remaining_mem hP .left hq
  have hg : generateCandidates digest pre mp = .ok (generated digest pre mp) :=
    (generate_ok (preprocessed_distinct hP)).mpr ⟨(windows_open hP).mpr hrep.windows,
      hapart.mpr ((reasons_open hP).mpr hrep.reasons), rfl⟩
  obtain ⟨cs, hcs⟩ := scoreCandidates_total (preprocessed_distinct hP) (generated_spec digest mp)
    fun l hl q hq _ => hscorable l (remaining_mem hP .left hl) q (remaining_mem hP .right hq)
  have hscored := scoreCandidates_spec hcs
  have hends := candidate_ends hP hscored
  have htexts : (cs.map fun c => edgeText c.edge).Nodup := by
    have hs := scoredSet (generated_spec digest mp) hscored
    refine (hs.unique.of_map _).map_on fun c hc e he hce => ?_
    refine eq_of_key_eq (·.edge) hs.unique hc he (edgeText_inj ?_ ?_ hce)
    · exact hi.texts _ (List.mem_append_left _ (hends c hc).1)
    · exact hi.texts _ (List.mem_append_left _ (hends e he).1)
  have hcandidates : candidatesOf digest s mp d = .ok cs := by
    rw [candidatesOf, hpre, ok_bind, hg, ok_bind, hcs]
  have hids := component_ids_nodup (component_texts hi hcandidates)
  obtain ⟨ds, hds⟩ := (diagnose_total [] hpartitions hscorable).mpr hrep.searches
  exact reconcile_total hopt hpre hg hcs hversion hids htexts
    (fun a _ p _ l hl q hq _ _ => comparable (hi.records .left l hl) (hi.records .right q hq)
      hi.tolerances mp.referenceContract p.origin)
    ⟨[], ds, hds, (diagnose_referring hds).2 hi.texts⟩

/-- On ordinary inputs a run returns a result with one outcome for every
record exactly when the solver has the required version and what the searches
reach is representable. -/
theorem reconcile_returns_iff (hopt : Optimal solver.minimize) (ho : Oriented s d)
    (hi : OrdinaryInputs digest s mp cp d) :
    (∃ r, reconcile digest s mp cp d solver = .ok r ∧ OneOutcome s r) ↔
      solver.version = mp.solverVersion ∧ Representable digest s mp d := by
  constructor
  · rintro ⟨r, hr, -⟩
    obtain ⟨_, _, _, _, hstages⟩ := reconcile_stages hopt hr
    exact ⟨solver_version hstages.solved, representable_of_returned hi hstages⟩
  · rintro ⟨hversion, hrep⟩
    obtain ⟨r, hr⟩ := returned_of_representable hopt ho hi hversion hrep
    obtain ⟨_, _, _, _, hstages⟩ := reconcile_stages hopt hr
    exact ⟨r, hr, oneOutcome hstages⟩

end Run

theorem sampleRecord_ordinary {id instrument : String} (h : nonblank id = true)
    (hi : nonblank instrument = true) (time : Instant) :
    OrdinaryRecord (sampleRecord id instrument h hi time) := by
  refine ⟨?_, ?_, ?_⟩
  · rintro _ ⟨⟩
    decide
  · rintro _ ⟨⟩
    decide
  · rintro _ ⟨⟩

theorem samplePolicy_ordinary (limits : CapacityLimits) : OrdinaryPolicy (samplePolicy limits) := by
  have hband : OrdinaryBands sampleBand := ⟨by decide, by decide⟩
  exact ⟨hband, hband, hband⟩

theorem sampleComparison_ordinary : OrdinaryTolerances sampleComparison := by
  have htolerance : OrdinaryTolerance sampleTolerance := ⟨by decide, by decide⟩
  exact ⟨htolerance, htolerance, htolerance⟩

theorem sample_ordinary (time : Instant)
    (hfree : CollisionFree checksum
      (digestTexts checksum (sampleSnapshot time) (samplePolicy sampleLimits) noDecisions)) :
    OrdinaryInputs checksum (sampleSnapshot time) (samplePolicy sampleLimits) sampleComparison
      noDecisions := by
  refine ⟨?_, ?_, samplePolicy_ordinary _, sampleComparison_ordinary, hfree⟩
  · simp [ids, sampleSnapshot, sampleRecord, NulFree]
  · intro side r hr
    cases side <;> rw [List.mem_singleton.mp hr] <;> exact sampleRecord_ordinary _ _ _

theorem noon_ordinary : OrdinaryInputs checksum (sampleSnapshot noon) (samplePolicy sampleLimits)
    sampleComparison noDecisions :=
  sample_ordinary noon (by decide +kernel)

theorem reconcile_returns_sample :
    ∃ r, sampleRun noon = .ok r ∧ OneOutcome (sampleSnapshot noon) r :=
  (reconcile_returns_iff sample_optimal (by decide) noon_ordinary).mpr
    ⟨rfl, by decide +kernel, by decide +kernel, trivial⟩

/-- A record in the last hour of year 9999 makes the whole run fail. -/
theorem last_hour_overflows : Optimal sampleSolver.minimize ∧
    Oriented (sampleSnapshot (Fin.last _)) noDecisions ∧
    OrdinaryInputs checksum (sampleSnapshot (Fin.last _)) (samplePolicy sampleLimits)
      sampleComparison noDecisions ∧
    sampleSolver.version = (samplePolicy sampleLimits).solverVersion ∧
    sampleRun (Fin.last _) = .error .overflow :=
  ⟨sample_optimal, by decide, sample_ordinary _ (by decide +kernel), rfl, by decide +kernel⟩

end Workbench.Totality
