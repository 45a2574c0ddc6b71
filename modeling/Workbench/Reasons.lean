import Workbench.Totality
import Workbench.Overrides

/-!
# Why a record stays unpaired

The reason is the first of a chain of tests that holds, over what the stages
of a run left behind. Outside truncated partitions and unsolved components
the candidates of a record are all its compatible counterparts that no
reviewer rejected, so each reason says what it names about the other side.
-/

set_option autoImplicit false

namespace Workbench.Reasons
open Workbench.Listing Workbench.Raising Workbench.Records Workbench.Evidence
open Workbench.References Workbench.Reservations Workbench.Candidates Workbench.Json
open Workbench.SearchSpace Workbench.Generation Workbench.Scoring Workbench.Scores
open Workbench.Assignment Workbench.AssignmentOptimality Workbench.Gating Workbench.Acceptance
open Workbench.Diagnostics Workbench.Engine Workbench.Results Workbench.Reconciled
open Workbench.Comparison Workbench.Totality Workbench.Eligibility Workbench.Overrides
open Workbench.PaddedAssignment

/-- The reasons of preprocessing, which names a decision, a state or a
reference. -/
def Settled (reason : UnpairedReason) : Prop :=
  reason ∈ [.acceptedUnmatched, .cancelledExcluded, .reviewerReserved, .manualAttention,
    .duplicateReference]

instance (reason : UnpairedReason) : Decidable (Settled reason) :=
  inferInstanceAs (Decidable (_ ∈ _))

theorem cancelled_settled : Settled .cancelledExcluded := by decide

def AllSettled (st : Reservation) : Prop := ∀ u ∈ st.terminal, Settled u.reason

section Preprocessing
variable {s : EngineSnapshot} {d : DecisionInputs} {st st' : Reservation}

theorem created_reason {u v : UnpairedOutcome} (h : u.create = .ok v) : v.reason = u.reason := by
  simp only [UnpairedOutcome.create, requiredText, unique, bind_ok, exists_require, pure_ok] at h
  obtain ⟨-, -, -, rfl⟩ := h
  rfl

theorem AllSettled.put (h : AllSettled st) {u : UnpairedOutcome} (hu : Settled u.reason) :
    AllSettled (st.put u) := by
  intro v hv
  rcases List.mem_append.mp hv with hv | hv
  · exact h v (List.mem_of_mem_filter hv)
  · exact List.mem_singleton.mp hv ▸ hu

theorem AllSettled.remove (h : AllSettled st) {side : RecordSide} {i : String}
    (hr : st.remove side i = .ok st') : AllSettled st' := by
  unfold Reservation.remove at hr
  split at hr
  · rw [← Except.ok.inj hr]
    intro v hv
    rw [discard_terminal] at hv
    exact h v hv
  · simp at hr

theorem AllSettled.excluded (h : AllSettled st) {side : RecordSide} {r : MatchRecord}
    (hr : excludeCancelled side st r = .ok st') : AllSettled st' := by
  unfold excludeCancelled at hr
  split at hr
  · exact Except.ok.inj hr ▸ h
  · simp only [bind_ok, pure_ok] at hr
    obtain ⟨u, hu, rfl⟩ := hr
    have hput : AllSettled (st.put u) := h.put (created_reason hu ▸ cancelled_settled)
    intro v hv
    rw [discard_terminal] at hv
    exact hput v hv

theorem AllSettled.settled (h : AllSettled st) {side : RecordSide} {reason : UnpairedReason}
    (hreason : Settled reason) {explanation i : String} {related : List String}
    (hr : settle side reason explanation related st i = .ok st') : AllSettled st' := by
  simp only [settle, bind_ok] at hr
  obtain ⟨u, hu, hr⟩ := hr
  refine AllSettled.remove (h.put ?_) hr
  rw [created_reason hu]
  exact hreason

theorem AllSettled.joined (h : AllSettled st) {origin : PairOrigin} {leftId rightId : String}
    (hr : join origin st leftId rightId = .ok st') : AllSettled st' := by
  simp only [join, bind_ok] at hr
  obtain ⟨pair, -, mid, hmid, hr⟩ := hr
  have hpaired : AllSettled { st with pairs := st.pairs ++ [pair] } := h
  exact (hpaired.remove hmid).remove hr

theorem AllSettled.linked (h : AllSettled st) {link : ManualLink}
    (hr : reserveManualLink st link = .ok st') : AllSettled st' := by
  unfold reserveManualLink at hr
  split at hr
  · exact h.joined hr
  · split at hr
    · exact h.settled (by decide) hr
    · split at hr
      · exact h.settled (by decide) hr
      · exact Except.ok.inj hr ▸ h

theorem AllSettled.reserved (h : AllSettled st) {reason : UnpairedReason}
    (hreason : Settled reason) {explanation : String} {decision : SingleReservation}
    (hr : reserveSingle reason explanation st decision = .ok st') : AllSettled st' := by
  unfold reserveSingle at hr
  split at hr
  · exact h.settled hreason hr
  · split at hr
    · exact h.settled hreason hr
    · exact Except.ok.inj hr ▸ h

theorem reserveDecisions_settled (h : reserveDecisions s d = .ok st) : AllSettled st := by
  simp only [reserveDecisions, bind_ok] at h
  obtain ⟨lefts, hl, rights, hr, links, hlinks, accepted, haccepted, h⟩ := h
  have hstart : AllSettled ⟨ids s.left, ids s.right, [], []⟩ := fun u hu => by simp at hu
  have hlefts := foldlM_invariant hl hstart fun _ _ _ _ hy hx => AllSettled.excluded hx hy
  have hrights := foldlM_invariant hr hlefts fun _ _ _ _ hy hx => AllSettled.excluded hx hy
  have hlinked := foldlM_invariant hlinks hrights fun _ _ _ _ hy hx => AllSettled.linked hx hy
  have haccept := foldlM_invariant haccepted hlinked
    fun _ _ _ _ hy hx => AllSettled.reserved hx (by decide) hy
  exact foldlM_invariant h haccept fun _ _ _ _ hy hx => AllSettled.reserved hx (by decide) hy

theorem resolveConflict_settled {left right : String → List String}
    {acc acc' : Reservation × List ReferenceConflict} {key : String}
    (h : resolveConflict left right acc key = .ok acc') (hacc : AllSettled acc.1) :
    AllSettled acc'.1 := by
  unfold resolveConflict at h
  split at h
  · simp only [bind_ok, pure_ok] at h
    obtain ⟨conflict, -, lefts, hl, rights, hr, rfl⟩ := h
    have hlefts := foldlM_invariant hl hacc
      fun _ _ _ _ hy hx => AllSettled.settled hx (by decide) hy
    exact foldlM_invariant hr hlefts fun _ _ _ _ hy hx => AllSettled.settled hx (by decide) hy
  · exact Except.ok.inj h ▸ hacc

theorem establish_settled {prohibited : List Edge} {left right : String → List String}
    {key : String} (h : establish prohibited left right st key = .ok st')
    (hst : AllSettled st) : AllSettled st' := by
  unfold establish at h
  split at h
  · split at h
    · exact hst.joined h
    · exact Except.ok.inj h ▸ hst
  · exact Except.ok.inj h ▸ hst

theorem created_ordered {p pre : ReferencePreprocessingResult} (h : p.create = .ok pre) :
    pre = p.ordered := by
  simp only [ReferencePreprocessingResult.create, partUnique, bind_ok, exists_require,
    pure_ok] at h
  obtain ⟨-, -, -, -, -, -, -, -, -, -, -, rfl⟩ := h
  rfl

theorem preprocess_settled {contract : ReferenceContract} {pre : ReferencePreprocessingResult}
    (h : preprocessReferences s d contract = .ok pre) :
    ∀ u ∈ pre.terminalUnpaired, Settled u.reason := by
  simp only [preprocessReferences, bind_ok] at h
  obtain ⟨-, -, st, hst, acc, hacc, last, hlast, h⟩ := h
  have hconflicts : AllSettled acc.1 := foldlM_invariant (P := fun x => AllSettled x.1) hacc
    (reserveDecisions_settled hst) fun _ _ _ _ hy hx => resolveConflict_settled hy hx
  have hestablished : AllSettled last :=
    foldlM_invariant hlast hconflicts fun _ _ _ _ hy hx => establish_settled hy hx
  intro u hu
  rw [created_ordered h] at hu
  exact hestablished u ((mem_sortOn _ _ _).mp hu)

end Preprocessing

section Chain
variable {cs : List CandidateEvidence} {prohibited : List ProhibitedRelationship}
  {limited : List String} {floorBp : ℕ} {side : RecordSide} {q : MatchRecord}
  {u : UnpairedOutcome}

structure Tested (cs : List CandidateEvidence) (limited : List String) (floorBp : ℕ)
    (side : RecordSide) (recordId : String) (reason : UnpairedReason) : Prop where
  unsettled : ¬Settled reason
  limited : reason = .computationLimited ↔ recordId ∈ limited
  noCandidate : reason = .noCandidate → ∀ c ∈ cs, c.endId side ≠ recordId
  belowFloor : reason = .belowAssignmentFloor → (∃ c ∈ cs, c.endId side = recordId) ∧
    ∀ c ∈ cs, c.endId side = recordId → c.scoreBp ≤ floorBp
  ambiguous : reason = .ambiguous → ∃ c ∈ cs, c.endId side = recordId ∧ floorBp < c.scoreBp

theorem automaticUnpaired_tested
    (h : automaticUnpaired cs prohibited limited floorBp side q = .ok u) :
    u.recordId = q.observationId ∧ u.side = side ∧
      Tested cs limited floorBp side q.observationId u.reason := by
  have hsubject : u.recordId = q.observationId ∧ u.side = side := by
    obtain ⟨v, hv, hid, hside⟩ :=
      automaticUnpaired_total cs prohibited limited floorBp side q
    rw [h, Except.ok.injEq] at hv
    exact hv ▸ ⟨hid, hside⟩
  refine ⟨hsubject.1, hsubject.2, ?_⟩
  have hrelated : ∀ c, c ∈ cs.filter (·.endId side = q.observationId) ↔
      c ∈ cs ∧ c.endId side = q.observationId := fun c => by simp
  unfold automaticUnpaired at h
  simp only at h
  split at h
  · rename_i hlimited
    have hreason : u.reason = .computationLimited := created_reason h
    rw [hreason]
    exact ⟨by decide, iff_of_true rfl hlimited, fun hno => by simp at hno,
      fun hno => by simp at hno, fun hno => by simp at hno⟩
  · rename_i hlimited
    have hopen : ∀ {reason : UnpairedReason}, reason ≠ .computationLimited →
        (reason = .computationLimited ↔ q.observationId ∈ limited) :=
      fun hne => iff_of_false hne hlimited
    split at h
    · rename_i hnone
      split at h
      · have hreason : u.reason = .prohibited := created_reason h
        rw [hreason]
        exact ⟨by decide, hopen (by decide), fun hno => by simp at hno, fun hno => by simp at hno,
          fun hno => by simp at hno⟩
      · have hreason : u.reason = .noCandidate := created_reason h
        rw [hreason]
        refine ⟨by decide, hopen (by decide), fun _ c hc he => ?_, fun hno => by simp at hno,
          fun hno => by simp at hno⟩
        have hmem := (hrelated c).mpr ⟨hc, he⟩
        rw [hnone] at hmem
        simp at hmem
    · rename_i hsome
      split at h
      · have hreason : u.reason = .prohibited := created_reason h
        rw [hreason]
        exact ⟨by decide, hopen (by decide), fun hno => by simp at hno, fun hno => by simp at hno,
          fun hno => by simp at hno⟩
      · split at h
        · rename_i hfloor
          have hreason : u.reason = .belowAssignmentFloor := created_reason h
          rw [hreason]
          refine ⟨by decide, hopen (by decide), fun hno => by simp at hno, fun _ => ⟨?_, ?_⟩,
            fun hno => by simp at hno⟩
          · obtain ⟨c, hc⟩ := List.exists_mem_of_ne_nil _ hsome
            exact ⟨c, (hrelated c).mp hc⟩
          · exact fun c hc he => hfloor c ((hrelated c).mpr ⟨hc, he⟩)
        · rename_i hfloor
          have hreason : u.reason = .ambiguous := created_reason h
          rw [hreason]
          refine ⟨by decide, hopen (by decide), fun hno => by simp at hno,
            fun hno => by simp at hno, fun _ => ?_⟩
          simp only [not_forall, not_le] at hfloor
          obtain ⟨c, hc, hscore⟩ := hfloor
          exact ⟨c, ((hrelated c).mp hc).1, ((hrelated c).mp hc).2, hscore⟩

end Chain

/-- The two records of a relationship, the left one first. -/
def facing : RecordSide → MatchRecord → MatchRecord → MatchRecord × MatchRecord
  | .left, q, o => (q, o)
  | .right, q, o => (o, q)

/-- Compatible under some pass and not rejected. -/
def Related (d : DecisionInputs) (mp : MatchingPolicy) (x : MatchRecord × MatchRecord) : Prop :=
  (∃ pass ∈ mp.blockingPasses, Compatible pass x.1 x.2) ∧
    (x.1.observationId, x.2.observationId) ∉ d.rejectedEdges

/-- The rule score of two records. -/
def ruleScore (mp : MatchingPolicy) (x : MatchRecord × MatchRecord) : Outcome ℕ :=
  (features x.1 x.2 mp).map fun fs => (fs.map (·.contributionBp)).sum

/-- In a partition that a cap cut short. -/
def Truncated (g : CandidateGenerationResult) (recordId : String) : Prop :=
  ∃ p ∈ g.partitions, p.complete = false ∧ recordId ∈ p.members

/-- In a component that was not solved. -/
def Unsolved (r : EngineResult) (recordId : String) : Prop :=
  ∃ y ∈ r.components, y.complete = false ∧ recordId ∈ y.leftIds ++ y.rightIds

section Run
variable {digest : Digest} {s : EngineSnapshot} {mp : MatchingPolicy} {cp : ComparisonPolicy}
  {d : DecisionInputs} {solver : AssignmentSolver} {pre : ReferencePreprocessingResult}
  {g : CandidateGenerationResult} {cs : List CandidateEvidence} {a : AssignmentSolveResult}
  {r : EngineResult}

theorem facing_ids (side : RecordSide) {q o : MatchRecord} {c : CandidateEvidence}
    (h : c.edge = ((facing side q o).1.observationId, (facing side q o).2.observationId)) :
    c.endId side = q.observationId := by
  cases side
  · exact congrArg Prod.fst h
  · exact congrArg Prod.snd h

theorem facing_mem (side : RecordSide) {q o : MatchRecord} (hq : q ∈ pre.remaining side)
    (ho : o ∈ pre.remaining side.other) :
    (facing side q o).1 ∈ pre.remainingLeft ∧ (facing side q o).2 ∈ pre.remainingRight := by
  cases side
  · exact ⟨hq, ho⟩
  · exact ⟨ho, hq⟩

theorem prohibited_iff (hpre : Preprocessed s d mp.referenceContract pre) {l q : MatchRecord}
    (hl : l ∈ pre.remainingLeft) (hq : q ∈ pre.remainingRight) :
    (l.observationId, q.observationId) ∈ prohibitedEdges pre ↔
      (l.observationId, q.observationId) ∈ d.rejectedEdges := by
  rw [prohibitedEdges, hpre.prohibited, mem_prohibited]
  refine ⟨fun h => h.1, fun h => ⟨h, ?_, ?_⟩⟩
  · exact List.mem_map_of_mem (remaining_mem hpre .left hl)
  · exact List.mem_map_of_mem (remaining_mem hpre .right hq)

theorem scored_ruleScore {l q : MatchRecord} {c : CandidateEvidence} (h : Scored mp l q c) :
    ruleScore mp (l, q) = .ok c.scoreBp := by
  obtain ⟨fs, hfs, hsum⟩ := h.score
  rw [ruleScore, hfs, hsum]
  rfl

theorem candidate_records (h : Stages digest s mp cp d solver pre g cs a r)
    {c : CandidateEvidence} (hc : c ∈ cs) :
    ∃ l ∈ pre.remainingLeft, ∃ q ∈ pre.remainingRight, Related d mp (l, q) ∧
      c.edge = (l.observationId, q.observationId) ∧ ruleScore mp (l, q) = .ok c.scoreBp := by
  obtain ⟨l, hl, q, hq, hscored, hcompatible, hno⟩ :=
    scored_records (preprocessed_distinct h.partitioned) h.gen h.scoredAll hc
  exact ⟨l, hl, q, hq, ⟨hcompatible, (prohibited_iff h.partitioned hl hq).not.mp hno⟩,
    Prod.ext hscored.leftId hscored.rightId, scored_ruleScore hscored⟩

theorem candidate_counterpart (h : Stages digest s mp cp d solver pre g cs a r)
    {side : RecordSide} {q : MatchRecord} (hq : q ∈ pre.remaining side) {c : CandidateEvidence}
    (hc : c ∈ cs) (hend : c.endId side = q.observationId) :
    ∃ o ∈ pre.remaining side.other, Related d mp (facing side q o) ∧
      ruleScore mp (facing side q o) = .ok c.scoreBp := by
  obtain ⟨l, hl, o, ho, hrelated, hedge, hscore⟩ := candidate_records h hc
  cases side with
  | left =>
    have hid : l.observationId = q.observationId := (congrArg Prod.fst hedge).symm.trans hend
    obtain rfl := distinct_eq (preprocessed_distinct h.partitioned) .left hl hq hid
    exact ⟨o, ho, hrelated, hscore⟩
  | right =>
    have hid : o.observationId = q.observationId := (congrArg Prod.snd hedge).symm.trans hend
    obtain rfl := distinct_eq (preprocessed_distinct h.partitioned) .right ho hq hid
    exact ⟨l, hl, hrelated, hscore⟩

/-- Outside truncated partitions every record it could be paired with is a
candidate. -/
theorem counterpart_candidate (h : Stages digest s mp cp d solver pre g cs a r)
    {side : RecordSide} {q o : MatchRecord} (hq : q ∈ pre.remaining side)
    (ho : o ∈ pre.remaining side.other) (hrelated : Related d mp (facing side q o))
    (hlimited : q.observationId ∉ g.limitedRecordIds) :
    ∃ c ∈ cs, c.endId side = q.observationId ∧ ruleScore mp (facing side q o) = .ok c.scoreBp := by
  obtain ⟨hl, hr⟩ := facing_mem side hq ho
  have hallowed := (prohibited_iff h.partitioned hl hr).not.mpr hrelated.2
  obtain ⟨c, hc, hscored⟩ | hlim := records_scored (preprocessed_distinct h.partitioned) h.gen
    h.scoredAll hl hr hrelated.1 hallowed
  · exact ⟨c, hc, facing_ids side (Prod.ext hscored.leftId hscored.rightId),
      scored_ruleScore hscored⟩
  · refine absurd ?_ hlimited
    cases side
    · exact hlim.1
    · exact hlim.2

theorem unpaired_stage (h : Stages digest s mp cp d solver pre g cs a r)
    (hr : reconcile digest s mp cp d solver = .ok r) :
    ∃ pairs us, unpairedOutcomes pre cs a.limitedRecordIds mp.assignmentFloorBp pairs = .ok us ∧
      r.unpaired.Perm us ∧ r.pairs.Perm pairs := by
  simp only [reconcile, bind_ok] at hr
  obtain ⟨pre', hpre, g', hg, cs', hcs, a', ha, gated, -, est, -, acc, -, us, hus, primary,
    hprimary, ds, -, hr⟩ := hr
  obtain rfl := Except.ok.inj (h.preprocessed.symm.trans hpre)
  obtain rfl := Except.ok.inj (h.generated.symm.trans hg)
  obtain rfl := Except.ok.inj (h.scored.symm.trans hcs)
  obtain rfl := Except.ok.inj (h.solved.symm.trans ha)
  obtain ⟨-, -, rfl⟩ := create_ok.mp hprimary
  obtain ⟨-, -, rfl⟩ := create_ok.mp hr
  exact ⟨_, us, hus, (sortOn_perm _ _).trans (sortOn_perm _ _),
    (sortOn_perm _ _).trans (sortOn_perm _ _)⟩

theorem remaining_unestablished (h : Stages digest s mp cp d solver pre g cs a r)
    {side : RecordSide} {q : MatchRecord} (hq : q ∈ pre.remaining side) {p : PairOutcome}
    (hp : p ∈ pre.pairs) (t : RecordSide) : p.endId t ≠ q.observationId := by
  intro hend
  have hin : q.observationId ∈ ids (pre.remaining side) := List.mem_map_of_mem hq
  have hpart := h.partitioned.partition
  by_cases hside : t = side
  · subst hside
    have hnodup := (hpart t).nodup_iff.mpr (s.nodup t)
    obtain ⟨-, -, hapart⟩ := List.nodup_append.mp hnodup
    exact hapart _ (List.mem_append_left _ (List.mem_map_of_mem hp)) _ hin hend
  · have ht : side = t.other := by cases t <;> cases side <;> simp_all [RecordSide.other]
    have hown : p.endId t ∈ ids (s.records t) := (hpart t).mem_iff.mp
      (List.mem_append_left _ (List.mem_append_left _ (List.mem_map_of_mem hp)))
    have hother : q.observationId ∈ ids (s.records t.other) :=
      ht ▸ (hpart side).mem_iff.mp (List.mem_append_right _ hin)
    exact s.apart_other t _ hown (hend ▸ hother)

/-- The limited records of an assignment are those of truncated partitions and
of unsolved components. -/
theorem limited_iff (hopt : Optimal solver.minimize)
    (h : Stages digest s mp cp d solver pre g cs a r) (recordId : String) :
    recordId ∈ a.limitedRecordIds ↔ Truncated g recordId ∨ Unsolved r recordId := by
  rw [(h.graph hopt).limited, h.gen.limited, mem_incompleteMembers]
  refine or_congr Iff.rfl ⟨?_, ?_⟩
  · rintro ⟨x, hx, hincomplete, hmem⟩
    exact ⟨gatedOf cs mp x, h.components.mem_iff.mpr (List.mem_map_of_mem hx), hincomplete, hmem⟩
  · rintro ⟨y, hy, hincomplete, hmem⟩
    obtain ⟨x, hx, rfl⟩ := List.mem_map.mp (h.components.mem_iff.mp hy)
    exact ⟨x, hx, hincomplete, hmem⟩

theorem limited_unpaired (hopt : Optimal solver.minimize)
    (h : Stages digest s mp cp d solver pre g cs a r) {side : RecordSide} {q : MatchRecord}
    (hq : q ∈ pre.remaining side) (hlimited : q.observationId ∈ a.limitedRecordIds)
    {p : PairOutcome} (hp : p ∈ r.pairs) (t : RecordSide) : p.endId t ≠ q.observationId := by
  intro hend
  by_cases hw : p.origin = .weightedGlobal
  · obtain ⟨hpartitions, hcomponents⟩ := weighted_unlimited hopt h hp hw
    rcases (limited_iff hopt h _).mp hlimited with ⟨x, hx, hincomplete, hmem⟩ | ⟨y, hy, hno, hmem⟩
    · rw [← hend] at hmem
      obtain ⟨hleft, hright⟩ := hpartitions x hx hincomplete
      cases t
      · exact hleft hmem
      · exact hright hmem
    · rw [← hend] at hmem
      have hcomplete : y.complete = true := by
        refine hcomponents y hy ?_
        cases t
        · exact .inl hmem
        · exact .inr hmem
      rw [hno] at hcomplete
      simp at hcomplete
  · refine remaining_unestablished h hq (h.established hp hw) t ?_
    rw [bare_endId]
    exact hend

/-- An unpaired outcome of a run is one of preprocessing, or says of a record
that preprocessing leaves what the chain of tests found. -/
theorem unpaired_origin (h : Stages digest s mp cp d solver pre g cs a r)
    (hr : reconcile digest s mp cp d solver = .ok r) {u : UnpairedOutcome}
    (hu : u ∈ r.unpaired) :
    Settled u.reason ∨ ∃ q ∈ pre.remaining u.side, q.observationId = u.recordId ∧
      Tested cs a.limitedRecordIds mp.assignmentFloorBp u.side u.recordId u.reason := by
  obtain ⟨pairs, us, hus, hperm, -⟩ := unpaired_stage h hr
  simp only [unpairedOutcomes, bind_ok, pure_ok] at hus
  obtain ⟨lefts, hl, rights, hr', rfl⟩ := hus
  have heach : ∀ {side : RecordSide} {l : List UnpairedOutcome},
      (leftover pre pairs side).mapM (automaticUnpaired cs pre.prohibitedRelationships
        a.limitedRecordIds mp.assignmentFloorBp side) = .ok l → u ∈ l →
      ∃ q ∈ pre.remaining u.side, q.observationId = u.recordId ∧
        Tested cs a.limitedRecordIds mp.assignmentFloorBp u.side u.recordId u.reason := by
    intro side l hmap hmem
    obtain ⟨q, hq, hqu⟩ := mapM_mem_right hmap hmem
    obtain ⟨hid, hside, htested⟩ := automaticUnpaired_tested hqu
    rw [hside, hid]
    exact ⟨q, List.mem_of_mem_filter hq, rfl, htested⟩
  rcases List.mem_append.mp (hperm.mem_iff.mp hu) with hterminal | hautomatic
  · exact .inl (preprocess_settled h.preprocessed u hterminal)
  · rcases List.mem_append.mp hautomatic with hleft | hright
    · exact .inr (heach hl hleft)
    · exact .inr (heach hr' hright)

/-- A record that preprocessing leaves and no pair takes is tested. -/
theorem leftover_reported (h : Stages digest s mp cp d solver pre g cs a r)
    (hr : reconcile digest s mp cp d solver = .ok r) {side : RecordSide} {q : MatchRecord}
    (hq : q ∈ pre.remaining side)
    (hunpaired : ∀ p ∈ r.pairs, ∀ t, p.endId t ≠ q.observationId) :
    ∃ u ∈ r.unpaired, u.side = side ∧ u.recordId = q.observationId ∧
      Tested cs a.limitedRecordIds mp.assignmentFloorBp side q.observationId u.reason := by
  obtain ⟨pairs, us, hus, hperm, hpairs⟩ := unpaired_stage h hr
  simp only [unpairedOutcomes, bind_ok, pure_ok] at hus
  obtain ⟨lefts, hl, rights, hr', rfl⟩ := hus
  have hleft : q ∈ leftover pre pairs side := by
    refine List.mem_filter.mpr ⟨hq, decide_eq_true fun hmem => ?_⟩
    obtain ⟨t, ht⟩ := mem_pairedIds.mp hmem
    obtain ⟨p, hp, hend⟩ := List.mem_map.mp ht
    exact hunpaired p (hpairs.mem_iff.mpr hp) t hend
  have heach : ∀ {l : List UnpairedOutcome},
      (leftover pre pairs side).mapM (automaticUnpaired cs pre.prohibitedRelationships
        a.limitedRecordIds mp.assignmentFloorBp side) = .ok l →
      ∃ u ∈ l, u.side = side ∧ u.recordId = q.observationId ∧
        Tested cs a.limitedRecordIds mp.assignmentFloorBp side q.observationId u.reason := by
    intro l hmap
    obtain ⟨u, hu, hqu⟩ := mapM_mem hmap hleft
    obtain ⟨hid, hside, htested⟩ := automaticUnpaired_tested hqu
    exact ⟨u, hu, hside, hid, htested⟩
  cases side with
  | left =>
    obtain ⟨u, hu, hspec⟩ := heach hl
    exact ⟨u, hperm.mem_iff.mpr (List.mem_append_right _ (List.mem_append_left _ hu)), hspec⟩
  | right =>
    obtain ⟨u, hu, hspec⟩ := heach hr'
    exact ⟨u, hperm.mem_iff.mpr (List.mem_append_right _ (List.mem_append_right _ hu)), hspec⟩

/-- The automatic reasons are true of the other side: without a candidate there
is no record to pair with, below the floor there is one and all score at or below
it, an ambiguous record has one above it, and exactly the records of truncated
partitions and of unsolved components are computation limited. -/
theorem unpaired_reasons_truthful (hopt : Optimal solver.minimize)
    (h : reconcile digest s mp cp d solver = .ok r) :
    ∃ pre g, preprocessReferences s d mp.referenceContract = .ok pre ∧
      generateCandidates digest pre mp = .ok g ∧
      (∀ u ∈ r.unpaired, ¬Settled u.reason → ∃ q ∈ pre.remaining u.side,
        q.observationId = u.recordId ∧
        (u.reason = .noCandidate →
          ∀ o ∈ pre.remaining u.side.other, ¬Related d mp (facing u.side q o)) ∧
        (u.reason = .belowAssignmentFloor →
          (∃ o ∈ pre.remaining u.side.other, Related d mp (facing u.side q o)) ∧
          ∀ o ∈ pre.remaining u.side.other, Related d mp (facing u.side q o) →
            ∃ score, ruleScore mp (facing u.side q o) = .ok score ∧
              score ≤ mp.assignmentFloorBp) ∧
        (u.reason = .ambiguous →
          ∃ o ∈ pre.remaining u.side.other, Related d mp (facing u.side q o) ∧
            ∃ score, ruleScore mp (facing u.side q o) = .ok score ∧
              mp.assignmentFloorBp < score)) ∧
      ∀ side, ∀ q ∈ pre.remaining side,
        (∃ u ∈ r.unpaired, u.side = side ∧ u.recordId = q.observationId ∧
          u.reason = .computationLimited) ↔
        Truncated g q.observationId ∨ Unsolved r q.observationId := by
  obtain ⟨pre, g, cs, a, hstages⟩ := reconcile_stages hopt h
  refine ⟨pre, g, hstages.preprocessed, hstages.generated, fun u hu hautomatic => ?_,
    fun side q hq => ⟨?_, fun hlimited => ?_⟩⟩
  · obtain ⟨q, hq, hid, htested⟩ := (unpaired_origin hstages h hu).resolve_left hautomatic
    rw [← hid] at htested
    -- a record with another reason is in no truncated partition
    have hcandidate : u.reason ≠ .computationLimited → ∀ o ∈ pre.remaining u.side.other,
        Related d mp (facing u.side q o) → ∃ c ∈ cs, c.endId u.side = q.observationId ∧
          ruleScore mp (facing u.side q o) = .ok c.scoreBp := by
      intro hne o ho hrelated
      refine counterpart_candidate hstages hq ho hrelated fun hlimited => hne ?_
      exact htested.limited.mpr (((hstages.graph hopt).limited _).mpr (.inl hlimited))
    refine ⟨q, hq, hid, fun hreason o ho hrelated => ?_, fun hreason => ⟨?_, ?_⟩, fun hreason => ?_⟩
    · obtain ⟨c, hc, hend, -⟩ := hcandidate (by simp [hreason]) o ho hrelated
      exact htested.noCandidate hreason c hc hend
    · obtain ⟨⟨c, hc, hend⟩, -⟩ := htested.belowFloor hreason
      obtain ⟨o, ho, hrelated, -⟩ := candidate_counterpart hstages hq hc hend
      exact ⟨o, ho, hrelated⟩
    · intro o ho hrelated
      obtain ⟨c, hc, hend, hscore⟩ := hcandidate (by simp [hreason]) o ho hrelated
      exact ⟨c.scoreBp, hscore, (htested.belowFloor hreason).2 c hc hend⟩
    · obtain ⟨c, hc, hend, habove⟩ := htested.ambiguous hreason
      obtain ⟨o, ho, hrelated, hscore⟩ := candidate_counterpart hstages hq hc hend
      exact ⟨o, ho, hrelated, c.scoreBp, hscore, habove⟩
  · rintro ⟨u, hu, hside, hid, hreason⟩
    have hautomatic : ¬Settled u.reason := by
      rw [hreason]
      decide
    obtain ⟨-, -, -, htested⟩ := (unpaired_origin hstages h hu).resolve_left hautomatic
    exact (limited_iff hopt hstages _).mp (hid ▸ htested.limited.mp hreason)
  · have hin := (limited_iff hopt hstages _).mpr hlimited
    obtain ⟨u, hu, hside, hid, htested⟩ := leftover_reported hstages h hq
      fun p hp t => limited_unpaired hopt hstages hq hin hp t
    exact ⟨u, hu, hside, hid, htested.limited.mpr hin⟩

end Run

theorem fewEdges_pos : 0 < 3 := by decide

/-- Three candidates a run. -/
def fewEdges : CapacityLimits :=
  { sampleLimits with maxRunCandidateEdges := 3, run_pos := fewEdges_pos }

theorem crowdedRun_reasons : (crowdedRun fewEdges noDecisions).toOption.map (fun r =>
    (r.unpaired.map fun u => ((u.side, u.recordId), u.reason))) =
      some [((.left, "L1"), .ambiguous), ((.left, "L2"), .noCandidate),
        ((.left, "L3"), .belowAssignmentFloor), ((.left, "L4"), .computationLimited),
        ((.right, "R1"), .ambiguous), ((.right, "R2"), .ambiguous),
        ((.right, "R3"), .belowAssignmentFloor), ((.right, "R4"), .computationLimited)] := by
  decide +kernel

/-- Every automatic reason occurs and is true of the other side. -/
theorem unpaired_reasons_truthful_sample : ∃ r, crowdedRun fewEdges noDecisions = .ok r ∧
    ∃ pre g, preprocessReferences crowdedSnapshot noDecisions .sharedMustAgree = .ok pre ∧
      generateCandidates checksum pre (samplePolicy fewEdges) = .ok g ∧
      (∃ q ∈ pre.remainingLeft, q.observationId = "L2" ∧
        ∀ o ∈ pre.remainingRight, ¬Related noDecisions (samplePolicy fewEdges) (q, o)) ∧
      (∃ q ∈ pre.remainingLeft, q.observationId = "L3" ∧
        (∃ o ∈ pre.remainingRight, Related noDecisions (samplePolicy fewEdges) (q, o)) ∧
        ∀ o ∈ pre.remainingRight, Related noDecisions (samplePolicy fewEdges) (q, o) →
          ∃ score, ruleScore (samplePolicy fewEdges) (q, o) = .ok score ∧ score ≤ 5000) ∧
      (∃ q ∈ pre.remainingLeft, q.observationId = "L1" ∧
        ∃ o ∈ pre.remainingRight, Related noDecisions (samplePolicy fewEdges) (q, o) ∧
          ∃ score, ruleScore (samplePolicy fewEdges) (q, o) = .ok score ∧ 5000 < score) ∧
      ∀ q ∈ pre.remainingLeft, q.observationId = "L4" → Truncated g "L4" ∨ Unsolved r "L4" := by
  obtain ⟨r, hr, hreasons⟩ := ok_of_toOption crowdedRun_reasons
  obtain ⟨pre, g, hpre, hg, htold, hlimited⟩ := unpaired_reasons_truthful sample_optimal hr
  have hreported : ∀ x ∈ r.unpaired.map (fun u => ((u.side, u.recordId), u.reason)),
      ∃ u ∈ r.unpaired, u.side = x.1.1 ∧ u.recordId = x.1.2 ∧ u.reason = x.2 := by
    intro x hx
    obtain ⟨u, hu, rfl⟩ := List.mem_map.mp hx
    exact ⟨u, hu, rfl, rfl, rfl⟩
  rw [hreasons] at hreported
  refine ⟨r, hr, pre, g, hpre, hg, ?_, ?_, ?_, fun q hq hid => ?_⟩
  · obtain ⟨u, hu, hside, hid, hreason⟩ := hreported ((.left, "L2"), .noCandidate) (by decide)
    obtain ⟨q, hq, hrecord, halone, -⟩ := htold u hu (hreason ▸ by decide)
    rw [hside] at hq halone
    exact ⟨q, hq, hrecord.trans hid, halone hreason⟩
  · obtain ⟨u, hu, hside, hid, hreason⟩ :=
      hreported ((.left, "L3"), .belowAssignmentFloor) (by decide)
    obtain ⟨q, hq, hrecord, -, hbelow, -⟩ := htold u hu (hreason ▸ by decide)
    rw [hside] at hq hbelow
    exact ⟨q, hq, hrecord.trans hid, hbelow hreason⟩
  · obtain ⟨u, hu, hside, hid, hreason⟩ := hreported ((.left, "L1"), .ambiguous) (by decide)
    obtain ⟨q, hq, hrecord, -, -, habove⟩ := htold u hu (hreason ▸ by decide)
    rw [hside] at hq habove
    exact ⟨q, hq, hrecord.trans hid, habove hreason⟩
  · obtain ⟨u, hu, hside, hrecord, hreason⟩ :=
      hreported ((.left, "L4"), .computationLimited) (by decide)
    exact hid ▸ (hlimited .left q hq).mp ⟨u, hu, hside, hrecord.trans hid.symm, hreason⟩

end Workbench.Reasons
