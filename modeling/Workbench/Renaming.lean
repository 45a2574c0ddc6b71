import Workbench.Correspondence

/-!
# Ties and names

With a gap of at least one basis point an accepted pair is in every optimum of
its component, so neither the choice among optima nor the identities of the
records can change what is accepted.
-/

set_option autoImplicit false

namespace Workbench.Renaming
open Workbench.Listing Workbench.Raising Workbench.Records Workbench.Evidence
open Workbench.References Workbench.Reservations Workbench.Candidates Workbench.Json
open Workbench.SearchSpace Workbench.Generation Workbench.Scores Workbench.Assignment
open Workbench.Components Workbench.Optimum Workbench.Matching Workbench.AssignmentOptimality
open Workbench.Gating Workbench.Acceptance Workbench.Engine Workbench.Results
open Workbench.Reconciled Workbench.Totality Workbench.PaddedAssignment Workbench.Correspondence

/-- The records and the decisions of two runs are the same under related
identities. -/
structure SameInputs (R : String → String → Prop) (s : EngineSnapshot) (d : DecisionInputs)
    (s' : EngineSnapshot) (d' : DecisionInputs) : Prop where
  records : ∀ side, ∀ r ∈ s.records side, ∃ r' ∈ s'.records side, SameRecord R r r'
  from_records : ∀ side, ∀ r' ∈ s'.records side, ∃ r ∈ s.records side, SameRecord R r r'
  manual : ∀ m ∈ d.manualLinks, ∃ m' ∈ d'.manualLinks, EdgeRelated R m.edge m'.edge
  from_manual : ∀ m' ∈ d'.manualLinks, ∃ m ∈ d.manualLinks, EdgeRelated R m.edge m'.edge
  singles : ∀ i ∈ d.singleIds, ∃ i' ∈ d'.singleIds, R i i'
  from_singles : ∀ i' ∈ d'.singleIds, ∃ i ∈ d.singleIds, R i i'
  rejected : ∀ m ∈ d.rejectedRelationships, ∃ m' ∈ d'.rejectedRelationships,
    EdgeRelated R m.edge m'.edge
  from_rejected : ∀ m' ∈ d'.rejectedRelationships, ∃ m ∈ d.rejectedRelationships,
    EdgeRelated R m.edge m'.edge

section Inputs
variable {R : String → String → Prop} {s s' : EngineSnapshot} {d d' : DecisionInputs}
  {contract : ReferenceContract} {side : RecordSide} {i i' key : String}

theorem SameInputs.flip (h : SameInputs R s d s' d') : SameInputs (flip R) s' d' s d := by
  refine ⟨fun side r' hr' => ?_, fun side r hr => ?_, h.from_manual, h.manual, h.from_singles,
    h.singles, h.from_rejected, h.rejected⟩
  · obtain ⟨r, hr, hsame⟩ := h.from_records side r' hr'
    exact ⟨r, hr, hsame.flip⟩
  · obtain ⟨r', hr', hsame⟩ := h.records side r hr
    exact ⟨r', hr', hsame.flip⟩

theorem SameInputs.input (hR : Relator.BiUnique R) (h : SameInputs R s d s' d')
    (side : RecordSide) (hi : R i i') (hin : i ∈ ids (s.records side)) :
    i' ∈ ids (s'.records side) := by
  obtain ⟨r, hr, rfl⟩ := List.mem_map.mp hin
  obtain ⟨r', hr', hid, -⟩ := h.records side r hr
  exact hR.2 hid hi ▸ List.mem_map_of_mem hr'

theorem SameInputs.available (hR : Relator.BiUnique R) (h : SameInputs R s d s' d') (hi : R i i')
    (ha : i ∈ available s side) : i' ∈ available s' side := by
  obtain ⟨r, hr, he, rfl⟩ := mem_available.mp ha
  obtain ⟨r', hr', hid, j, hj, rfl⟩ := h.records side r hr
  exact mem_available.mpr ⟨_, hr', he, hR.2 hid hi⟩

theorem SameInputs.manualEnds (hR : Relator.BiUnique R) (h : SameInputs R s d s' d') (hi : R i i')
    (hin : i ∈ manualEnds d side) : i' ∈ manualEnds d' side := by
  obtain ⟨m, hm, rfl⟩ := List.mem_map.mp hin
  obtain ⟨m', hm', hl, hr⟩ := h.manual m hm
  refine List.mem_map.mpr ⟨m', hm', ?_⟩
  cases side
  · exact hR.2 hl hi
  · exact hR.2 hr hi

theorem SameInputs.singleIds (hR : Relator.BiUnique R) (h : SameInputs R s d s' d') (hi : R i i')
    (hs : i ∈ d.singleIds) : i' ∈ d'.singleIds := by
  obtain ⟨j, hj, hij⟩ := h.singles i hs
  exact hR.2 hij hi ▸ hj

theorem SameInputs.free (hR : Relator.BiUnique R) (h : SameInputs R s d s' d') (hi : R i i')
    (hf : Free s d side i) : Free s' d' side i' :=
  ⟨h.available hR hi hf.1, fun hm => hf.2.1 (h.flip.manualEnds (flip_biUnique hR) hi hm),
    fun hs => hf.2.2 (h.flip.singleIds (flip_biUnique hR) hi hs)⟩

theorem SameInputs.prohibited (hR : Relator.BiUnique R) (h : SameInputs R s d s' d')
    {e e' : Edge} (he : EdgeRelated R e e')
    (hp : e ∈ (prohibitedRelationships s d).map (·.edge)) :
    e' ∈ (prohibitedRelationships s' d').map (·.edge) := by
  obtain ⟨m, hm, rfl⟩ := List.mem_map.mp hp
  obtain ⟨hm, hends⟩ := List.mem_filter.mp hm
  obtain ⟨hl, hr⟩ := of_decide_eq_true hends
  obtain ⟨m', hm', hrelated⟩ := h.rejected m hm
  have hedge : m'.edge = e' := (EdgeRelated.biUnique hR).2 hrelated he
  refine List.mem_map.mpr ⟨m', List.mem_filter.mpr ⟨hm', decide_eq_true ⟨?_, ?_⟩⟩, hedge⟩
  · exact h.input hR .left hrelated.1 hl
  · exact h.input hR .right hrelated.2 hr

theorem SameInputs.sharing (hR : Relator.BiUnique R) (h : SameInputs R s d s' d')
    (hi : i ∈ Reservations.sharing s d contract side key) :
    ∃ i' ∈ Reservations.sharing s' d' contract side key, R i i' := by
  obtain ⟨r, hr, hk, rfl⟩ := mem_sharing.mp hi
  obtain ⟨hr, hf⟩ := mem_freeRecords.mp hr
  obtain ⟨r', hr', hid, j, hj, rfl⟩ := h.records side r hr
  have hkey : referenceKey contract (named r j hj) = referenceKey contract r := by
    cases contract <;> rfl
  exact ⟨_, mem_sharing.mpr ⟨_, mem_freeRecords.mpr ⟨hr', h.free hR hid hf⟩, hkey.trans hk, rfl⟩,
    hid⟩

theorem SameInputs.sharing_length (hR : Relator.BiUnique R) (h : SameInputs R s d s' d')
    (side : RecordSide) (key : String) :
    (Reservations.sharing s d contract side key).length =
      (Reservations.sharing s' d' contract side key).length :=
  length_eq_related hR (sharing_nodup side key) (sharing_nodup side key)
    (fun _ hi => h.sharing hR hi) fun _ hi => h.flip.sharing (flip_biUnique hR) hi

theorem SameInputs.sharing_one (hR : Relator.BiUnique R) (h : SameInputs R s d s' d')
    (hi : Reservations.sharing s d contract side key = [i]) :
    ∃ i', Reservations.sharing s' d' contract side key = [i'] ∧ R i i' := by
  have hlength : (Reservations.sharing s d contract side key).length =
      (Reservations.sharing s' d' contract side key).length := h.sharing_length hR side key
  obtain ⟨i', hi', hrelated⟩ := h.sharing hR (hi ▸ List.mem_singleton_self i)
  rw [hi, List.length_singleton] at hlength
  obtain ⟨j, hj⟩ := List.length_eq_one_iff.mp hlength.symm
  rw [hj, List.mem_singleton] at hi'
  exact ⟨j, hj, hi' ▸ hrelated⟩

theorem SameInputs.conflict (hR : Relator.BiUnique R) (h : SameInputs R s d s' d') (hi : R i i')
    (hc : i ∈ conflictIds s d contract side) : i' ∈ conflictIds s' d' contract side := by
  obtain ⟨key, hd, hs⟩ := mem_conflictIds.mp hc
  obtain ⟨j, hj, hij⟩ := h.sharing hR hs
  refine mem_conflictIds.mpr ⟨key, ?_, hR.2 hij hi ▸ hj⟩
  unfold Duplicated Conflicting at hd ⊢
  rwa [← h.sharing_length hR, ← h.sharing_length hR]

theorem SameInputs.referred (hR : Relator.BiUnique R) (h : SameInputs R s d s' d') (hi : R i i')
    (hp : i ∈ (referencePairs s d contract).map (·.endId side)) :
    i' ∈ (referencePairs s' d' contract).map (·.endId side) := by
  obtain ⟨p, hp, hend⟩ := List.mem_map.mp hp
  obtain ⟨key, hp⟩ := mem_referencePairs.mp hp
  obtain ⟨hl, hr, hno, -⟩ := mem_established.mp hp
  obtain ⟨l', hl', hleft⟩ := h.sharing_one hR hl
  obtain ⟨r', hr', hright⟩ := h.sharing_one hR hr
  have hedge : EdgeRelated (fun i j => R j i) (l', r') p.edge := ⟨hleft, hright⟩
  have hno' : (l', r') ∉ (prohibitedRelationships s' d').map (·.edge) :=
    fun hp' => hno (h.flip.prohibited (flip_biUnique hR) hedge hp')
  refine List.mem_map.mpr ⟨referencePair l' r', mem_referencePairs.mpr ⟨key,
    mem_established.mpr ⟨hl', hr', hno', rfl⟩⟩, ?_⟩
  cases side with
  | left =>
    obtain rfl : p.leftId = i := hend
    exact hR.2 hleft hi
  | right =>
    obtain rfl : p.rightId = i := hend
    exact hR.2 hright hi

theorem SameInputs.remains (hR : Relator.BiUnique R) (h : SameInputs R s d s' d') (hi : R i i')
    (ho : Open s d contract side i) : Open s' d' contract side i' :=
  ⟨h.free hR hi ho.1, fun hc => ho.2.1 (h.flip.conflict (flip_biUnique hR) hi hc),
    fun hp => ho.2.2 (h.flip.referred (flip_biUnique hR) hi hp)⟩

theorem SameInputs.remaining (hR : Relator.BiUnique R) (h : SameInputs R s d s' d')
    {pre pre' : ReferencePreprocessingResult} (hpre : Preprocessed s d contract pre)
    (hpre' : Preprocessed s' d' contract pre') {r : MatchRecord} (hr : r ∈ pre.remaining side) :
    ∃ r' ∈ pre'.remaining side, SameRecord R r r' := by
  rw [hpre.remaining side] at hr
  obtain ⟨hr, ho⟩ := List.mem_filter.mp hr
  obtain ⟨r', hr', hsame⟩ := h.records side r hr
  refine ⟨r', ?_, hsame⟩
  rw [hpre'.remaining side]
  exact List.mem_filter.mpr ⟨hr', decide_eq_true (h.remains hR hsame.1 (of_decide_eq_true ho))⟩

theorem SameInputs.corresponding (hR : Relator.BiUnique R) (h : SameInputs R s d s' d')
    {pre pre' : ReferencePreprocessingResult} (hpre : Preprocessed s d contract pre)
    (hpre' : Preprocessed s' d' contract pre') : Corresponding R pre pre' := by
  refine ⟨fun side r hr => h.remaining hR hpre hpre' hr, fun side r' hr' => ?_, fun e e' he => ?_⟩
  · obtain ⟨r, hr, hsame⟩ := h.flip.remaining (flip_biUnique hR) hpre' hpre hr'
    exact ⟨r, hr, hsame.flip⟩
  · rw [prohibitedEdges, prohibitedEdges, hpre.prohibited, hpre'.prohibited]
    exact ⟨h.prohibited hR he, h.flip.prohibited (flip_biUnique hR) he⟩

end Inputs

section Caps
variable {R : String → String → Prop} {pre pre' : ReferencePreprocessingResult}
  {passes : List BlockingPassPolicy} {limits : CapacityLimits}

theorem compatible_edge (h : Corresponding R pre pre') {e' : Edge}
    (he' : CompatibleEdge pre' passes e') :
    ∃ e, EdgeRelated R e e' ∧ CompatibleEdge pre passes e := by
  obtain ⟨pass, hpass, l', hl', r', hr', rfl, hc⟩ := he'
  obtain ⟨l, hl, hsl⟩ := h.back .left l' hl'
  obtain ⟨r, hr, hsr⟩ := h.back .right r' hr'
  exact ⟨_, ⟨hsl.1, hsr.1⟩, pass, hpass, l, hl, r, hr, rfl, compatible_same hsl.flip hsr.flip hc⟩

/-- Caps that one run cannot reach are out of reach of a corresponding run. -/
theorem roomy_corresponding (hR : Relator.BiUnique R) (h : Corresponding R pre pre')
    (hroomy : Roomy pre passes limits) : Roomy pre' passes limits := by
  intro edges hnodup hall
  have hback : ∀ e' ∈ edges, ∃ e, EdgeRelated R e e' ∧ CompatibleEdge pre passes e ∧
      e ∉ prohibitedEdges pre := by
    intro e' he'
    obtain ⟨e, hrelated, hc⟩ := compatible_edge h (hall e' he').1
    exact ⟨e, hrelated, hc, fun hp => (hall e' he').2 ((h.prohibited e e' hrelated).mp hp)⟩
  choose! φ hrelated hcompatible hallowed using hback
  have hinj : ∀ e ∈ edges, ∀ f ∈ edges, φ e = φ f → e = f := fun e he f hf hef =>
    (EdgeRelated.biUnique hR).2 (hrelated e he) (hef ▸ hrelated f hf)
  obtain ⟨hl, hr, hlength⟩ := hroomy (edges.map φ) (hnodup.map_on hinj) fun e he => by
    obtain ⟨e', he', rfl⟩ := List.mem_map.mp he
    exact ⟨hcompatible e' he', hallowed e' he'⟩
  -- The edges at one end are as many as their counterparts at its counterpart.
  have hcount : ∀ end_ : Edge → String, (∀ e ∈ edges, R (end_ (φ e)) (end_ e)) → ∀ n,
      (∀ i, (edges.map φ).countP (fun e => end_ e = i) ≤ n) →
        ∀ i, edges.countP (fun e => end_ e = i) ≤ n := by
    intro end_ hend n hle i
    by_cases hnone : ∃ e ∈ edges, end_ e = i
    · obtain ⟨e, he, rfl⟩ := hnone
      have hcongr : edges.countP (fun f => end_ f = end_ e) =
          edges.countP (fun f => end_ (φ f) = end_ (φ e)) := by
        refine List.countP_congr fun f hf => ?_
        simp only [decide_eq_true_eq]
        constructor
        · intro hfe
          exact hR.1 (hend f hf) (hfe ▸ hend e he)
        · intro hfe
          exact hR.2 (hend f hf) (hfe ▸ hend e he)
      have hmap := hle (end_ (φ e))
      rw [List.countP_map] at hmap
      rw [hcongr]
      exact hmap
    · have hzero : edges.countP (fun e => end_ e = i) = 0 :=
        List.countP_eq_zero.mpr fun e he hei => hnone ⟨e, he, of_decide_eq_true hei⟩
      omega
  refine ⟨hcount Prod.fst (fun e he => (hrelated e he).1) _ hl,
    hcount Prod.snd (fun e he => (hrelated e he).2) _ hr, ?_⟩
  simpa using hlength

end Caps

def KeepsGaps (R : String → String → Prop) (floorBp : ℕ) : Prop :=
  ∀ p q, Twins R p q → ∀ c ∈ p, ∀ c' ∈ q, Twin R c c' →
    gapOf q floorBp c'.edge = gapOf p floorBp c.edge

theorem KeepsGaps.flip {R : String → String → Prop} {floorBp : ℕ} (h : KeepsGaps R floorBp) :
    KeepsGaps (flip R) floorBp :=
  fun p q hpq c hc c' hc' ht => (h q p hpq.flip c' hc' c hc ht.flip).symm

theorem keepsGaps_injective {f : String → String} (hf : Function.Injective f) (floorBp : ℕ) :
    KeepsGaps (fun i j => f i = j) floorBp := by
  intro p q h c hc c' hc' ht
  have hedge : ∀ {b b' : CandidateEvidence}, Twin (fun i j => f i = j) b b' →
      Prod.map f f b.edge = b'.edge := fun hb => Prod.ext hb.edge.1 hb.edge.2
  have himage : edgesOf q = (edgesOf p).image (Prod.map f f) := by
    ext e
    rw [Finset.mem_image, mem_edgesOf]
    constructor
    · rintro ⟨b', hb', rfl⟩
      obtain ⟨b, hb, hbb⟩ := h.from_twin b' hb'
      exact ⟨b.edge, mem_edgesOf.mpr ⟨b, hb, rfl⟩, hedge hbb⟩
    · rintro ⟨e, he, rfl⟩
      obtain ⟨b, hb, rfl⟩ := mem_edgesOf.mp he
      obtain ⟨b', hb', hbb⟩ := h.twin b hb
      exact ⟨b', hb', (hedge hbb).symm⟩
  have hutility : ∀ e ∈ edgesOf p, (utility q floorBp ∘ Prod.map f f) e = utility p floorBp e := by
    intro e he
    obtain ⟨b, hb, rfl⟩ := mem_edgesOf.mp he
    obtain ⟨b', hb', hbb⟩ := h.twin b hb
    rw [Function.comp_apply, hedge hbb, utility_mem h.right_unique floorBp hb',
      utility_mem h.left_unique floorBp hb, hbb.score]
  rw [gapOf, gapOf, himage, ← hedge ht, gap_image hf hf, gap, gap, best_congr hutility,
    best_congr fun e he => hutility e (Finset.mem_of_mem_erase he)]

section Runs
variable {R : String → String → Prop} {digest : Digest} {s s' : EngineSnapshot}
  {mp : MatchingPolicy} {cp : ComparisonPolicy} {d d' : DecisionInputs}
  {solver solver' : AssignmentSolver} {pre pre' : ReferencePreprocessingResult}
  {g g' : CandidateGenerationResult} {cs cs' part : List CandidateEvidence}
  {a a' : AssignmentSolveResult} {r r' : EngineResult} {c : CandidateEvidence}

theorem Accepts.gap_pos (hgap : 1 ≤ mp.minimumGlobalGapBp)
    (h : Accepts digest mp solver g cs part c) : 0 < gapOf part mp.assignmentFloorBp c.edge := by
  obtain ⟨-, -, -, -, hminimum⟩ := gateReasons_nil.mp h.passes
  omega

theorem accepts_corresponding (hR : Relator.BiUnique R)
    (hkeeps : KeepsGaps R mp.assignmentFloorBp) (hgap : 1 ≤ mp.minimumGlobalGapBp)
    (hopt' : Optimal solver'.minimize) (hpre : Corresponding R pre pre')
    (h : Stages digest s mp cp d solver pre g cs a r)
    (h' : Stages digest s' mp cp d' solver' pre' g' cs' a' r')
    (hlimits' : g'.limitedRecordIds = []) (ha : Accepts digest mp solver g cs part c) :
    ∃ part' c', Accepts digest mp solver' g' cs' part' c' ∧ Twin R c c' ∧
      gapOf part' mp.assignmentFloorBp c'.edge = gapOf part mp.assignmentFloorBp c.edge := by
  obtain ⟨part', hp', c', hc', ht, htwins⟩ := ha.counterpart hR hpre h h' hlimits'
  have hsame := hkeeps part part' htwins c ha.mem c' hc' ht
  have hnone : limitReason g'.limitedRecordIds (lefts part') (rights part') mp.limits part' =
      none := by
    obtain ⟨-, hnodes, hedges⟩ := limitReason_none.mp ha.solved
    obtain ⟨hl, hr, hlength⟩ := htwins.sizes hR
    refine limitReason_none.mpr ⟨⟨by simp [hlimits'], fun b hb => ?_⟩,
      hl ▸ hr ▸ hnodes, hlength ▸ hedges⟩
    exact (h'.scoredAll.complete b (mem_eligible.mp ((partsOf_spec cs' _).mem hp' hb)).1).mpr
      (by simp [hlimits'])
  refine ⟨part', c', ha.transfer ht hp' hc' hnone ?_ hsame, ht, hsame⟩
  exact selected_of_gap hopt' h'.scoredSet h'.version hp' hnone
    (hsame ▸ Accepts.gap_pos hgap ha)

def renamedPair (f : String → String) (p : PairOutcome) : PairOutcome :=
  { p with leftId := f p.leftId, rightId := f p.rightId }

theorem weighted_renamed {f : String → String} (hf : Function.Injective f)
    (hgap : 1 ≤ mp.minimumGlobalGapBp) (hopt : Optimal solver.minimize)
    (hopt' : Optimal solver'.minimize) (hpre : Corresponding (fun i j => f i = j) pre pre')
    (h : Stages digest s mp cp d solver pre g cs a r)
    (h' : Stages digest s' mp cp d' solver' pre' g' cs' a' r') (hlimits : g.limitedRecordIds = [])
    (hlimits' : g'.limitedRecordIds = []) (p : PairOutcome) :
    Weighted r' p ↔ ∃ q, Weighted r q ∧ p = renamedPair f q := by
  have hR : Relator.BiUnique fun i j => f i = j := injective_biUnique hf
  have hkeeps := keepsGaps_injective hf mp.assignmentFloorBp
  have hpair : ∀ {part part' : List CandidateEvidence} {c c' : CandidateEvidence},
      Twin (fun i j => f i = j) c c' →
      gapOf part' mp.assignmentFloorBp c'.edge = gapOf part mp.assignmentFloorBp c.edge →
        pairOf mp part' c' = renamedPair f (pairOf mp part c) := by
    intro part part' c c' ht hsame
    have hleft : f c.leftId = c'.leftId := ht.edge.1
    have hright : f c.rightId = c'.rightId := ht.edge.2
    simp only [pairOf, renamedPair, hsame, ht.score, hleft, hright]
  constructor
  · intro hp
    obtain ⟨part', c', ha', rfl⟩ := (weighted_iff hopt' h').mp hp
    obtain ⟨part, c, ha, ht, hsame⟩ := accepts_corresponding (flip_biUnique hR) hkeeps.flip hgap
      hopt hpre.flip h' h hlimits ha'
    exact ⟨_, (weighted_iff hopt h).mpr ⟨part, c, ha, rfl⟩, hpair ht.flip hsame.symm⟩
  · rintro ⟨q, hq, rfl⟩
    obtain ⟨part, c, ha, rfl⟩ := (weighted_iff hopt h).mp hq
    obtain ⟨part', c', ha', ht, hsame⟩ := accepts_corresponding hR hkeeps hgap hopt' hpre h h'
      hlimits' ha
    exact (weighted_iff hopt' h').mpr ⟨part', c', ha', (hpair ht hsame).symm⟩

theorem Accepts.ties (hgap : 1 ≤ mp.minimumGlobalGapBp) (hopt' : Optimal solver'.minimize)
    (hs : ScoredSet cs) (hversion' : nonblank solver'.version = true)
    (ha : Accepts digest mp solver g cs part c) : Accepts digest mp solver' g cs part c :=
  ⟨ha.part_mem, ha.mem, ha.solved,
    selected_of_gap hopt' hs hversion' ha.part_mem ha.solved (Accepts.gap_pos hgap ha), ha.passes⟩

theorem ties_return (hgap : 1 ≤ mp.minimumGlobalGapBp) (hopt : Optimal solver.minimize)
    (hopt' : Optimal solver'.minimize) (h : Stages digest s mp cp d solver pre g cs a r)
    (hversion : solver'.version = mp.solverVersion) :
    ∃ r', reconcile digest s mp cp d solver' = .ok r' := by
  have hs := h.scoredSet
  have hgraph := h.graph hopt
  have htext : nonblank solver'.version = true := hversion ▸ mp.solverVersion_text
  have hids : ((partsOf cs mp.assignmentFloorBp).map fun p =>
      componentId digest (lefts p) (rights p)).Nodup := by
    have hreports : ((partsOf cs mp.assignmentFloorBp).map
        (report digest g.limitedRecordIds mp solver)).map (·.componentId) =
          (partsOf cs mp.assignmentFloorBp).map fun p =>
            componentId digest (lefts p) (rights p) := report_ids hs hopt h.version
    rw [← hreports]
    exact (hgraph.components.map _).nodup_iff.mp hgraph.distinct
  have htexts : (cs.map fun c => edgeText c.edge).Nodup :=
    (h.candidates.map _).nodup_iff.mp h.checked.edges_nodup
  obtain ⟨pairs, hds⟩ := h.diagnosed
  refine reconcile_total hopt' h.preprocessed h.generated h.scored hversion hids htexts ?_
    ⟨pairs, r.diagnostics, hds, h.reporting⟩
  intro a' ha' p hp l hl q hq hleft hright
  -- The pair is one that the first run compared.
  have hmem : p ∈ pre.pairs ++ acceptedPairs cs mp a := by
    rcases List.mem_append.mp hp with hp | hp
    · exact List.mem_append_left _ hp
    · obtain ⟨part, c, hacc, rfl⟩ := (accepted_iff hopt' hs htext
        (solveAssignment_spec hs hopt' htext ha')).mp (List.mem_map.mp hp)
      exact List.mem_append_right _ (List.mem_map.mpr ((accepted_iff hopt hs h.version hgraph).mpr
        ⟨part, c, Accepts.ties hgap hopt hs h.version hacc, rfl⟩))
  obtain ⟨x, hx, rfl⟩ := List.mem_map.mp (h.pairs.mem_iff.mpr hmem)
  obtain ⟨l₀, hl₀, q₀, hq₀, hleft₀, hright₀, hcompared⟩ := h.compared x hx
  obtain rfl := List.inj_on_of_nodup_map s.left_nodup hl₀ hl (hleft₀.symm.trans hleft)
  obtain rfl := List.inj_on_of_nodup_map s.right_nodup hq₀ hq (hright₀.symm.trans hright)
  exact hcompared

theorem weighted_ties (hgap : 1 ≤ mp.minimumGlobalGapBp) (hopt : Optimal solver.minimize)
    (hopt' : Optimal solver'.minimize) (h : Stages digest s mp cp d solver pre g cs a r)
    (hr' : reconcile digest s mp cp d solver' = .ok r') (p : PairOutcome) :
    Weighted r' p ↔ Weighted r p := by
  obtain ⟨pre', g', cs', a', h'⟩ := reconcile_stages hopt' hr'
  obtain rfl : pre' = pre := Except.ok.inj (h'.preprocessed.symm.trans h.preprocessed)
  obtain rfl : g' = g := Except.ok.inj (h'.generated.symm.trans h.generated)
  obtain rfl : cs' = cs := Except.ok.inj (h'.scored.symm.trans h.scored)
  rw [weighted_iff hopt' h', weighted_iff hopt h]
  constructor
  · rintro ⟨part, c, ha, rfl⟩
    exact ⟨part, c, Accepts.ties hgap hopt h.scoredSet h.version ha, rfl⟩
  · rintro ⟨part, c, ha, rfl⟩
    exact ⟨part, c, Accepts.ties hgap hopt' h.scoredSet h'.version ha, rfl⟩

/-- The candidates above the floor between the members of a component. -/
def componentEdges (r : EngineResult) (floorBp : ℕ) (y : AssignmentComponentEvidence) :
    Finset Edge :=
  edgesOf (r.candidates.filter fun c =>
    c.leftId ∈ y.leftIds ∧ c.rightId ∈ y.rightIds ∧ floorBp < c.scoreBp)

/-- A one-to-one selection in a component of the largest total utility. -/
structure OptimalMatching (r : EngineResult) (floorBp : ℕ) (y : AssignmentComponentEvidence)
    (M : Finset Edge) : Prop where
  within : M ⊆ componentEdges r floorBp y
  oneToOne : OneToOne M
  best : ∑ e ∈ M, utility r.candidates floorBp e =
    best (componentEdges r floorBp y) (utility r.candidates floorBp)

theorem weighted_optimal (hgap : 1 ≤ mp.minimumGlobalGapBp) (hopt : Optimal solver.minimize)
    (h : Stages digest s mp cp d solver pre g cs a r) {p : PairOutcome} (hp : Weighted r p) :
    ∃ y ∈ r.components, p.edge ∈ componentEdges r mp.assignmentFloorBp y ∧
      ∀ M, OptimalMatching r mp.assignmentFloorBp y M → p.edge ∈ M := by
  have hs := h.scoredSet
  obtain ⟨part, c, ha, rfl⟩ := (weighted_iff hopt h).mp hp
  have hpart := report_spec digest g.limitedRecordIds hs hopt h.version ha.part_mem
  have hedges : componentEdges r mp.assignmentFloorBp
      (gatedOf cs mp (report digest g.limitedRecordIds mp solver part)) = edgesOf part := by
    ext e
    simp only [componentEdges, mem_edgesOf]
    refine exists_congr fun b => and_congr_left fun _ => ?_
    rw [← mem_componentCandidates ha.part_mem hpart, componentCandidates, mem_sortOn,
      List.mem_filter, List.mem_filter, h.candidates.mem_iff]
    rfl
  have hutility : ∀ e ∈ edgesOf part, utility r.candidates mp.assignmentFloorBp e =
      utility part mp.assignmentFloorBp e := by
    intro e he
    rw [utility_perm h.candidates ((h.candidates.map _).nodup_iff.mpr hs.unique),
      part_utility hs ha.part_mem e he]
  refine ⟨_, h.components.mem_iff.mpr (List.mem_map_of_mem
    ((h.graph hopt).components.mem_iff.mpr (List.mem_map_of_mem ha.part_mem))), ?_, ?_⟩
  · rw [hedges]
    exact mem_edgesOf.mpr ⟨c, ha.mem, rfl⟩
  · intro M hM
    have hsub := hM.within
    have hbest := hM.best
    rw [hedges] at hsub hbest
    rw [best_congr hutility, Finset.sum_congr rfl fun e he => hutility e (hsub he)] at hbest
    exact mem_of_gap_pos (Accepts.gap_pos hgap ha) hsub hM.oneToOne hbest

/-- No cap ended the candidate search. -/
def SearchComplete (digest : Digest) (s : EngineSnapshot) (mp : MatchingPolicy)
    (d : DecisionInputs) : Prop :=
  ∀ pre g, preprocessReferences s d mp.referenceContract = .ok pre →
    generateCandidates digest pre mp = .ok g → g.complete = true

/-- Another optimal solver of the required version returns a result with the
same weighted pairs, a weighted pair is in every optimum of its component, and
a run of renamed inputs has the renamed weighted pairs. -/
theorem acceptance_determined (hgap : 1 ≤ mp.minimumGlobalGapBp) (hopt : Optimal solver.minimize)
    (hr : reconcile digest s mp cp d solver = .ok r) :
    (∀ solver', Optimal solver'.minimize → solver'.version = mp.solverVersion →
      ∃ r', reconcile digest s mp cp d solver' = .ok r' ∧
        ∀ p, Weighted r' p ↔ Weighted r p) ∧
    (∀ p, Weighted r p → ∃ y ∈ r.components, p.edge ∈ componentEdges r mp.assignmentFloorBp y ∧
      ∀ M, OptimalMatching r mp.assignmentFloorBp y M → p.edge ∈ M) ∧
    (SearchComplete digest s mp d → ∀ f : String → String, Function.Injective f →
      ∀ s' d', SameInputs (fun i j => f i = j) s d s' d' →
        ∀ solver', Optimal solver'.minimize →
          ∀ r', reconcile digest s' mp cp d' solver' = .ok r' →
            ∀ p, Weighted r' p ↔ ∃ q, Weighted r q ∧ p = renamedPair f q) := by
  obtain ⟨pre, g, cs, a, h⟩ := reconcile_stages hopt hr
  refine ⟨fun solver' hopt' hversion => ?_, fun p hp => weighted_optimal hgap hopt h hp,
    fun hcomplete f hf s' d' hsame solver' hopt' r' hr' => ?_⟩
  · obtain ⟨r', hr'⟩ := ties_return hgap hopt hopt' h hversion
    exact ⟨r', hr', weighted_ties hgap hopt hopt' h hr'⟩
  · obtain ⟨pre', g', cs', a', h'⟩ := reconcile_stages hopt' hr'
    have hR : Relator.BiUnique fun i j => f i = j := injective_biUnique hf
    have hpre := hsame.corresponding hR h.partitioned h'.partitioned
    have hdone := hcomplete pre g h.preprocessed h.generated
    have hroomy := roomy_corresponding hR hpre (h.gen.roomy.mpr hdone)
    exact weighted_renamed hf hgap hopt hopt' hpre h h' (h.gen.complete.mp hdone)
      (h'.gen.complete.mp (h'.gen.roomy.mp hroomy))

end Runs

theorem oneLeft_sorted : ["L1"].Pairwise (· < ·) := List.pairwise_singleton _ _

theorem rival_apart : ∀ i ∈ ["L1"], i ∉ ["R1", "R2"] := by decide

def rivalSnapshot : EngineSnapshot where
  leftRevisionId := "left-1"
  rightRevisionId := "right-1"
  left := [sampleRecord "L1" "ACME" left_text acme_text noon]
  right := [sampleRecord "R1" "ACME" right_text acme_text noon,
    sampleRecord "R2" "ACME" r2_text acme_text (noon+1800000000)]
  leftRevisionId_text := leftRevision_text
  rightRevisionId_text := rightRevision_text
  left_sorted := oneLeft_sorted
  right_sorted := twoRights_sorted
  apart := rival_apart

def rivalRun : Outcome EngineResult :=
  reconcile checksum rivalSnapshot (samplePolicy sampleLimits) sampleComparison noDecisions
    sampleSolver

theorem rivalRun_pairs : rivalRun.toOption.map (fun r => (weightedOf r.pairs).map (·.edge)) =
    some [("L1", "R1")] := by
  decide +kernel

def swap : String → String := Equiv.swap "R1" "R2"

def leftRival : MatchRecord := sampleRecord "L1" "ACME" left_text acme_text noon

def swappedLeft : MatchRecord := named leftRival "L1" left_text

def firstRight : MatchRecord := sampleRecord "R1" "ACME" right_text acme_text noon

def secondRight : MatchRecord := sampleRecord "R2" "ACME" r2_text acme_text (noon+1800000000)

theorem swappedLeft_sorted : (ids [swappedLeft]).Pairwise (· < ·) := List.pairwise_singleton _ _

theorem swappedRights_sorted :
    (ids [named secondRight "R1" right_text, named firstRight "R2" r2_text]).Pairwise (· < ·) := by
  decide

theorem swapped_apart : ∀ i ∈ ids [swappedLeft],
    i ∉ ids [named secondRight "R1" right_text, named firstRight "R2" r2_text] := by
  decide

def swappedSnapshot : EngineSnapshot where
  leftRevisionId := "left-1"
  rightRevisionId := "right-1"
  left := [swappedLeft]
  right := [named secondRight "R1" right_text, named firstRight "R2" r2_text]
  leftRevisionId_text := leftRevision_text
  rightRevisionId_text := rightRevision_text
  left_sorted := swappedLeft_sorted
  right_sorted := swappedRights_sorted
  apart := swapped_apart

theorem swapped_inputs :
    SameInputs (fun i j => swap i = j) rivalSnapshot noDecisions swappedSnapshot noDecisions := by
  have hleft : SameRecord (fun i j => swap i = j) leftRival swappedLeft :=
    ⟨Equiv.swap_apply_of_ne_of_ne (by decide) (by decide), _, _, rfl⟩
  have hfirst : SameRecord (fun i j => swap i = j) firstRight (named firstRight "R2" r2_text) :=
    ⟨Equiv.swap_apply_left _ _, _, _, rfl⟩
  have hsecond : SameRecord (fun i j => swap i = j) secondRight
      (named secondRight "R1" right_text) :=
    ⟨Equiv.swap_apply_right _ _, _, _, rfl⟩
  refine ⟨fun side r hr => ?_, fun side r hr => ?_, by simp [noDecisions], by simp [noDecisions],
    by simp [noDecisions, DecisionInputs.singleIds],
    by simp [noDecisions, DecisionInputs.singleIds], by simp [noDecisions],
    by simp [noDecisions]⟩
  · cases side with
    | left =>
      obtain rfl := List.mem_singleton.mp hr
      exact ⟨_, List.mem_singleton_self _, hleft⟩
    | right =>
      rcases List.mem_pair.mp hr with rfl | rfl
      · exact ⟨_, List.mem_pair.mpr (.inr rfl), hfirst⟩
      · exact ⟨_, List.mem_pair.mpr (.inl rfl), hsecond⟩
  · cases side with
    | left =>
      obtain rfl := List.mem_singleton.mp hr
      exact ⟨_, List.mem_singleton_self _, hleft⟩
    | right =>
      rcases List.mem_pair.mp hr with rfl | rfl
      · exact ⟨_, List.mem_pair.mpr (.inr rfl), hsecond⟩
      · exact ⟨_, List.mem_pair.mpr (.inl rfl), hfirst⟩

def swappedRun : Outcome EngineResult :=
  reconcile checksum swappedSnapshot (samplePolicy sampleLimits) sampleComparison noDecisions
    sampleSolver

theorem swappedRun_pairs : swappedRun.toOption.map (fun r => r.pairs.map (·.edge)) =
    some [("L1", "R2")] := by
  decide +kernel

theorem rival_complete : SearchComplete checksum rivalSnapshot (samplePolicy sampleLimits)
    noDecisions := by
  intro pre g hpre hg
  have hsearch : (do
      let pre ← preprocessReferences rivalSnapshot noDecisions .sharedMustAgree
      generateCandidates checksum pre (samplePolicy sampleLimits)).toOption.map
        CandidateGenerationResult.complete = some true := by
    decide +kernel
  obtain ⟨g', hg', hcomplete⟩ := ok_of_toOption hsearch
  obtain ⟨pre', hpre', hg'⟩ := bind_ok.mp hg'
  obtain rfl : pre' = pre := Except.ok.inj (hpre'.symm.trans hpre)
  obtain rfl : g' = g := Except.ok.inj (hg'.symm.trans hg)
  exact hcomplete

/-- The record at noon beats the one half an hour later, under either name. -/
theorem acceptance_determined_sample : ∃ r, rivalRun = .ok r ∧
    (∃ p, Weighted r p ∧ p.edge = ("L1", "R1") ∧
      ∃ y ∈ r.components, ∀ M, OptimalMatching r 5000 y M → p.edge ∈ M) ∧
    ∃ r', swappedRun = .ok r' ∧
      ∀ p, Weighted r' p ↔ ∃ q, Weighted r q ∧ p = renamedPair swap q := by
  obtain ⟨r, hr, hpairs⟩ := ok_of_toOption rivalRun_pairs
  obtain ⟨r', hr', -⟩ := ok_of_toOption swappedRun_pairs
  obtain ⟨x, hx, he⟩ := List.mem_map.mp (hpairs ▸ List.mem_singleton_self _)
  obtain ⟨hmem, horigin⟩ := List.mem_filter.mp hx
  have hgap : 1 ≤ (samplePolicy sampleLimits).minimumGlobalGapBp := by decide
  obtain ⟨-, hoptimal, hrenamed⟩ := acceptance_determined hgap sample_optimal hr
  have hw : Weighted r (bare x) := ⟨x, hmem, of_decide_eq_true horigin, rfl⟩
  obtain ⟨y, hy, -, hevery⟩ := hoptimal (bare x) hw
  exact ⟨r, hr, ⟨bare x, hw, he, y, hy, hevery⟩, r', hr', hrenamed rival_complete swap
    (Equiv.injective _) swappedSnapshot noDecisions swapped_inputs sampleSolver sample_optimal r'
    hr'⟩

end Workbench.Renaming
