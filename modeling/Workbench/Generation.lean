import Workbench.SearchSpace

/-!
# Candidate generation

What generation returns, given what the search kept. It fails in two ways
only: a window that cannot be represented, and two blocking passes whose
identity texts run together.
-/

set_option autoImplicit false

namespace Workbench.Generation
open Workbench.Listing Workbench.Calendar Workbench.Raising Workbench.Records
open Workbench.Evidence Workbench.References Workbench.Candidates Workbench.Json
open Workbench.SearchSpace

section Spread
variable {partitions : List Partition}

theorem mem_spread {q : Partition} (h : q ∈ propagateIncompletePartitions partitions) :
    ∃ p ∈ partitions, shape q = shape p := by
  obtain ⟨x, hx, rfl⟩ := List.mem_map.mp h
  refine ⟨x.1, List.fst_mem_of_mem_zipIdx hx, ?_⟩
  split_ifs <;> rfl

theorem spread_mem {p : Partition} (h : p ∈ partitions) :
    ∃ q ∈ propagateIncompletePartitions partitions,
      shape q = shape p ∧ (q.limitReason = none → p.limitReason = none) := by
  obtain ⟨i, hi, hp⟩ := List.mem_iff_getElem.mp h
  have hx : (p, i) ∈ partitions.zipIdx := by
    simp [List.mem_zipIdx_iff_getElem?, hp, List.getElem?_eq_getElem hi]
  refine ⟨_, List.mem_map_of_mem hx, ?_⟩
  split_ifs
  · exact ⟨rfl, fun hn => by simp [Partition.limited] at hn⟩
  · exact ⟨rfl, id⟩

theorem spread_shapes :
    (propagateIncompletePartitions partitions).map shape = partitions.map shape := by
  have hfst : partitions.map shape = partitions.zipIdx.map fun x => shape x.1 := by
    have h := List.zipIdx_map_fst 0 partitions
    conv_lhs => rw [← h]
    rw [List.map_map]
    rfl
  rw [hfst, propagateIncompletePartitions, List.map_map]
  refine List.map_congr_left fun x _ => ?_
  simp only [Function.comp_apply]
  split_ifs <;> rfl

theorem spread_none (h : ∀ p ∈ partitions, p.limitReason = none) :
    propagateIncompletePartitions partitions = partitions := by
  have hlimited : limitedIndices partitions = [] := by
    refine List.filter_eq_nil_iff.mpr fun i _ => ?_
    cases hp : partitions[i]? with
    | none => simp
    | some p => simp [h p (List.mem_of_getElem? hp)]
  have hflood : ∀ fuel, Flood.flood (touching partitions) fuel [] [] = [] := by
    intro fuel
    cases fuel <;> rfl
  have hconnected : connectedIndices partitions = [] := by
    rw [connectedIndices, hlimited, hflood]
  simp [propagateIncompletePartitions, hconnected]

end Spread

def evidenceOf (p : Partition) : CandidatePartitionEvidence :=
  ⟨p.partitionId, p.blockingPass, sortOn id p.leftIds, sortOn id p.rightIds,
    p.enumeratedEdgeCount, p.limitReason.isNone, p.limitReason⟩

def edgeOf (x : Edge × List String) : CandidateEdge := ⟨x.1.1, x.1.2, sortedSet x.2⟩

def generated (digest : Digest) (pre : ReferencePreprocessingResult) (policy : MatchingPolicy) :
    CandidateGenerationResult :=
  let evidence := (propagateIncompletePartitions (swept digest pre policy).2).map evidenceOf
  { candidates := sortOn (fun c => edgeOrder c.edge) ((swept digest pre policy).1.edges.map edgeOf)
    partitions := sortOn (·.partitionId) evidence
    limitedRecordIds := sortOn id (limitedIds evidence).dedup
    complete := evidence.all (·.complete) }

def PartitionsApart (digest : Digest) (pre : ReferencePreprocessingResult)
    (passes : List BlockingPassPolicy) : Prop :=
  ((jobs pre passes).map fun job => partitionId digest (blockingReason job.1) job.2).Nodup

instance (digest : Digest) (pre : ReferencePreprocessingResult)
    (passes : List BlockingPassPolicy) : Decidable (PartitionsApart digest pre passes) :=
  inferInstanceAs (Decidable (List.Nodup _))

theorem blockingReason_text (pass : BlockingPassPolicy) : nonblank (blockingReason pass) = true :=
  nonblank_append_right pass.version_text

theorem partitionId_text (digest : Digest) (reason : String) (key : Key) :
    nonblank (partitionId digest reason key) = true :=
  nonblank_append_left (by decide)

section Generated
variable {digest : Digest} {pre : ReferencePreprocessingResult} {policy : MatchingPolicy}

def Distinct (pre : ReferencePreprocessingResult) : Prop :=
  ∀ side, (ids (pre.remaining side)).Nodup

theorem group_nodup {pass : BlockingPassPolicy} {records : List MatchRecord} {key : Key}
    (h : (ids records).Nodup) : (ids (group pass records key)).Nodup := by
  rw [ids, group, nodup_map_sortOn]
  exact h.sublist (List.filter_sublist.map _)

theorem group_nonempty {pass : BlockingPassPolicy} {records : List MatchRecord} {key : Key}
    (h : ∃ r ∈ records, blockingKey pass r = some key) : ids (group pass records key) ≠ [] := by
  obtain ⟨r, hr⟩ := h
  exact List.ne_nil_of_mem (List.mem_map_of_mem (mem_group.mpr hr))

theorem partitionEvidence_ok (hd : Distinct pre) {p : Partition} {job : Job}
    (hj : job ∈ jobs pre policy.blockingPasses) (h : shape p = shape (jobPartition digest pre job)) :
    partitionEvidence p = .ok (evidenceOf p) := by
  obtain ⟨partId, reason, leftIds, rightIds, count, limit⟩ := p
  simp only [shape, jobPartition, freshPartition, Prod.mk.injEq] at h
  obtain ⟨rfl, rfl, rfl, rfl⟩ := h
  obtain ⟨hl, hr⟩ := mem_sharedKeys.mp (mem_jobs.mp hj).2
  simp only [partitionEvidence, CandidatePartitionEvidence.create, bind_ok, exists_require,
    pure_ok]
  refine ⟨partitionId_text digest _ _, blockingReason_text _,
    ⟨group_nonempty hl, group_nonempty hr⟩,
    ⟨group_nodup (hd .left), group_nodup (hd .right)⟩, ?_, ?_, rfl⟩
  · cases limit <;> simp
  · cases limit <;> simp

theorem candidateEdge_ok {st : Search} {limits : CapacityLimits}
    (h : Kept pre policy.blockingPasses limits st) {x : Edge × List String} (hx : x ∈ st.edges) :
    candidateEdge x = .ok (edgeOf x) := by
  have hc := h.compatible x.1 (List.mem_map_of_mem hx)
  obtain ⟨pass, hpass, l, hl, r, hr, he, -⟩ := hc
  obtain ⟨hne, hall⟩ := h.reasons x hx
  simp only [candidateEdge, CandidateEdge.create, bind_ok, exists_require, pure_ok]
  rw [he]
  refine ⟨l.observationId_text, r.observationId_text, ⟨hne, fun s hs => ?_⟩, ?_⟩
  · obtain ⟨pass', -, rfl⟩ := hall s hs
    exact blockingReason_text pass'
  · simp [edgeOf, he]

theorem edges_map (l : List (Edge × List String)) :
    (l.map edgeOf).map (·.edge) = l.map Prod.fst := by
  rw [List.map_map]
  rfl

theorem ids_of_shapes (partitions : List Partition) :
    (partitions.map evidenceOf).map (·.partitionId) =
      (partitions.map shape).map Prod.fst := by
  simp only [List.map_map]
  rfl

/-- Generation succeeds when every window it reaches is representable and
partition identities are distinct. -/
theorem generate_ok (hd : Distinct pre) {g : CandidateGenerationResult} :
    generateCandidates digest pre policy = .ok g ↔
      WindowsDefined digest pre policy ∧
        PartitionsApart digest pre policy.blockingPasses ∧ g = generated digest pre policy := by
  obtain ⟨hs, -⟩ := swept_spec digest pre policy
  have hevidence : (propagateIncompletePartitions (swept digest pre policy).2).mapM
      partitionEvidence =
        .ok ((propagateIncompletePartitions (swept digest pre policy).2).map evidenceOf) := by
    refine mapM_total fun q hq => ?_
    obtain ⟨p, hp, hqp⟩ := mem_spread hq
    have hshape := List.mem_map_of_mem (f := shape) hp
    rw [hs.shapes] at hshape
    obtain ⟨job, hj, hjob⟩ := List.mem_map.mp hshape
    exact partitionEvidence_ok hd hj (hqp.trans hjob.symm)
  have hedges : (swept digest pre policy).1.edges.mapM candidateEdge =
      .ok ((swept digest pre policy).1.edges.map edgeOf) :=
    mapM_total fun x hx => candidateEdge_ok hs.kept hx
  have hids : ((propagateIncompletePartitions (swept digest pre policy).2).map
      evidenceOf).map (·.partitionId) = (jobs pre policy.blockingPasses).map
        fun job => partitionId digest (blockingReason job.1) job.2 := by
    rw [ids_of_shapes, spread_shapes, hs.shapes, List.map_map]
    rfl
  have hnodup := hs.kept.nodup
  simp only [generateCandidates, bind_ok, search_ok]
  constructor
  · rintro ⟨x, ⟨hw, rfl⟩, evidence, he, edges, hx, hcreate⟩
    rw [hevidence, Except.ok.injEq] at he
    rw [hedges, Except.ok.injEq] at hx
    subst he hx
    simp only [CandidateGenerationResult.create, bind_ok, exists_require, pure_ok] at hcreate
    obtain ⟨-, hapart, -, -, -, rfl⟩ := hcreate
    rw [hids] at hapart
    exact ⟨hw, hapart, rfl⟩
  · rintro ⟨hw, hapart, rfl⟩
    refine ⟨_, ⟨hw, rfl⟩, _, hevidence, _, hedges, ?_⟩
    simp only [CandidateGenerationResult.create, bind_ok, exists_require, pure_ok]
    refine ⟨?_, ?_, List.nodup_dedup _, ?_, trivial, rfl⟩
    · rw [edges_map]
      exact hnodup
    · rw [hids]
      exact hapart
    · exact ⟨fun i hi => List.mem_dedup.mp hi, fun i hi => List.mem_dedup.mpr hi⟩

/-- What every candidate satisfies, what the caps may have cost, and when
they cost nothing. -/
structure Generated (pre : ReferencePreprocessingResult) (policy : MatchingPolicy)
    (g : CandidateGenerationResult) : Prop where
  nodup : (g.candidates.map (·.edge)).Nodup
  allowed : ∀ c ∈ g.candidates, c.edge ∉ prohibitedEdges pre
  compatible : ∀ c ∈ g.candidates, CompatibleEdge pre policy.blockingPasses c.edge
  reasons : ∀ c ∈ g.candidates,
    c.blockingReasons ≠ [] ∧ ∀ s ∈ c.blockingReasons, nonblank s = true
  limited_nodup : g.limitedRecordIds.Nodup
  limited : ∀ i, i ∈ g.limitedRecordIds ↔ ∃ p ∈ g.partitions, p.complete = false ∧ i ∈ p.members
  within : ∀ i ∈ g.limitedRecordIds, i ∈ ids pre.remainingLeft ∨ i ∈ ids pre.remainingRight
  full : ∀ e, CompatibleEdge pre policy.blockingPasses e → e ∉ prohibitedEdges pre →
    e ∈ g.candidates.map (·.edge) ∨ e.1 ∈ g.limitedRecordIds ∧ e.2 ∈ g.limitedRecordIds
  roomy : Roomy pre policy.blockingPasses policy.limits ↔ g.complete = true
  complete : g.complete = true ↔ g.limitedRecordIds = []

theorem mem_limitedIds {partitions : List CandidatePartitionEvidence} {i : String} :
    i ∈ limitedIds partitions ↔ ∃ p ∈ partitions, p.complete = false ∧ i ∈ p.members := by
  simp [limitedIds, and_assoc]

theorem mem_evidence_members {p : Partition} {i : String} :
    i ∈ (evidenceOf p).members ↔ i ∈ p.leftIds ∨ i ∈ p.rightIds := by
  simp [evidenceOf, CandidatePartitionEvidence.members]

theorem generated_complete :
    (generated digest pre policy).complete = true ↔
      (generated digest pre policy).limitedRecordIds = [] := by
  obtain ⟨hs, -⟩ := swept_spec digest pre policy
  constructor
  · intro hc
    refine List.eq_nil_iff_forall_not_mem.mpr fun i hi => ?_
    simp only [generated, mem_sortOn, List.mem_dedup, mem_limitedIds] at hi
    obtain ⟨p, hp, hincomplete, -⟩ := hi
    have hall := List.all_eq_true.mp hc p hp
    exact absurd hall (by simp [hincomplete])
  · intro hn
    refine List.all_eq_true.mpr fun e he => ?_
    by_contra hincomplete
    obtain ⟨q, hq, rfl⟩ := List.mem_map.mp he
    obtain ⟨p, hp, hqp⟩ := mem_spread hq
    have hshape := List.mem_map_of_mem (f := shape) hp
    rw [hs.shapes] at hshape
    obtain ⟨job, hj, hjob⟩ := List.mem_map.mp hshape
    obtain ⟨hl, -⟩ := mem_sharedKeys.mp (mem_jobs.mp hj).2
    obtain ⟨i, hi⟩ := List.exists_mem_of_ne_nil _ (group_nonempty hl)
    have hmem : i ∈ (generated digest pre policy).limitedRecordIds := by
      simp only [generated, mem_sortOn, List.mem_dedup, mem_limitedIds]
      refine ⟨_, he, by simpa using hincomplete, mem_evidence_members.mpr (.inl ?_)⟩
      have hleft := congrArg (fun x => x.2.2.1) (hqp.trans hjob.symm)
      simp only [shape, jobPartition, freshPartition] at hleft
      rw [hleft]
      exact hi
    rw [hn] at hmem
    simp at hmem

theorem generated_full (digest : Digest) {e : Edge} (hc : CompatibleEdge pre policy.blockingPasses e)
    (hno : e ∉ prohibitedEdges pre) :
    e ∈ keysOf (swept digest pre policy).1 ∨
      e.1 ∈ (generated digest pre policy).limitedRecordIds ∧
        e.2 ∈ (generated digest pre policy).limitedRecordIds := by
  obtain ⟨hs, -⟩ := swept_spec digest pre policy
  obtain ⟨pass, hpass, l, hl, r, hr, rfl, key, hlk, hrk, hwindow⟩ := hc
  have hj : (pass, key) ∈ jobs pre policy.blockingPasses :=
    mem_jobs.mpr ⟨hpass, mem_sharedKeys.mpr ⟨⟨l, hl, hlk⟩, r, hr, hrk⟩⟩
  obtain ⟨p, hp, hshape, hcov⟩ := hs.covered _ hj
  obtain ⟨q, hq, hqp, hlimit⟩ := spread_mem hp
  have hlg : l ∈ group pass pre.remainingLeft key := mem_group.mpr ⟨hl, hlk⟩
  have hrg : r ∈ group pass pre.remainingRight key := mem_group.mpr ⟨hr, hrk⟩
  by_cases hn : q.limitReason = none
  · exact .inl (hcov (hlimit hn) l hlg r (mem_near.mpr ⟨hrg, hwindow⟩) hno)
  · right
    have hparts := hqp.trans hshape
    simp only [shape, jobPartition, freshPartition, Prod.mk.injEq] at hparts
    have hincomplete : (evidenceOf q).complete = false := by
      simpa [evidenceOf] using Option.isSome_iff_ne_none.mpr hn
    simp only [generated, mem_sortOn, List.mem_dedup, mem_limitedIds]
    refine ⟨⟨_, List.mem_map_of_mem hq, hincomplete, mem_evidence_members.mpr (.inl ?_)⟩,
      ⟨_, List.mem_map_of_mem hq, hincomplete, mem_evidence_members.mpr (.inr ?_)⟩⟩
    · rw [hparts.2.2.1]
      exact List.mem_map_of_mem hlg
    · rw [hparts.2.2.2]
      exact List.mem_map_of_mem hrg

theorem mem_generated {e : Edge} :
    e ∈ (generated digest pre policy).candidates.map (·.edge) ↔
      e ∈ keysOf (swept digest pre policy).1 := by
  rw [keysOf, ← edges_map]
  exact ((sortOn_perm _ _).map _).mem_iff

theorem generated_roomy :
    Roomy pre policy.blockingPasses policy.limits ↔
      (generated digest pre policy).complete = true := by
  obtain ⟨hs, hroomy⟩ := swept_spec digest pre policy
  constructor
  · intro h
    have hnone := hroomy h
    refine List.all_eq_true.mpr fun e he => ?_
    rw [spread_none hnone] at he
    obtain ⟨p, hp, rfl⟩ := List.mem_map.mp he
    simp [evidenceOf, hnone p hp]
  · intro h
    have hnil := generated_complete.mp h
    refine hs.kept.roomy fun e hc hno => ?_
    rcases generated_full digest hc hno with hk | ⟨hlim, -⟩
    · exact hk
    · rw [hnil] at hlim
      simp at hlim

theorem generated_within (digest : Digest) (policy : MatchingPolicy) :
    (generated digest pre policy).candidates.length ≤ policy.limits.maxRunCandidateEdges := by
  obtain ⟨hs, -⟩ := swept_spec digest pre policy
  calc (generated digest pre policy).candidates.length
      = (swept digest pre policy).1.edges.length := by simp [generated]
    _ ≤ policy.limits.maxRunCandidateEdges := hs.kept.run_le

theorem generated_spec (digest : Digest) (policy : MatchingPolicy) :
    Generated pre policy (generated digest pre policy) := by
  obtain ⟨hs, -⟩ := swept_spec digest pre policy
  have hk := hs.kept
  have hedge : ∀ c ∈ (generated digest pre policy).candidates,
      c.edge ∈ keysOf (swept digest pre policy).1 :=
    fun c hc => mem_generated.mp (List.mem_map_of_mem hc)
  refine ⟨?_, fun c hc => hk.allowed _ (hedge c hc), fun c hc => hk.compatible _ (hedge c hc),
    ?_, ?_, ?_, ?_, ?_, generated_roomy, generated_complete⟩
  · rw [generated, nodup_map_sortOn, edges_map]
    exact hk.nodup
  · intro c hc
    simp only [generated, mem_sortOn] at hc
    obtain ⟨x, hx, rfl⟩ := List.mem_map.mp hc
    obtain ⟨hne, hall⟩ := hk.reasons x hx
    obtain ⟨s, hs'⟩ := List.exists_mem_of_ne_nil _ hne
    refine ⟨List.ne_nil_of_mem ((mem_sortedSet x.2 s).mpr hs'), fun t ht => ?_⟩
    obtain ⟨pass, -, rfl⟩ := hall t ((mem_sortedSet x.2 t).mp ht)
    exact blockingReason_text pass
  · simpa [generated] using (sortOn_perm id _).nodup_iff.mpr (List.nodup_dedup _)
  · intro i
    simp only [generated, mem_sortOn, List.mem_dedup]
    exact mem_limitedIds
  · intro i hi
    simp only [generated, mem_sortOn, List.mem_dedup, mem_limitedIds] at hi
    obtain ⟨e, he, -, hmem⟩ := hi
    obtain ⟨q, hq, rfl⟩ := List.mem_map.mp he
    obtain ⟨p, hp, hqp⟩ := mem_spread hq
    have hshape := List.mem_map_of_mem (f := shape) hp
    rw [hs.shapes] at hshape
    obtain ⟨job, -, hjob⟩ := List.mem_map.mp hshape
    have hparts := hqp.trans hjob.symm
    simp only [shape, jobPartition, freshPartition, Prod.mk.injEq] at hparts
    have hgroup : ∀ records : List MatchRecord,
        i ∈ ids (group job.1 records job.2) → i ∈ ids records := by
      intro records h
      obtain ⟨r, hr, rfl⟩ := List.mem_map.mp h
      exact List.mem_map_of_mem (mem_group.mp hr).1
    rcases mem_evidence_members.mp hmem with hl | hr
    · rw [hparts.2.2.1] at hl
      exact .inl (hgroup _ hl)
    · rw [hparts.2.2.2] at hr
      exact .inr (hgroup _ hr)
  · intro e hc hno
    rw [mem_generated]
    exact generated_full digest hc hno

end Generated

/-- No two passes whose identity texts coincide share a key. -/
def ReasonsApart (pre : ReferencePreprocessingResult) (passes : List BlockingPassPolicy) : Prop :=
  ∀ pass ∈ passes, ∀ pass' ∈ passes, blockingReason pass = blockingReason pass' → pass ≠ pass' →
    ∀ key ∈ sharedKeys pass pre.remainingLeft pre.remainingRight,
      key ∉ sharedKeys pass' pre.remainingLeft pre.remainingRight

instance (pre : ReferencePreprocessingResult) (passes : List BlockingPassPolicy) :
    Decidable (ReasonsApart pre passes) :=
  inferInstanceAs (Decidable (∀ pass ∈ passes, ∀ pass' ∈ passes, _ → _ → ∀ key ∈ _, _))

def partitionTexts (left right : List MatchRecord) (passes : List BlockingPassPolicy) :
    List String :=
  passes.flatMap fun pass =>
    ((left ++ right).filterMap (blockingKey pass)).map (partitionPayload (blockingReason pass))

theorem textOrNull_injective : Function.Injective textOrNull := by
  intro a b h
  cases a <;> cases b <;> simp_all [textOrNull]

theorem keyValue_injective : Function.Injective keyValue := by
  intro a b h
  simp only [keyValue, Value.array.injEq, List.cons.injEq, and_true] at h
  obtain ⟨h1, h2, h3, h4⟩ := h
  exact Prod.ext (textOrNull_injective h1) (Prod.ext (textOrNull_injective h2)
    (Prod.ext (textOrNull_injective h3) (textOrNull_injective h4)))

theorem partitionPayload_inj {reason reason' : String} {key key' : Key}
    (h : partitionPayload reason key = partitionPayload reason' key') :
    reason = reason' ∧ key = key' := by
  have hv := dumps_injective h
  simp only [Value.object.injEq, List.cons.injEq, Prod.mk.injEq, true_and, and_true,
    Value.text.injEq] at hv
  exact ⟨hv.1, keyValue_injective hv.2⟩

theorem partitionId_inj {digest : Digest} {texts : List String} (hc : CollisionFree digest texts)
    {reason reason' : String} {key key' : Key} (h : partitionPayload reason key ∈ texts)
    (h' : partitionPayload reason' key' ∈ texts)
    (he : partitionId digest reason key = partitionId digest reason' key') :
    reason = reason' ∧ key = key' := by
  have hlist := congrArg String.toList he
  simp only [partitionId, String.toList_append] at hlist
  exact partitionPayload_inj (hc _ h _ h' (String.toList_injective (List.append_cancel_left hlist)))

theorem jobs_nodup {pre : ReferencePreprocessingResult} {passes : List BlockingPassPolicy}
    (h : passes.Nodup) : (jobs pre passes).Nodup := by
  refine List.nodup_flatMap.mpr ⟨fun pass _ => ?_, ?_⟩
  · refine List.Nodup.map (fun a b hab => (Prod.mk.inj hab).2) ?_
    exact (sortOn_perm _ _).nodup_iff.mpr ((List.nodup_dedup _).filter _)
  · refine h.imp fun {a b} hab => ?_
    rw [Function.onFun, List.disjoint_left]
    rintro ⟨p, key⟩ hp hq
    simp only [List.mem_map, Prod.mk.injEq] at hp hq
    obtain ⟨_, _, rfl, _⟩ := hp
    obtain ⟨_, _, rfl, _⟩ := hq
    exact hab rfl

theorem passes_nodup (policy : MatchingPolicy) : policy.blockingPasses.Nodup :=
  policy.passes_unique.of_map _

theorem mem_partitionTexts {pre : ReferencePreprocessingResult} {passes : List BlockingPassPolicy}
    {left right : List MatchRecord} (hl : ∀ r ∈ pre.remainingLeft, r ∈ left)
    {job : Job} (hj : job ∈ jobs pre passes) :
    partitionPayload (blockingReason job.1) job.2 ∈ partitionTexts left right passes := by
  obtain ⟨hp, hk⟩ := mem_jobs.mp hj
  obtain ⟨⟨l, hl', hlk⟩, -⟩ := mem_sharedKeys.mp hk
  refine List.mem_flatMap.mpr ⟨job.1, hp, List.mem_map_of_mem ?_⟩
  exact List.mem_filterMap.mpr ⟨l, List.mem_append_left _ (hl l hl'), hlk⟩

/-- Without collisions, two partitions share their identity only when the
passes' identity texts run together. -/
theorem partitions_apart {digest : Digest} {pre : ReferencePreprocessingResult}
    {passes : List BlockingPassPolicy} {left right : List MatchRecord}
    (hc : CollisionFree digest (partitionTexts left right passes)) (hpasses : passes.Nodup)
    (hl : ∀ r ∈ pre.remainingLeft, r ∈ left) :
    PartitionsApart digest pre passes ↔ ReasonsApart pre passes := by
  constructor
  · intro h pass hp pass' hp' hreason hne key hk hk'
    have hj : (pass, key) ∈ jobs pre passes := mem_jobs.mpr ⟨hp, hk⟩
    have hj' : (pass', key) ∈ jobs pre passes := mem_jobs.mpr ⟨hp', hk'⟩
    have heq := List.inj_on_of_nodup_map h hj hj' (by simp [hreason])
    exact hne (Prod.mk.inj heq).1
  · intro h
    refine (jobs_nodup hpasses).map_on ?_
    intro job hj job' hj' he
    obtain ⟨hreason, hkey⟩ :=
      partitionId_inj hc (mem_partitionTexts hl hj) (mem_partitionTexts hl hj') he
    obtain ⟨hp, hk⟩ := mem_jobs.mp hj
    obtain ⟨hp', hk'⟩ := mem_jobs.mp hj'
    by_contra hne
    have hpass : job.1 ≠ job'.1 := fun hpass => hne (Prod.ext hpass hkey)
    exact h _ hp _ hp' hreason hpass _ hk (hkey ▸ hk')

section Roomy
variable {pre : ReferencePreprocessingResult} {passes : List BlockingPassPolicy}
  {limits : CapacityLimits}

def AllWindows (pre : ReferencePreprocessingResult) (passes : List BlockingPassPolicy) : Prop :=
  ∀ job ∈ jobs pre passes, ∀ l ∈ group job.1 pre.remainingLeft job.2, WindowDefined job.1 l

theorem leftsDefined_roomy (ha : Roomy pre passes limits) {pass : BlockingPassPolicy}
    (hp : pass ∈ passes) {lefts rights : List MatchRecord}
    (hall : ∀ l ∈ lefts, ∀ r ∈ near pass rights l,
      CompatibleEdge pre passes (l.observationId, r.observationId))
    {st : Search} (h : Kept pre passes limits st) (p : Partition) :
    LeftsDefined (prohibitedEdges pre) limits pass rights lefts st p ↔
      ∀ l ∈ lefts, WindowDefined pass l := by
  induction lefts generalizing st p with
  | nil => simp [LeftsDefined]
  | cons l rest ih =>
    obtain ⟨st', p', stop, he, hk, -, -, -, -, hroomy⟩ :=
      enumerateRights_spec hp (hall l (by simp)) h p
    have hrest := ih (fun q hq => hall q (by simp [hq])) hk p'
    simp only [LeftsDefined, he, hroomy ha, forall_true_left, hrest, List.forall_mem_cons]

theorem jobsDefined_roomy (ha : Roomy pre passes limits) {digest : Digest} {rest : List Job}
    (hrest : ∀ job ∈ rest, job.1 ∈ passes) {done : List Job} {acc : Search × List Partition}
    (h : Swept digest pre passes limits done acc) (hrun : acc.1.runLimited = false)
    (hnone : ∀ p ∈ acc.2, p.limitReason = none) :
    JobsDefined digest pre limits rest acc ↔
      ∀ job ∈ rest, ∀ l ∈ group job.1 pre.remainingLeft job.2, WindowDefined job.1 l := by
  induction rest generalizing done acc with
  | nil => simp [JobsDefined]
  | cons job rest ih =>
    have hjob := hrest job (by simp)
    obtain ⟨hstep, hroomy⟩ := sweepJob_spec h hjob
    obtain ⟨hrun', hnone'⟩ := hroomy ha hrun hnone
    have htail := ih (fun j hj => hrest j (by simp [hj])) hstep hrun' hnone'
    simp only [JobsDefined, JobDefined, hrun, forall_true_left, htail, List.forall_mem_cons,
      leftsDefined_roomy ha hjob (group_compatible hjob job.2) h.kept]

theorem windows_roomy {digest : Digest} {policy : MatchingPolicy}
    (ha : Roomy pre policy.blockingPasses policy.limits) :
    WindowsDefined digest pre policy ↔ AllWindows pre policy.blockingPasses := by
  have hstart : Swept digest pre policy.blockingPasses policy.limits [] (Search.start, []) :=
    ⟨kept_start pre policy.blockingPasses policy.limits, rfl, fun job hj => by simp at hj⟩
  exact jobsDefined_roomy ha (fun _ hj => (mem_jobs.mp hj).1) hstart rfl (by simp)

end Roomy

end Workbench.Generation
