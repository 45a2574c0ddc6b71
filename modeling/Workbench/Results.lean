import Workbench.Engine
import Workbench.Acceptance

/-!
# The checks of a result

A result checks itself when it is made and again when its diagnostics are
added. The checks do not depend on the order of anything it lists.
-/

set_option autoImplicit false

namespace Workbench.Results
open Workbench.Listing Workbench.Raising Workbench.Records Workbench.Evidence
open Workbench.Engine

structure Named (r : EngineResult) : Prop where
  leftRevision : nonblank r.leftRevisionId = true
  rightRevision : nonblank r.rightRevisionId = true
  matchingPolicy : nonblank r.matchingPolicyVersion = true
  comparisonPolicy : nonblank r.comparisonPolicyVersion = true
  engine : nonblank r.engineVersion = true
  solver : nonblank r.solverVersion = true

structure Reporting (r : EngineResult) (ds : List DecisionHealthDiagnostic) : Prop where
  keys : (ds.map (·.key)).Nodup
  records : ∀ x ∈ ds, x.recordId ∈ r.inputLeftIds ++ r.inputRightIds ∧
    ∀ i ∈ x.candidateId, i ∈ r.inputLeftIds ++ r.inputRightIds
  current : ∀ x ∈ ds, ∀ k ∈ x.candidateCurrentPairId, k ∈ r.pairs.map (·.key)

structure Consistent (r : EngineResult) : Prop where
  named : Named r
  left_nodup : r.inputLeftIds.Nodup
  right_nodup : r.inputRightIds.Nodup
  apart : Apart r.inputLeftIds r.inputRightIds
  pairLeft_nodup : (r.pairs.map (·.leftId)).Nodup
  pairRight_nodup : (r.pairs.map (·.rightId)).Nodup
  unpairedLeft_nodup : (on .left r.unpaired).Nodup
  unpairedRight_nodup : (on .right r.unpaired).Nodup
  outcomes_apart : Apart (r.pairs.map (·.leftId)) (on .left r.unpaired) ∧
    Apart (r.pairs.map (·.rightId)) (on .right r.unpaired)
  cover : SameMembers (r.pairs.map (·.leftId) ++ on .left r.unpaired) r.inputLeftIds ∧
    SameMembers (r.pairs.map (·.rightId) ++ on .right r.unpaired) r.inputRightIds
  edges_nodup : (r.candidates.map fun c => edgeText c.edge).Nodup
  edges_within : ∀ c ∈ r.candidates, c.leftId ∈ r.inputLeftIds ∧ c.rightId ∈ r.inputRightIds
  components_nodup : (r.components.map (·.componentId)).Nodup
  components_within : ∀ c ∈ r.components, c.leftIds ⊆ r.inputLeftIds ∧
    c.rightIds ⊆ r.inputRightIds
  proposals : ∀ p ∈ proposalsOf r.components,
    (lookup (·.edge) r.candidates p.edge).map (·.scoreBp) = some p.scoreBp
  weighted : SameMembers ((acceptedOf r.components).map (·.edge))
      ((weightedOf r.pairs).map (·.edge)) ∧
    ∀ p ∈ acceptedOf r.components, Agrees (weightedOf r.pairs) p

def ordered (r : EngineResult) : EngineResult :=
  { r with
    inputLeftIds := sortOn id r.inputLeftIds
    inputRightIds := sortOn id r.inputRightIds
    pairs := sortOn (·.order) r.pairs
    unpaired := sortOn (·.order) r.unpaired
    candidates := sortOn (fun c => edgeOrder c.edge) r.candidates
    components := sortOn (·.componentId) r.components
    diagnostics := sortOn (·.order) r.diagnostics }

theorem create_ok {r z : EngineResult} :
    r.create = .ok z ↔ Consistent r ∧ Reporting r r.diagnostics ∧ z = ordered r := by
  simp only [EngineResult.create, requiredText, unique, bind_ok, exists_require, pure_ok]
  constructor
  · rintro ⟨h1, h2, h3, h4, h5, h6, h7, h8, h9, h10, h11, h12, h13, h14, h15, h16, h17, h18, h19,
      h20, h21, h22, h23, h24, rfl⟩
    exact ⟨⟨⟨h1, h2, h3, h4, h5, h6⟩, h7, h8, h9, h12, h13, h14, h15, h16, h17, h18, h19, h20, h21,
      h22, h23⟩, ⟨h10, h11, h24⟩, rfl⟩
  · rintro ⟨⟨⟨h1, h2, h3, h4, h5, h6⟩, h7, h8, h9, h12, h13, h14, h15, h16, h17, h18, h19, h20,
      h21, h22, h23⟩, ⟨h10, h11, h24⟩, rfl⟩
    exact ⟨h1, h2, h3, h4, h5, h6, h7, h8, h9, h10, h11, h12, h13, h14, h15, h16, h17, h18, h19,
      h20, h21, h22, h23, h24, rfl⟩

structure Reordered (r q : EngineResult) : Prop where
  named : Named r → Named q
  left : r.inputLeftIds.Perm q.inputLeftIds
  right : r.inputRightIds.Perm q.inputRightIds
  pairs : r.pairs.Perm q.pairs
  unpaired : r.unpaired.Perm q.unpaired
  candidates : r.candidates.Perm q.candidates
  components : r.components.Perm q.components

theorem sameMembers_perm {l m l' m' : List String} (h : SameMembers l m) (hl : l.Perm l')
    (hm : m.Perm m') : SameMembers l' m' :=
  ⟨fun i hi => hm.mem_iff.mp (h.1 i (hl.mem_iff.mpr hi)),
    fun i hi => hl.mem_iff.mp (h.2 i (hm.mem_iff.mpr hi))⟩

theorem apart_perm {l m l' m' : List String} (h : Apart l m) (hl : l.Perm l') (hm : m.Perm m') :
    Apart l' m' :=
  fun i hi hj => h i (hl.mem_iff.mpr hi) (hm.mem_iff.mpr hj)

theorem Reordered.on {r q : EngineResult} (h : Reordered r q) (side : RecordSide) :
    (on side r.unpaired).Perm (on side q.unpaired) :=
  (h.unpaired.filter _).map _

theorem candidates_unique {cs : List CandidateEvidence}
    (h : (cs.map fun c => edgeText c.edge).Nodup) : (cs.map (·.edge)).Nodup :=
  nodup_map_of_nodup_map_comp CandidateEvidence.edge edgeText h

theorem Consistent.reordered {r q : EngineResult} (hc : Consistent r) (h : Reordered r q) :
    Consistent q := by
  have hproposals : (proposalsOf r.components).Perm (proposalsOf q.components) :=
    h.components.flatMap_right _
  have haccepted : (acceptedOf r.components).Perm (acceptedOf q.components) := hproposals.filter _
  have hweighted : (weightedOf r.pairs).Perm (weightedOf q.pairs) := h.pairs.filter _
  refine ⟨h.named hc.named, h.left.nodup_iff.mp hc.left_nodup, h.right.nodup_iff.mp hc.right_nodup,
    apart_perm hc.apart h.left h.right, (h.pairs.map _).nodup_iff.mp hc.pairLeft_nodup,
    (h.pairs.map _).nodup_iff.mp hc.pairRight_nodup, (h.on .left).nodup_iff.mp hc.unpairedLeft_nodup,
    (h.on .right).nodup_iff.mp hc.unpairedRight_nodup, ⟨?_, ?_⟩, ⟨?_, ?_⟩,
    (h.candidates.map _).nodup_iff.mp hc.edges_nodup, ?_,
    (h.components.map _).nodup_iff.mp hc.components_nodup, ?_, ?_, ?_, ?_⟩
  · exact apart_perm hc.outcomes_apart.1 (h.pairs.map _) (h.on .left)
  · exact apart_perm hc.outcomes_apart.2 (h.pairs.map _) (h.on .right)
  · exact sameMembers_perm hc.cover.1 ((h.pairs.map _).append (h.on .left)) h.left
  · exact sameMembers_perm hc.cover.2 ((h.pairs.map _).append (h.on .right)) h.right
  · intro c hcq
    obtain ⟨hl, hr⟩ := hc.edges_within c (h.candidates.mem_iff.mpr hcq)
    exact ⟨h.left.mem_iff.mp hl, h.right.mem_iff.mp hr⟩
  · intro c hcq
    obtain ⟨hl, hr⟩ := hc.components_within c (h.components.mem_iff.mpr hcq)
    exact ⟨fun i hi => h.left.mem_iff.mp (hl hi), fun i hi => h.right.mem_iff.mp (hr hi)⟩
  · intro p hp
    rw [← lookup_perm h.candidates (candidates_unique hc.edges_nodup)]
    exact hc.proposals p (hproposals.mem_iff.mpr hp)
  · exact ⟨fun e he => (hweighted.map _).mem_iff.mp
        (hc.weighted.1.1 e ((haccepted.map _).mem_iff.mpr he)),
      fun e he => (haccepted.map _).mem_iff.mp
        (hc.weighted.1.2 e ((hweighted.map _).mem_iff.mpr he))⟩
  · intro p hp x hx
    exact hc.weighted.2 p (haccepted.mem_iff.mpr hp) x (hweighted.mem_iff.mpr hx)

theorem ordered_reordered (r : EngineResult) : Reordered r (ordered r) :=
  ⟨fun h => ⟨h.leftRevision, h.rightRevision, h.matchingPolicy, h.comparisonPolicy, h.engine,
    h.solver⟩, (sortOn_perm _ _).symm, (sortOn_perm _ _).symm, (sortOn_perm _ _).symm,
    (sortOn_perm _ _).symm, (sortOn_perm _ _).symm, (sortOn_perm _ _).symm⟩

def diagnosed (r : EngineResult) (ds : List DecisionHealthDiagnostic) : EngineResult :=
  { ordered r with diagnostics := ds }

theorem Consistent.diagnosed {r : EngineResult} (h : Consistent r)
    (ds : List DecisionHealthDiagnostic) : Consistent (diagnosed r ds) := by
  have ho := h.reordered (ordered_reordered r)
  exact ⟨⟨ho.named.leftRevision, ho.named.rightRevision, ho.named.matchingPolicy,
    ho.named.comparisonPolicy, ho.named.engine, ho.named.solver⟩, ho.left_nodup, ho.right_nodup,
    ho.apart, ho.pairLeft_nodup, ho.pairRight_nodup, ho.unpairedLeft_nodup, ho.unpairedRight_nodup,
    ho.outcomes_apart, ho.cover, ho.edges_nodup, ho.edges_within, ho.components_nodup,
    ho.components_within, ho.proposals, ho.weighted⟩

end Workbench.Results
