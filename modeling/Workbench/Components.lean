import Workbench.Assignment
import Workbench.Matching

/-!
# Components of the candidate graph

The components of the code are the classes of the candidates linked by common
endpoints. They share no endpoint, so the optimum over the whole graph is the
sum of theirs, and what a candidate is worth is decided inside its own.
-/

set_option autoImplicit false

namespace Workbench.Components
open Workbench.Listing Workbench.Raising Workbench.Records Workbench.Evidence
open Workbench.Candidates Workbench.Assignment

def Touch (c d : CandidateEvidence) : Prop := c.leftId = d.leftId ∨ c.rightId = d.rightId

def Linked (cs : List CandidateEvidence) : CandidateEvidence → CandidateEvidence → Prop :=
  Relation.ReflTransGen fun c d => d ∈ cs ∧ Touch c d

def ApartParts (p q : List CandidateEvidence) : Prop :=
  ∀ c ∈ p, ∀ d ∈ q, c.leftId ≠ d.leftId ∧ c.rightId ≠ d.rightId

structure Partitioned (cs : List CandidateEvidence) (parts : List (List CandidateEvidence)) :
    Prop where
  perm : parts.flatten.Perm cs
  nonempty : ∀ p ∈ parts, p ≠ []
  linked : ∀ p ∈ parts, ∀ c ∈ p, ∀ d, d ∈ p ↔ Linked cs c d
  apart : parts.Pairwise ApartParts

section Indices
variable {cs : List CandidateEvidence}

theorem mem_adjacent {i j : ℕ} (hi : i < cs.length) :
    j ∈ adjacent cs i ↔ ∃ hj : j < cs.length, Touch cs[i] cs[j] := by
  simp only [adjacent, sharing, List.mem_append, List.mem_filter, List.mem_range,
    decide_eq_true_eq, List.getElem?_eq_getElem hi, Option.map_some, Touch]
  constructor
  · rintro (⟨hj, h⟩ | ⟨hj, h⟩)
    · rw [List.getElem?_eq_getElem hj, Option.map_some, Option.some.injEq] at h
      exact ⟨hj, .inl h⟩
    · rw [List.getElem?_eq_getElem hj, Option.map_some, Option.some.injEq] at h
      exact ⟨hj, .inr h⟩
  · rintro ⟨hj, h | h⟩
    · exact .inl ⟨hj, by rw [List.getElem?_eq_getElem hj, Option.map_some, h]⟩
    · exact .inr ⟨hj, by rw [List.getElem?_eq_getElem hj, Option.map_some, h]⟩

theorem reach_linked {i j : ℕ} (hi : i < cs.length) (h : Flood.Reach (adjacent cs) i j) :
    ∃ hj : j < cs.length, Linked cs cs[i] cs[j] := by
  induction h with
  | refl => exact ⟨hi, Relation.ReflTransGen.refl⟩
  | tail _ hk ih =>
    obtain ⟨hj, hlinked⟩ := ih
    obtain ⟨hk', htouch⟩ := (mem_adjacent hj).mp hk
    exact ⟨hk', hlinked.tail ⟨List.getElem_mem hk', htouch⟩⟩

theorem linked_reach {i : ℕ} (hi : i < cs.length) {d : CandidateEvidence}
    (h : Linked cs cs[i] d) :
    ∃ j, ∃ hj : j < cs.length, cs[j] = d ∧ Flood.Reach (adjacent cs) i j := by
  induction h with
  | refl => exact ⟨i, hi, rfl, Relation.ReflTransGen.refl⟩
  | tail _ hk ih =>
    obtain ⟨j, hj, rfl, hreach⟩ := ih
    obtain ⟨hmem, htouch⟩ := hk
    obtain ⟨k, hk', rfl⟩ := List.mem_iff_getElem.mp hmem
    exact ⟨k, hk', rfl, hreach.tail ((mem_adjacent hj).mpr ⟨hk', htouch⟩)⟩

theorem mem_componentOf {indices : List ℕ} {c : CandidateEvidence} :
    c ∈ componentOf cs indices ↔ ∃ i ∈ indices, ∃ hi : i < cs.length, cs[i] = c := by
  simp only [componentOf, List.mem_filterMap, mem_sortOn, List.getElem?_eq_some_iff]

theorem classes_indices (cs : List CandidateEvidence) :
    Flood.Classes (adjacent cs) (List.range cs.length) (List.range cs.length)
      (Flood.classes (adjacent cs) (List.range cs.length) (firstUnvisited cs) cs.length
        (List.range cs.length)) := by
  have hadj : ∀ i ∈ List.range cs.length, ∀ j ∈ adjacent cs i,
      ∃ hi : i < cs.length, ∃ hj : j < cs.length, Touch cs[i] cs[j] := by
    intro i hi j hj
    have hi := List.mem_range.mp hi
    exact ⟨hi, (mem_adjacent hi).mp hj⟩
  refine Flood.classes_spec _ List.nodup_range ?_ ?_ _ ?_ ?_ _ _ (fun _ h => h) (by simp)
  · intro i hi j hj
    obtain ⟨-, hj, -⟩ := hadj i hi j hj
    exact List.mem_range.mpr hj
  · intro i hi j hj
    obtain ⟨hi, hj, h⟩ := hadj i hi j hj
    exact (mem_adjacent hj).mpr ⟨hi, h.imp Eq.symm Eq.symm⟩
  · intro l a h
    exact (mem_sortOn _ l a).mp (List.mem_of_mem_head? h)
  · intro l h
    rw [firstUnvisited, List.head?_eq_none_iff, sortOn_eq_nil] at h
    exact h

theorem entries_range (cs : List CandidateEvidence) :
    (List.range cs.length).filterMap (cs[·]?) = cs := by
  induction cs with
  | nil => rfl
  | cons c cs ih =>
    rw [List.length_cons, List.range_succ_eq_map, List.filterMap_cons, List.filterMap_map]
    exact congrArg (c::·) ih

theorem apart_symm {p q : List CandidateEvidence} (h : ApartParts p q) : ApartParts q p :=
  fun c hc d hd => ⟨(h d hd c hc).1.symm, (h d hd c hc).2.symm⟩

instance : Std.Symm ApartParts := ⟨fun _ _ h => apart_symm h⟩

/-- The components are the classes of linked candidates. -/
theorem components_spec (cs : List CandidateEvidence) : Partitioned cs (connectedComponents cs) := by
  have hclasses := classes_indices cs
  generalize hks : Flood.classes (adjacent cs) (List.range cs.length) (firstUnvisited cs)
    cs.length (List.range cs.length) = ks at hclasses
  have hperm : (connectedComponents cs).Perm (ks.map (componentOf cs)) := by
    rw [connectedComponents, hks]
    exact sortOn_perm _ _
  have hlt : ∀ k ∈ ks, ∀ i ∈ k, i < cs.length :=
    fun k hk i hi => List.mem_range.mp (hclasses.within k hk i hi)
  have hmem : ∀ p ∈ connectedComponents cs, ∃ k ∈ ks, componentOf cs k = p :=
    fun p hp => List.mem_map.mp (hperm.mem_iff.mp hp)
  refine ⟨?_, ?_, ?_, ?_⟩
  · have hindices : ks.flatten.Perm (List.range cs.length) := by
      refine (List.perm_ext_iff_of_nodup ?_ List.nodup_range).mpr fun i => ?_
      · refine List.nodup_flatten.mpr ⟨hclasses.nodup, ?_⟩
        exact hclasses.apart.imp fun h => List.disjoint_left.mpr h
      · rw [List.mem_flatten]
        constructor
        · rintro ⟨k, hk, hi⟩
          exact hclasses.within k hk i hi
        · intro hi
          exact hclasses.covers i hi
    have hflat : (ks.map (componentOf cs)).flatten.Perm
        (ks.flatten.filterMap (cs[·]?)) := by
      rw [List.filterMap_flatten]
      refine List.Perm.flatten_congr ?_
      refine List.forall₂_map_left_iff.mpr (List.forall₂_map_right_iff.mpr ?_)
      refine List.forall₂_same.mpr fun k _ => ?_
      exact (sortOn_perm id k).filterMap _
    refine (hperm.flatten.trans hflat).trans ((hindices.filterMap _).trans ?_)
    rw [entries_range]
  · intro p hp
    obtain ⟨k, hk, rfl⟩ := hmem p hp
    obtain ⟨i, hi⟩ := List.exists_mem_of_ne_nil _ (hclasses.nonempty k hk)
    exact List.ne_nil_of_mem (mem_componentOf.mpr ⟨i, hi, hlt k hk i hi, rfl⟩)
  · intro p hp c hc d
    obtain ⟨k, hk, rfl⟩ := hmem p hp
    obtain ⟨i, hi, hic, rfl⟩ := mem_componentOf.mp hc
    constructor
    · intro hd
      obtain ⟨j, hj, _, rfl⟩ := mem_componentOf.mp hd
      exact (reach_linked hic ((hclasses.reach k hk i hi j).mp hj)).2
    · intro hd
      obtain ⟨j, hj, rfl, hreach⟩ := linked_reach hic hd
      exact mem_componentOf.mpr ⟨j, (hclasses.reach k hk i hi j).mpr hreach, hj, rfl⟩
  · refine (hperm.pairwise_iff fun h => apart_symm h).mpr (List.pairwise_map.mpr ?_)
    refine List.Pairwise.imp_of_mem ?_ hclasses.apart
    intro k m hk hm hkm c hc d hd
    obtain ⟨i, hi, hic, rfl⟩ := mem_componentOf.mp hc
    obtain ⟨j, hj, hjc, rfl⟩ := mem_componentOf.mp hd
    have hno : ¬Touch cs[i] cs[j] := by
      intro htouch
      have hreach : Flood.Reach (adjacent cs) i j :=
        Relation.ReflTransGen.single ((mem_adjacent hic).mpr ⟨hjc, htouch⟩)
      exact hkm j ((hclasses.reach k hk i hi j).mpr hreach) hj
    exact not_or.mp hno

end Indices

section Parts
variable {cs : List CandidateEvidence} {parts : List (List CandidateEvidence)}
  {part : List CandidateEvidence}

theorem Partitioned.mem (h : Partitioned cs parts) (hp : part ∈ parts) {c : CandidateEvidence}
    (hc : c ∈ part) : c ∈ cs :=
  h.perm.mem_iff.mp (List.mem_flatten.mpr ⟨part, hp, hc⟩)

theorem Partitioned.exists_mem (h : Partitioned cs parts) {c : CandidateEvidence} (hc : c ∈ cs) :
    ∃ part ∈ parts, c ∈ part :=
  List.mem_flatten.mp (h.perm.mem_iff.mpr hc)

theorem Partitioned.unique (h : Partitioned cs parts) (hcs : (cs.map (·.edge)).Nodup)
    (hp : part ∈ parts) : (part.map (·.edge)).Nodup := by
  have hflat : (parts.flatten.map (·.edge)).Nodup := (h.perm.map _).nodup_iff.mpr hcs
  exact hflat.sublist ((List.sublist_flatten_of_mem hp).map _)

theorem Partitioned.closed (h : Partitioned cs parts) (hp : part ∈ parts)
    {c d : CandidateEvidence} (hc : c ∈ part) (hd : d ∈ cs) (ht : Touch c d) : d ∈ part :=
  (h.linked part hp c hc d).mpr (Relation.ReflTransGen.single ⟨hd, ht⟩)

theorem Partitioned.same (h : Partitioned cs parts) {other : List CandidateEvidence}
    (hp : part ∈ parts) (ho : other ∈ parts) {c d : CandidateEvidence} (hc : c ∈ part)
    (hd : d ∈ other) (ht : Touch c d) : part = other := by
  by_contra hne
  exact not_or.mpr (h.apart.forall hp ho hne c hc d hd) ht

end Parts

end Workbench.Components
