import Mathlib.Data.List.Sort
import Mathlib.Data.List.Nodup
import Mathlib.Data.List.Dedup
import Mathlib.Data.Prod.Lex
import Mathlib.Data.String.Basic
import Mathlib.Data.Finset.Basic

/-!
# Keyed sorting and keyed tables

Sorting by a key, lists whose keys are distinct, and small tables kept as
lists of keyed entries. A sorted list is determined by its members once the
keys are distinct, so two enumerations of one set sort to the same list.
-/

set_option autoImplicit false

namespace Workbench.Listing

variable {α β κ : Type*}

section Sorting
variable [LinearOrder κ]

def sortOn (key : α → κ) (l : List α) : List α :=
  l.insertionSort (fun a b => key a ≤ key b)

theorem sortOn_perm (key : α → κ) (l : List α) : (sortOn key l).Perm l :=
  List.perm_insertionSort _ l

@[simp] theorem mem_sortOn (key : α → κ) (l : List α) (a : α) :
    a ∈ sortOn key l ↔ a ∈ l :=
  (sortOn_perm key l).mem_iff

@[simp] theorem length_sortOn (key : α → κ) (l : List α) :
    (sortOn key l).length = l.length :=
  (sortOn_perm key l).length_eq

@[simp] theorem sortOn_eq_nil (key : α → κ) (l : List α) : sortOn key l = [] ↔ l = [] := by
  rw [← List.length_eq_zero_iff, length_sortOn, List.length_eq_zero_iff]

theorem sortOn_pairwise (key : α → κ) (l : List α) :
    (sortOn key l).Pairwise (fun a b => key a ≤ key b) := by
  have : Std.Total (fun a b : α => key a ≤ key b) := ⟨fun a b => le_total (key a) (key b)⟩
  have : IsTrans α (fun a b : α => key a ≤ key b) := ⟨fun _ _ _ h k => le_trans h k⟩
  exact List.pairwise_insertionSort (fun a b => key a ≤ key b) l

theorem sortOn_eq_of_perm (key : α → κ) {l m : List α} (h : l.Perm m)
    (hd : (l.map key).Nodup) : sortOn key l = sortOn key m := by
  apply @List.Perm.eq_of_pairwise α fun a b => key a ≤ key b
  · intro a b ha hb hab hba
    have ha' : a ∈ l := (mem_sortOn key l a).mp ha
    have hb' : b ∈ l := h.mem_iff.mpr ((mem_sortOn key m b).mp hb)
    exact List.inj_on_of_nodup_map hd ha' hb' (le_antisymm hab hba)
  · exact sortOn_pairwise key l
  · exact sortOn_pairwise key m
  · exact ((sortOn_perm key l).trans h).trans (sortOn_perm key m).symm

theorem sortOn_eq_self (key : α → κ) {l : List α}
    (h : l.Pairwise (fun a b => key a ≤ key b)) : sortOn key l = l :=
  List.Pairwise.insertionSort_eq h

theorem sortOn_idem (key : α → κ) (l : List α) : sortOn key (sortOn key l) = sortOn key l :=
  sortOn_eq_self key (sortOn_pairwise key l)

theorem nodup_map_sortOn (key : α → κ) (f : α → β) (l : List α) :
    ((sortOn key l).map f).Nodup ↔ (l.map f).Nodup :=
  ((sortOn_perm key l).map f).nodup_iff

end Sorting

def sortedSet [LinearOrder κ] (l : List κ) : List κ := sortOn id l.dedup

@[simp] theorem mem_sortedSet [LinearOrder κ] (l : List κ) (a : κ) :
    a ∈ sortedSet l ↔ a ∈ l := by
  simp [sortedSet]

theorem sortedSet_nodup [LinearOrder κ] (l : List κ) : (sortedSet l).Nodup :=
  (sortOn_perm id l.dedup).nodup_iff.mpr (List.nodup_dedup l)

theorem sortedSet_congr [LinearOrder κ] {l m : List κ} (h : ∀ a, a ∈ l ↔ a ∈ m) :
    sortedSet l = sortedSet m := by
  apply sortOn_eq_of_perm
  · exact (List.perm_ext_iff_of_nodup (List.nodup_dedup l) (List.nodup_dedup m)).mpr
      (by simpa using h)
  · simpa using List.nodup_dedup l

theorem nodup_map_of_nodup_map_comp (f : α → β) (g : β → κ) {l : List α}
    (h : (l.map (g ∘ f)).Nodup) : (l.map f).Nodup := by
  rw [← List.map_map] at h
  exact h.of_map g

theorem eq_of_key_eq (key : α → κ) {l : List α} (h : (l.map key).Nodup)
    {a b : α} (ha : a ∈ l) (hb : b ∈ l) (he : key a = key b) : a = b :=
  List.inj_on_of_nodup_map h ha hb he

/-- Mapping what a filter keeps is one step when the filter asks whether the
map is defined. -/
theorem map_filter_eq_filterMap {f : α → Option β} {p : α → Bool} (d : β) {l : List α}
    (h : ∀ a ∈ l, (f a).isSome = p a) :
    (l.filter p).map (fun a => (f a).getD d) = l.filterMap f := by
  induction l with
  | nil => rfl
  | cons a l ih =>
    have ha := h a (by simp)
    have hl := ih fun b hb => h b (by simp [hb])
    cases hf : f a with
    | none =>
      rw [hf, Option.isSome_none] at ha
      rw [List.filter_cons_of_neg (by simp [← ha]), List.filterMap_cons_none hf, hl]
    | some b =>
      rw [hf, Option.isSome_some] at ha
      rw [List.filter_cons_of_pos ha.symm, List.filterMap_cons_some hf, List.map_cons, hl, hf,
        Option.getD_some]

section Slices

/-- On a list where a property never returns once lost, the longest prefix
with the property holds everything that has it. -/
theorem takeWhile_eq_filter {p : α → Bool} {l : List α}
    (h : l.Pairwise fun a b => p b = true → p a = true) : l.takeWhile p = l.filter p := by
  induction l with
  | nil => rfl
  | cons a l ih =>
    obtain ⟨ha, hl⟩ := List.pairwise_cons.mp h
    by_cases hp : p a = true
    · rw [List.takeWhile_cons_of_pos hp, List.filter_cons_of_pos hp, ih hl]
    · rw [List.takeWhile_cons_of_neg hp, List.filter_cons_of_neg hp]
      refine (List.filter_eq_nil_iff.mpr fun b hb hpb => hp (ha b hb hpb)).symm

theorem filter_append_filter {p : α → Bool} {l : List α}
    (h : l.Pairwise fun a b => p b = true → p a = true) :
    l.filter p ++ l.filter (fun a => !p a) = l := by
  induction l with
  | nil => rfl
  | cons a l ih =>
    obtain ⟨ha, hl⟩ := List.pairwise_cons.mp h
    by_cases hp : p a = true
    · rw [List.filter_cons_of_pos hp, List.filter_cons_of_neg (by simp [hp]), List.cons_append,
        ih hl]
    · have hnone : l.filter p = [] :=
        List.filter_eq_nil_iff.mpr fun b hb hpb => hp (ha b hb hpb)
      have hall : l.filter (fun a => !p a) = l := by
        refine List.filter_eq_self.mpr fun b hb => ?_
        have := fun hpb => hp (ha b hb hpb)
        simpa using this
      rw [List.filter_cons_of_neg hp, List.filter_cons_of_pos (by simpa using hp), hnone, hall]
      rfl

/-- The slice between two bisections of a sorted list is the part of it
inside the bounds. -/
theorem slice_eq_filter [LinearOrder κ] (key : α → κ) {l : List α}
    (h : l.Pairwise fun a b => key a ≤ key b) {low high : κ} (hle : low ≤ high) :
    (l.drop (l.takeWhile (key · < low)).length).take
      ((l.takeWhile (key · ≤ high)).length-(l.takeWhile (key · < low)).length) =
      l.filter fun a => low ≤ key a ∧ key a ≤ high := by
  have hlow : l.Pairwise fun a b =>
      decide (key b < low) = true → decide (key a < low) = true :=
    h.imp fun hab hb => decide_eq_true (lt_of_le_of_lt hab (of_decide_eq_true hb))
  have hhigh : l.Pairwise fun a b =>
      decide (key b ≤ high) = true → decide (key a ≤ high) = true :=
    h.imp fun hab hb => decide_eq_true (hab.trans (of_decide_eq_true hb))
  have htake : l.take (l.takeWhile (key · ≤ high)).length = l.filter (key · ≤ high) := by
    rw [← takeWhile_eq_filter hhigh]
    exact (List.prefix_iff_eq_take.mp (List.takeWhile_prefix _)).symm
  rw [← List.drop_take, htake, takeWhile_eq_filter hlow]
  have hsub := filter_append_filter (hlow.sublist (List.filter_sublist (p := (key · ≤ high))))
  rw [List.filter_filter, List.filter_filter] at hsub
  have hfirst : l.filter (fun a => decide (key a < low) && decide (key a ≤ high)) =
      l.filter (key · < low) := by
    refine List.filter_congr fun a _ => ?_
    by_cases ha : key a < low
    · simp [ha, (ha.trans_le hle).le]
    · simp [ha]
  have hrest : l.filter (fun a => !decide (key a < low) && decide (key a ≤ high)) =
      l.filter fun a => low ≤ key a ∧ key a ≤ high := by
    refine List.filter_congr fun a _ => ?_
    by_cases ha : key a < low
    · simp [ha, not_le.mpr ha]
    · simp [ha, not_lt.mp ha]
  rw [hfirst, hrest] at hsub
  rw [← hsub, List.drop_left]

end Slices

section Lookup
variable [DecidableEq κ]

/-- The entry of a table with the given key; the first one if there are
several. -/
def lookup (key : α → κ) (l : List α) (k : κ) : Option α := l.find? (fun a => key a = k)

theorem lookup_some {key : α → κ} {l : List α} {k : κ} {a : α}
    (h : lookup key l k = some a) : a ∈ l ∧ key a = k := by
  refine ⟨List.mem_of_find?_eq_some h, ?_⟩
  simpa using List.find?_some h

theorem lookup_none {key : α → κ} {l : List α} {k : κ} :
    lookup key l k = none ↔ ∀ a ∈ l, key a ≠ k := by
  simp [lookup]

theorem lookup_mem {key : α → κ} {l : List α} (h : (l.map key).Nodup) {a : α}
    (ha : a ∈ l) : lookup key l (key a) = some a := by
  cases hl : lookup key l (key a) with
  | none => exact absurd rfl (lookup_none.mp hl a ha)
  | some b =>
    obtain ⟨hb, he⟩ := lookup_some hl
    rw [eq_of_key_eq key h hb ha he]

theorem lookup_perm {key : α → κ} {l m : List α} (hp : l.Perm m) (h : (l.map key).Nodup)
    (k : κ) : lookup key l k = lookup key m k := by
  have hm : (m.map key).Nodup := (hp.map key).nodup_iff.mp h
  cases hl : lookup key l k with
  | none =>
    refine (lookup_none.mpr fun a ha => ?_).symm
    exact lookup_none.mp hl a (hp.mem_iff.mpr ha)
  | some a =>
    obtain ⟨ha, rfl⟩ := lookup_some hl
    exact (lookup_mem hm (hp.mem_iff.mp ha)).symm

end Lookup

end Workbench.Listing
