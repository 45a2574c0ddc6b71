import Workbench.Tables

/-!
# Rows replaced by key

A row is written under its key: it replaces the row that has the key, or is
added. A group of rows is replaced by deleting what has no successor and
writing the rest.
-/

set_option autoImplicit false

namespace Workbench.Upserts
open Workbench.Tables

variable {α κ : Type} [DecidableEq κ] {key : α → κ}

/-- `update_or_create` under a key. -/
def upsert (key : α → κ) (rows : List α) (row : α) : List α :=
  if key row ∈ rows.map key then revise key (key row) (fun _ => row) rows else rows ++ [row]

theorem mem_upsert {rows : List α} {row r : α} :
    r ∈ upsert key rows row ↔ r = row ∨ r ∈ rows ∧ key r ≠ key row := by
  unfold upsert
  by_cases hk : key row ∈ rows.map key
  · rw [if_pos hk, mem_revise]
    constructor
    · intro h
      obtain ⟨old, ho, rfl⟩ := h
      by_cases he : key old = key row
      · exact Or.inl (if_pos he)
      · rw [if_neg he]
        exact Or.inr ⟨ho, he⟩
    · intro h
      rcases h with rfl | ⟨hr, hne⟩
      · obtain ⟨old, ho, he⟩ := List.mem_map.mp hk
        exact ⟨old, ho, (if_pos he).symm⟩
      · exact ⟨r, hr, (if_neg hne).symm⟩
  · rw [if_neg hk, List.mem_append, List.mem_singleton]
    constructor
    · intro h
      rcases h with hr | rfl
      · exact Or.inr ⟨hr, fun he => hk (he ▸ List.mem_map_of_mem hr)⟩
      · exact Or.inl rfl
    · intro h
      rcases h with rfl | ⟨hr, _⟩
      · exact Or.inr rfl
      · exact Or.inl hr

theorem upsert_nodup {rows : List α} (h : (rows.map key).Nodup) (row : α) :
    ((upsert key rows row).map key).Nodup := by
  unfold upsert
  by_cases hk : key row ∈ rows.map key
  · have hkeys : (revise key (key row) (fun _ => row) rows).map key = rows.map key := by
      unfold revise
      rw [List.map_map]
      apply List.map_congr_left
      intro r _
      by_cases he : key r = key row <;> simp [he]
    rw [if_pos hk, hkeys]
    exact h
  · rw [if_neg hk, List.map_append]
    apply List.nodup_append.mpr
    exact ⟨h, List.nodup_singleton _, fun a ha b hb he =>
      hk (by rw [← List.mem_singleton.mp hb, ← he]; exact ha)⟩

def upsertAll (key : α → κ) (news rows : List α) : List α := news.foldl (upsert key) rows

theorem upsertAll_nodup {rows : List α} (h : (rows.map key).Nodup) (news : List α) :
    ((upsertAll key news rows).map key).Nodup := by
  induction news generalizing rows with
  | nil => exact h
  | cons row news ih => exact ih (upsert_nodup h row)

theorem mem_upsertAll {news rows : List α} (h : (news.map key).Nodup) {r : α} :
    r ∈ upsertAll key news rows ↔ r ∈ news ∨ r ∈ rows ∧ key r ∉ news.map key := by
  induction news generalizing rows with
  | nil => simp [upsertAll]
  | cons row news ih =>
    obtain ⟨hrow, hnews⟩ := List.nodup_cons.mp h
    have hstep : r ∈ upsertAll key (row :: news) rows ↔
        r ∈ upsertAll key news (upsert key rows row) := Iff.rfl
    rw [hstep, ih hnews, mem_upsert, List.mem_cons, List.map_cons, List.mem_cons]
    constructor
    · intro hr
      rcases hr with hr | ⟨rfl | ⟨hr, hne⟩, hout⟩
      · exact Or.inl (Or.inr hr)
      · exact Or.inl (Or.inl rfl)
      · exact Or.inr ⟨hr, fun hm => hm.elim hne hout⟩
    · intro hr
      rcases hr with (rfl | hr) | ⟨hr, hout⟩
      · exact Or.inr ⟨Or.inl rfl, hrow⟩
      · exact Or.inl hr
      · exact Or.inr ⟨Or.inr ⟨hr, fun he => hout (Or.inl he)⟩, fun hm => hout (Or.inr hm)⟩

section Groups
variable {γ : Type} [DecidableEq γ] {group : α → γ}

/-- The rows of a group are replaced: those under no new key are deleted, the
new ones written. -/
def replaceGroup (group : α → γ) (key : α → κ) (g : γ) (news rows : List α) : List α :=
  upsertAll key news (rows.filter fun r => !(group r = g && key r ∉ news.map key))

theorem mem_replaceGroup {g : γ} {news rows : List α} (hn : (news.map key).Nodup)
    (hg : ∀ r ∈ news, group r = g) (hk : ∀ r s, key r = key s → group r = group s) {r : α} :
    r ∈ replaceGroup group key g news rows ↔ r ∈ news ∨ r ∈ rows ∧ group r ≠ g := by
  unfold replaceGroup
  rw [mem_upsertAll hn, List.mem_filter]
  constructor
  · intro h
    rcases h with h | ⟨⟨hr, hkept⟩, hout⟩
    · exact Or.inl h
    · refine Or.inr ⟨hr, fun he => ?_⟩
      simp [he, hout] at hkept
  · intro h
    rcases h with h | ⟨hr, hne⟩
    · exact Or.inl h
    · refine Or.inr ⟨⟨hr, by simp [hne]⟩, fun hm => hne ?_⟩
      obtain ⟨s, hs, he⟩ := List.mem_map.mp hm
      exact (hk r s he.symm).trans (hg s hs)

theorem replaceGroup_nodup {rows : List α} (h : (rows.map key).Nodup) (g : γ) (news : List α) :
    ((replaceGroup group key g news rows).map key).Nodup := by
  apply upsertAll_nodup
  exact h.sublist (List.filter_sublist.map key)

theorem replaceGroup_perm {g : γ} {news rows : List α} (hr : (rows.map key).Nodup)
    (hn : (news.map key).Nodup) (hg : ∀ r ∈ news, group r = g)
    (hk : ∀ r s, key r = key s → group r = group s) :
    ((replaceGroup group key g news rows).filter fun r => group r = g).Perm news := by
  have hnodup : (replaceGroup group key g news rows).Nodup :=
    (replaceGroup_nodup hr g news).of_map key
  apply (List.perm_ext_iff_of_nodup (hnodup.filter _) (hn.of_map key)).mpr
  intro r
  rw [List.mem_filter, mem_replaceGroup hn hg hk, decide_eq_true_iff]
  constructor
  · intro h
    rcases h.1 with h1 | h1
    · exact h1
    · exact absurd h.2 h1.2
  · intro h
    exact ⟨Or.inl h, hg r h⟩

theorem replaceGroup_other {g g' : γ} {news rows : List α} (hr : (rows.map key).Nodup)
    (hn : (news.map key).Nodup) (hg : ∀ r ∈ news, group r = g)
    (hk : ∀ r s, key r = key s → group r = group s) (hne : g' ≠ g) :
    ((replaceGroup group key g news rows).filter fun r => group r = g').Perm
      (rows.filter fun r => group r = g') := by
  have hnodup : (replaceGroup group key g news rows).Nodup :=
    (replaceGroup_nodup hr g news).of_map key
  apply (List.perm_ext_iff_of_nodup (hnodup.filter _) ((hr.of_map key).filter _)).mpr
  intro r
  rw [List.mem_filter, List.mem_filter, mem_replaceGroup hn hg hk, decide_eq_true_iff]
  constructor
  · intro h
    rcases h.1 with h1 | h1
    · exact absurd (h.2.symm.trans (hg r h1)) hne
    · exact ⟨h1.1, h.2⟩
  · intro h
    exact ⟨Or.inr ⟨h.1, fun he => hne (h.2.symm.trans he)⟩, h.2⟩

end Groups

end Workbench.Upserts
