import Workbench.Listing

/-!
# Lists with one entry for each key

Assigning replaces the entry of a key in place or appends a new one; removing
drops it. A sequence of updates with distinct keys leaves exactly the entries
it wrote and those it did not name.
-/

set_option autoImplicit false

namespace Workbench.Dictionaries
open Workbench.Listing

section Entries
variable {α κ : Type} [DecidableEq κ] {key : α → κ}

def assign (key : α → κ) (entries : List α) (a : α) : List α :=
  if key a ∈ entries.map key then entries.map fun b => if key b = key a then a else b
  else entries ++ [a]

def remove (key : α → κ) (entries : List α) (k : κ) : List α :=
  entries.filter fun a => key a ≠ k

theorem mem_assign {entries : List α} {a b : α} :
    b ∈ assign key entries a ↔ b = a ∨ b ∈ entries ∧ key b ≠ key a := by
  unfold assign
  by_cases hk : key a ∈ entries.map key
  · rw [if_pos hk, List.mem_map]
    constructor
    · intro h
      obtain ⟨c, hc, rfl⟩ := h
      by_cases hca : key c = key a
      · simp [hca]
      · simp [hca, hc]
    · intro h
      rcases h with rfl | ⟨hb, hne⟩
      · obtain ⟨c, hc, hca⟩ := List.mem_map.mp hk
        exact ⟨c, hc, by simp [hca]⟩
      · exact ⟨b, hb, by simp [hne]⟩
  · rw [if_neg hk, List.mem_append, List.mem_singleton]
    constructor
    · intro h
      rcases h with hb | rfl
      · exact .inr ⟨hb, fun he => hk (he ▸ List.mem_map_of_mem hb)⟩
      · exact .inl rfl
    · intro h
      rcases h with rfl | ⟨hb, _⟩
      · exact .inr rfl
      · exact .inl hb

theorem keys_assign {entries : List α} {a : α} :
    (assign key entries a).map key =
      if key a ∈ entries.map key then entries.map key else entries.map key ++ [key a] := by
  unfold assign
  by_cases hk : key a ∈ entries.map key
  · rw [if_pos hk, if_pos hk, List.map_map]
    apply List.map_congr_left
    intro b _
    by_cases hba : key b = key a
    · simp [hba]
    · simp [hba]
  · rw [if_neg hk, if_neg hk, List.map_append]
    rfl

theorem nodup_assign {entries : List α} (h : (entries.map key).Nodup) (a : α) :
    ((assign key entries a).map key).Nodup := by
  rw [keys_assign]
  by_cases hk : key a ∈ entries.map key
  · rw [if_pos hk]
    exact h
  · rw [if_neg hk]
    apply List.Nodup.append h (List.nodup_singleton _)
    intro x hx hy
    rw [List.mem_singleton] at hy
    exact hk (hy ▸ hx)

theorem mem_remove {entries : List α} {k : κ} {b : α} :
    b ∈ remove key entries k ↔ b ∈ entries ∧ key b ≠ k := by
  simp [remove]

theorem nodup_remove {entries : List α} (h : (entries.map key).Nodup) (k : κ) :
    ((remove key entries k).map key).Nodup :=
  h.sublist (List.Sublist.map _ List.filter_sublist)

end Entries

section Updates
variable {α κ : Type} [DecidableEq κ] {key : α → κ}

inductive Update (key : α → κ) where
  | set (a : α)
  | unset (k : κ)

def Update.target : Update key → κ
  | .set a => key a
  | .unset k => k

def Update.apply (entries : List α) : Update key → List α
  | .set a => assign key entries a
  | .unset k => remove key entries k

def applyAll (entries : List α) (us : List (Update key)) : List α :=
  us.foldl Update.apply entries

theorem mem_apply {entries : List α} {u : Update key} {b : α} :
    b ∈ u.apply entries ↔ u = .set b ∨ b ∈ entries ∧ key b ≠ u.target := by
  cases u with
  | set a =>
    rw [show Update.apply entries (.set a) = assign key entries a from rfl, mem_assign]
    simp only [Update.set.injEq, Update.target, eq_comm]
  | unset k =>
    rw [show Update.apply entries (.unset k) = remove key entries k from rfl, mem_remove]
    simp [Update.target]

theorem nodup_apply {entries : List α} (h : (entries.map key).Nodup) (u : Update key) :
    ((u.apply entries).map key).Nodup := by
  cases u with
  | set a => exact nodup_assign h a
  | unset k => exact nodup_remove h k

theorem nodup_applyAll {entries : List α} (h : (entries.map key).Nodup)
    (us : List (Update key)) : ((applyAll entries us).map key).Nodup := by
  induction us generalizing entries with
  | nil => exact h
  | cons u us ih => exact ih (nodup_apply h u)

/-- Updates of distinct keys: an entry was set by one of them, or was there and
is named by none. -/
theorem mem_applyAll {entries : List α} {us : List (Update key)}
    (h : (us.map Update.target).Nodup) {b : α} :
    b ∈ applyAll entries us ↔
      Update.set b ∈ us ∨ b ∈ entries ∧ key b ∉ us.map Update.target := by
  induction us generalizing entries with
  | nil => simp [applyAll]
  | cons u us ih =>
    rw [List.map_cons, List.nodup_cons] at h
    rw [show applyAll entries (u::us) = applyAll (u.apply entries) us from rfl, ih h.2, mem_apply]
    rw [List.map_cons, List.mem_cons, List.mem_cons]
    constructor
    · intro hb
      rcases hb with hb | ⟨rfl | ⟨hb, hne⟩, hout⟩
      · exact .inl (.inr hb)
      · exact .inl (.inl rfl)
      · exact .inr ⟨hb, fun hk => hk.elim hne hout⟩
    · intro hb
      rcases hb with (hb | hb) | ⟨hb, hout⟩
      · subst hb
        exact .inr ⟨.inl rfl, h.1⟩
      · exact .inl hb
      · exact .inr ⟨.inr ⟨hb, fun hk => hout (.inl hk)⟩, fun hk => hout (.inr hk)⟩

/-- Updates that only set entries of known keys, to what a projection does not
see, keep its list. -/
theorem map_applyAll {β : Type} {f : α → β} {entries : List α} {us : List (Update key)}
    (h : ∀ u ∈ us, ∃ a, u = .set a ∧ key a ∈ entries.map key ∧
      ∀ b ∈ entries, key b = key a → f b = f a) :
    (applyAll entries us).map f = entries.map f := by
  induction us generalizing entries with
  | nil => rfl
  | cons u us ih =>
    obtain ⟨a, rfl, hmem, hsame⟩ := h u (List.mem_cons_self ..)
    have hassign : (assign key entries a).map f = entries.map f := by
      unfold assign
      rw [if_pos hmem, List.map_map]
      apply List.map_congr_left
      intro b hb
      by_cases hk : key b = key a
      · simp [hk, hsame b hb hk]
      · simp [hk]
    rw [show applyAll entries (.set a::us) = applyAll (assign key entries a) us from rfl, ih,
      hassign]
    intro u hu
    obtain ⟨c, rfl, hc, hcs⟩ := h u (List.mem_cons_of_mem _ hu)
    refine ⟨c, rfl, ?_, ?_⟩
    · rw [keys_assign, if_pos hmem]
      exact hc
    · intro b hb hk
      rcases mem_assign.mp hb with rfl | ⟨hb, _⟩
      · obtain ⟨x, hx, hxk⟩ := List.mem_map.mp hmem
        rw [← hsame x hx hxk, hcs x hx (hxk.trans hk)]
      · exact hcs b hb hk

end Updates

end Workbench.Dictionaries
