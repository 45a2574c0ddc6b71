import Workbench.Listing
import Workbench.Raising
import Mathlib.Data.List.Forall2

/-!
# Tables and transactions

A table is the list of its rows. An update rewrites the rows with one key in
place. A transaction returns a new state or fails, and a failed one leaves the
old state. A run is a list of commands taken one after another.
-/

set_option autoImplicit false

namespace Workbench.Tables
open Workbench.Listing Workbench.Raising

section Rows
variable {α κ : Type} [DecidableEq κ] {g : α → κ} {f : α → α}

def revise (key : α → κ) (k : κ) (f : α → α) (rows : List α) : List α :=
  rows.map fun r => if key r = k then f r else r

theorem mem_revise {k : κ} {rows : List α} {r : α} :
    r ∈ revise g k f rows ↔ ∃ old ∈ rows, r = if g old = k then f old else old := by
  unfold revise
  rw [List.mem_map]
  constructor
  · intro h
    obtain ⟨old, ho, he⟩ := h
    exact ⟨old, ho, he.symm⟩
  · intro h
    obtain ⟨old, ho, he⟩ := h
    exact ⟨old, ho, he.symm⟩

theorem keys_revise (hf : ∀ r, g (f r) = g r) (k : κ) (rows : List α) :
    (revise g k f rows).map g = rows.map g := by
  unfold revise
  rw [List.map_map]
  apply List.map_congr_left
  intro r _
  by_cases hk : g r = k <;> simp [hk, hf]

theorem lookup_revise (hf : ∀ r, g (f r) = g r) (k other : κ) (rows : List α) :
    lookup g (revise g k f rows) other =
      if other = k then (lookup g rows other).map f else lookup g rows other := by
  induction rows with
  | nil => simp [revise, lookup]
  | cons r rows ih =>
    unfold revise lookup at ih ⊢
    rw [List.map_cons, List.find?_cons, List.find?_cons, ih]
    by_cases hr : g r = other
    · by_cases ho : other = k
      · simp [hr, ho, hf]
      · simp [hr, ho]
    · by_cases hk : g r = k
      · have ho : other ≠ k := fun h => hr (hk.trans h.symm)
        simp [hk, hf, ho, show ¬ k = other from fun h => ho h.symm]
      · simp [hr, hk]

theorem mem_of_lookup {k : κ} {rows : List α} {r : α} (h : lookup g rows k = some r) :
    r ∈ rows := (lookup_some h).1

theorem key_of_lookup {k : κ} {rows : List α} {r : α} (h : lookup g rows k = some r) :
    g r = k := (lookup_some h).2

end Rows

section Pairs
variable {α β : Type} {R : α → β → Prop} {l : List α} {m : List β}

theorem forall₂_mem_left (h : List.Forall₂ R l m) {a : α} (ha : a ∈ l) : ∃ b ∈ m, R a b := by
  induction h with
  | nil => cases ha
  | cons hab _ ih =>
    rcases List.mem_cons.mp ha with rfl | ha
    · exact ⟨_, List.mem_cons_self .., hab⟩
    · obtain ⟨b, hb, hr⟩ := ih ha
      exact ⟨b, List.mem_cons_of_mem _ hb, hr⟩

theorem forall₂_mem_right (h : List.Forall₂ R l m) {b : β} (hb : b ∈ m) : ∃ a ∈ l, R a b := by
  obtain ⟨a, ha, hr⟩ := forall₂_mem_left h.flip hb
  exact ⟨a, ha, hr⟩

theorem forall₂_map_eq {γ : Type} {f : α → γ} {g : β → γ} (h : List.Forall₂ R l m)
    (hfg : ∀ a b, R a b → f a = g b) : l.map f = m.map g := by
  induction h with
  | nil => rfl
  | cons hab _ ih => rw [List.map_cons, List.map_cons, hfg _ _ hab, ih]

end Pairs

section Transactions
variable {ε α β σ : Type}

def settle (old : σ) : Except ε σ → σ
  | .ok s => s
  | .error _ => old

theorem settle_keeps {P : σ → Prop} {old : σ} {x : Except ε σ} (ho : P old)
    (hx : ∀ s, x = .ok s → P s) : P (settle old x) := by
  cases x with
  | error e => exact ho
  | ok s => exact hx s rfl

end Transactions

section Runs
variable {σ χ : Type} {step : σ → χ → σ}

/-- Every step of the run from a state meets a condition on the command and
the state it is taken in. -/
def Along (step : σ → χ → σ) (condition : σ → χ → Prop) : σ → List χ → Prop
  | _, [] => True
  | s, c :: cs => condition s c ∧ Along step condition (step s c) cs

/-- A property of every state the run passes through. -/
def Throughout (step : σ → χ → σ) (property : σ → Prop) : σ → List χ → Prop
  | s, [] => property s
  | s, c :: cs => property s ∧ Throughout step property (step s c) cs

theorem along_append {C : σ → χ → Prop} {s : σ} {cs ds : List χ} :
    Along step C s (cs ++ ds) ↔ Along step C s cs ∧ Along step C (cs.foldl step s) ds := by
  induction cs generalizing s with
  | nil => simp [Along]
  | cons c cs ih => simp [Along, ih, and_assoc]

theorem along_iff {C : σ → χ → Prop} {s : σ} {cs : List χ} :
    Along step C s cs ↔
      ∀ before c rest, cs = before ++ c :: rest → C (before.foldl step s) c := by
  constructor
  · intro h before c rest he
    subst he
    exact (along_append.mp h).2.1
  · intro h
    induction cs generalizing s with
    | nil => trivial
    | cons c cs ih =>
      refine ⟨h [] c cs rfl, ih fun before d rest he => ?_⟩
      exact h (c :: before) d rest (by rw [he, List.cons_append])

theorem along_true (s : σ) (cs : List χ) : Along step (fun _ _ => True) s cs := by
  induction cs generalizing s with
  | nil => trivial
  | cons c cs ih => exact ⟨trivial, ih _⟩

theorem foldl_keeps {C : σ → χ → Prop} {P : σ → Prop}
    (hstep : ∀ s c, P s → C s c → P (step s c)) {s : σ} {cs : List χ}
    (hs : P s) (h : Along step C s cs) : P (cs.foldl step s) := by
  induction cs generalizing s with
  | nil => exact hs
  | cons c cs ih => exact ih (hstep s c hs h.1) h.2

theorem throughout_keeps {C : σ → χ → Prop} {P : σ → Prop}
    (hstep : ∀ s c, P s → C s c → P (step s c)) {s : σ} {cs : List χ}
    (hs : P s) (h : Along step C s cs) : Throughout step P s cs := by
  induction cs generalizing s with
  | nil => exact hs
  | cons c cs ih => exact ⟨hs, ih (hstep s c hs h.1) h.2⟩

/-- A condition on each step that says exactly whether the property is kept
holds along a run if and only if the property holds throughout it. -/
theorem along_iff_throughout {C : σ → χ → Prop} {P I : σ → Prop}
    (hkeep : ∀ s c, I s → I (step s c)) (hstep : ∀ s c, I s → P s → (C s c ↔ P (step s c)))
    {s : σ} {cs : List χ} (hi : I s) (hs : P s) :
    Along step C s cs ↔ Throughout step P s cs := by
  induction cs generalizing s with
  | nil => exact ⟨fun _ => hs, fun _ => trivial⟩
  | cons c cs ih =>
    constructor
    · intro h
      exact ⟨hs, (ih (hkeep s c hi) ((hstep s c hi hs).mp h.1)).mp h.2⟩
    · intro h
      have hnext : P (step s c) := by
        cases cs with
        | nil => exact h.2
        | cons d ds => exact h.2.1
      exact ⟨(hstep s c hi hs).mpr hnext, (ih (hkeep s c hi) hnext).mpr h.2⟩

theorem Throughout.mono {P Q : σ → Prop} (hw : ∀ s, P s → Q s) {s : σ}
    {cs : List χ} (h : Throughout step P s cs) : Throughout step Q s cs := by
  induction cs generalizing s with
  | nil => exact hw s h
  | cons c cs ih => exact ⟨hw s h.1, ih h.2⟩

end Runs

section Numbers
variable {α : Type} {id : α → ℕ} {f : α → α} {rows : List α}

def Numbered (id : α → ℕ) (rows : List α) : Prop := rows.map id = List.range rows.length

theorem Numbered.nodup (h : Numbered id rows) : (rows.map id).Nodup := by
  rw [h]
  exact List.nodup_range

theorem Numbered.lt (h : Numbered id rows) {r : α} (hr : r ∈ rows) : id r < rows.length := by
  have hm := List.mem_map_of_mem (f := id) hr
  rw [h] at hm
  exact List.mem_range.mp hm

theorem Numbered.lookup (h : Numbered id rows) {r : α} (hr : r ∈ rows) :
    lookup id rows (id r) = some r := lookup_mem h.nodup hr

theorem Numbered.append (h : Numbered id rows) {news : List α}
    (hn : news.map id = List.range' rows.length news.length) : Numbered id (rows ++ news) := by
  unfold Numbered at h ⊢
  rw [List.map_append, h, hn, List.length_append, List.range_eq_range', List.range_eq_range']
  have happ := @List.range'_append 0 rows.length news.length 1
  rw [one_mul, zero_add] at happ
  exact happ

theorem Numbered.concat (h : Numbered id rows) {r : α} (hr : id r = rows.length) :
    Numbered id (rows ++ [r]) := by
  apply h.append
  rw [List.map_singleton, hr]
  rfl

theorem Numbered.revise (h : Numbered id rows) (hf : ∀ r, id (f r) = id r) (k : ℕ) :
    Numbered id (revise id k f rows) := by
  unfold Numbered at h ⊢
  rw [keys_revise hf, h]
  unfold Tables.revise
  rw [List.length_map]

end Numbers

end Workbench.Tables
