import Mathlib.Logic.Basic

/-!
# Nested transactions

A block runs statements one after another. A statement can change the state and
still raise. What ran outside every transaction stays when a later statement
raises; a transaction that raises leaves the state it was entered in, so of
nested transactions the outermost one decides.
-/

set_option autoImplicit false

namespace Workbench.Nesting

inductive Block (σ α : Type) where
  | skip
  | statement (a : α)
  | seq (first second : Block σ α)
  | branch (test : σ → Bool) (first second : Block σ α)
  | atomic (body : Block σ α)

section Runs
variable {σ α ε : Type}

/-- What was raised, and the state that is left. -/
def run (execute : α → σ → Option ε × σ) : Block σ α → σ → Option ε × σ
  | .skip, s => (none, s)
  | .statement a, s => execute a s
  | .seq first second, s =>
    match run execute first s with
    | (none, t) => run execute second t
    | (some e, t) => (some e, t)
  | .branch test first second, s =>
    if test s then run execute first s else run execute second s
  | .atomic body, s =>
    match run execute body s with
    | (none, t) => (none, t)
    | (some e, _) => (some e, s)

def Exposed (execute : α → σ → Option ε × σ) : Block σ α → σ → Prop
  | .skip, _ => False
  | .statement _, _ => True
  | .seq first second, s =>
    match run execute first s with
    | (none, t) => Exposed execute second t
    | (some _, _) => Exposed execute first s
  | .branch test first second, s =>
    if test s then Exposed execute first s else Exposed execute second s
  | .atomic _, _ => False

variable {execute : α → σ → Option ε × σ}

theorem run_atomic_none {p : Block σ α} {s t : σ} (h : run execute p s = (none, t)) :
    run execute (.atomic p) s = (none, t) := by
  simp only [run, h]

theorem run_atomic_some {p : Block σ α} {s t : σ} {e : ε} (h : run execute p s = (some e, t)) :
    run execute (.atomic p) s = (some e, s) := by
  simp only [run, h]

/-- What every statement keeps, every block keeps: raised or not. -/
theorem run_keeps {P : σ → Prop} (hstep : ∀ a s, P s → P (execute a s).2) (p : Block σ α) {s : σ}
    (hs : P s) : P (run execute p s).2 := by
  induction p generalizing s with
  | skip => exact hs
  | statement a => exact hstep a s hs
  | seq first second ihf ihs =>
    have hf := ihf hs
    unfold run
    cases h : run execute first s with
    | mk raised t =>
      rw [h] at hf
      cases raised with
      | none => exact ihs hf
      | some e => exact hf
  | branch test first second ihf ihs =>
    unfold run
    by_cases ht : test s
    · rw [if_pos ht]
      exact ihf hs
    · rw [if_neg ht]
      exact ihs hs
  | atomic body ih =>
    have hb := ih hs
    cases h : run execute body s with
    | mk raised t =>
      rw [h] at hb
      cases raised with
      | none =>
        rw [run_atomic_none h]
        exact hb
      | some e =>
        rw [run_atomic_some h]
        exact hs

section Order
variable {R : σ → σ → Prop} {I : σ → Prop} (hrefl : ∀ s, R s s)
  (htrans : ∀ s t u, R s t → R t u → R s u) (hkeep : ∀ a s, I s → I (execute a s).2)
  (hstep : ∀ a s, I s → R s (execute a s).2)
include hrefl htrans hkeep hstep

/-- A preorder that every statement moves up in, every block moves up in. -/
theorem run_related (p : Block σ α) {s : σ} (hs : I s) : R s (run execute p s).2 := by
  induction p generalizing s with
  | skip => exact hrefl s
  | statement a => exact hstep a s hs
  | seq first second ihf ihs =>
    have hf := ihf hs
    have hi := run_keeps hkeep first hs
    unfold run
    cases h : run execute first s with
    | mk raised t =>
      rw [h] at hf hi
      cases raised with
      | none => exact htrans _ _ _ hf (ihs hi)
      | some e => exact hf
  | branch test first second ihf ihs =>
    unfold run
    by_cases ht : test s
    · rw [if_pos ht]
      exact ihf hs
    · rw [if_neg ht]
      exact ihs hs
  | atomic body ih =>
    have hb := ih hs
    cases h : run execute body s with
    | mk raised t =>
      rw [h] at hb
      cases raised with
      | none =>
        rw [run_atomic_none h]
        exact hb
      | some e =>
        rw [run_atomic_some h]
        exact hrefl s

/-- A raise outside every transaction leaves the state as the raising statement
left it; any other raise leaves a state from before that statement. -/
theorem run_raised (p : Block σ α) {s t : σ} {e : ε} (hs : I s)
    (h : run execute p s = (some e, t)) :
    ∃ a u, I u ∧ (execute a u).1 = some e ∧
      (Exposed execute p s ∧ R s u ∧ t = (execute a u).2 ∨ ¬Exposed execute p s ∧ R t u) := by
  induction p generalizing s t with
  | skip => cases h
  | statement a =>
    have h : execute a s = (some e, t) := h
    exact ⟨a, s, hs, by rw [h], .inl ⟨trivial, hrefl s, by rw [h]⟩⟩
  | seq first second ihf ihs =>
    have hi := run_keeps hkeep first hs
    have hr := run_related hrefl htrans hkeep hstep first hs
    unfold run at h
    unfold Exposed
    cases hf : run execute first s with
    | mk raised v =>
      rw [hf] at h hi hr
      cases raised with
      | none =>
        obtain ⟨a, u, hu, ha, hcase⟩ := ihs hi h
        refine ⟨a, u, hu, ha, ?_⟩
        rcases hcase with ⟨hex, hru, ht⟩ | hcase
        · exact .inl ⟨hex, htrans _ _ _ hr hru, ht⟩
        · exact .inr hcase
      | some x => exact ihf hs (hf.trans h)
  | branch test first second ihf ihs =>
    unfold run at h
    unfold Exposed
    by_cases ht : test s
    · rw [if_pos ht] at h ⊢
      exact ihf hs h
    · rw [if_neg ht] at h ⊢
      exact ihs hs h
  | atomic body ih =>
    cases hb : run execute body s with
    | mk raised v =>
      cases raised with
      | none =>
        rw [run_atomic_none hb] at h
        cases h
      | some x =>
        rw [run_atomic_some hb] at h
        obtain ⟨he, rfl⟩ := Prod.mk.inj h
        obtain rfl := Option.some.inj he
        have hsv := run_related hrefl htrans hkeep hstep body hs
        rw [hb] at hsv
        obtain ⟨a, u, hu, ha, hcase⟩ := ih hs hb
        refine ⟨a, u, hu, ha, .inr ⟨not_false, ?_⟩⟩
        rcases hcase with ⟨_, hru, _⟩ | ⟨_, hvu⟩
        · exact hru
        · exact htrans _ _ _ hsv hvu

end Order

end Runs

end Workbench.Nesting
