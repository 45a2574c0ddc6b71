import Workbench.Matching

/-!
# Exchanging an edge

A maximum matching gives up the edges that touch another edge of the graph and
takes that one instead. The result is a matching, so it is not worth more, and
if an edge of interest is among those given up, it is a matching without it.
-/

set_option autoImplicit false

namespace Workbench.Exchange
open Finset Workbench.Matching

variable {L R : Type*} [DecidableEq L] [DecidableEq R]

/-- The edges share an end. -/
def Touches (e f : L × R) : Prop := e.1 = f.1 ∨ e.2 = f.2

instance (e f : L × R) : Decidable (Touches e f) := inferInstanceAs (Decidable (_ ∨ _))

/-- The matching with `f` for everything that touches it. -/
def exchanged (M : Finset (L × R)) (f : L × R) : Finset (L × R) :=
  insert f (M.filter fun x => ¬Touches f x)

section Edge
variable {E M : Finset (L × R)} {e f : L × R}

theorem exchanged_oneToOne (hone : OneToOne M) : OneToOne (exchanged M f) := by
  have hapart : Apart {f} (M.filter fun x => ¬Touches f x) := by
    intro x hx y hy
    obtain rfl := mem_singleton.mp hx
    exact not_or.mp (mem_filter.mp hy).2
  have hsingle : OneToOne ({f} : Finset (L × R)) := by
    intro x hx y hy _
    rw [mem_singleton.mp hx, mem_singleton.mp hy]
  rw [exchanged, insert_eq]
  exact oneToOne_union hapart hsingle (hone.mono (filter_subset _ M))

theorem exchanged_subset (hM : M ⊆ E) (hf : f ∈ E) : exchanged M f ⊆ E :=
  insert_subset hf ((filter_subset _ M).trans hM)

theorem exchanged_sum (M : Finset (L × R)) (f : L × R) (u : L × R → ℕ) :
    ∑ x ∈ exchanged M f, u x + ∑ x ∈ M.filter (Touches f), u x = u f + ∑ x ∈ M, u x := by
  have hnot : f ∉ M.filter fun x => ¬Touches f x := fun h => (mem_filter.mp h).2 (.inl rfl)
  rw [exchanged, sum_insert hnot, add_assoc, add_comm (∑ x ∈ M.filter fun x => ¬Touches f x, u x),
    sum_filter_add_sum_filter_not]

theorem rival_le (u : L × R → ℕ) (hM : M ⊆ E) (hone : OneToOne M)
    (hopt : ∑ x ∈ M, u x = best E u) (hf : f ∈ E) : u f ≤ ∑ x ∈ M.filter (Touches f), u x := by
  have hle := le_best u (exchanged_subset hM hf) (exchanged_oneToOne (f := f) hone)
  have hsum := exchanged_sum M f u
  omega

/-- What an optimum has at the ends of a rival of an edge exceeds the rival by
the gap of the edge. -/
theorem rival_gap (u : L × R → ℕ) (hM : M ⊆ E) (hone : OneToOne M)
    (hopt : ∑ x ∈ M, u x = best E u) (hf : f ∈ E) (hne : f ≠ e) (htouch : Touches f e) :
    u f + gap E u e ≤ ∑ x ∈ M.filter (Touches f), u x := by
  have hwithout : exchanged M f ⊆ E.erase e := by
    intro x hx
    refine mem_erase.mpr ⟨?_, exchanged_subset hM hf hx⟩
    rintro rfl
    rcases mem_insert.mp hx with rfl | hx
    · exact hne rfl
    · exact (mem_filter.mp hx).2 htouch
  have hle := le_best u hwithout (exchanged_oneToOne (f := f) hone)
  have hsum := exchanged_sum M f u
  have hmono : best (E.erase e) u ≤ best E u := best_mono u (erase_subset e E)
  unfold gap
  omega

/-- A matching has one or two edges at the ends of an edge that touches one of
its own. -/
theorem touching_cases (hone : OneToOne M) (he : e ∈ M) (htouch : Touches f e) :
    M.filter (Touches f) = {e} ∨
      ∃ h ∈ M, h ≠ e ∧ Touches f h ∧ M.filter (Touches f) = {e, h} := by
  by_cases hother : ∃ h ∈ M, h ≠ e ∧ Touches f h
  · obtain ⟨h, hh, hne, hfh⟩ := hother
    refine .inr ⟨h, hh, hne, hfh, ?_⟩
    ext x
    rw [mem_filter, mem_insert, mem_singleton]
    constructor
    · rintro ⟨hx, hfx⟩
      by_contra hneither
      obtain ⟨hxe, hxh⟩ := not_or.mp hneither
      -- Two of the three edges have the same end of `f`.
      have hsame : ∀ y ∈ M, ∀ z ∈ M, y ≠ z →
          ¬(f.1 = y.1 ∧ f.1 = z.1) ∧ ¬(f.2 = y.2 ∧ f.2 = z.2) := fun y hy z hz hyz =>
        ⟨fun h => hyz (hone y hy z hz (.inl (h.1.symm.trans h.2))),
          fun h => hyz (hone y hy z hz (.inr (h.1.symm.trans h.2)))⟩
      have heh := hsame e he h hh hne.symm
      have hex := hsame e he x hx (Ne.symm hxe)
      have hhx := hsame h hh x hx (Ne.symm hxh)
      unfold Touches at htouch hfh hfx
      tauto
    · rintro (rfl | rfl)
      · exact ⟨he, htouch⟩
      · exact ⟨hh, hfh⟩
  · refine .inl ?_
    ext x
    rw [mem_filter, mem_singleton]
    constructor
    · rintro ⟨hx, hfx⟩
      by_contra hxe
      exact hother ⟨x, hx, hxe, hfx⟩
    · rintro rfl
      exact ⟨he, htouch⟩

end Edge

end Workbench.Exchange
