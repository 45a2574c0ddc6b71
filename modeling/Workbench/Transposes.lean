import Workbench.Matching

/-!
# A graph from its other side

Turning every edge around turns the matchings around, and keeps what they are
worth and what an edge adds to the best of them.
-/

set_option autoImplicit false

namespace Workbench.Transposes
open Finset Workbench.Matching

variable {L R : Type*} [DecidableEq L] [DecidableEq R]

theorem mem_transposed {E : Finset (L × R)} {e : R × L} :
    e ∈ E.image Prod.swap ↔ e.swap ∈ E := by
  rw [mem_image]
  constructor
  · rintro ⟨f, hf, rfl⟩
    exact Prod.swap_swap f ▸ hf
  · intro he
    exact ⟨e.swap, he, Prod.swap_swap e⟩

theorem transposed_twice (E : Finset (L × R)) : (E.image Prod.swap).image Prod.swap = E := by
  ext e
  rw [mem_transposed, mem_transposed, Prod.swap_swap]

theorem transposed_oneToOne {M : Finset (L × R)} (h : OneToOne M) :
    OneToOne (M.image Prod.swap) := by
  intro e he f hf hef
  have hsame := h e.swap (mem_transposed.mp he) f.swap (mem_transposed.mp hf) hef.symm
  exact Prod.swap_injective hsame

theorem sum_transposed (M : Finset (L × R)) (u : R × L → ℕ) :
    ∑ e ∈ M.image Prod.swap, u e = ∑ e ∈ M, u e.swap :=
  sum_image fun _ _ _ _ h => Prod.swap_injective h

theorem best_transposed_le (E : Finset (L × R)) (u : R × L → ℕ) :
    best E (u ∘ Prod.swap) ≤ best (E.image Prod.swap) u := by
  apply best_le
  intro M hM hone
  have hle := le_best u (image_subset_image (f := Prod.swap) hM) (transposed_oneToOne hone)
  rwa [sum_transposed] at hle

theorem best_transposed (E : Finset (L × R)) (u : R × L → ℕ) :
    best (E.image Prod.swap) u = best E (u ∘ Prod.swap) := by
  refine le_antisymm ?_ (best_transposed_le E u)
  have hle := best_transposed_le (E.image Prod.swap) (u ∘ Prod.swap)
  rw [transposed_twice] at hle
  exact hle

theorem gap_transposed (E : Finset (L × R)) (u : R × L → ℕ) (e : L × R) :
    gap (E.image Prod.swap) u e.swap = gap E (u ∘ Prod.swap) e := by
  rw [gap, gap, ← image_erase Prod.swap_injective, best_transposed, best_transposed]

end Workbench.Transposes
