import Workbench.Matching

/-!
# Pruning a graph

Edges are dropped from a graph with a maximum matching. As long as each edge of
the matching stays or leaves together with everything it touches, what is lost
with any other edge does not get smaller.
-/

set_option autoImplicit false

namespace Workbench.Pruning
open Finset Workbench.Matching

variable {L R : Type*} [DecidableEq L] [DecidableEq R]

/-- The dropped part of an optimum adds its utility to any matching of what is
left. -/
theorem best_add_dropped {E F M : Finset (L × R)} (u : L × R → ℕ) (hF : F ⊆ E) (hM : M ⊆ E)
    (hone : OneToOne M) (hapart : Apart (M \ F) F) {e : L × R} (he : e ∈ F) :
    best (F.erase e) u + ∑ x ∈ M \ F, u x ≤ best (E.erase e) u := by
  obtain ⟨N, hN, hNone, hNbest⟩ := exists_best (F.erase e) u
  have hNF : N ⊆ F := hN.trans (erase_subset e F)
  have hNA : Apart N (M \ F) := hapart.symm.mono hNF (Subset.refl _)
  have hsub : N ∪ M \ F ⊆ E.erase e := by
    refine union_subset (hN.trans (erase_subset_erase e hF)) fun x hx => ?_
    refine mem_erase.mpr ⟨?_, hM (mem_sdiff.mp hx).1⟩
    rintro rfl
    exact (mem_sdiff.mp hx).2 he
  calc best (F.erase e) u + ∑ x ∈ M \ F, u x
      = ∑ x ∈ N ∪ M \ F, u x := by rw [sum_union hNA.disjoint, hNbest]
    _ ≤ best (E.erase e) u := le_best u hsub (oneToOne_union hNA hNone (hone.mono sdiff_subset))

theorem best_le_kept {E F M : Finset (L × R)} (u : L × R → ℕ) (hone : OneToOne M)
    (hopt : ∑ x ∈ M, u x = best E u) : best E u ≤ best F u + ∑ x ∈ M \ F, u x := by
  have hsplit : ∑ x ∈ M, u x = ∑ x ∈ M ∩ F, u x + ∑ x ∈ M \ F, u x := by
    rw [← sum_union (disjoint_sdiff_inter M F).symm, union_comm, sdiff_union_inter]
  have hkept : ∑ x ∈ M ∩ F, u x ≤ best F u :=
    le_best u inter_subset_right (hone.mono inter_subset_left)
  omega

theorem gap_le_pruned {E F M : Finset (L × R)} (u : L × R → ℕ) (hF : F ⊆ E) (hM : M ⊆ E)
    (hone : OneToOne M) (hopt : ∑ x ∈ M, u x = best E u) (hapart : Apart (M \ F) F) {e : L × R}
    (he : e ∈ F) : gap E u e ≤ gap F u e := by
  have hlost := best_add_dropped u hF hM hone hapart he
  have hkept := best_le_kept (F := F) u hone hopt
  unfold gap
  omega

end Workbench.Pruning
