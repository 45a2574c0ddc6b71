import Mathlib.Order.Lattice.Nat
import Mathlib.Algebra.GroupWithZero.Nat
import Mathlib.Algebra.BigOperators.Group.Finset.Basic
import Mathlib.Algebra.Order.BigOperators.Group.Finset
import Mathlib.Data.Finset.Lattice.Fold
import Mathlib.Data.Finset.Powerset
import Mathlib.Data.Finset.Union

/-!
# Maximum utility of one-to-one partial matchings

A bipartite graph is a finite set of pairs with a natural utility on each
pair. `best` is the largest total utility of a one-to-one subset; every
endpoint may stay unmatched. Two graphs are `Apart` when they share no
endpoint on either side, and then everything about the union is local.
-/

set_option autoImplicit false

namespace Workbench.Matching
open Finset

variable {L R : Type*}

def OneToOne (M : Finset (L × R)) : Prop :=
  ∀ e ∈ M, ∀ f ∈ M, e.1 = f.1 ∨ e.2 = f.2 → e = f

def Apart (E F : Finset (L × R)) : Prop :=
  ∀ e ∈ E, ∀ f ∈ F, e.1 ≠ f.1 ∧ e.2 ≠ f.2

theorem OneToOne.mono {M N : Finset (L × R)} (h : OneToOne N) (hs : M ⊆ N) : OneToOne M :=
  fun e he f hf => h e (hs he) f (hs hf)

theorem oneToOne_empty : OneToOne (∅ : Finset (L × R)) := fun e he => by simp at he

theorem Apart.symm {E F : Finset (L × R)} (h : Apart E F) : Apart F E :=
  fun e he f hf => ⟨(h f hf e he).1.symm, (h f hf e he).2.symm⟩

theorem Apart.mono {E E' F F' : Finset (L × R)} (h : Apart E F) (hE : E' ⊆ E)
    (hF : F' ⊆ F) : Apart E' F' := fun e he f hf => h e (hE he) f (hF hf)

theorem Apart.disjoint {E F : Finset (L × R)} (h : Apart E F) : Disjoint E F :=
  Finset.disjoint_left.mpr fun e he hf => (h e he e hf).1 rfl

variable [DecidableEq L] [DecidableEq R]

instance (M : Finset (L × R)) : Decidable (OneToOne M) := by
  unfold OneToOne
  infer_instance

theorem oneToOne_union {M N : Finset (L × R)} (h : Apart M N) (hM : OneToOne M)
    (hN : OneToOne N) : OneToOne (M ∪ N) := by
  intro e he f hf hef
  rcases mem_union.mp he with he | he <;> rcases mem_union.mp hf with hf | hf
  · exact hM e he f hf hef
  · exact absurd hef (by simpa using h e he f hf)
  · exact absurd hef (by simpa using h.symm e he f hf)
  · exact hN e he f hf hef

def matchings (E : Finset (L × R)) : Finset (Finset (L × R)) := E.powerset.filter OneToOne

@[simp] theorem mem_matchings {E M : Finset (L × R)} :
    M ∈ matchings E ↔ M ⊆ E ∧ OneToOne M := by
  simp [matchings]

def best (E : Finset (L × R)) (u : L × R → ℕ) : ℕ := (matchings E).sup fun M => ∑ e ∈ M, u e

theorem le_best {E M : Finset (L × R)} (u : L × R → ℕ) (hs : M ⊆ E) (hM : OneToOne M) :
    ∑ e ∈ M, u e ≤ best E u :=
  Finset.le_sup (f := fun M => ∑ e ∈ M, u e) (mem_matchings.mpr ⟨hs, hM⟩)

theorem exists_best (E : Finset (L × R)) (u : L × R → ℕ) :
    ∃ M, M ⊆ E ∧ OneToOne M ∧ ∑ e ∈ M, u e = best E u := by
  have hne : (matchings E).Nonempty := ⟨∅, by simp [oneToOne_empty]⟩
  obtain ⟨M, hM, he⟩ := Finset.exists_mem_eq_sup (matchings E) hne fun M => ∑ e ∈ M, u e
  exact ⟨M, (mem_matchings.mp hM).1, (mem_matchings.mp hM).2, he.symm⟩

theorem best_le {E : Finset (L × R)} {u : L × R → ℕ} {n : ℕ}
    (h : ∀ M ⊆ E, OneToOne M → ∑ e ∈ M, u e ≤ n) : best E u ≤ n :=
  Finset.sup_le fun M hM => h M (mem_matchings.mp hM).1 (mem_matchings.mp hM).2

theorem best_mono {E F : Finset (L × R)} (u : L × R → ℕ) (h : E ⊆ F) :
    best E u ≤ best F u :=
  best_le fun _ hs hM => le_best u (hs.trans h) hM

theorem best_congr {E : Finset (L × R)} {u v : L × R → ℕ} (h : ∀ e ∈ E, u e = v e) :
    best E u = best E v := by
  apply Finset.sup_congr rfl
  intro M hM
  exact Finset.sum_congr rfl fun e he => h e ((mem_matchings.mp hM).1 he)

@[simp] theorem best_empty (u : L × R → ℕ) : best (∅ : Finset (L × R)) u = 0 := by
  apply Nat.le_zero.mp
  apply best_le
  intro M hM _
  simp [Finset.subset_empty.mp hM]

/-- The optimum of two graphs without a common endpoint is the sum of the
two optima. -/
theorem best_union {E F : Finset (L × R)} (u : L × R → ℕ) (h : Apart E F) :
    best (E ∪ F) u = best E u + best F u := by
  apply le_antisymm
  · apply best_le
    intro M hM hone
    have hsplit : M = M ∩ E ∪ M ∩ F := by
      rw [← Finset.inter_union_distrib_left]
      exact (Finset.inter_eq_left.mpr hM).symm
    have hd : Disjoint (M ∩ E) (M ∩ F) :=
      h.disjoint.mono Finset.inter_subset_right Finset.inter_subset_right
    calc ∑ e ∈ M, u e = ∑ e ∈ M ∩ E ∪ M ∩ F, u e := by rw [← hsplit]
      _ = ∑ e ∈ M ∩ E, u e + ∑ e ∈ M ∩ F, u e := Finset.sum_union hd
      _ ≤ best E u + best F u := add_le_add
          (le_best u Finset.inter_subset_right (hone.mono Finset.inter_subset_left))
          (le_best u Finset.inter_subset_right (hone.mono Finset.inter_subset_left))
  · obtain ⟨M, hME, hM, hMb⟩ := exists_best E u
    obtain ⟨N, hNF, hN, hNb⟩ := exists_best F u
    have hMN : Apart M N := h.mono hME hNF
    calc best E u + best F u = ∑ e ∈ M ∪ N, u e := by
          rw [Finset.sum_union hMN.disjoint, hMb, hNb]
      _ ≤ best (E ∪ F) u := le_best u (Finset.union_subset_union hME hNF)
          (oneToOne_union hMN hM hN)

def unions (cs : List (Finset (L × R))) : Finset (L × R) := cs.foldr (· ∪ ·) ∅

@[simp] theorem mem_unions {cs : List (Finset (L × R))} {e : L × R} :
    e ∈ unions cs ↔ ∃ c ∈ cs, e ∈ c := by
  induction cs with
  | nil => simp [unions]
  | cons c cs ih =>
    rw [unions, List.foldr_cons, Finset.mem_union, ← unions, ih]
    simp

/-- The optimum of a family of pairwise separate graphs is the sum of their
optima. -/
theorem best_unions (u : L × R → ℕ) {cs : List (Finset (L × R))} (h : cs.Pairwise Apart) :
    best (unions cs) u = (cs.map fun c => best c u).sum := by
  induction cs with
  | nil => simp [unions]
  | cons c cs ih =>
    obtain ⟨hc, hcs⟩ := List.pairwise_cons.mp h
    have hapart : Apart c (unions cs) := by
      intro e he f hf
      obtain ⟨d, hd, hf⟩ := mem_unions.mp hf
      exact hc d hd e he f hf
    have hu : unions (c::cs) = c ∪ unions cs := rfl
    rw [hu, best_union u hapart, ih hcs]
    simp

def gap (E : Finset (L × R)) (u : L × R → ℕ) (e : L × R) : ℕ :=
  best E u-best (E.erase e) u

theorem erase_union_apart {E F : Finset (L × R)} (h : Apart E F) {e : L × R} (he : e ∈ E) :
    (E ∪ F).erase e = E.erase e ∪ F := by
  ext f
  simp only [Finset.mem_erase, Finset.mem_union]
  constructor
  · rintro ⟨hne, hf | hf⟩
    · exact Or.inl ⟨hne, hf⟩
    · exact Or.inr hf
  · rintro (⟨hne, hf⟩ | hf)
    · exact ⟨hne, Or.inl hf⟩
    · refine ⟨?_, Or.inr hf⟩
      rintro rfl
      exact (h f he f hf).1 rfl

theorem gap_local {E F : Finset (L × R)} (u : L × R → ℕ) (h : Apart E F) {e : L × R}
    (he : e ∈ E) : gap (E ∪ F) u e = gap E u e := by
  have hle : best (E.erase e) u ≤ best E u := best_mono u (Finset.erase_subset e E)
  rw [gap, gap, erase_union_apart h he, best_union u h,
    best_union u (h.mono (Finset.erase_subset e E) (Finset.Subset.refl F))]
  omega

theorem mem_of_gap_pos {E M : Finset (L × R)} {u : L × R → ℕ} {e : L × R}
    (hgap : 0 < gap E u e) (hs : M ⊆ E) (hM : OneToOne M)
    (hopt : ∑ f ∈ M, u f = best E u) : e ∈ M := by
  by_contra hne
  have hsub : M ⊆ E.erase e := fun f hf => Finset.mem_erase.mpr
    ⟨fun h => hne (h ▸ hf), hs hf⟩
  have hle := le_best u hsub hM
  unfold gap at hgap
  omega

section Renaming
variable {L' R' : Type*} [DecidableEq L'] [DecidableEq R']

/-- Renaming both sides injectively renames the matchings and keeps the
optimum. -/
theorem best_image {f : L → L'} {g : R → R'} (hf : Function.Injective f)
    (hg : Function.Injective g) (E : Finset (L × R)) (u : L' × R' → ℕ) :
    best (E.image (Prod.map f g)) u = best E (u ∘ Prod.map f g) := by
  have hinj : Function.Injective (Prod.map f g) := hf.prodMap hg
  apply le_antisymm
  · apply best_le
    intro M hM hone
    obtain ⟨N, hN, rfl⟩ := Finset.subset_image_iff.mp hM
    rw [Finset.sum_image (hinj.injOn)]
    refine le_best (u ∘ Prod.map f g) hN ?_
    intro e he k hk hek
    apply hinj
    refine hone _ (Finset.mem_image_of_mem _ he) _ (Finset.mem_image_of_mem _ hk) ?_
    exact hek.imp (congrArg f) (congrArg g)
  · apply best_le
    intro N hN hone
    have hsum : ∑ e ∈ N, (u ∘ Prod.map f g) e = ∑ e ∈ N.image (Prod.map f g), u e :=
      (Finset.sum_image (hinj.injOn)).symm
    rw [hsum]
    refine le_best u (Finset.image_subset_image hN) ?_
    intro e he k hk hek
    obtain ⟨e', he', rfl⟩ := Finset.mem_image.mp he
    obtain ⟨k', hk', rfl⟩ := Finset.mem_image.mp hk
    congr 1
    exact hone e' he' k' hk' (hek.imp (fun h => hf h) (fun h => hg h))

theorem gap_image {f : L → L'} {g : R → R'} (hf : Function.Injective f)
    (hg : Function.Injective g) (E : Finset (L × R)) (u : L' × R' → ℕ) (e : L × R) :
    gap (E.image (Prod.map f g)) u (Prod.map f g e) = gap E (u ∘ Prod.map f g) e := by
  rw [gap, gap, ← Finset.image_erase (hf.prodMap hg), best_image hf hg, best_image hf hg]

end Renaming

end Workbench.Matching
