import Workbench.Matching
import Mathlib.Data.List.Nodup
import Mathlib.Data.List.NodupEquivFin
import Mathlib.Algebra.BigOperators.Group.List.Basic
import Mathlib.Algebra.Order.BigOperators.Group.List
import Mathlib.Algebra.BigOperators.Group.Finset.Sigma
import Mathlib.Tactic.Ring
import Mathlib.Tactic.Linarith

/-!
# Matchings as minimum-cost row assignments

A cost matrix has one row for each left endpoint, one column for each right
endpoint and one extra column for each row. The extra columns cost nothing,
an allowed pair costs minus its utility and any other pair costs more than
all utilities together. A minimum-cost assignment of every row then selects
a one-to-one matching of maximum utility and no forbidden pair.
-/

set_option autoImplicit false

namespace Workbench.PaddedAssignment
open Workbench.Matching

abbrev Selection := List (ℕ × ℕ)

def cost (costs : List (List ℤ)) (p : ℕ × ℕ) : ℤ := (costs.getD p.1 []).getD p.2 0

def total (costs : List (List ℤ)) (s : Selection) : ℤ := (s.map (cost costs)).sum

structure Complete (rows columns : ℕ) (s : Selection) : Prop where
  rows : (s.map Prod.fst).Perm (List.range rows)
  distinct : (s.map Prod.snd).Nodup
  columns : ∀ c ∈ s.map Prod.snd, c < columns

structure Minimum (costs : List (List ℤ)) (columns : ℕ) (s : Selection) : Prop where
  complete : Complete costs.length columns s
  least : ∀ t, Complete costs.length columns t → total costs s ≤ total costs t

/-- What is asked of a solver: on every rectangular matrix with at least as
many columns as rows it returns a complete assignment of least cost. -/
def Optimal (minimize : List (List ℤ) → Selection) : Prop :=
  ∀ costs columns, (∀ row ∈ costs, row.length = columns) → costs.length ≤ columns →
    Minimum costs columns (minimize costs)

variable {L R : Type*}

def padded (rows : List L) (columns : List R) (cell : L → R → ℤ) : List (List ℤ) :=
  rows.map fun l => columns.map (cell l) ++ rows.map fun _ => 0

@[simp] theorem padded_length (rows : List L) (columns : List R) (cell : L → R → ℤ) :
    (padded rows columns cell).length = rows.length := by
  simp [padded]

theorem padded_rectangular (rows : List L) (columns : List R) (cell : L → R → ℤ) :
    ∀ row ∈ padded rows columns cell, row.length = columns.length+rows.length := by
  intro row hr
  obtain ⟨l, -, rfl⟩ := List.mem_map.mp hr
  simp

theorem cost_real {rows : List L} {columns : List R} (cell : L → R → ℤ) {i j : ℕ}
    (hi : i < rows.length) (hj : j < columns.length) :
    cost (padded rows columns cell) (i, j) = cell rows[i] columns[j] := by
  simp [cost, padded, List.getD_eq_getElem?_getD, hi, hj, List.getElem?_append_left]

theorem cost_spare {rows : List L} {columns : List R} (cell : L → R → ℤ) {i j : ℕ}
    (hi : i < rows.length) (hj : columns.length ≤ j) (hr : j < columns.length+rows.length) :
    cost (padded rows columns cell) (i, j) = 0 := by
  have hsub : j-columns.length < rows.length := by omega
  simp [cost, padded, List.getD_eq_getElem?_getD, hi, hj, List.getElem?_append_right, hsub]

def pairAt (rows : List L) (columns : List R) (p : ℕ × ℕ) : Option (L × R) :=
  match rows[p.1]?, columns[p.2]? with
  | some l, some r => some (l, r)
  | _, _ => none

theorem pairAt_some {rows : List L} {columns : List R} {p : ℕ × ℕ} {e : L × R} :
    pairAt rows columns p = some e ↔ rows[p.1]? = some e.1 ∧ columns[p.2]? = some e.2 := by
  obtain ⟨l, r⟩ := e
  unfold pairAt
  cases rows[p.1]? <;> cases columns[p.2]? <;> simp

def chosen (rows : List L) (columns : List R) (s : Selection) : List (L × R) :=
  s.filterMap (pairAt rows columns)

theorem mem_chosen {rows : List L} {columns : List R} {s : Selection} {e : L × R} :
    e ∈ chosen rows columns s ↔
      ∃ p ∈ s, rows[p.1]? = some e.1 ∧ columns[p.2]? = some e.2 := by
  simp [chosen, List.mem_filterMap, pairAt_some]

section Selections
variable {rows : List L} {columns : List R} {s : Selection} {n c : ℕ}

theorem Complete.row_lt (h : Complete n c s) {p : ℕ × ℕ} (hp : p ∈ s) : p.1 < n := by
  have hm : p.1 ∈ s.map Prod.fst := List.mem_map_of_mem hp
  simpa using (h.rows.mem_iff).mp hm

theorem Complete.column_lt (h : Complete n c s) {p : ℕ × ℕ} (hp : p ∈ s) : p.2 < c :=
  h.columns p.2 (List.mem_map_of_mem hp)

theorem Complete.rows_nodup (h : Complete n c s) : (s.map Prod.fst).Nodup :=
  h.rows.nodup_iff.mpr List.nodup_range

theorem Complete.length_eq (h : Complete n c s) : s.length = n := by
  simpa using h.rows.length_eq

theorem chosen_nodup (hr : rows.Nodup) (hc : columns.Nodup) (h : Complete n c s) :
    (chosen rows columns s).Nodup := by
  have hs : s.Nodup := h.rows_nodup.of_map Prod.fst
  refine List.Nodup.filterMap ?_ hs
  intro p q e hp hq
  obtain ⟨hp1, hp2⟩ := pairAt_some.mp hp
  obtain ⟨hq1, hq2⟩ := pairAt_some.mp hq
  have hlt1 : p.1 < rows.length := (List.getElem?_eq_some_iff.mp hp1).1
  have hlt2 : p.2 < columns.length := (List.getElem?_eq_some_iff.mp hp2).1
  exact Prod.ext ((List.getElem?_inj hlt1 hr).mp (hp1.trans hq1.symm))
    ((List.getElem?_inj hlt2 hc).mp (hp2.trans hq2.symm))

theorem chosen_oneToOne [DecidableEq L] [DecidableEq R] (hr : rows.Nodup)
    (hc : columns.Nodup) (h : Complete n c s) : OneToOne (chosen rows columns s).toFinset := by
  intro e he f hf hef
  obtain ⟨p, hp, hp1, hp2⟩ := mem_chosen.mp (List.mem_toFinset.mp he)
  obtain ⟨q, hq, hq1, hq2⟩ := mem_chosen.mp (List.mem_toFinset.mp hf)
  have hlt1 : p.1 < rows.length := (List.getElem?_eq_some_iff.mp hp1).1
  have hlt2 : p.2 < columns.length := (List.getElem?_eq_some_iff.mp hp2).1
  have hpq : p = q := by
    rcases hef with h1 | h2
    · rw [← h1] at hq1
      have hrow : p.1 = q.1 := (List.getElem?_inj hlt1 hr).mp (hp1.trans hq1.symm)
      exact List.inj_on_of_nodup_map h.rows_nodup hp hq hrow
    · rw [← h2] at hq2
      have hcol : p.2 = q.2 := (List.getElem?_inj hlt2 hc).mp (hp2.trans hq2.symm)
      exact List.inj_on_of_nodup_map h.distinct hp hq hcol
  subst hpq
  exact Prod.ext (Option.some.inj (hp1.symm.trans hq1)) (Option.some.inj (hp2.symm.trans hq2))

end Selections

/-- The prices of a padded matrix: minus the utility on an allowed pair and
a price above any total utility elsewhere. -/
structure Priced (rows : List L) (columns : List R) (E : Finset (L × R)) (u : L × R → ℕ)
    (cell : L → R → ℤ) (bound : ℕ) (forbidden : ℤ) : Prop where
  allowed : ∀ l r, (l, r) ∈ E → cell l r = -(u (l, r) : ℤ)
  other : ∀ l ∈ rows, ∀ r ∈ columns, (l, r) ∉ E → cell l r = forbidden
  small : ∀ e ∈ E, u e ≤ bound
  large : ((rows.length*bound : ℕ) : ℤ) < forbidden

section Optimum
variable {rows : List L} {columns : List R} {E : Finset (L × R)} {u : L × R → ℕ}
  {cell : L → R → ℤ} {bound : ℕ} {forbidden : ℤ}

def spare (columns rows : ℕ) : Selection := (List.range rows).map fun i => (i, columns+i)

theorem spare_complete (m n : ℕ) : Complete n (m+n) (spare m n) := by
  refine ⟨?_, ?_, ?_⟩
  · simp [spare, List.map_map, Function.comp_def]
  · rw [spare, List.map_map]
    exact List.nodup_range.map fun i j h => by simpa using h
  · intro c hc
    simp only [spare, List.map_map, List.mem_map, List.mem_range, Function.comp_apply] at hc
    obtain ⟨i, hi, rfl⟩ := hc
    omega

theorem spare_total (cell : L → R → ℤ) :
    total (padded rows columns cell) (spare columns.length rows.length) = 0 := by
  apply List.sum_eq_zero
  intro x hx
  simp only [spare, List.map_map, List.mem_map, List.mem_range, Function.comp_apply] at hx
  obtain ⟨i, hi, rfl⟩ := hx
  exact cost_spare cell hi (by omega) (by omega)

theorem sum_ge_of_mem {l : List ℤ} {b : ℕ} (h : ∀ y ∈ l, -(b : ℤ) ≤ y) {x : ℤ} (hx : x ∈ l) :
    x-((l.length*b : ℕ) : ℤ) ≤ l.sum := by
  induction l with
  | nil => simp at hx
  | cons y l ih =>
    have hy := h y (by simp)
    have hl : ∀ z ∈ l, -(b : ℤ) ≤ z := fun z hz => h z (by simp [hz])
    have hsum : -((l.length*b : ℕ) : ℤ) ≤ l.sum := by
      clear ih hx hy h
      induction l with
      | nil => simp
      | cons z l ih =>
        have hz := hl z (by simp)
        have ht := ih fun w hw => hl w (by simp [hw])
        simp only [List.length_cons, List.sum_cons]
        push_cast at *
        linarith
    rcases List.mem_cons.mp hx with rfl | hx
    · simp only [List.length_cons, List.sum_cons]
      push_cast at *
      linarith [Int.natCast_nonneg b]
    · have := ih hl hx
      simp only [List.length_cons, List.sum_cons]
      push_cast at *
      linarith

theorem cost_ge (hp : Priced rows columns E u cell bound forbidden) {p : ℕ × ℕ}
    (h1 : p.1 < rows.length) (h2 : p.2 < columns.length+rows.length) :
    -(bound : ℤ) ≤ cost (padded rows columns cell) p := by
  obtain ⟨i, j⟩ := p
  have hf : (0 : ℤ) ≤ forbidden := le_trans (Int.natCast_nonneg _) hp.large.le
  have hb : (0 : ℤ) ≤ bound := Int.natCast_nonneg _
  rcases Nat.lt_or_ge j columns.length with hj | hj
  · rw [cost_real cell h1 hj]
    by_cases hE : (rows[i], columns[j]) ∈ E
    · rw [hp.allowed _ _ hE]
      have := hp.small _ hE
      omega
    · rw [hp.other _ (List.getElem_mem h1) _ (List.getElem_mem hj) hE]
      linarith
  · rw [cost_spare cell h1 hj h2]
    linarith

/-- A least-cost assignment never uses a forbidden cell: leaving every row
on its spare column is cheaper than one forbidden price. -/
theorem chosen_allowed (hp : Priced rows columns E u cell bound forbidden) {s : Selection}
    (h : Minimum (padded rows columns cell) (columns.length+rows.length) s) :
    ∀ e ∈ chosen rows columns s, e ∈ E := by
  intro e he
  by_contra hE
  obtain ⟨p, hps, hp1, hp2⟩ := mem_chosen.mp he
  have hc := h.complete
  rw [padded_length] at hc
  obtain ⟨h1, he1⟩ := List.getElem?_eq_some_iff.mp hp1
  obtain ⟨h2, he2⟩ := List.getElem?_eq_some_iff.mp hp2
  have hcost : cost (padded rows columns cell) p = forbidden := by
    have hpe : p = (p.1, p.2) := rfl
    rw [hpe, cost_real cell h1 h2, he1, he2]
    exact hp.other _ (he1 ▸ List.getElem_mem h1) _ (he2 ▸ List.getElem_mem h2) hE
  have hge : ∀ y ∈ s.map (cost (padded rows columns cell)), -(bound : ℤ) ≤ y := by
    intro y hy
    obtain ⟨q, hq, rfl⟩ := List.mem_map.mp hy
    exact cost_ge hp (hc.row_lt hq) (hc.column_lt hq)
  have hsum := sum_ge_of_mem hge (List.mem_map_of_mem hps)
  have hleast := h.least _ (by rw [padded_length]; exact spare_complete columns.length rows.length)
  rw [spare_total] at hleast
  rw [hcost, List.length_map, hc.length_eq] at hsum
  have hl := hp.large
  unfold total at hleast
  linarith

theorem total_of_allowed (hp : Priced rows columns E u cell bound forbidden) {s : Selection}
    (hrow : ∀ p ∈ s, p.1 < rows.length) (hcol : ∀ p ∈ s, p.2 < columns.length+rows.length)
    (hE : ∀ e ∈ chosen rows columns s, e ∈ E) :
    total (padded rows columns cell) s = -(((chosen rows columns s).map u).sum : ℤ) := by
  induction s with
  | nil => simp [total, chosen]
  | cons p s ih =>
    obtain ⟨i, j⟩ := p
    have hi : i < rows.length := hrow (i, j) (by simp)
    have hj : j < columns.length+rows.length := hcol (i, j) (by simp)
    have hs : ∀ e ∈ chosen rows columns s, e ∈ E := by
      intro e he
      obtain ⟨q, hq, hqe⟩ := mem_chosen.mp he
      exact hE e (mem_chosen.mpr ⟨q, by simp [hq], hqe⟩)
    have ih' := ih (fun q hq => hrow q (by simp [hq])) (fun q hq => hcol q (by simp [hq])) hs
    have ht : total (padded rows columns cell) ((i, j)::s) =
        cost (padded rows columns cell) (i, j)+total (padded rows columns cell) s := by
      simp [total]
    rcases Nat.lt_or_ge j columns.length with hjc | hjc
    · have hpair : pairAt rows columns (i, j) = some (rows[i], columns[j]) :=
        pairAt_some.mpr ⟨List.getElem?_eq_getElem hi, List.getElem?_eq_getElem hjc⟩
      have hch : chosen rows columns ((i, j)::s) =
          (rows[i], columns[j])::chosen rows columns s := by
        simp [chosen, hpair]
      rw [ht, ih', cost_real cell hi hjc, hch, hp.allowed _ _ (hE _ (by rw [hch]; simp))]
      simp only [List.map_cons, List.sum_cons]
      push_cast
      ring
    · have hpair : pairAt rows columns (i, j) = none := by
        unfold pairAt
        rw [show columns[j]? = none from List.getElem?_eq_none (by omega)]
        cases rows[i]? <;> rfl
      have hch : chosen rows columns ((i, j)::s) = chosen rows columns s := by
        simp [chosen, hpair]
      rw [ht, ih', cost_spare cell hi hjc hj, hch, zero_add]

variable [DecidableEq L] [DecidableEq R]

def slot (rows : List L) (columns : List R) (M : Finset (L × R)) (i : ℕ) : ℕ :=
  match rows[i]? with
  | some l =>
    if columns.findIdx (fun r => (l, r) ∈ M) < columns.length then
      columns.findIdx (fun r => (l, r) ∈ M)
    else columns.length+i
  | none => columns.length+i

def placed (rows : List L) (columns : List R) (M : Finset (L × R)) : Selection :=
  (List.range rows.length).map fun i => (i, slot rows columns M i)

theorem slot_cases (columns : List R) (M : Finset (L × R)) {i : ℕ} (hi : i < rows.length) :
    (∃ hj : slot rows columns M i < columns.length,
        (rows[i], columns[slot rows columns M i]) ∈ M) ∨
      (slot rows columns M i = columns.length+i ∧ ∀ r ∈ columns, (rows[i], r) ∉ M) := by
  have hl : rows[i]? = some rows[i] := List.getElem?_eq_getElem hi
  by_cases hj : columns.findIdx (fun r => (rows[i], r) ∈ M) < columns.length
  · have hs : slot rows columns M i = columns.findIdx (fun r => (rows[i], r) ∈ M) := by
      simp [slot, hl, hj]
    refine Or.inl ⟨hs ▸ hj, ?_⟩
    have hm := List.findIdx_getElem (w := hj)
    simpa [hs] using hm
  · refine Or.inr ⟨by simp [slot, hl, hj], ?_⟩
    intro r hr hM
    exact hj (List.findIdx_lt_length_of_exists ⟨r, hr, by simpa using hM⟩)

theorem placed_complete (columns : List R) (hr : rows.Nodup) {M : Finset (L × R)}
    (hM : OneToOne M) :
    Complete rows.length (columns.length+rows.length) (placed rows columns M) := by
  refine ⟨?_, ?_, ?_⟩
  · simp [placed, List.map_map, Function.comp_def]
  · rw [placed, List.map_map]
    refine List.Nodup.map_on ?_ List.nodup_range
    intro i hi j hj hij
    have hi := List.mem_range.mp hi
    have hj := List.mem_range.mp hj
    simp only [Function.comp_apply] at hij
    rcases slot_cases columns M hi with ⟨h1, m1⟩ | ⟨h1, -⟩ <;>
      rcases slot_cases columns M hj with ⟨h2, m2⟩ | ⟨h2, -⟩
    · have he := hM _ m1 _ m2 (Or.inr (by simp only [hij]))
      exact (List.Nodup.getElem_inj_iff hr).mp (Prod.mk.inj he).1
    · omega
    · omega
    · omega
  · intro c hc'
    simp only [placed, List.map_map, List.mem_map, List.mem_range, Function.comp_apply] at hc'
    obtain ⟨i, hi, rfl⟩ := hc'
    rcases slot_cases columns M hi with ⟨h1, -⟩ | ⟨h1, -⟩ <;> omega

theorem mem_chosen_placed {M : Finset (L × R)} (hM : OneToOne M)
    (hin : ∀ e ∈ M, e.1 ∈ rows ∧ e.2 ∈ columns) (e : L × R) :
    e ∈ chosen rows columns (placed rows columns M) ↔ e ∈ M := by
  constructor
  · intro he
    obtain ⟨p, hp, hp1, hp2⟩ := mem_chosen.mp he
    obtain ⟨i, hi, rfl⟩ := List.mem_map.mp hp
    have hi := List.mem_range.mp hi
    obtain ⟨h1, he1⟩ := List.getElem?_eq_some_iff.mp hp1
    obtain ⟨h2, he2⟩ := List.getElem?_eq_some_iff.mp hp2
    rcases slot_cases columns M hi with ⟨h3, m3⟩ | ⟨h3, -⟩
    · have hpe : e = (rows[i], columns[slot rows columns M i]) := Prod.ext he1.symm he2.symm
      exact hpe ▸ m3
    · exact absurd h2 (by simp only [h3]; omega)
  · intro he
    obtain ⟨h1, h2⟩ := hin e he
    obtain ⟨i, hi, he1⟩ := List.getElem_of_mem h1
    refine mem_chosen.mpr ⟨(i, slot rows columns M i), ?_, ?_, ?_⟩
    · exact List.mem_map.mpr ⟨i, List.mem_range.mpr hi, rfl⟩
    · simpa [hi] using he1
    · rcases slot_cases columns M hi with ⟨h3, m3⟩ | ⟨-, h4⟩
      · have hone := hM _ m3 _ he (Or.inl he1)
        rw [List.getElem?_eq_getElem h3]
        exact congrArg some (congrArg Prod.snd hone)
      · exact absurd he (by have := h4 e.2 h2; rwa [he1] at this)

theorem sum_chosen_placed (hr : rows.Nodup) (hc : columns.Nodup) (u : L × R → ℕ)
    {M : Finset (L × R)} (hM : OneToOne M)
    (hin : ∀ e ∈ M, e.1 ∈ rows ∧ e.2 ∈ columns) :
    ((chosen rows columns (placed rows columns M)).map u).sum = ∑ e ∈ M, u e := by
  have hnd := chosen_nodup hr hc (placed_complete columns hr hM)
  have hset : (chosen rows columns (placed rows columns M)).toFinset = M := by
    ext e
    rw [List.mem_toFinset]
    exact mem_chosen_placed hM hin e
  rw [← List.sum_toFinset u hnd, hset]

/-- The pairs chosen by a least-cost assignment of the padded matrix form a
matching whose total utility is the optimum of the allowed graph. -/
theorem chosen_best (hr : rows.Nodup) (hc : columns.Nodup)
    (hp : Priced rows columns E u cell bound forbidden)
    (hin : ∀ e ∈ E, e.1 ∈ rows ∧ e.2 ∈ columns) {s : Selection}
    (h : Minimum (padded rows columns cell) (columns.length+rows.length) s) :
    ((chosen rows columns s).map u).sum = best E u := by
  have hcomplete := h.complete
  rw [padded_length] at hcomplete
  have hallowed := chosen_allowed hp h
  apply le_antisymm
  · rw [← List.sum_toFinset u (chosen_nodup hr hc hcomplete)]
    exact le_best u (fun e he => hallowed e (List.mem_toFinset.mp he))
      (chosen_oneToOne hr hc hcomplete)
  · apply best_le
    intro M hME hM
    have hMin : ∀ e ∈ M, e.1 ∈ rows ∧ e.2 ∈ columns := fun e he => hin e (hME he)
    have hplaced := placed_complete columns hr hM
    have hleast := h.least (placed rows columns M) (by rw [padded_length]; exact hplaced)
    rw [total_of_allowed hp (fun p hp' => hcomplete.row_lt hp')
        (fun p hp' => hcomplete.column_lt hp') hallowed,
      total_of_allowed hp (fun p hp' => hplaced.row_lt hp')
        (fun p hp' => hplaced.column_lt hp')
        (fun e he => hME ((mem_chosen_placed hM hMin e).mp he)),
      sum_chosen_placed hr hc u hM hMin] at hleast
    omega

end Optimum

/-!
Every complete assignment is one of finitely many injective choices of a
column for each row, so trying them all is an optimal solver. It stands for
the numerical one wherever a concrete solver is run.
-/

def placements : ℕ → List ℕ → List (List ℕ)
  | 0, _ => [[]]
  | n+1, free => free.flatMap fun c => (placements n (free.erase c)).map (c::·)

theorem mem_placements (n : ℕ) (free s : List ℕ) (hf : free.Nodup) :
    s ∈ placements n free ↔ s.length = n ∧ s.Nodup ∧ s ⊆ free := by
  induction n generalizing free s with
  | zero =>
    simp only [placements, List.mem_singleton]
    constructor
    · rintro rfl
      simp
    · rintro ⟨h, -, -⟩
      exact List.length_eq_zero_iff.mp h
  | succ n ih =>
    simp only [placements, List.mem_flatMap, List.mem_map]
    constructor
    · rintro ⟨c, hc, t, ht, rfl⟩
      obtain ⟨h1, h2, h3⟩ := (ih _ t (hf.erase c)).mp ht
      refine ⟨by simp [h1], ?_, ?_⟩
      · refine List.nodup_cons.mpr ⟨fun hct => ?_, h2⟩
        exact ((List.Nodup.mem_erase_iff hf).mp (h3 hct)).1 rfl
      · intro x hx
        rcases List.mem_cons.mp hx with rfl | hx
        · exact hc
        · exact List.mem_of_mem_erase (h3 hx)
    · rintro ⟨h1, h2, h3⟩
      obtain ⟨c, t, rfl⟩ := List.exists_cons_of_length_eq_add_one h1
      obtain ⟨hct, ht⟩ := List.nodup_cons.mp h2
      refine ⟨c, h3 (by simp), t, (ih _ t (hf.erase c)).mpr ⟨by simpa using h1, ht, ?_⟩, rfl⟩
      intro x hx
      refine (List.Nodup.mem_erase_iff hf).mpr ⟨?_, h3 (by simp [hx])⟩
      rintro rfl
      exact hct hx

def enumerated (rows columns : ℕ) : List Selection :=
  (placements rows (List.range columns)).map fun s => (List.range rows).zip s

def cheapest (costs : List (List ℤ)) : List Selection → Selection
  | [] => []
  | [s] => s
  | s::t::rest =>
    if total costs s ≤ total costs (cheapest costs (t::rest)) then s
    else cheapest costs (t::rest)

def exhaustive (costs : List (List ℤ)) : Selection :=
  cheapest costs (enumerated costs.length (costs.headD []).length)

theorem cheapest_spec (costs : List (List ℤ)) (ss : List Selection) (h : ss ≠ []) :
    cheapest costs ss ∈ ss ∧ ∀ t ∈ ss, total costs (cheapest costs ss) ≤ total costs t := by
  induction ss with
  | nil => exact absurd rfl h
  | cons s ss ih =>
    cases ss with
    | nil => simp [cheapest]
    | cons t rest =>
      obtain ⟨hm, hle⟩ := ih (by simp)
      by_cases hc : total costs s ≤ total costs (cheapest costs (t::rest))
      · rw [cheapest, if_pos hc]
        refine ⟨by simp, ?_⟩
        intro x hx
        rcases List.mem_cons.mp hx with rfl | hx
        · exact le_refl _
        · exact hc.trans (hle x hx)
      · rw [cheapest, if_neg hc]
        refine ⟨List.mem_cons_of_mem _ hm, ?_⟩
        intro x hx
        rcases List.mem_cons.mp hx with rfl | hx
        · exact (not_le.mp hc).le
        · exact hle x hx

theorem enumerated_complete {n c : ℕ} {s : Selection} (h : s ∈ enumerated n c) :
    Complete n c s := by
  obtain ⟨t, ht, rfl⟩ := List.mem_map.mp h
  obtain ⟨h1, h2, h3⟩ := (mem_placements n _ t List.nodup_range).mp ht
  have hfst : ((List.range n).zip t).map Prod.fst = List.range n :=
    List.map_fst_zip (by simp [h1])
  have hsnd : ((List.range n).zip t).map Prod.snd = t :=
    List.map_snd_zip (by simp [h1])
  refine ⟨by rw [hfst], by rw [hsnd]; exact h2, ?_⟩
  rw [hsnd]
  intro x hx
  exact List.mem_range.mp (h3 hx)

theorem exists_enumerated {n c : ℕ} {s : Selection} (h : Complete n c s) :
    ∃ t ∈ enumerated n c, t.Perm s := by
  let sorted := s.insertionSort fun p q => p.1 ≤ q.1
  have hperm : sorted.Perm s := List.perm_insertionSort _ s
  have hfst : sorted.map Prod.fst = List.range n := by
    apply @List.Perm.eq_of_pairwise ℕ (· ≤ ·)
    · intro a b _ _ hab hba
      exact le_antisymm hab hba
    · rw [List.pairwise_map]
      have : Std.Total fun p q : ℕ × ℕ => p.1 ≤ q.1 := ⟨fun p q => le_total p.1 q.1⟩
      have : IsTrans (ℕ × ℕ) fun p q => p.1 ≤ q.1 := ⟨fun _ _ _ h k => le_trans h k⟩
      exact List.pairwise_insertionSort (fun p q : ℕ × ℕ => p.1 ≤ q.1) s
    · exact List.pairwise_le_range
    · exact (hperm.map Prod.fst).trans h.rows
  have hsnd : (sorted.map Prod.snd).Perm (s.map Prod.snd) := hperm.map Prod.snd
  refine ⟨sorted, List.mem_map.mpr ⟨sorted.map Prod.snd, ?_, ?_⟩, hperm⟩
  · refine (mem_placements n _ _ List.nodup_range).mpr ⟨?_, ?_, ?_⟩
    · rw [List.length_map, hperm.length_eq, h.length_eq]
    · exact hsnd.nodup_iff.mpr h.distinct
    · intro x hx
      exact List.mem_range.mpr (h.columns x (hsnd.mem_iff.mp hx))
  · rw [← hfst]
    exact (List.zip_of_prod rfl rfl).symm

theorem total_perm (costs : List (List ℤ)) {s t : Selection} (h : s.Perm t) :
    total costs s = total costs t := (h.map (cost costs)).sum_eq

theorem exhaustive_optimal : Optimal exhaustive := by
  intro costs columns hrect hle
  have hwidth : costs = [] ∨ (costs.headD []).length = columns := by
    cases costs with
    | nil => exact Or.inl rfl
    | cons row rest => exact Or.inr (hrect row (by simp))
  have hcols : enumerated costs.length (costs.headD []).length =
      enumerated costs.length columns := by
    rcases hwidth with rfl | h
    · rfl
    · rw [h]
  obtain ⟨t₀, ht₀, -⟩ := exists_enumerated (n := costs.length) (c := columns)
    (s := (List.range costs.length).map fun i => (i, i))
    ⟨by simp [List.map_map, Function.comp_def], by
      simp only [List.map_map, Function.comp_def, List.map_id']
      exact List.nodup_range, by
      intro x hx
      simp only [List.map_map, Function.comp_def, List.map_id', List.mem_range] at hx
      omega⟩
  obtain ⟨hm, hleast⟩ := cheapest_spec costs (enumerated costs.length columns)
    (List.ne_nil_of_mem ht₀)
  rw [exhaustive, hcols]
  refine ⟨enumerated_complete hm, ?_⟩
  intro t ht
  obtain ⟨t', ht', hperm⟩ := exists_enumerated ht
  rw [← total_perm costs hperm]
  exact hleast t' ht'

end Workbench.PaddedAssignment
