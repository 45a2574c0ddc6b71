import Mathlib.Logic.Relation
import Mathlib.Algebra.GroupWithZero.Nat
import Mathlib.Data.List.Nodup
import Mathlib.Data.List.Perm.Basic
import Mathlib.Algebra.BigOperators.Group.List.Basic
import Mathlib.Algebra.Order.BigOperators.Group.List

/-!
# Breadth-first search and classes of a symmetric relation

`flood` empties a queue, adds each element once and queues its neighbours
that are not in yet. Enough fuel makes it compute exactly what is reachable.
`classes` repeats it from the elements not visited so far and splits a finite
universe into the classes of a symmetric neighbour relation.
-/

set_option autoImplicit false

namespace Workbench.Flood

variable {α : Type*}

def Reach (next : α → List α) : α → α → Prop := Relation.ReflTransGen fun a b => b ∈ next a

theorem reach_universe {next : α → List α} {U : List α}
    (hclosed : ∀ a ∈ U, ∀ b ∈ next a, b ∈ U) {a b : α} (ha : a ∈ U) (h : Reach next a b) :
    b ∈ U := by
  induction h with
  | refl => exact ha
  | tail _ hb ih => exact hclosed _ ih _ hb

theorem reach_symm {next : α → List α} {U : List α}
    (hclosed : ∀ a ∈ U, ∀ b ∈ next a, b ∈ U)
    (hsymm : ∀ a ∈ U, ∀ b ∈ next a, a ∈ next b) {a b : α} (ha : a ∈ U)
    (h : Reach next a b) : Reach next b a := by
  induction h with
  | refl => exact Relation.ReflTransGen.refl
  | tail hab hb ih =>
    exact Relation.ReflTransGen.head (hsymm _ (reach_universe hclosed ha hab) _ hb) ih

variable [DecidableEq α]

def flood (next : α → List α) : ℕ → List α → List α → List α
  | 0, _, seen => seen
  | _+1, [], seen => seen
  | fuel+1, a::queue, seen =>
    if a ∈ seen then flood next fuel queue seen
    else flood next fuel (queue ++ (next a).filter (fun b => b ∉ a::seen)) (a::seen)

/-- Steps still to be taken: the queue, and the neighbours of what is not in
yet. -/
def work (next : α → List α) (U : List α) (queue seen : List α) : ℕ :=
  queue.length+((U.filter (· ∉ seen)).map fun a => (next a).length).sum

theorem work_tail (next : α → List α) (U : List α) (a : α) (queue seen : List α) :
    work next U queue seen < work next U (a::queue) seen := by
  simp [work]

theorem work_fresh (next : α → List α) {U : List α} (hU : U.Nodup) {a : α} (ha : a ∈ U)
    (queue : List α) {seen : List α} (h : a ∉ seen) :
    work next U (queue ++ (next a).filter (fun b => b ∉ a::seen)) (a::seen) <
      work next U (a::queue) seen := by
  have hmem : a ∈ U.filter (· ∉ seen) := by simp [ha, h]
  have hfilter : U.filter (· ∉ a::seen) = (U.filter (· ∉ seen)).erase a := by
    rw [(hU.filter _).erase_eq_filter, List.filter_filter]
    apply List.filter_congr
    intro b _
    by_cases hb : b = a <;> simp [hb]
  have hsum := List.sum_map_erase (fun a => (next a).length) hmem
  have hlen := List.length_filter_le (fun b => decide (b ∉ a::seen)) (next a)
  simp only [work, hfilter, List.length_append, List.length_cons] at *
  omega

def Covered (next : α → List α) (queue seen : List α) : Prop :=
  ∀ a ∈ seen, ∀ b ∈ next a, b ∈ seen ∨ b ∈ queue

theorem flood_spec (next : α → List α) {U : List α} (hU : U.Nodup)
    (hclosed : ∀ a ∈ U, ∀ b ∈ next a, b ∈ U) (fuel : ℕ) (queue seen : List α)
    (hq : ∀ a ∈ queue, a ∈ U) (hc : Covered next queue seen)
    (hw : work next U queue seen ≤ fuel) :
    Covered next [] (flood next fuel queue seen) ∧
      (∀ a, a ∈ queue ∨ a ∈ seen → a ∈ flood next fuel queue seen) ∧
      (∀ a ∈ flood next fuel queue seen, a ∈ seen ∨ ∃ q ∈ queue, Reach next q a) ∧
      (seen.Nodup → (flood next fuel queue seen).Nodup) := by
  induction fuel generalizing queue seen with
  | zero =>
    have hnil : queue = [] := by
      cases queue with
      | nil => rfl
      | cons a queue => simp [work] at hw
    subst hnil
    exact ⟨hc, fun a ha => by simpa [flood] using ha, fun a ha => Or.inl ha, id⟩
  | succ fuel ih =>
    cases queue with
    | nil => exact ⟨hc, fun a ha => by simpa [flood] using ha, fun a ha => Or.inl ha, id⟩
    | cons a queue =>
      by_cases ha : a ∈ seen
      · have hc' : Covered next queue seen := by
          intro x hx b hb
          rcases hc x hx b hb with h | h
          · exact Or.inl h
          · rcases List.mem_cons.mp h with rfl | h
            · exact Or.inl ha
            · exact Or.inr h
        have hw' := work_tail next U a queue seen
        obtain ⟨h1, h2, h3, h4⟩ := ih queue seen (fun b hb => hq b (by simp [hb])) hc'
          (by omega)
        rw [flood, if_pos ha]
        refine ⟨h1, ?_, ?_, h4⟩
        · rintro b (hb | hb)
          · rcases List.mem_cons.mp hb with rfl | hb
            · exact h2 _ (Or.inr ha)
            · exact h2 b (Or.inl hb)
          · exact h2 b (Or.inr hb)
        · intro b hb
          rcases h3 b hb with h | ⟨q, hq', hr⟩
          · exact Or.inl h
          · exact Or.inr ⟨q, by simp [hq'], hr⟩
      · have haU := hq a (by simp)
        have hc' : Covered next (queue ++ (next a).filter (fun b => b ∉ a::seen)) (a::seen) := by
          intro x hx b hb
          by_cases hbs : b ∈ a::seen
          · exact Or.inl hbs
          rcases List.mem_cons.mp hx with rfl | hx
          · exact Or.inr (List.mem_append_right _ (List.mem_filter.mpr ⟨hb, by simpa using hbs⟩))
          · rcases hc x hx b hb with h | h
            · exact Or.inl (List.mem_cons_of_mem _ h)
            · rcases List.mem_cons.mp h with rfl | h
              · exact Or.inl (by simp)
              · exact Or.inr (List.mem_append_left _ h)
        have hw' := work_fresh next hU haU queue ha
        obtain ⟨h1, h2, h3, h4⟩ := ih (queue ++ (next a).filter (fun b => b ∉ a::seen)) (a::seen)
          (by
            intro b hb
            rcases List.mem_append.mp hb with hb | hb
            · exact hq b (by simp [hb])
            · exact hclosed a haU b (List.mem_filter.mp hb).1) hc' (by omega)
        rw [flood, if_neg ha]
        refine ⟨h1, ?_, ?_, fun hn => h4 (List.nodup_cons.mpr ⟨ha, hn⟩)⟩
        · rintro b (hb | hb)
          · rcases List.mem_cons.mp hb with rfl | hb
            · exact h2 _ (Or.inr (by simp))
            · exact h2 b (Or.inl (by simp [hb]))
          · exact h2 b (Or.inr (by simp [hb]))
        · intro b hb
          rcases h3 b hb with h | ⟨q, hq', hr⟩
          · rcases List.mem_cons.mp h with rfl | h
            · exact Or.inr ⟨b, by simp, Relation.ReflTransGen.refl⟩
            · exact Or.inl h
          · rcases List.mem_append.mp hq' with hq' | hq'
            · exact Or.inr ⟨q, by simp [hq'], hr⟩
            · exact Or.inr ⟨a, by simp, Relation.ReflTransGen.head (List.mem_filter.mp hq').1 hr⟩

def budget (next : α → List α) (U : List α) : ℕ :=
  1+(U.map fun a => (next a).length).sum

def reached (next : α → List α) (U : List α) (start : α) : List α :=
  flood next (budget next U) [start] []

theorem reached_spec (next : α → List α) {U : List α} (hU : U.Nodup)
    (hclosed : ∀ a ∈ U, ∀ b ∈ next a, b ∈ U) {start : α} (hs : start ∈ U) :
    (∀ a, a ∈ reached next U start ↔ Reach next start a) ∧ (reached next U start).Nodup := by
  obtain ⟨h1, h2, h3, h4⟩ := flood_spec next hU hclosed (budget next U) [start] []
    (by simpa using hs) (fun a ha => by simp at ha) (by simp [work, budget])
  refine ⟨fun a => ⟨fun ha => ?_, fun ha => ?_⟩, h4 List.nodup_nil⟩
  · rcases h3 a ha with h | ⟨q, hq, hr⟩
    · simp at h
    · rw [List.mem_singleton.mp hq] at hr
      exact hr
  · induction ha with
    | refl => exact h2 start (Or.inl (by simp))
    | tail _ hb ih =>
      rcases h1 _ ih _ hb with h | h
      · exact h
      · simp at h

/-- Classes found one after the other, each from the element that `pick`
chooses among those not visited. -/
def classes (next : α → List α) (U : List α) (pick : List α → Option α) :
    ℕ → List α → List (List α)
  | 0, _ => []
  | fuel+1, unvisited =>
    match pick unvisited with
    | none => []
    | some start =>
      reached next U start ::
        classes next U pick fuel (unvisited.filter (· ∉ reached next U start))

/-- What the classes of a symmetric relation must be: each is everything
reachable from any of its members, no element is in two, and together they
hold the elements that were to be visited. -/
structure Classes (next : α → List α) (U unvisited : List α) (cs : List (List α)) : Prop where
  covers : ∀ a ∈ unvisited, ∃ c ∈ cs, a ∈ c
  within : ∀ c ∈ cs, ∀ a ∈ c, a ∈ U
  reach : ∀ c ∈ cs, ∀ a ∈ c, ∀ b, b ∈ c ↔ Reach next a b
  nodup : ∀ c ∈ cs, c.Nodup
  nonempty : ∀ c ∈ cs, c ≠ []
  started : ∀ c ∈ cs, ∃ a ∈ c, a ∈ unvisited
  apart : cs.Pairwise fun c d => ∀ a ∈ c, a ∉ d

theorem classes_spec (next : α → List α) {U : List α} (hU : U.Nodup)
    (hclosed : ∀ a ∈ U, ∀ b ∈ next a, b ∈ U)
    (hsymm : ∀ a ∈ U, ∀ b ∈ next a, a ∈ next b) (pick : List α → Option α)
    (hpick : ∀ l a, pick l = some a → a ∈ l) (htotal : ∀ l, pick l = none → l = [])
    (fuel : ℕ) (unvisited : List α) (hsub : ∀ a ∈ unvisited, a ∈ U)
    (hfuel : unvisited.length ≤ fuel) :
    Classes next U unvisited (classes next U pick fuel unvisited) := by
  induction fuel generalizing unvisited with
  | zero =>
    have hnil : unvisited = [] := List.length_eq_zero_iff.mp (by omega)
    subst hnil
    constructor <;> simp [classes]
  | succ fuel ih =>
    cases hp : pick unvisited with
    | none =>
      have hnil := htotal _ hp
      subst hnil
      constructor <;> simp [classes, hp]
    | some start =>
      have hstart := hpick _ _ hp
      have hsU := hsub _ hstart
      obtain ⟨hr, hnd⟩ := reached_spec next hU hclosed hsU
      have hself : start ∈ reached next U start := (hr start).mpr Relation.ReflTransGen.refl
      have hlt : (unvisited.filter (· ∉ reached next U start)).length < unvisited.length := by
        apply List.length_filter_lt_length_iff_exists.mpr
        exact ⟨start, hstart, by simpa using hself⟩
      have hrest := ih (unvisited.filter (· ∉ reached next U start))
        (fun a ha => hsub a (List.mem_filter.mp ha).1) (by omega)
      rw [classes, hp]
      refine ⟨?_, ?_, ?_, ?_, ?_, ?_, ?_⟩
      · intro a ha
        by_cases hin : a ∈ reached next U start
        · exact ⟨_, by simp, hin⟩
        · obtain ⟨c, hc, hac⟩ := hrest.covers a (List.mem_filter.mpr ⟨ha, by simpa using hin⟩)
          exact ⟨c, List.mem_cons_of_mem _ hc, hac⟩
      · intro c hc a ha
        rcases List.mem_cons.mp hc with rfl | hc
        · exact reach_universe hclosed hsU ((hr a).mp ha)
        · exact hrest.within c hc a ha
      · intro c hc a ha b
        rcases List.mem_cons.mp hc with rfl | hc
        · have hsa := (hr a).mp ha
          rw [hr b]
          exact ⟨fun h => (reach_symm hclosed hsymm hsU hsa).trans h, fun h => hsa.trans h⟩
        · exact hrest.reach c hc a ha b
      · intro c hc
        rcases List.mem_cons.mp hc with rfl | hc
        · exact hnd
        · exact hrest.nodup c hc
      · intro c hc
        rcases List.mem_cons.mp hc with rfl | hc
        · exact List.ne_nil_of_mem hself
        · exact hrest.nonempty c hc
      · intro c hc
        rcases List.mem_cons.mp hc with rfl | hc
        · exact ⟨start, hself, hstart⟩
        · obtain ⟨a, ha, hau⟩ := hrest.started c hc
          exact ⟨a, ha, (List.mem_filter.mp hau).1⟩
      · refine List.pairwise_cons.mpr ⟨?_, hrest.apart⟩
        -- a shared element would put the other class's start into this one
        intro c hc a ha hac
        obtain ⟨b, hb, hbu⟩ := hrest.started c hc
        have hab : Reach next a b := (hrest.reach c hc a hac b).mp hb
        have hbr : b ∈ reached next U start := (hr b).mpr (((hr a).mp ha).trans hab)
        exact absurd hbr (by simpa using (List.mem_filter.mp hbu).2)

end Workbench.Flood
