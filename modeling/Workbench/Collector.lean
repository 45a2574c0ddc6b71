import Workbench.Tables

/-!
# Deletion along foreign keys

A deletion collects the rows that refer to what it deletes by a cascading key,
again and again until there are none. It is refused when any row refers to a
collected one by a protecting key, itself collected or not. Otherwise the
collected rows go, and keys that are set to null are cleared in the rest.
-/

set_option autoImplicit false

namespace Workbench.Collector
open Workbench.Listing

inductive OnDelete where
  | cascade
  | protect
  | setNull
deriving DecidableEq, Repr

structure ForeignKey (τ : Type) where
  column : String
  target : τ
  onDelete : OnDelete

structure Row (τ : Type) where
  table : τ
  id : ℕ
  columns : List (String × ℕ)
  texts : List (String × String)
deriving DecidableEq

section Deletion
variable {τ : Type} [DecidableEq τ]

def Row.key (r : Row τ) : τ × ℕ := (r.table, r.id)

def Row.reference (r : Row τ) (fk : ForeignKey τ) : Option (τ × ℕ) :=
  (lookup Prod.fst r.columns fk.column).map fun c => (fk.target, c.2)

variable (schema : τ → List (ForeignKey τ))

def Refers (rule : OnDelete) (keys : List (τ × ℕ)) (r : Row τ) : Prop :=
  ∃ fk ∈ schema r.table, fk.onDelete = rule ∧ ∃ k ∈ r.reference fk, k ∈ keys

instance refers_decidable (rule : OnDelete) (keys : List (τ × ℕ)) (r : Row τ) :
    Decidable (Refers schema rule keys r) :=
  inferInstanceAs (Decidable (∃ fk ∈ schema r.table, _))

def newlyCollected (rows : List (Row τ)) (keys : List (τ × ℕ)) : List (Row τ) :=
  rows.filter fun r => Refers schema .cascade keys r ∧ r.key ∉ keys

def collectRounds (rows : List (Row τ)) : ℕ → List (τ × ℕ) → List (τ × ℕ)
  | 0, keys => keys
  | n+1, keys =>
    if newlyCollected schema rows keys = [] then keys
    else collectRounds rows n (keys ++ (newlyCollected schema rows keys).map Row.key)

def collect (rows : List (Row τ)) (start : List (τ × ℕ)) : List (τ × ℕ) :=
  collectRounds schema rows (rows.length+1) start

def Row.clear (keys : List (τ × ℕ)) (r : Row τ) : Row τ :=
  { r with columns := r.columns.filter fun c =>
      ¬∃ fk ∈ schema r.table, fk.column = c.1 ∧ fk.onDelete = .setNull ∧ (fk.target, c.2) ∈ keys }

def delete (rows : List (Row τ)) (start : List (τ × ℕ)) :
    Except (List (Row τ)) (List (Row τ)) :=
  let keys := collect schema rows start
  let protecting := rows.filter fun r => Refers schema .protect keys r
  if protecting = [] then
    .ok ((rows.filter fun r => r.key ∉ keys).map (Row.clear schema keys))
  else .error protecting

variable {schema} {rows : List (Row τ)} {keys start : List (τ × ℕ)}

def Closed (schema : τ → List (ForeignKey τ)) (rows : List (Row τ)) (P : τ × ℕ → Prop) : Prop :=
  ∀ r ∈ rows, (∃ fk ∈ schema r.table, fk.onDelete = .cascade ∧ ∃ k ∈ r.reference fk, P k) →
    P r.key

theorem newlyCollected_nil (h : newlyCollected schema rows keys = []) :
    Closed schema rows (· ∈ keys) := by
  intro r hr href
  by_contra hk
  have hm : r ∈ newlyCollected schema rows keys :=
    List.mem_filter.mpr ⟨hr, decide_eq_true ⟨href, hk⟩⟩
  rw [h] at hm
  cases hm

theorem subset_collectRounds (n : ℕ) (keys : List (τ × ℕ)) :
    ∀ k ∈ keys, k ∈ collectRounds schema rows n keys := by
  induction n generalizing keys with
  | zero => exact fun k hk => hk
  | succ n ih =>
    intro k hk
    unfold collectRounds
    split
    · exact hk
    · exact ih _ k (List.mem_append_left _ hk)

theorem collectRounds_least {P : τ × ℕ → Prop} (hP : Closed schema rows P) (n : ℕ)
    {keys : List (τ × ℕ)} (hkeys : ∀ k ∈ keys, P k) :
    ∀ k ∈ collectRounds schema rows n keys, P k := by
  induction n generalizing keys with
  | zero => exact hkeys
  | succ n ih =>
    unfold collectRounds
    split
    · exact hkeys
    · apply ih
      intro k hk
      rcases List.mem_append.mp hk with hk | hk
      · exact hkeys k hk
      · obtain ⟨r, hr, rfl⟩ := List.mem_map.mp hk
        obtain ⟨hmem, hrefers⟩ := List.mem_filter.mp hr
        obtain ⟨⟨fk, hfk, hrule, x, hx, hin⟩, _⟩ := of_decide_eq_true hrefers
        exact hP r hmem ⟨fk, hfk, hrule, x, hx, hkeys x hin⟩

def uncollected (rows : List (Row τ)) (keys : List (τ × ℕ)) : List (Row τ) :=
  rows.filter fun r => r.key ∉ keys

theorem uncollected_lt (h : newlyCollected schema rows keys ≠ []) :
    (uncollected rows (keys ++ (newlyCollected schema rows keys).map Row.key)).length <
      (uncollected rows keys).length := by
  obtain ⟨r, hr⟩ := List.exists_mem_of_ne_nil _ h
  obtain ⟨hmem, hrefers⟩ := List.mem_filter.mp hr
  have hrk := (of_decide_eq_true hrefers).2
  have hsub : (uncollected rows (keys ++ (newlyCollected schema rows keys).map Row.key)) =
      (uncollected rows keys).filter fun x =>
        x.key ∉ (newlyCollected schema rows keys).map Row.key := by
    unfold uncollected
    rw [List.filter_filter]
    apply List.filter_congr
    intro x _
    simp only [List.mem_append, not_or, Bool.decide_and, Bool.and_comm]
  rw [hsub]
  apply List.length_filter_lt_length_iff_exists.mpr
  refine ⟨r, List.mem_filter.mpr ⟨hmem, decide_eq_true hrk⟩, ?_⟩
  simp only [decide_eq_true_eq, not_not]
  exact List.mem_map_of_mem hr

theorem collectRounds_closed (n : ℕ) {keys : List (τ × ℕ)}
    (h : (uncollected rows keys).length < n) :
    Closed schema rows (· ∈ collectRounds schema rows n keys) := by
  induction n generalizing keys with
  | zero => omega
  | succ n ih =>
    unfold collectRounds
    by_cases hnew : newlyCollected schema rows keys = []
    · rw [if_pos hnew]
      exact newlyCollected_nil hnew
    · rw [if_neg hnew]
      apply ih
      have := uncollected_lt hnew
      omega

theorem mem_collect {k : τ × ℕ} : k ∈ collect schema rows start ↔
    ∀ P : τ × ℕ → Prop, Closed schema rows P → (∀ x ∈ start, P x) → P k := by
  constructor
  · intro hk P hP hstart
    exact collectRounds_least hP _ hstart k hk
  · intro h
    apply h
    · apply collectRounds_closed
      have := List.length_filter_le (fun r => decide (Row.key r ∉ start)) rows
      unfold uncollected
      omega
    · exact subset_collectRounds _ start

theorem collect_closed : Closed schema rows (· ∈ collect schema rows start) := by
  apply collectRounds_closed
  have := List.length_filter_le (fun r => decide (Row.key r ∉ start)) rows
  unfold uncollected
  omega

theorem delete_ok {after : List (Row τ)} : delete schema rows start = .ok after ↔
    (∀ r ∈ rows, ¬Refers schema .protect (collect schema rows start) r) ∧
      after = (rows.filter fun r => r.key ∉ collect schema rows start).map
        (Row.clear schema (collect schema rows start)) := by
  unfold delete
  simp only [List.filter_eq_nil_iff, decide_eq_true_eq]
  split
  · rename_i h
    rw [Except.ok.injEq, eq_comm]
    exact ⟨fun he => ⟨h, he⟩, fun he => he.2⟩
  · rename_i h
    constructor
    · intro he
      cases he
    · intro he
      exact absurd he.1 h

theorem reference_clear {r : Row τ} (hn : (r.columns.map Prod.fst).Nodup) {fk : ForeignKey τ}
    (hfk : fk ∈ schema r.table) {k : τ × ℕ} (h : k ∈ (Row.clear schema keys r).reference fk) :
    k ∈ r.reference fk ∧ (fk.onDelete = .setNull → k ∉ keys) := by
  unfold Row.reference Row.clear at h
  obtain ⟨c, hc, rfl⟩ := Option.map_eq_some_iff.mp h
  obtain ⟨hmem, hcol⟩ := lookup_some hc
  obtain ⟨hin, hkeep⟩ := List.mem_filter.mp hmem
  constructor
  · unfold Row.reference
    rw [← hcol, lookup_mem hn hin]
    rfl
  · intro hrule hk
    exact of_decide_eq_true hkeep ⟨fk, hfk, hcol.symm, hrule, hk⟩

/-- Every key of a row that stays and was not cleared points to a row that
stays. -/
theorem reference_stays {after : List (Row τ)} (h : delete schema rows start = .ok after)
    {r : Row τ} (hr : r ∈ rows) (hk : r.key ∉ collect schema rows start)
    (hn : (r.columns.map Prod.fst).Nodup) {fk : ForeignKey τ} (hfk : fk ∈ schema r.table)
    {k : τ × ℕ} (href : k ∈ (Row.clear schema (collect schema rows start) r).reference fk) :
    k ∈ r.reference fk ∧ k ∉ collect schema rows start := by
  obtain ⟨hold, hnull⟩ := reference_clear hn hfk href
  refine ⟨hold, fun hin => ?_⟩
  cases hrule : fk.onDelete with
  | cascade => exact hk (collect_closed r hr ⟨fk, hfk, hrule, k, hold, hin⟩)
  | protect => exact (delete_ok.mp h).1 r hr ⟨fk, hfk, hrule, k, hold, hin⟩
  | setNull => exact hnull hrule hin

end Deletion

end Workbench.Collector
