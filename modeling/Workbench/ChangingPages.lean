import Workbench.Keysets

/-!
# Pages of a changing list

Rows may come and go while a reader follows the cursors of a list. The reader is
shown rows in the order of the list and none twice, and is shown each row that
was there at every visit.
-/

set_option autoImplicit false

namespace Workbench.ChangingPages
open Workbench.Keysets

section Page
variable {α κ : Type} {before : κ → κ → Prop} {key : α → κ} {after : κ → α → Bool}
  {rows : List α} {size : ℕ} {position : Option κ} {a : α} {k : κ}

structure Listed (before : κ → κ → Prop) (key : α → κ) (after : κ → α → Bool) (rows : List α) :
    Prop where
  sorted : rows.Pairwise fun a b => before (key a) (key b)
  leaves : ∀ k, ∀ a ∈ rows, after k a = true ↔ before k (key a)

def Ahead (before : κ → κ → Prop) (position : Option κ) (k : κ) : Prop :=
  ∀ p ∈ position, before p k

theorem mem_rest (h : Listed before key after rows) :
    a ∈ rest after rows position ↔ a ∈ rows ∧ Ahead before position (key a) := by
  cases position with
  | none => simp [rest, Ahead]
  | some p =>
    rw [rest, List.mem_filter]
    refine and_congr_right fun ha => (h.leaves p a ha).trans ?_
    simp [Ahead]

theorem shown_ahead (h : Listed before key after rows) (ha : a ∈ shown after rows size position) :
    a ∈ rows ∧ Ahead before position (key a) := by
  rw [shown_eq] at ha
  exact (mem_rest h).mp (List.mem_of_mem_take ha)

theorem rest_sorted (h : Listed before key after rows) :
    (rest after rows position).Pairwise fun a b => before (key a) (key b) := by
  cases position with
  | none => exact h.sorted
  | some p => exact h.sorted.filter _

theorem shown_sorted (h : Listed before key after rows) :
    (shown after rows size position).Pairwise fun a b => before (key a) (key b) := by
  rw [shown_eq]
  exact (rest_sorted h).sublist (List.take_sublist _ _)

theorem fetched_more : size < (fetched after rows size position).length ↔
    size < (rest after rows position).length := by
  rw [fetched, List.length_take]
  omega

theorem ends_shown (h : Listed before key after rows) (hsize : 0 < size)
    (hnone : next key after rows size position = none) (ha : a ∈ rows)
    (hahead : Ahead before position (key a)) : a ∈ shown after rows size position := by
  have hmem := (mem_rest h).mpr ⟨ha, hahead⟩
  rw [shown_eq]
  by_cases hmore : size < (rest after rows position).length
  · rw [next, if_pos (fetched_more.mpr hmore), shown_eq, Option.map_eq_none_iff,
      List.getLast?_eq_none_iff] at hnone
    have hlength := congrArg List.length hnone
    rw [List.length_take, List.length_nil] at hlength
    omega
  · rwa [List.take_of_length_le (not_lt.mp hmore)]

/-- The cursor of a page is the key of its last row, and what was ahead is shown
or is ahead of the cursor. -/
theorem next_last (h : Listed before key after rows)
    (hsome : next key after rows size position = some k) :
    (∃ a ∈ shown after rows size position, key a = k) ∧
    (∀ a ∈ shown after rows size position, key a = k ∨ before (key a) k) ∧
    ∀ a ∈ rows, Ahead before position (key a) →
      a ∈ shown after rows size position ∨ before k (key a) := by
  unfold next at hsome
  split_ifs at hsome with hmore
  obtain ⟨z, hz, rfl⟩ := Option.map_eq_some_iff.mp hsome
  have hlast : shown after rows size position = (shown after rows size position).dropLast ++ [z] :=
    (List.dropLast_append_getLast? z hz).symm
  have hsorted : (shown after rows size position).Pairwise fun a b => before (key a) (key b) :=
    shown_sorted h
  refine ⟨⟨z, List.mem_of_getLast? hz, rfl⟩, fun a ha => ?_, fun a ha hahead => ?_⟩
  · rw [hlast] at ha hsorted
    rcases List.mem_append.mp ha with ha | ha
    · exact .inr ((List.pairwise_append.mp hsorted).2.2 a ha z (List.mem_singleton_self z))
    · exact .inl (congrArg key (List.mem_singleton.mp ha))
  · have hsplit : (rest after rows position).Pairwise fun a b => before (key a) (key b) :=
      rest_sorted h
    have hmem := (mem_rest h).mpr ⟨ha, hahead⟩
    rw [← List.take_append_drop size (rest after rows position), ← shown_eq] at hsplit hmem
    rcases List.mem_append.mp hmem with hshown | hdropped
    · exact .inl hshown
    · exact .inr ((List.pairwise_append.mp hsplit).2.2 z (List.mem_of_getLast? hz) a hdropped)

end Page

section Following
variable {σ γ β ε : Type}

/-- The pages that a reader meets, each with the state it was read from. -/
inductive Visits (list : σ → Option γ → Except ε β) (cursor : β → Option γ) :
    Option γ → List (σ × β) → Prop where
  | last {s : σ} {position : Option γ} {page : β} (h : list s position = .ok page)
      (hnone : cursor page = none) : Visits list cursor position [(s, page)]
  | more {s : σ} {position : Option γ} {page : β} {text : γ} {visits : List (σ × β)}
      (h : list s position = .ok page) (hsome : cursor page = some text)
      (hrest : Visits list cursor (some text) visits) :
      Visits list cursor position ((s, page) :: visits)

variable {α κ δ : Type} {before : κ → κ → Prop} {key : α → κ} {after : κ → α → Bool}
  {size : ℕ} {list : σ → Option γ → Except ε β} {cursor : β → Option γ}
  {items : β → List δ} {ident : δ → κ} {encode : κ → γ} {readable : κ → Prop}

structure Paged (before : κ → κ → Prop) (key : α → κ) (after : κ → α → Bool) (rows : List α)
    (size : ℕ) (list : Option γ → Except ε β) (cursor : β → Option γ) (items : β → List δ)
    (ident : δ → κ) (encode : κ → γ) (readable : κ → Prop) : Prop where
  listed : Listed before key after rows
  reads : ∀ a ∈ rows, readable (key a)
  page : ∀ position page, (∀ k ∈ position, readable k) → list (position.map encode) = .ok page →
    (items page).map ident = (shown after rows size position).map key ∧
      cursor page = (next key after rows size position).map encode

section Shown
variable {list : Option γ → Except ε β} {rows : List α} {position : Option κ} {page : β} {k : κ}

theorem Paged.item_from (h : Paged before key after rows size list cursor items ident encode
    readable) (hposition : ∀ k ∈ position, readable k)
    (hpage : list (position.map encode) = .ok page) {i : δ} (hi : i ∈ items page) :
    ∃ a ∈ shown after rows size position, key a = ident i := by
  have hmem := List.mem_map_of_mem (f := ident) hi
  rw [(h.page position page hposition hpage).1] at hmem
  exact List.mem_map.mp hmem

theorem Paged.item_shown (h : Paged before key after rows size list cursor items ident encode
    readable) (hposition : ∀ k ∈ position, readable k)
    (hpage : list (position.map encode) = .ok page) {a : α}
    (ha : a ∈ shown after rows size position) : ∃ i ∈ items page, ident i = key a := by
  have hmem := List.mem_map_of_mem (f := key) ha
  rw [← (h.page position page hposition hpage).1] at hmem
  exact List.mem_map.mp hmem

theorem Paged.items_sorted (h : Paged before key after rows size list cursor items ident encode
    readable) (hposition : ∀ k ∈ position, readable k)
    (hpage : list (position.map encode) = .ok page) :
    (items page).Pairwise fun i j => before (ident i) (ident j) := by
  have hsorted : (shown after rows size position).Pairwise fun a b => before (key a) (key b) :=
    shown_sorted h.listed
  rw [← List.pairwise_map, ← (h.page position page hposition hpage).1] at hsorted
  exact List.pairwise_map.mp hsorted

theorem Paged.next_readable (h : Paged before key after rows size list cursor items ident encode
    readable) (hnext : next key after rows size position = some k) : ∀ x ∈ some k, readable x := by
  obtain ⟨⟨z, hz, hzk⟩, -⟩ := next_last h.listed hnext
  rintro _ ⟨⟩
  exact hzk ▸ h.reads z (shown_ahead h.listed hz).1

end Shown

theorem visits_there (rows : σ → List α) {visits : List (σ × β)}
    (hpaged : ∀ v ∈ visits, Paged before key after (rows v.1) size (list v.1) cursor items ident
      encode readable) {position : Option κ}
    (hposition : ∀ k ∈ position, readable k)
    (hv : Visits list cursor (position.map encode) visits) :
    ∀ v ∈ visits, ∀ i ∈ items v.2, ∃ a ∈ rows v.1, key a = ident i := by
  generalize htext : position.map encode = text at hv
  induction hv generalizing position with
  | @last s text page h hnone =>
    subst htext
    intro v hv i hi
    obtain rfl := List.mem_singleton.mp hv
    obtain ⟨a, ha, hai⟩ := (hpaged _ List.mem_cons_self).item_from hposition h hi
    exact ⟨a, (shown_ahead (hpaged _ List.mem_cons_self).listed ha).1, hai⟩
  | @more s text page text' visits h hsome hrest ih =>
    subst htext
    have hp := hpaged _ List.mem_cons_self
    rw [(hp.page position page hposition h).2] at hsome
    obtain ⟨k, hnext, hk⟩ := Option.map_eq_some_iff.mp hsome
    intro v hv i hi
    rcases List.mem_cons.mp hv with rfl | hv
    · obtain ⟨a, ha, hai⟩ := hp.item_from hposition h hi
      exact ⟨a, (shown_ahead hp.listed ha).1, hai⟩
    · exact ih (fun v hv => hpaged v (List.mem_cons_of_mem _ hv)) (hp.next_readable hnext)
        (congrArg some hk) v hv i hi

/-- The rows shown are ahead of where the reader started and in order, and a row
that is there at every visit is shown. -/
theorem visits_show (rows : σ → List α) (hsize : 0 < size) {visits : List (σ × β)}
    (hpaged : ∀ v ∈ visits, Paged before key after (rows v.1) size (list v.1) cursor items ident
      encode readable) (htrans : ∀ x y z, before x y → before y z → before x z)
    {position : Option κ} (hposition : ∀ k ∈ position, readable k)
    (hv : Visits list cursor (position.map encode) visits) :
    (∀ i ∈ visits.flatMap fun v => items v.2, Ahead before position (ident i)) ∧
    (visits.flatMap fun v => items v.2).Pairwise (fun i j => before (ident i) (ident j)) ∧
    ∀ k, Ahead before position k → (∀ v ∈ visits, ∃ a ∈ rows v.1, key a = k) →
      ∃ i ∈ visits.flatMap fun v => items v.2, ident i = k := by
  generalize htext : position.map encode = text at hv
  induction hv generalizing position with
  | @last s text page h hnone =>
    subst htext
    have hp := hpaged _ List.mem_cons_self
    simp only [List.flatMap_cons, List.flatMap_nil, List.append_nil]
    have hend : next key after (rows s) size position = none := by
      rw [(hp.page position page hposition h).2, Option.map_eq_none_iff] at hnone
      exact hnone
    refine ⟨fun i hi => ?_, hp.items_sorted hposition h, fun k hk hthere => ?_⟩
    · obtain ⟨a, ha, hai⟩ := hp.item_from hposition h hi
      exact hai ▸ (shown_ahead hp.listed ha).2
    · obtain ⟨a, ha, rfl⟩ := hthere _ List.mem_cons_self
      exact hp.item_shown hposition h (ends_shown hp.listed hsize hend ha hk)
  | @more s text page text' visits h hsome hrest ih =>
    subst htext
    have hp := hpaged _ List.mem_cons_self
    rw [(hp.page position page hposition h).2] at hsome
    obtain ⟨k, hnext, hk⟩ := Option.map_eq_some_iff.mp hsome
    obtain ⟨⟨z, hz, hzk⟩, hbehind, hleft⟩ := next_last hp.listed hnext
    have hzahead := (shown_ahead hp.listed hz).2
    obtain ⟨hahead, hsorted, hcomplete⟩ := ih (fun v hv => hpaged v (List.mem_cons_of_mem _ hv))
      (hp.next_readable hnext) (congrArg some hk)
    have hlater : ∀ i ∈ visits.flatMap fun v => items v.2, before k (ident i) :=
      fun i hi => hahead i hi k rfl
    rw [List.flatMap_cons]
    refine ⟨fun i hi => ?_, List.pairwise_append.mpr ⟨hp.items_sorted hposition h, hsorted,
      fun i hi j hj => ?_⟩, fun x hx hthere => ?_⟩
    · rcases List.mem_append.mp hi with hi | hi
      · obtain ⟨a, ha, hai⟩ := hp.item_from hposition h hi
        exact hai ▸ (shown_ahead hp.listed ha).2
      · intro p hp'
        exact htrans p k _ (hzk ▸ hzahead p hp') (hlater i hi)
    · obtain ⟨a, ha, hai⟩ := hp.item_from hposition h hi
      rw [← hai]
      rcases hbehind a ha with hak | hak
      · exact hak ▸ hlater j hj
      · exact htrans _ k _ hak (hlater j hj)
    · obtain ⟨a, ha, rfl⟩ := hthere _ List.mem_cons_self
      rcases hleft a ha hx with hshown | hbefore
      · obtain ⟨i, hi, hia⟩ := hp.item_shown hposition h hshown
        exact ⟨i, List.mem_append_left _ hi, hia⟩
      · have hpassed : Ahead before (some k) (key a) := by
          rintro _ ⟨⟩
          exact hbefore
        obtain ⟨i, hi, hia⟩ := hcomplete (key a) hpassed fun v hv =>
          hthere v (List.mem_cons_of_mem _ hv)
        exact ⟨i, List.mem_append_right _ hi, hia⟩

end Following

end Workbench.ChangingPages
