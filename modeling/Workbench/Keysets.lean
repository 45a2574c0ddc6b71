import Mathlib.Data.List.Basic
import Mathlib.Data.List.TakeDrop
import Mathlib.Tactic.Linarith

/-!
# Keyset pages

A page of an ordered list starts after the key of a row and takes one row more
than it shows, to know whether another page follows. Following the pages of a
list that stays as it is shows every row once, in the order of the list.
-/

set_option autoImplicit false

namespace Workbench.Keysets

section Page
variable {α κ : Type} (key : α → κ) (after : κ → α → Bool) (rows : List α) (size : ℕ)

def rest : Option κ → List α
  | none => rows
  | some k => rows.filter (after k)

def fetched (position : Option κ) : List α := (rest after rows position).take (size+1)

def shown (position : Option κ) : List α := (fetched after rows size position).take size

def next (position : Option κ) : Option κ :=
  if size < (fetched after rows size position).length then
    (shown after rows size position).getLast?.map key
  else none

structure Ordered : Prop where
  later : rows.Pairwise fun a b => after (key a) b = true ∧ after (key b) a = false
  itself : ∀ a ∈ rows, after (key a) a = false

variable {key after rows size}

theorem rest_split {before m : List α} {a : α} (h : Ordered key after rows)
    (hrows : rows = before ++ a :: m) : rest after rows (some (key a)) = m := by
  obtain ⟨hlater, hitself⟩ := h
  subst hrows
  obtain ⟨-, hm, hcross⟩ := List.pairwise_append.mp hlater
  obtain ⟨ham, -⟩ := List.pairwise_cons.mp hm
  have hbefore : before.filter (after (key a)) = [] := by
    refine List.filter_eq_nil_iff.mpr fun x hx => ?_
    rw [(hcross x hx a List.mem_cons_self).2]
    decide
  have hbehind : m.filter (after (key a)) = m :=
    List.filter_eq_self.mpr fun x hx => (ham x hx).1
  have ha : ¬after (key a) a = true := by
    rw [hitself a (List.mem_append_right _ List.mem_cons_self)]
    decide
  rw [rest, List.filter_append, hbefore, List.filter_cons_of_neg ha, hbehind, List.nil_append]

variable {position : Option κ}

theorem shown_eq : shown after rows size position = (rest after rows position).take size := by
  rw [shown, fetched, List.take_take, Nat.min_eq_left (Nat.le_succ size)]

theorem page_last (key : α → κ) (h : (rest after rows position).length ≤ size) :
    shown after rows size position = rest after rows position ∧
      next key after rows size position = none := by
  refine ⟨shown_eq.trans (List.take_of_length_le h), if_neg ?_⟩
  rw [fetched, List.length_take]
  omega

/-- Another page leaves what this one does not show. -/
theorem page_more (horder : Ordered key after rows) {before : List α}
    (hrows : rows = before ++ rest after rows position) (hsize : 0 < size)
    (h : size < (rest after rows position).length) :
    ∃ a ∈ rows, next key after rows size position = some (key a) ∧
      rest after rows (some (key a)) = (rest after rows position).drop size ∧
      rows = (before ++ (rest after rows position).take size) ++
        rest after rows (some (key a)) := by
  generalize hm : rest after rows position = m at *
  have hfetched : size < (fetched after rows size position).length := by
    rw [fetched, hm, List.length_take]
    omega
  have hlength : (m.take size).length = size := List.length_take_of_le (le_of_lt h)
  have hne : m.take size ≠ [] := by
    intro hnil
    rw [hnil] at hlength
    exact absurd hlength (by simpa using hsize.ne)
  obtain ⟨first, a, hlast⟩ : ∃ first a, m.take size = first ++ [a] :=
    ⟨_, _, (List.dropLast_append_getLast hne).symm⟩
  have hsplit : rows = (before ++ first) ++ a :: m.drop size := by
    rw [hrows]
    conv_lhs => rw [← List.take_append_drop size m, hlast]
    simp
  have hrest := rest_split horder hsplit
  refine ⟨a, ?_, ?_, hrest, ?_⟩
  · rw [hsplit]
    exact List.mem_append_right _ List.mem_cons_self
  · rw [next, if_pos hfetched, shown_eq, hm, hlast, List.getLast?_concat]
    rfl
  · rw [hrest, hlast, hsplit]
    simp

end Page

section Walking
variable {γ β ε δ : Type}

/-- The pages met by following the cursor of each page to the next, up to one
without a cursor. -/
inductive Walk (list : Option γ → Except ε β) (cursor : β → Option γ) :
    Option γ → List β → Prop where
  | last {position : Option γ} {page : β} (h : list position = .ok page)
      (hnone : cursor page = none) : Walk list cursor position [page]
  | more {position : Option γ} {page : β} {text : γ} {pages : List β}
      (h : list position = .ok page) (hsome : cursor page = some text)
      (hrest : Walk list cursor (some text) pages) : Walk list cursor position (page :: pages)

variable {α κ : Type} {key : α → κ} {after : κ → α → Bool} {rows : List α} {size : ℕ}
  {list : Option γ → Except ε β} {cursor : β → Option γ} {items : β → List δ}
  {encode : κ → γ} {item : α → δ}

theorem Walk.unique {position : Option γ} {pages pages' : List β}
    (h : Walk list cursor position pages) (h' : Walk list cursor position pages') :
    pages = pages' := by
  induction h generalizing pages' with
  | last hpage hnone =>
    cases h' with
    | last hpage' _ =>
      rw [hpage, Except.ok.injEq] at hpage'
      rw [hpage']
    | more hpage' hsome' _ =>
      rw [hpage, Except.ok.injEq] at hpage'
      rw [hpage', hsome'] at hnone
      cases hnone
  | more hpage hsome _ ih =>
    cases h' with
    | last hpage' hnone' =>
      rw [hpage, Except.ok.injEq] at hpage'
      rw [hpage', hnone'] at hsome
      cases hsome
    | more hpage' hsome' hrest' =>
      rw [hpage, Except.ok.injEq] at hpage'
      subst hpage'
      rw [hsome, Option.some.injEq] at hsome'
      subst hsome'
      rw [ih hrest']

/-- From any position that splits the rows, the pages show what it leaves. -/
theorem walk_rest (horder : Ordered key after rows) (hsize : 0 < size)
    (hlist : ∀ position, (∀ k ∈ position, ∃ a ∈ rows, k = key a) →
      ∃ page, list (position.map encode) = .ok page ∧
        items page = (shown after rows size position).map item ∧
        cursor page = (next key after rows size position).map encode)
    (n : ℕ) (position : Option κ) (hposition : ∀ k ∈ position, ∃ a ∈ rows, k = key a)
    (before : List α) (hrows : rows = before ++ rest after rows position)
    (hn : (rest after rows position).length ≤ n) :
    ∃ pages, Walk list cursor (position.map encode) pages ∧
      pages.flatMap items = (rest after rows position).map item := by
  induction n generalizing position before with
  | zero =>
    obtain ⟨page, hpage, hitems, hcursor⟩ := hlist position hposition
    obtain ⟨hshown, hnext⟩ := page_last key (hn.trans (Nat.zero_le size))
    rw [hnext] at hcursor
    refine ⟨[page], .last hpage hcursor, ?_⟩
    rw [List.flatMap_singleton, hitems, hshown]
  | succ n ih =>
    obtain ⟨page, hpage, hitems, hcursor⟩ := hlist position hposition
    by_cases hleft : (rest after rows position).length ≤ size
    · obtain ⟨hshown, hnext⟩ := page_last key hleft
      rw [hnext] at hcursor
      refine ⟨[page], .last hpage hcursor, ?_⟩
      rw [List.flatMap_singleton, hitems, hshown]
    · obtain ⟨a, ha, hnext, hrest, hsplit⟩ :=
        page_more horder hrows hsize (Nat.lt_of_not_le hleft)
      rw [hnext] at hcursor
      have hshorter : (rest after rows (some (key a))).length ≤ n := by
        rw [hrest, List.length_drop]
        omega
      obtain ⟨pages, hwalk, hpages⟩ := ih (some (key a))
        (fun k hk => ⟨a, ha, by simpa using hk.symm⟩) _ hsplit hshorter
      refine ⟨page :: pages, .more hpage hcursor hwalk, ?_⟩
      rw [List.flatMap_cons, hitems, hpages, hrest, shown_eq, ← List.map_append,
        List.take_append_drop]

theorem walk_all (horder : Ordered key after rows) (hsize : 0 < size)
    (hlist : ∀ position, (∀ k ∈ position, ∃ a ∈ rows, k = key a) →
      ∃ page, list (position.map encode) = .ok page ∧
        items page = (shown after rows size position).map item ∧
        cursor page = (next key after rows size position).map encode) :
    ∃ pages, Walk list cursor none pages ∧ pages.flatMap items = rows.map item :=
  walk_rest horder hsize hlist rows.length none (fun _ h => by cases h) [] rfl le_rfl

end Walking

end Workbench.Keysets
