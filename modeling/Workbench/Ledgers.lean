import Mathlib.Data.List.Induction

/-!
# A ledger of imports

Each import says something about some keys and may start from nothing. What a
ledger holds for a key is what was said of it last, unless an import that starts
from nothing came after that.
-/

set_option autoImplicit false

namespace Workbench.Ledgers

section Replays
variable {κ ε : Type}

structure Import (κ ε : Type) where
  full : Bool
  mentions : κ → Option (Option ε)

def Import.apply (i : Import κ ε) (held : κ → Option ε) : κ → Option ε := fun k =>
  match i.mentions k with
  | some said => said
  | none => if i.full then none else held k

def replay (log : List (Import κ ε)) : κ → Option ε :=
  log.foldl (fun held i => i.apply held) fun _ => none

theorem replay_snoc (log : List (Import κ ε)) (i : Import κ ε) :
    replay (log ++ [i]) = i.apply (replay log) := by
  rw [replay, List.foldl_append]
  rfl

theorem apply_some {i : Import κ ε} {held : κ → Option ε} {k : κ} {e : ε} :
    i.apply held k = some e ↔
      i.mentions k = some (some e) ∨ i.mentions k = none ∧ i.full = false ∧ held k = some e := by
  unfold Import.apply
  cases i.mentions k with
  | some said => simp
  | none => cases i.full <;> simp

theorem replay_last {log : List (Import κ ε)} {k : κ} {e : ε} :
    replay log k = some e ↔ ∃ older i newer, log = older ++ i :: newer ∧
      i.mentions k = some (some e) ∧ ∀ j ∈ newer, j.mentions k = none ∧ j.full = false := by
  induction log using List.reverseRecOn with
  | nil => simp [replay]
  | append_singleton log last ih =>
    rw [replay_snoc, apply_some, ih]
    constructor
    · rintro (hsaid | ⟨hnone, hdelta, older, i, newer, rfl, hsaid, hnewer⟩)
      · exact ⟨log, last, [], rfl, hsaid, nofun⟩
      · refine ⟨older, i, newer ++ [last], by simp, hsaid, fun j hj => ?_⟩
        rcases List.mem_append.mp hj with hj | hj
        · exact hnewer j hj
        · rw [List.mem_singleton.mp hj]
          exact ⟨hnone, hdelta⟩
    · rintro ⟨older, i, newer, hlog, hsaid, hnewer⟩
      rcases List.eq_nil_or_concat newer with rfl | ⟨newer, j, rfl⟩
      · obtain ⟨-, hlast⟩ := List.append_inj' hlog rfl
        exact .inl ((List.cons.inj hlast).1 ▸ hsaid)
      · rw [List.concat_eq_append, ← List.cons_append, ← List.append_assoc] at hlog
        obtain ⟨rfl, hlast⟩ := List.append_inj' hlog rfl
        obtain rfl := (List.cons.inj hlast).1
        obtain ⟨hnone, hdelta⟩ := hnewer last (by simp)
        exact .inr ⟨hnone, hdelta, older, i, newer, rfl, hsaid,
          fun j hj => hnewer j (by simp [hj])⟩

end Replays

end Workbench.Ledgers
