import Workbench.Accounts

/-!
# The fates of items

An item waits until a completion call of its current attempt ends it; nothing
makes it wait again, and it stays as long as its workspace.
-/

set_option autoImplicit false

namespace Workbench.ItemFates
open Workbench.Listing Workbench.Tables Workbench.Calendar Workbench.Workspaces Workbench.Jobs
open Workbench.JobRuns
open Workbench.Accounts (Waiting Shaped revise_shaped mem_setUsage reserve_spec release_spec
  revoked_row completeAttempt_items releaseJob_items)
open Workbench.Raising (bind_ok map_ok)

def fate (c : Command) (item : WorkItem) : Option JobState :=
  match c with
  | .markSucceeded token _ _ => if item.currentToken = some token then some .succeeded else none
  | .markFailed token .failed _ _ _ => if item.currentToken = some token then some .failed else none
  | _ => none

structure Continued (fate : Option JobState) (i j : WorkItem) : Prop where
  id : j.id = i.id
  workspace : j.workspace = i.workspace
  target : j.target = i.target
  waits : fate = none → Waiting i → Waiting j
  rests : fate = none → ¬Waiting i → j.state = i.state
  ended : ∀ state ∈ fate, j.state = state

theorem Continued.refl (i : WorkItem) : Continued none i i where
  id := rfl
  workspace := rfl
  target := rfl
  waits := fun _ h => h
  rests := fun _ _ => rfl
  ended := fun _ h => by cases h

theorem Continued.trans {i j k : WorkItem} (h : Continued none i j) (h' : Continued none j k) :
    Continued none i k where
  id := h'.id.trans h.id
  workspace := h'.workspace.trans h.workspace
  target := h'.target.trans h.target
  waits := fun _ hi => h'.waits rfl (h.waits rfl hi)
  rests := by
    intro _ hi
    have hstate := h.rests rfl hi
    have hj : ¬Waiting j := by
      unfold Waiting at hi ⊢
      rwa [hstate]
    exact (h'.rests rfl hj).trans hstate
  ended := fun _ hs => by cases hs

theorem fate_final {c : Command} {item : WorkItem} {state : JobState}
    (h : fate c item = some state) : ¬(state = .ready ∨ state = .leased) := by
  unfold fate at h
  split at h
  · split at h
    · rw [← Option.some.inj h]
      decide
    · cases h
  · split at h
    · rw [← Option.some.inj h]
      decide
    · cases h
  · cases h

theorem Continued.waiting {c : Command} {i j : WorkItem} (h : Continued (fate c i) i j) :
    Waiting j ↔ Waiting i ∧ fate c i = none := by
  cases hf : fate c i with
  | none =>
    constructor
    · intro hj
      by_contra hno
      have hi : ¬Waiting i := fun hi => hno ⟨hi, rfl⟩
      have hstate := h.rests hf hi
      unfold Waiting at hi hj
      rw [hstate] at hj
      exact hi hj
    · exact fun hi => h.waits hf hi.1
  | some state =>
    have hstate := h.ended state hf
    have hno : ¬Waiting j := by
      unfold Waiting
      rw [hstate]
      exact fate_final hf
    exact ⟨fun hj => absurd hj hno, fun hi => absurd hi.2 (by simp)⟩

abbrev AllContinued (l m : List WorkItem) : Prop := List.Forall₂ (Continued none) l m

theorem AllContinued.refl (l : List WorkItem) : AllContinued l l := by
  induction l with
  | nil => exact .nil
  | cons i l ih => exact .cons (.refl i) ih

theorem AllContinued.trans {l m n : List WorkItem} (h : AllContinued l m)
    (h' : AllContinued m n) : AllContinued l n := by
  induction h generalizing n with
  | nil =>
    cases h'
    exact .nil
  | cons hc _ ih =>
    cases h' with
    | cons hc' hrest => exact .cons (hc.trans hc') (ih hrest)

theorem revise_continued {items : List WorkItem} {k : ℕ} {f : WorkItem → WorkItem}
    (h : ∀ i ∈ items, i.id = k → Continued none i (f i)) :
    AllContinued items (revise WorkItem.id k f items) := by
  induction items with
  | nil => exact .nil
  | cons i items ih =>
    have hcons : revise WorkItem.id k f (i :: items) =
        (if i.id = k then f i else i) :: revise WorkItem.id k f items := rfl
    rw [hcons]
    apply List.Forall₂.cons
    · by_cases hk : i.id = k
      · rw [if_pos hk]
        exact h i (List.mem_cons_self ..) hk
      · rw [if_neg hk]
        exact .refl i
    · exact ih fun x hx => h x (List.mem_cons_of_mem _ hx)

theorem claimRows_continued {now : Instant} {leaseDuration : ℤ} {items : List WorkItem}
    {works : List ClaimedWork} {db after : Database}
    (h : claimRows now leaseDuration items db = .ok (works, after))
    (hw : ∀ item ∈ items, ∀ row ∈ db.items, row.id = item.id → Waiting row) :
    AllContinued db.items after.items ∧ after.workspaces = db.workspaces ∧
      db.serial ≤ after.serial := by
  induction items generalizing db works with
  | nil =>
    obtain ⟨-, rfl⟩ := Prod.mk.inj (Except.ok.inj h)
    exact ⟨.refl _, rfl, Nat.le_refl _⟩
  | cons item rest ih =>
    simp only [claimRows, bind_ok] at h
    obtain ⟨⟨work, db₁⟩, h₁, ⟨works', db₂⟩, h₂, h⟩ := h
    obtain ⟨-, rfl⟩ := Prod.mk.inj (Except.ok.inj h)
    obtain ⟨leaseUntil, _, _, rfl, _, _⟩ := claimRow_ok h₁
    have hgrant : AllContinued db.items (db.grant item now leaseUntil).items := by
      apply revise_continued
      intro i hi hid
      have hwait := hw item (List.mem_cons_self ..) i hi hid
      exact ⟨rfl, rfl, rfl, fun _ _ => .inr rfl, fun _ hno => absurd hwait hno, fun _ hs => absurd hs (by simp)⟩
    have hnext : ∀ other ∈ rest, ∀ row ∈ (db.grant item now leaseUntil).items,
        row.id = other.id → Waiting row := by
      intro other ho row hrow hid
      obtain ⟨old, hold, hc⟩ := forall₂_mem_right hgrant hrow
      exact hc.waits rfl (hw other (List.mem_cons_of_mem _ ho) old hold (hc.id.symm.trans hid))
    obtain ⟨hc, hws, hle⟩ := ih h₂ hnext
    exact ⟨hgrant.trans hc, hws, Nat.le_trans (Nat.le_succ _) hle⟩

/-- The items of some targets stay, and wait on unless they meet their fate, as
long as their workspace does; none is added. -/
structure Followed (mine : Target → Prop) (fate : WorkItem → Option JobState)
    (db after : Database) : Prop where
  serial : db.serial ≤ after.serial
  workspaces : ∀ w ∈ after.workspaces,
    (∃ v ∈ db.workspaces, v.id = w.id) ∨ db.serial ≤ w.id ∧ w.id < after.serial
  back : ∀ j ∈ after.items, mine j.target → ∃ i ∈ db.items, Continued (fate i) i j
  kept : ∀ i ∈ db.items, (∃ w ∈ after.workspaces, w.id = i.workspace) →
    ∃ j ∈ after.items, j.target = i.target

section Steps
variable {mine : Target → Prop} {final : WorkItem → Option JobState} {db after : Database}

theorem continued_followed (hi : AllContinued db.items after.items)
    (he : ∀ i ∈ db.items, final i = none) (hs : db.serial ≤ after.serial)
    (hw : ∀ w ∈ after.workspaces,
      (∃ v ∈ db.workspaces, v.id = w.id) ∨ db.serial ≤ w.id ∧ w.id < after.serial) :
    Followed mine final db after where
  serial := hs
  workspaces := hw
  back := by
    intro j hj _
    obtain ⟨i, him, hc⟩ := forall₂_mem_right hi hj
    exact ⟨i, him, (he i him).symm ▸ hc⟩
  kept := by
    intro i him _
    obtain ⟨j, hj, hc⟩ := forall₂_mem_left hi him
    exact ⟨j, hj, hc.target⟩

theorem old_workspaces (h : after.workspaces = db.workspaces) : ∀ w ∈ after.workspaces,
    (∃ v ∈ db.workspaces, v.id = w.id) ∨ db.serial ≤ w.id ∧ w.id < after.serial :=
  fun w hw => .inl ⟨w, h ▸ hw, rfl⟩

theorem used_workspaces {id : ℕ} {usage : QuotaAmounts}
    (h : after.workspaces = setUsage id usage db.workspaces) : ∀ w ∈ after.workspaces,
    (∃ v ∈ db.workspaces, v.id = w.id) ∨ db.serial ≤ w.id ∧ w.id < after.serial := by
  intro w hw
  rw [h] at hw
  obtain ⟨v, hv, hid, _⟩ := mem_setUsage hw
  exact .inl ⟨v, hv, hid.symm⟩

theorem added_followed (item : WorkItem) (hitem : ¬mine item.target)
    (hi : after.items = db.items ++ [item]) (he : ∀ i ∈ db.items, final i = none)
    (hs : db.serial ≤ after.serial) (hw : ∀ w ∈ after.workspaces,
      (∃ v ∈ db.workspaces, v.id = w.id) ∨ db.serial ≤ w.id ∧ w.id < after.serial) :
    Followed mine final db after where
  serial := hs
  workspaces := hw
  back := by
    intro j hj hm
    rw [hi] at hj
    rcases List.mem_append.mp hj with hj | hj
    · exact ⟨j, hj, (he j hj).symm ▸ .refl j⟩
    · exact absurd (List.mem_singleton.mp hj ▸ hm) hitem
  kept := fun i him _ => ⟨i, hi ▸ List.mem_append_left _ him, rfl⟩

theorem revoke_followed {cleanupMaxAttempts id : ℕ} {state : WorkspaceState}
    {reason : CleanupReason} {now : Instant} (he : ∀ i ∈ db.items, final i = none)
    (hmine : ¬mine (.cleanupRequest id))
    (h : revokeWorkspace cleanupMaxAttempts id state reason now db = .ok after) :
    Followed mine final db after := by
  have hw : ∀ w ∈ revise Workspace.id id (·.revoke state now) db.workspaces,
      ∃ v ∈ db.workspaces, v.id = w.id := by
    intro w hw
    obtain ⟨v, hv, hid, _⟩ := revoked_row hw
    exact ⟨v, hv, hid.symm⟩
  simp only [revokeWorkspace, bind_ok] at h
  obtain ⟨_, _, h⟩ := h
  split at h
  · obtain rfl := Except.ok.inj h
    exact continued_followed (.refl _) he (Nat.le_refl _) fun w hm => .inl (hw w hm)
  · obtain ⟨_, rfl⟩ := addItem_ok h
    exact added_followed _ hmine rfl he (Nat.le_succ _) fun w hm => .inl (hw w hm)

theorem purged_followed (he : ∀ i ∈ db.items, final i = none) (id : ℕ) :
    Followed mine final db (db.purged id) where
  serial := Nat.le_refl _
  workspaces := fun w hw => .inl ⟨w, (List.mem_filter.mp hw).1, rfl⟩
  back := by
    intro j hj _
    have hmem := (List.mem_filter.mp hj).1
    exact ⟨j, hmem, (he j hmem).symm ▸ .refl j⟩
  kept := by
    intro i hi hw
    obtain ⟨w, hw, hid⟩ := hw
    -- an item goes only with its workspace
    have hne : i.workspace ≠ id := by
      have := (List.mem_filter.mp hw).2
      rw [hid] at this
      simpa using this
    exact ⟨i, List.mem_filter.mpr ⟨hi, by simpa using hne⟩, rfl⟩

theorem purge_followed (he : ∀ i ∈ db.items, final i = none) {id : ℕ} {attemptToken : Option ℕ}
    (h : purgeWorkspace id attemptToken db = .ok after) : Followed mine final db after := by
  unfold purgeWorkspace at h
  split at h
  · obtain rfl := Except.ok.inj h
    exact continued_followed (.refl _) he (Nat.le_refl _) (old_workspaces rfl)
  · simp only [bind_ok] at h
    obtain ⟨_, _, h⟩ := h
    have hp : after = db.purged id := by
      cases attemptToken with
      | none => exact (Except.ok.inj h).symm
      | some token =>
        simp only [bind_ok] at h
        obtain ⟨_, _, _, _, h⟩ := h
        exact (Except.ok.inj h).symm
    rw [hp]
    exact purged_followed he id

theorem outdated_followed (hv : Valid db) {a : JobAttempt} {item : WorkItem} {token : ℕ}
    (hf : attemptAndItem token db = .ok (a, item)) (ho : item.currentToken ≠ some token)
    (hother : ∀ i, i.currentToken ≠ some token → final i = none)
    (hi : after.items = db.items) (hw : after.workspaces = db.workspaces)
    (hs : after.serial = db.serial) :
    Followed mine final db after := by
  obtain ⟨⟨ha, rfl⟩, hitem, hid⟩ := attemptAndItem_ok hf
  exact continued_followed (hi ▸ .refl _) (fun i him =>
    hother i (hv.outdated ha hitem hid ho i him)) (Nat.le_of_eq hs.symm) (old_workspaces hw)

/-- The current attempt's item is closed, and is ended unless it is ready again. -/
theorem closed_followed (hv : Valid db) {a : JobAttempt} {item : WorkItem} {token : ℕ}
    (hf : attemptAndItem token db = .ok (a, item)) (hc : item.currentToken = some token)
    {state : JobState} {availableAt now : Instant}
    (hi : after.items = (db.closeItem item.id state availableAt now).items)
    (hs : after.serial = db.serial)
    (hends : final item = if state = .ready ∨ state = .leased then none else some state)
    (hother : ∀ i, i.currentToken ≠ some token → final i = none) (hw : ∀ w ∈ after.workspaces,
      (∃ v ∈ db.workspaces, v.id = w.id) ∨ db.serial ≤ w.id ∧ w.id < after.serial) :
    Followed mine final db after := by
  obtain ⟨⟨ha, rfl⟩, hitem, hid⟩ := attemptAndItem_ok hf
  have hleased : Waiting item := .inr (hv.leased hitem hc)
  refine ⟨Nat.le_of_eq hs.symm, hw, ?_, ?_⟩
  · intro j hj _
    rw [hi] at hj
    obtain ⟨i, him, rfl⟩ := mem_closed.mp hj
    by_cases he : i.id = item.id
    · obtain rfl := hv.item_eq him hitem he
      rw [if_pos rfl]
      refine ⟨i, him, rfl, rfl, rfl, ?_, fun _ hno => absurd hleased hno, ?_⟩
      · intro hnone _
        rw [hends] at hnone
        by_cases hstate : state = .ready ∨ state = .leased
        · exact hstate
        · rw [if_neg hstate] at hnone
          cases hnone
      · intro last hlast
        rw [hends] at hlast
        by_cases hstate : state = .ready ∨ state = .leased
        · rw [if_pos hstate] at hlast
          cases hlast
        · rw [if_neg hstate] at hlast
          exact Option.some.inj hlast
    · rw [if_neg he]
      have hno : final i = none :=
        hother i fun h => he ((hv.owner him ha h).1.trans hid.symm)
      exact ⟨i, him, hno.symm ▸ .refl i⟩
  · intro i him _
    refine ⟨_, hi ▸ mem_closed.mpr ⟨i, him, rfl⟩, ?_⟩
    split <;> rfl

theorem released_workspaces {workspace : ℕ} {clock : Instant} {mid : Database}
    (h : releaseJob workspace clock mid = .ok after) (hm : mid.workspaces = db.workspaces) :
    ∀ w ∈ after.workspaces,
      (∃ v ∈ db.workspaces, v.id = w.id) ∨ db.serial ≤ w.id ∧ w.id < after.serial := by
  obtain ⟨_, _, hr⟩ := releaseJob_items h
  obtain ⟨_, _, _, _, _, hafter⟩ := release_spec hr
  exact used_workspaces (hm ▸ hafter)

theorem succeeded_followed (hv : Valid db) {token : ℕ} {now clock : Instant} {done : Bool}
    (h : markSucceeded token now clock db = .ok (done, after)) :
    Followed mine (fate (.markSucceeded token now clock)) db after := by
  simp only [markSucceeded, bind_ok] at h
  obtain ⟨⟨a, item⟩, hf, h⟩ := h
  by_cases hc : item.currentToken = some token
  · rw [if_neg (not_not.mpr hc)] at h
    simp only [bind_ok] at h
    obtain ⟨db₁, h₁, db₂, h₂, h⟩ := h
    obtain ⟨-, rfl⟩ := Prod.mk.inj (Except.ok.inj h)
    obtain ⟨hi₁, hw₁, hs₁⟩ := completeAttempt_items h₁
    obtain ⟨hi₂, hs₂, _⟩ := releaseJob_items h₂
    exact closed_followed hv hf hc (hi₂.trans hi₁) (hs₂.trans hs₁)
      (by simp only [fate, if_pos hc]; rfl) (fun _ hi => if_neg hi) (released_workspaces h₂ hw₁)
  · rw [if_pos hc] at h
    simp only [bind_ok] at h
    obtain ⟨db₁, h₁, h⟩ := h
    obtain ⟨-, rfl⟩ := Prod.mk.inj (Except.ok.inj h)
    obtain ⟨hi₁, hw₁, hs₁⟩ := completeAttempt_items h₁
    exact outdated_followed hv hf hc (fun _ hi => if_neg hi) hi₁ hw₁ hs₁

theorem failed_followed (hv : Valid db) {token : ℕ} {retryOutcome : RetryOutcome}
    {category : FailureCategory} {now clock : Instant} {done : Bool}
    (h : markFailed token retryOutcome category now clock db = .ok (done, after)) :
    Followed mine (fate (.markFailed token retryOutcome category now clock)) db after := by
  simp only [markFailed, bind_ok] at h
  obtain ⟨⟨a, item⟩, hf, h⟩ := h
  by_cases hc : item.currentToken = some token
  · rw [if_neg (not_not.mpr hc)] at h
    simp only [bind_ok] at h
    obtain ⟨db₁, h₁, h⟩ := h
    obtain ⟨hi₁, hw₁, hs₁⟩ := completeAttempt_items h₁
    cases retryOutcome with
    | ready availableAt =>
      simp only [reduceCtorEq, if_false] at h
      obtain ⟨-, rfl⟩ := Prod.mk.inj (Except.ok.inj h)
      exact closed_followed hv hf hc hi₁ hs₁ (by simp [fate, RetryOutcome.state]) (fun _ _ => rfl)
        (old_workspaces hw₁)
    | failed =>
      simp only [if_true, bind_ok] at h
      obtain ⟨db₂, h₂, h⟩ := h
      obtain ⟨-, rfl⟩ := Prod.mk.inj (Except.ok.inj h)
      obtain ⟨hi₂, hs₂, _⟩ := releaseJob_items h₂
      exact closed_followed hv hf hc (hi₂.trans hi₁) (hs₂.trans hs₁)
        (by simp only [fate, if_pos hc]; rfl) (fun _ hi => if_neg hi) (released_workspaces h₂ hw₁)
  · rw [if_pos hc] at h
    simp only [bind_ok] at h
    obtain ⟨db₁, h₁, h⟩ := h
    obtain ⟨-, rfl⟩ := Prod.mk.inj (Except.ok.inj h)
    obtain ⟨hi₁, hw₁, hs₁⟩ := completeAttempt_items h₁
    cases retryOutcome with
    | ready availableAt =>
      exact outdated_followed hv hf hc (fun _ _ => rfl) hi₁ hw₁ hs₁
    | failed => exact outdated_followed hv hf hc (fun _ hi => if_neg hi) hi₁ hw₁ hs₁

/-- What any service does to the items of targets it does not enqueue. -/
theorem perform_followed {settings : Jobs.Settings} (hv : Valid db) {c : Jobs.Command}
    (cleanup : ∀ id, ¬mine (.cleanupRequest id))
    (other : ∀ workspace kind target maxAttempts now clock,
      c = .enqueue workspace kind target maxAttempts now clock → ¬mine target)
    (h : Jobs.perform settings db c = .ok after) : Followed mine (fate c) db after := by
  have hnever : ∀ i ∈ db.items, (none : Option JobState) = none := fun _ _ => rfl
  cases c with
  | createWorkspace expiresAt =>
    obtain rfl := Except.ok.inj h
    refine continued_followed (.refl _) hnever (Nat.le_succ _) ?_
    intro w hw
    rcases List.mem_append.mp hw with hw | hw
    · exact .inl ⟨w, hw, rfl⟩
    · rw [List.mem_singleton.mp hw]
      exact .inr ⟨Nat.le_refl _, Nat.lt_succ_self _⟩
  | reserve workspace requested clock =>
    obtain ⟨rows, hr, rfl⟩ := withWorkspaces_ok h
    obtain ⟨_, _, _, _, _, hafter⟩ := reserve_spec hr
    exact continued_followed (.refl _) hnever (Nat.le_refl _) (used_workspaces hafter)
  | release workspace released clock =>
    obtain ⟨rows, hr, rfl⟩ := withWorkspaces_ok h
    obtain ⟨_, _, _, _, _, hafter⟩ := release_spec hr
    exact continued_followed (.refl _) hnever (Nat.le_refl _) (used_workspaces hafter)
  | enqueue workspace kind target maxAttempts now clock =>
    simp only [Jobs.perform, enqueue] at h
    split at h
    · obtain rfl := Except.ok.inj h
      exact continued_followed (.refl _) hnever (Nat.le_refl _) (old_workspaces rfl)
    · simp only [bind_ok] at h
      obtain ⟨db₁, h₁, h⟩ := h
      obtain ⟨rows, hr, rfl⟩ := withWorkspaces_ok h₁
      obtain ⟨_, _, _, _, _, hafter⟩ := reserve_spec hr
      obtain ⟨_, rfl⟩ := addItem_ok h
      exact added_followed _ (other workspace kind target maxAttempts now clock rfl) rfl hnever
        (Nat.le_succ _) (used_workspaces hafter)
  | claim request now leaseDuration locked =>
    obtain ⟨⟨works, _⟩, hclaim, rfl⟩ := map_ok.mp h
    have hwait : ∀ item ∈ candidates request now (fun id => locked.contains id) db,
        ∀ row ∈ db.items, row.id = item.id → Waiting row := by
      intro item hitem row hrow hid
      obtain ⟨hmem, hc⟩ := mem_candidates hitem
      rw [hv.item_eq hrow hmem hid]
      exact claimable_state hc
    obtain ⟨hi, hws, hle⟩ := claimRows_continued hclaim hwait
    exact continued_followed hi hnever hle (old_workspaces hws)
  | markSucceeded token now clock =>
    obtain ⟨⟨done, _⟩, hmark, rfl⟩ := map_ok.mp h
    exact succeeded_followed hv hmark
  | markFailed token outcome category now clock =>
    obtain ⟨⟨done, _⟩, hmark, rfl⟩ := map_ok.mp h
    exact failed_followed hv hmark
  | expire workspace now => exact revoke_followed hnever (cleanup workspace) h
  | delete workspace now => exact revoke_followed hnever (cleanup workspace) h
  | purge workspace attemptToken => exact purge_followed hnever h

end Steps

end Workbench.ItemFates
