import Workbench.Quotas

/-!
# Exact accounts

What one step does to the counters of a workspace is what it does to the rows
they count, unless a reservation is left without its item.
-/

set_option autoImplicit false

namespace Workbench.Accounts
open Workbench.Listing Workbench.Tables Workbench.Calendar Workbench.Workspaces Workbench.Jobs
open Workbench.JobRuns Workbench.Quotas
open Workbench.Raising (bind_ok demand_ok fetch_ok)

section Counting
variable {α κ : Type} [DecidableEq κ] {key : α → κ} {k : κ} {f : α → α} {rows : List α} {r : α}

theorem countP_revise (h : (rows.map key).Nodup) (hr : r ∈ rows) (hk : key r = k) (p : α → Bool) :
    (revise key k f rows).countP p + (if p r then 1 else 0) =
      rows.countP p + if p (f r) then 1 else 0 := by
  induction rows with
  | nil => cases hr
  | cons x rows ih =>
    rw [List.map_cons, List.nodup_cons] at h
    have hcons : revise key k f (x :: rows) =
        (if key x = k then f x else x) :: revise key k f rows := rfl
    rw [hcons, List.countP_cons, List.countP_cons]
    rcases List.mem_cons.mp hr with rfl | hm
    · have hrest : revise key k f rows = rows := by
        unfold revise
        conv_rhs => rw [← List.map_id rows]
        apply List.map_congr_left
        intro y hy
        rw [if_neg]
        · rfl
        · intro he
          exact h.1 (hk ▸ he ▸ List.mem_map_of_mem hy)
      rw [if_pos hk, hrest]
      omega
    · have hx : key x ≠ k := fun he => h.1 (he ▸ hk ▸ List.mem_map_of_mem hm)
      rw [if_neg hx]
      have := ih h.2 hm
      omega

theorem countP_drop (h : (rows.map key).Nodup) (hr : r ∈ rows) (hk : key r = k) (p : α → Bool) :
    (rows.filter fun x => key x ≠ k).countP p + (if p r then 1 else 0) = rows.countP p := by
  induction rows with
  | nil => cases hr
  | cons x rows ih =>
    rw [List.map_cons, List.nodup_cons] at h
    rcases List.mem_cons.mp hr with rfl | hm
    · have hrest : (rows.filter fun x => key x ≠ k) = rows := by
        apply List.filter_eq_self.mpr
        intro y hy
        apply decide_eq_true
        intro he
        exact h.1 (hk ▸ he ▸ List.mem_map_of_mem hy)
      rw [List.filter_cons_of_neg (by simp [hk]), hrest, List.countP_cons]
    · have hx : key x ≠ k := fun he => h.1 (he ▸ hk ▸ List.mem_map_of_mem hm)
      rw [List.filter_cons_of_pos (by simp [hx]), List.countP_cons, List.countP_cons]
      have := ih h.2 hm
      omega

end Counting

def Waiting (item : WorkItem) : Prop := item.state = .ready ∨ item.state = .leased

structure Alike (i j : WorkItem) : Prop where
  id : j.id = i.id
  workspace : j.workspace = i.workspace
  kind : j.kind = i.kind
  target : j.target = i.target
  waiting : Waiting i ↔ Waiting j

abbrev AllAlike (l m : List WorkItem) : Prop := List.Forall₂ Alike l m

theorem Alike.refl (i : WorkItem) : Alike i i := ⟨rfl, rfl, rfl, rfl, Iff.rfl⟩

theorem AllAlike.refl (l : List WorkItem) : AllAlike l l := by
  induction l with
  | nil => exact .nil
  | cons i l ih => exact .cons (.refl i) ih

theorem AllAlike.trans {l m n : List WorkItem} (h : AllAlike l m) (h' : AllAlike m n) :
    AllAlike l n := by
  induction h generalizing n with
  | nil =>
    cases h'
    exact .nil
  | cons ha _ ih =>
    cases h' with
    | cons hb hrest =>
      exact .cons ⟨hb.id.trans ha.id, hb.workspace.trans ha.workspace, hb.kind.trans ha.kind,
        hb.target.trans ha.target, ha.waiting.trans hb.waiting⟩ (ih hrest)

theorem alike_open {i j : WorkItem} (h : Alike i j) (w : ℕ) : Open w i ↔ Open w j := by
  unfold Open
  rw [h.workspace, h.kind]
  exact and_congr_right fun _ => and_congr_right fun _ => h.waiting

theorem openItems_alike {l m : List WorkItem} (h : AllAlike l m) (w : ℕ) :
    openItems m w = openItems l w := by
  unfold openItems
  induction h with
  | nil => rfl
  | cons ha _ ih =>
    rw [List.countP_cons, List.countP_cons, ih]
    simp only [alike_open ha w]

theorem revise_alike {items : List WorkItem} {k : ℕ} {f : WorkItem → WorkItem}
    (h : ∀ i ∈ items, i.id = k → Alike i (f i)) :
    AllAlike items (revise WorkItem.id k f items) := by
  induction items with
  | nil => exact .nil
  | cons i items ih =>
    have hcons : revise WorkItem.id k f (i :: items) =
        (if i.id = k then f i else i) :: revise WorkItem.id k f items := rfl
    rw [hcons]
    apply List.Forall₂.cons
    · split
      · rename_i hk
        exact h i (List.mem_cons_self ..) hk
      · exact .refl i
    · exact ih fun x hx => h x (List.mem_cons_of_mem _ hx)

def Shaped (items : List WorkItem) : Prop := ∀ item ∈ items, item.LeaseShape

theorem revise_shaped {items : List WorkItem} {k : ℕ} {f : WorkItem → WorkItem}
    (h : Shaped items) (hf : ∀ i, (f i).LeaseShape) : Shaped (revise WorkItem.id k f items) := by
  intro item hi
  obtain ⟨old, ho, rfl⟩ := mem_revise.mp hi
  split
  · exact hf old
  · exact h old ho

theorem claimRows_alike {now : Instant} {leaseDuration : ℤ} {items : List WorkItem}
    {works : List ClaimedWork} {db after : Database}
    (h : claimRows now leaseDuration items db = .ok (works, after))
    (hw : ∀ item ∈ items, ∀ row ∈ db.items, row.id = item.id → Waiting row)
    (hs : Shaped db.items) :
    AllAlike db.items after.items ∧ Shaped after.items ∧ after.workspaces = db.workspaces ∧
      db.serial ≤ after.serial := by
  induction items generalizing db works with
  | nil =>
    obtain ⟨-, rfl⟩ := Prod.mk.inj (Except.ok.inj h)
    exact ⟨.refl _, hs, rfl, Nat.le_refl _⟩
  | cons item rest ih =>
    simp only [claimRows, bind_ok] at h
    obtain ⟨⟨work, db₁⟩, h₁, ⟨works', db₂⟩, h₂, h⟩ := h
    obtain ⟨-, rfl⟩ := Prod.mk.inj (Except.ok.inj h)
    obtain ⟨leaseUntil, _, _, rfl, _, _⟩ := claimRow_ok h₁
    have hgrant : AllAlike db.items (db.grant item now leaseUntil).items := by
      apply revise_alike
      intro i hi hid
      exact ⟨rfl, rfl, rfl, rfl, iff_of_true (hw item (List.mem_cons_self ..) i hi hid) (.inr rfl)⟩
    have hshaped : Shaped (db.grant item now leaseUntil).items :=
      revise_shaped hs fun i => lease_shape i now leaseUntil db.serial
    have hnext : ∀ other ∈ rest, ∀ row ∈ (db.grant item now leaseUntil).items,
        row.id = other.id → Waiting row := by
      intro other ho row hrow hid
      obtain ⟨old, hold, ha⟩ := forall₂_mem_right hgrant hrow
      exact ha.waiting.mp (hw other (List.mem_cons_of_mem _ ho) old hold (ha.id.symm.trans hid))
    obtain ⟨halike, hsh, hws, hle⟩ := ih h₂ hnext hshaped
    exact ⟨hgrant.trans halike, hsh, hws, Nat.le_trans (Nat.le_succ _) hle⟩

theorem reserve_spec {limits requested : QuotaAmounts} {id : ℕ} {clock : Instant}
    {rows after : List Workspace} (h : reserve limits id requested clock rows = .ok after) :
    ∃ w ∈ rows, w.id = id ∧ w.state = .active ∧ limits.covers (w.usage.plus requested) ∧
      after = setUsage id (w.usage.plus requested) rows := by
  simp only [Workspaces.reserve, requireActive, QuotaAmounts.reserve, bind_ok, fetch_ok,
    demand_ok] at h
  obtain ⟨w, hw, _, ha, resulting, ⟨_, hb, _, hk, _, hj, he⟩, hr⟩ := h
  obtain rfl := Except.ok.inj he
  exact ⟨w, mem_of_lookup hw, key_of_lookup hw, ((accessAllowed_iff w clock).mp ha).1,
    ⟨hb, hk, hj⟩, (Except.ok.inj hr).symm⟩

theorem release_spec {released : QuotaAmounts} {id : ℕ} {clock : Instant}
    {rows after : List Workspace} (h : release id released clock rows = .ok after) :
    ∃ w ∈ rows, w.id = id ∧ w.state = .active ∧ w.usage.covers released ∧
      after = setUsage id (w.usage.minus released) rows := by
  simp only [Workspaces.release, requireActive, bind_ok, fetch_ok, demand_ok] at h
  obtain ⟨w, hw, _, ha, _, hc, hr⟩ := h
  exact ⟨w, mem_of_lookup hw, key_of_lookup hw, ((accessAllowed_iff w clock).mp ha).1, hc,
    (Except.ok.inj hr).symm⟩

theorem mem_setUsage {id : ℕ} {usage : QuotaAmounts} {rows : List Workspace} {y : Workspace}
    (h : y ∈ setUsage id usage rows) : ∃ x ∈ rows, y.id = x.id ∧ y.state = x.state ∧
      (x.id = id → y.usage = usage) ∧ (x.id ≠ id → y.usage = x.usage) := by
  obtain ⟨x, hx, rfl⟩ := mem_revise.mp h
  by_cases hid : x.id = id
  · rw [if_pos hid]
    exact ⟨x, hx, rfl, rfl, fun _ => rfl, fun hne => absurd hid hne⟩
  · rw [if_neg hid]
    exact ⟨x, hx, rfl, rfl, fun he => absurd he hid, fun _ => rfl⟩

theorem setUsage_mem (id : ℕ) (usage : QuotaAmounts) {rows : List Workspace} {x : Workspace}
    (h : x ∈ rows) : ∃ y ∈ setUsage id usage rows, y.id = x.id ∧ y.state = x.state := by
  refine ⟨_, mem_revise.mpr ⟨x, h, rfl⟩, ?_⟩
  split <;> exact ⟨rfl, rfl⟩

/-- What a completion call leaves: the items as they were for the accounts, or a
leased one closed and its job released. -/
inductive Finished (db : Database) : Database → Prop
  | same {after : Database} (items : AllAlike db.items after.items) (shaped : Shaped after.items)
      (workspaces : after.workspaces = db.workspaces) (serial : after.serial = db.serial) :
      Finished db after
  | ended {after : Database} {item : WorkItem} {state : JobState} {availableAt now clock : Instant}
      (mem : item ∈ db.items) (leased : item.state = .leased)
      (closed : state = .succeeded ∨ state = .failed)
      (items : after.items = revise WorkItem.id item.id (·.close state availableAt now) db.items)
      (released : release item.workspace oneActiveJob clock db.workspaces = .ok after.workspaces)
      (serial : after.serial = db.serial) : Finished db after

theorem leased_of_token {item : WorkItem} {token : ℕ} (h : item.LeaseShape)
    (ht : item.currentToken = some token) : item.state = .leased := by
  by_contra hne
  unfold WorkItem.LeaseShape at h
  rw [if_neg hne, ht] at h
  cases h.2

theorem completeAttempt_items {token : ℕ} {outcome : JobAttemptOutcome} {now : Instant}
    {category : Option FailureCategory} {db after : Database}
    (h : completeAttempt token outcome now category db = .ok after) :
    after.items = db.items ∧ after.workspaces = db.workspaces ∧ after.serial = db.serial := by
  obtain ⟨_, rfl⟩ := completeAttempt_ok h
  exact ⟨rfl, rfl, rfl⟩

theorem releaseJob_items {workspace : ℕ} {clock : Instant} {db after : Database}
    (h : releaseJob workspace clock db = .ok after) :
    after.items = db.items ∧ after.serial = db.serial ∧
      release workspace oneActiveJob clock db.workspaces = .ok after.workspaces := by
  obtain ⟨rows, hr, rfl⟩ := withWorkspaces_ok h
  exact ⟨rfl, rfl, hr⟩

theorem markSucceeded_finished {db after : Database} {token : ℕ} {now clock : Instant}
    {done : Bool} (hs : Shaped db.items)
    (h : markSucceeded token now clock db = .ok (done, after)) : Finished db after := by
  simp only [markSucceeded, bind_ok] at h
  obtain ⟨⟨a, item⟩, hf, h⟩ := h
  obtain ⟨_, hi, _⟩ := attemptAndItem_ok hf
  by_cases hc : item.currentToken = some token
  · rw [if_neg (not_not.mpr hc)] at h
    simp only [bind_ok] at h
    obtain ⟨db₁, h₁, db₂, h₂, h⟩ := h
    obtain ⟨-, rfl⟩ := Prod.mk.inj (Except.ok.inj h)
    obtain ⟨hi₁, hw₁, hs₁⟩ := completeAttempt_items h₁
    obtain ⟨hi₂, hs₂, hr⟩ := releaseJob_items h₂
    rw [hw₁] at hr
    exact .ended hi (leased_of_token (hs item hi) hc) (.inl rfl) (hi₂.trans hi₁) hr
      (hs₂.trans hs₁)
  · rw [if_pos hc] at h
    simp only [bind_ok] at h
    obtain ⟨db₁, h₁, h⟩ := h
    obtain ⟨-, rfl⟩ := Prod.mk.inj (Except.ok.inj h)
    obtain ⟨hi₁, hw₁, hs₁⟩ := completeAttempt_items h₁
    exact .same (hi₁ ▸ .refl _) (hi₁ ▸ hs) hw₁ hs₁

theorem markFailed_finished {db after : Database} {token : ℕ} {retryOutcome : RetryOutcome}
    {category : FailureCategory} {now clock : Instant} {done : Bool}
    (hv : (db.items.map WorkItem.id).Nodup) (hs : Shaped db.items)
    (h : markFailed token retryOutcome category now clock db = .ok (done, after)) :
    Finished db after := by
  simp only [markFailed, bind_ok] at h
  obtain ⟨⟨a, item⟩, hf, h⟩ := h
  obtain ⟨_, hi, _⟩ := attemptAndItem_ok hf
  by_cases hc : item.currentToken = some token
  · have hleased := leased_of_token (hs item hi) hc
    rw [if_neg (not_not.mpr hc)] at h
    simp only [bind_ok] at h
    obtain ⟨db₁, h₁, h⟩ := h
    obtain ⟨hi₁, hw₁, hs₁⟩ := completeAttempt_items h₁
    cases retryOutcome with
    | ready availableAt =>
      simp only [reduceCtorEq, if_false] at h
      obtain ⟨-, rfl⟩ := Prod.mk.inj (Except.ok.inj h)
      have halike : AllAlike db.items
          (revise WorkItem.id item.id (·.close .ready availableAt now) db.items) := by
        apply revise_alike
        intro i hi' hid
        obtain rfl := eq_of_key_eq WorkItem.id hv hi' hi hid
        exact ⟨rfl, rfl, rfl, rfl, iff_of_true (.inr hleased) (.inl rfl)⟩
      have hshaped := revise_shaped (k := item.id) hs
        fun i => close_shape (by decide : JobState.ready ≠ .leased) i availableAt now
      exact .same (hi₁ ▸ halike) (hi₁ ▸ hshaped) hw₁ hs₁
    | failed =>
      simp only [if_true, bind_ok] at h
      obtain ⟨db₂, h₂, h⟩ := h
      obtain ⟨-, rfl⟩ := Prod.mk.inj (Except.ok.inj h)
      obtain ⟨hi₂, hs₂, hr⟩ := releaseJob_items h₂
      rw [hw₁] at hr
      exact .ended hi hleased (.inr rfl) (hi₂.trans hi₁) hr (hs₂.trans hs₁)
  · rw [if_pos hc] at h
    simp only [bind_ok] at h
    obtain ⟨db₁, h₁, h⟩ := h
    obtain ⟨-, rfl⟩ := Prod.mk.inj (Except.ok.inj h)
    obtain ⟨hi₁, hw₁, hs₁⟩ := completeAttempt_items h₁
    exact .same (hi₁ ▸ .refl _) (hi₁ ▸ hs) hw₁ hs₁

structure Tidy (limits : QuotaAmounts) (db : Database) : Prop where
  ids : (db.items.map WorkItem.id).Nodup
  shaped : Shaped db.items
  drawn : ∀ i ∈ db.items, i.id < db.serial ∧ i.workspace < db.serial
  cleanups : ∀ i ∈ db.items, i.kind = .workspaceCleanup → ¬Active db.workspaces i.workspace
  workspaces : (db.workspaces.map Workspace.id).Nodup
  known : ∀ w ∈ db.workspaces, w.id < db.serial
  within : ∀ w ∈ db.workspaces, limits.covers w.usage

section Tables
variable {limits : QuotaAmounts} {db after : Database}

theorem empty_tidy (limits : QuotaAmounts) : Tidy limits Database.empty where
  ids := List.nodup_nil
  shaped := fun i hi => by cases hi
  drawn := fun i hi => by cases hi
  cleanups := fun i hi => by cases hi
  workspaces := List.nodup_nil
  known := fun w hw => by cases hw
  within := fun w hw => by cases hw

theorem covers_minus {a b : QuotaAmounts} (h : limits.covers a) : limits.covers (a.minus b) := by
  obtain ⟨hb, hk, hj⟩ := h
  refine ⟨?_, ?_, ?_⟩
  · exact Nat.le_trans (Nat.sub_le ..) hb
  · exact Nat.le_trans (Nat.sub_le ..) hk
  · exact Nat.le_trans (Nat.sub_le ..) hj

theorem usage_tidy (h : Tidy limits db) (id : ℕ) {usage : QuotaAmounts}
    (hu : limits.covers usage) :
    Tidy limits { db with workspaces := setUsage id usage db.workspaces } := by
  have hactive : ∀ w, Active (setUsage id usage db.workspaces) w → Active db.workspaces w := by
    intro w hw
    obtain ⟨y, hy, hid, hs⟩ := hw
    obtain ⟨x, hx, hxid, hxs, _⟩ := mem_setUsage hy
    exact ⟨x, hx, hxid.symm.trans hid, hxs.symm.trans hs⟩
  refine ⟨h.ids, h.shaped, h.drawn, ?_, ?_, ?_, ?_⟩
  · exact fun i hi hk ha => h.cleanups i hi hk (hactive _ ha)
  · show ((setUsage id usage db.workspaces).map Workspace.id).Nodup
    rw [ids_setUsage]
    exact h.workspaces
  · intro y hy
    obtain ⟨x, hx, hid, _⟩ := mem_setUsage hy
    exact hid ▸ h.known x hx
  · intro y hy
    obtain ⟨x, hx, _, _, hsame, hother⟩ := mem_setUsage hy
    by_cases hid : x.id = id
    · rw [hsame hid]
      exact hu
    · rw [hother hid]
      exact h.within x hx

theorem alike_tidy (h : Tidy limits db) (hi : AllAlike db.items after.items)
    (hs : Shaped after.items) (hw : after.workspaces = db.workspaces)
    (hserial : db.serial ≤ after.serial) : Tidy limits after := by
  refine ⟨?_, hs, ?_, ?_, hw ▸ h.workspaces, ?_, hw ▸ h.within⟩
  · rw [← forall₂_map_eq hi fun i j ha => ha.id.symm]
    exact h.ids
  · intro j hj
    obtain ⟨i, him, ha⟩ := forall₂_mem_right hi hj
    obtain ⟨hid, hworkspace⟩ := h.drawn i him
    rw [ha.id, ha.workspace]
    exact ⟨Nat.lt_of_lt_of_le hid hserial, Nat.lt_of_lt_of_le hworkspace hserial⟩
  · intro j hj hk
    obtain ⟨i, him, ha⟩ := forall₂_mem_right hi hj
    rw [hw, ha.workspace]
    exact h.cleanups i him (ha.kind.symm.trans hk)
  · intro w hm
    rw [hw] at hm
    exact Nat.lt_of_lt_of_le (h.known w hm) hserial

theorem finished_tidy (h : Tidy limits db) (hf : Finished db after) : Tidy limits after := by
  cases hf with
  | same items shaped workspaces serial =>
    exact alike_tidy h items shaped workspaces (Nat.le_of_eq serial.symm)
  | ended mem leased closed items released serial =>
    rename_i item state availableAt now clock
    obtain ⟨w, hw, _, _, _, hafter⟩ := release_spec released
    have hclosed : Tidy limits { db with items := after.items } := by
      have hrow : ∀ j ∈ after.items, ∃ i ∈ db.items, j.id = i.id ∧ j.workspace = i.workspace ∧
          j.kind = i.kind := by
        intro j hj
        rw [items] at hj
        obtain ⟨i, hi, rfl⟩ := mem_revise.mp hj
        refine ⟨i, hi, ?_⟩
        split <;> exact ⟨rfl, rfl, rfl⟩
      refine ⟨?_, ?_, ?_, ?_, h.workspaces, h.known, h.within⟩
      · show (after.items.map WorkItem.id).Nodup
        rw [items,
          keys_revise (f := fun i => WorkItem.close i state availableAt now) (fun _ => rfl)]
        exact h.ids
      · show Shaped after.items
        rw [items]
        apply revise_shaped h.shaped
        intro i
        apply close_shape
        rcases closed with rfl | rfl <;> decide
      · intro j hj
        obtain ⟨i, hi, hid, hws, _⟩ := hrow j hj
        rw [hid, hws]
        exact h.drawn i hi
      · intro j hj hk
        obtain ⟨i, hi, _, hws, hkind⟩ := hrow j hj
        rw [hws]
        exact h.cleanups i hi (hkind.symm.trans hk)
    have hused := usage_tidy hclosed item.workspace
      (covers_minus (b := oneActiveJob) (h.within w hw))
    rw [show db.workspaces = ({ db with items := after.items } : Database).workspaces from rfl]
      at hafter
    exact alike_tidy hused (.refl _) hused.shaped hafter (Nat.le_of_eq serial.symm)

theorem add_tidy (h : Tidy limits db) (item : WorkItem) (hid : item.id = db.serial)
    (hw : item.workspace < db.serial) (hs : item.LeaseShape)
    (hk : item.kind = .workspaceCleanup → ¬Active db.workspaces item.workspace) :
    Tidy limits { db with items := db.items ++ [item], serial := db.serial+1 } := by
  refine ⟨?_, ?_, ?_, ?_, h.workspaces, fun w hm => Nat.lt_succ_of_lt (h.known w hm), h.within⟩
  · show ((db.items ++ [item]).map WorkItem.id).Nodup
    rw [List.map_append]
    apply List.Nodup.append h.ids (List.nodup_singleton _)
    intro k hm hin
    obtain ⟨i, hi, rfl⟩ := List.mem_map.mp hm
    have hlt := (h.drawn i hi).1
    have heq : i.id = item.id := List.mem_singleton.mp hin
    omega
  · intro i hi
    rcases List.mem_append.mp hi with hi | hi
    · exact h.shaped i hi
    · exact List.mem_singleton.mp hi ▸ hs
  · intro i hi
    show i.id < db.serial+1 ∧ i.workspace < db.serial+1
    rcases List.mem_append.mp hi with hi | hi
    · have := h.drawn i hi
      omega
    · rw [List.mem_singleton.mp hi]
      omega
  · intro i hi hkind
    rcases List.mem_append.mp hi with hi | hi
    · exact h.cleanups i hi hkind
    · rw [List.mem_singleton.mp hi] at hkind ⊢
      exact hk hkind

theorem filter_tidy (h : Tidy limits db) (p : WorkItem → Bool) (attempts : List JobAttempt) :
    Tidy limits { db with items := db.items.filter p, attempts := attempts } where
  ids := h.ids.sublist (List.Sublist.map _ List.filter_sublist)
  shaped := fun i hi => h.shaped i (List.mem_filter.mp hi).1
  drawn := fun i hi => h.drawn i (List.mem_filter.mp hi).1
  cleanups := fun i hi => h.cleanups i (List.mem_filter.mp hi).1
  workspaces := h.workspaces
  known := h.known
  within := h.within

theorem purged_tidy (h : Tidy limits db) (id : ℕ) : Tidy limits (db.purged id) where
  ids := h.ids.sublist (List.Sublist.map _ List.filter_sublist)
  shaped := fun i hi => h.shaped i (List.mem_filter.mp hi).1
  drawn := fun i hi => h.drawn i (List.mem_filter.mp hi).1
  cleanups := by
    intro i hi hk ha
    obtain ⟨w, hw, hrest⟩ := ha
    exact h.cleanups i (List.mem_filter.mp hi).1 hk ⟨w, (List.mem_filter.mp hw).1, hrest⟩
  workspaces := h.workspaces.sublist (List.Sublist.map _ List.filter_sublist)
  known := fun w hw => h.known w (List.mem_filter.mp hw).1
  within := fun w hw => h.within w (List.mem_filter.mp hw).1

theorem create_tidy (h : Tidy limits db) (expiresAt : Instant) :
    Tidy limits { db with
      workspaces := db.workspaces ++ [⟨db.serial, .active, expiresAt, none, none, ⟨0, 0, 0⟩⟩]
      serial := db.serial+1 } := by
  have hrow : ∀ w ∈ db.workspaces ++
      [(⟨db.serial, .active, expiresAt, none, none, ⟨0, 0, 0⟩⟩ : Workspace)],
      w ∈ db.workspaces ∨ w.id = db.serial ∧ w.usage = ⟨0, 0, 0⟩ := by
    intro w hw
    rcases List.mem_append.mp hw with hw | hw
    · exact .inl hw
    · rw [List.mem_singleton.mp hw]
      exact .inr ⟨rfl, rfl⟩
  refine ⟨h.ids, h.shaped, ?_, ?_, ?_, ?_, ?_⟩
  · intro i hi
    show i.id < db.serial+1 ∧ i.workspace < db.serial+1
    have := h.drawn i hi
    omega
  · intro i hi hk ha
    obtain ⟨w, hw, hid, hs⟩ := ha
    rcases hrow w hw with hw | ⟨hnew, _⟩
    · exact h.cleanups i hi hk ⟨w, hw, hid, hs⟩
    · have := (h.drawn i hi).2
      omega
  · show ((db.workspaces ++ [_]).map Workspace.id).Nodup
    rw [List.map_append]
    apply List.Nodup.append h.workspaces (List.nodup_singleton _)
    intro k hm hin
    obtain ⟨w, hw, rfl⟩ := List.mem_map.mp hm
    have hlt := h.known w hw
    have heq : w.id = db.serial := List.mem_singleton.mp hin
    omega
  · intro w hw
    show w.id < db.serial+1
    rcases hrow w hw with hw | ⟨hnew, _⟩
    · have := h.known w hw
      omega
    · omega
  · intro w hw
    rcases hrow w hw with hw | ⟨_, hu⟩
    · exact h.within w hw
    · rw [hu]
      exact ⟨Nat.zero_le _, Nat.zero_le _, Nat.zero_le _⟩

theorem revokeWorkspace_items {cleanupMaxAttempts id : ℕ} {final : WorkspaceState}
    {reason : CleanupReason} {now : Instant}
    (h : revokeWorkspace cleanupMaxAttempts id final reason now db = .ok after) :
    (∃ w ∈ db.workspaces, w.id = id) ∧
      after.workspaces = revise Workspace.id id (·.revoke final now) db.workspaces ∧
      (after.items = db.items ∧ after.serial = db.serial ∨
        ∃ item, after.items = db.items ++ [item] ∧ after.serial = db.serial+1 ∧
          item.id = db.serial ∧ item.workspace = id ∧ item.kind = .workspaceCleanup ∧
            item.LeaseShape) := by
  simp only [revokeWorkspace, bind_ok, fetch_ok] at h
  obtain ⟨w, hw, h⟩ := h
  refine ⟨⟨w, mem_of_lookup hw, key_of_lookup hw⟩, ?_⟩
  split at h
  · obtain rfl := Except.ok.inj h
    exact ⟨rfl, .inl ⟨rfl, rfl⟩⟩
  · obtain ⟨_, rfl⟩ := addItem_ok h
    exact ⟨rfl, .inr ⟨_, rfl, rfl, rfl, rfl, rfl, by simp [WorkItem.LeaseShape]⟩⟩

theorem revoked_row {id : ℕ} {final : WorkspaceState} {now : Instant} {rows : List Workspace}
    {y : Workspace} (h : y ∈ revise Workspace.id id (·.revoke final now) rows) :
    ∃ x ∈ rows, y.id = x.id ∧ y.usage = x.usage ∧
      (y.state = .active → x.id ≠ id ∧ x.state = .active) := by
  obtain ⟨x, hx, rfl⟩ := mem_revise.mp h
  have husage : (x.revoke final now).usage = x.usage := by
    unfold Workspace.revoke
    split
    · rfl
    · split <;> rfl
  have hstate : (x.revoke final now).state ≠ .active := by
    unfold Workspace.revoke
    split
    · simp
    · split
      · simp
      · assumption
  by_cases hid : x.id = id
  · rw [if_pos hid]
    exact ⟨x, hx, Workspace.revoke_id final now x, husage, fun ha => absurd ha hstate⟩
  · rw [if_neg hid]
    exact ⟨x, hx, rfl, rfl, fun ha => ⟨hid, ha⟩⟩

theorem revoke_tidy (h : Tidy limits db) {cleanupMaxAttempts id : ℕ} {final : WorkspaceState}
    {reason : CleanupReason} {now : Instant}
    (hr : revokeWorkspace cleanupMaxAttempts id final reason now db = .ok after) :
    Tidy limits after := by
  obtain ⟨⟨w, hw, hwid⟩, hrows, hitems⟩ := revokeWorkspace_items hr
  have hactive : ∀ k, Active after.workspaces k → k ≠ id ∧ Active db.workspaces k := by
    intro k ha
    obtain ⟨y, hy, hid, hs⟩ := ha
    rw [hrows] at hy
    obtain ⟨x, hx, hxid, _, hstate⟩ := revoked_row hy
    have hxk : x.id = k := hxid.symm.trans hid
    exact ⟨hxk ▸ (hstate hs).1, x, hx, hxk, (hstate hs).2⟩
  have hids : (after.workspaces.map Workspace.id).Nodup := by
    rw [hrows, keys_revise (Workspace.revoke_id final now)]
    exact h.workspaces
  have hknown : ∀ y ∈ after.workspaces, y.id < db.serial := by
    intro y hy
    rw [hrows] at hy
    obtain ⟨x, hx, hid, _⟩ := revoked_row hy
    exact hid ▸ h.known x hx
  have hwithin : ∀ y ∈ after.workspaces, limits.covers y.usage := by
    intro y hy
    rw [hrows] at hy
    obtain ⟨x, hx, _, hu, _⟩ := revoked_row hy
    exact hu ▸ h.within x hx
  rcases hitems with ⟨hi, hs⟩ | ⟨item, hi, hs, hid, hws, hkind, hshape⟩
  · refine ⟨hi ▸ h.ids, hi ▸ h.shaped, hs ▸ hi ▸ h.drawn, ?_, hids, hs ▸ hknown, hwithin⟩
    intro i him hk ha
    rw [hi] at him
    exact h.cleanups i him hk (hactive _ ha).2
  · have hrevoked : Tidy limits { db with workspaces := after.workspaces } :=
      ⟨h.ids, h.shaped, h.drawn,
        fun i him hk ha => h.cleanups i him hk (hactive _ ha).2, hids, hknown, hwithin⟩
    have hadd := add_tidy hrevoked _ hid (hws ▸ hwid ▸ h.known w hw) hshape
      (fun _ ha => (hactive _ ha).1 hws)
    refine ⟨hi ▸ hadd.ids, hi ▸ hadd.shaped, hs ▸ hi ▸ hadd.drawn, hi ▸ hadd.cleanups, hids, ?_,
      hwithin⟩
    exact fun y hy => hs ▸ Nat.lt_succ_of_lt (hknown y hy)

end Tables

end Workbench.Accounts
