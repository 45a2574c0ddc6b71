import Workbench.JobRuns

/-!
# What a claim hands out

A claim leases its rows one after another under fresh tokens. As long as such
a token is current its item has the counts that were handed out, and a token
that is current no more never becomes current again.
-/

set_option autoImplicit false

namespace Workbench.Claims
open Workbench.Listing Workbench.Tables Workbench.Calendar Workbench.Workspaces Workbench.Jobs
open Workbench.JobRuns
open Workbench.Raising (bind_ok demand fetch)

variable {db : Database} {may : JobAttempt → Instant → Prop} {retry take : WorkItem → Prop}

def Traced (before after : Database) : Prop :=
  before.serial ≤ after.serial ∧ ∀ row ∈ after.items, ∀ token,
    row.currentToken = some token → token < before.serial → row ∈ before.items

theorem traced_refl (db : Database) : Traced db db := ⟨le_rfl, fun _ hrow _ _ _ => hrow⟩

theorem Traced.trans {first second third : Database} (h : Traced first second)
    (k : Traced second third) : Traced first third := by
  refine ⟨h.1.trans k.1, fun row hrow token ht hlt => ?_⟩
  exact h.2 row (k.2 row hrow token ht (lt_of_lt_of_le hlt h.1)) token ht hlt

theorem move_traced {after : Database} (m : Move may retry take db after) : Traced db after := by
  cases m with
  | @grant item now leaseUntil mem claimable allowed later =>
    refine ⟨Nat.le_succ _, fun row hrow token ht hlt => ?_⟩
    obtain ⟨old, ho, rfl⟩ := mem_granted_items.mp hrow
    by_cases he : old.id = item.id
    · rw [if_pos he] at ht
      have hs : db.serial = token := Option.some.inj ht
      omega
    · rw [if_neg he]
      exact ho
  | expire attempt mem owner outdated allowed shape => exact traced_refl db
  | @finish a item state availableAt now outcome category workspaces attempt mem owner current
      finish again =>
    refine ⟨le_rfl, fun row hrow token ht _ => ?_⟩
    obtain ⟨old, ho, rfl⟩ := mem_closed.mp hrow
    by_cases he : old.id = item.id
    · rw [if_pos he] at ht
      simp [WorkItem.close] at ht
    · rw [if_neg he]
      exact ho
  | add fresh =>
    refine ⟨Nat.le_succ _, fun row hrow token ht _ => ?_⟩
    cases List.mem_append.mp hrow with
    | inl ho => exact ho
    | inr he =>
      rw [List.mem_singleton.mp he, fresh.currentToken] at ht
      simp at ht
  | purge id => exact ⟨le_rfl, fun row hrow _ _ _ => List.mem_of_mem_filter hrow⟩
  | elsewhere workspaces cleanups later => exact ⟨later, fun _ hrow _ _ _ => hrow⟩

theorem moves_traced {after : Database} (m : Moves may retry take db after) : Traced db after := by
  induction m with
  | refl => exact traced_refl db
  | tail _ last ih => exact ih.trans (move_traced last)

/-- A token that was current before and still is sits on an item with the
same counts. -/
def Carried (before after : Database) : Prop :=
  before.serial ≤ after.serial ∧ ∀ row ∈ after.items, ∀ token,
    row.currentToken = some token → token < before.serial → ∃ old ∈ before.items,
      old.currentToken = some token ∧ old.attemptCount = row.attemptCount ∧
        old.maxAttempts = row.maxAttempts

theorem Traced.carried {before after : Database} (h : Traced before after) :
    Carried before after :=
  ⟨h.1, fun row hrow token ht hlt => ⟨row, h.2 row hrow token ht hlt, ht, rfl, rfl⟩⟩

theorem carried_refl (db : Database) : Carried db db := (traced_refl db).carried

theorem Carried.trans {first second third : Database} (h : Carried first second)
    (k : Carried second third) : Carried first third := by
  refine ⟨h.1.trans k.1, fun row hrow token ht hlt => ?_⟩
  obtain ⟨mid, hm, hmt, hmc, hmm⟩ := k.2 row hrow token ht (lt_of_lt_of_le hlt h.1)
  obtain ⟨old, ho, hot, hoc, hom⟩ := h.2 mid hm token hmt hlt
  exact ⟨old, ho, hot, hoc.trans hmc, hom.trans hmm⟩

theorem moves_carried {after : Database} (m : Moves may retry take db after) :
    Carried db after := (moves_traced m).carried

/-- As long as its token is current, an item has the counts its worker was
handed. -/
def Known (db : Database) (held : List ClaimedWork) : Prop :=
  ∀ work ∈ held, work.token < db.serial ∧ ∀ item ∈ db.items,
    item.currentToken = some work.token → item.attemptCount = work.workItem.attemptCount ∧
      item.maxAttempts = work.workItem.maxAttempts

theorem Known.carried {after : Database} {held : List ClaimedWork} (h : Known db held)
    (hc : Carried db after) : Known after held := by
  intro work hw
  obtain ⟨hlt, hk⟩ := h work hw
  refine ⟨lt_of_lt_of_le hlt hc.1, fun row hrow ht => ?_⟩
  obtain ⟨old, ho, hot, hoc, hom⟩ := hc.2 row hrow work.token ht hlt
  obtain ⟨hcount, hmax⟩ := hk old ho hot
  exact ⟨hoc.symm.trans hcount, hom.symm.trans hmax⟩

theorem Known.append {held more : List ClaimedWork} (h : Known db held) (k : Known db more) :
    Known db (held ++ more) := by
  intro work hw
  cases List.mem_append.mp hw with
  | inl hw => exact h work hw
  | inr hw => exact k work hw

theorem claimRow_current (hv : Valid db) {now : Instant} {leaseDuration : ℤ} {item : WorkItem}
    {work : ClaimedWork} {after : Database}
    (h : claimRow now leaseDuration item db = .ok (work, after)) {row : WorkItem}
    (hrow : row ∈ after.items) (hc : row.currentToken = some work.token) : row = work.workItem := by
  obtain ⟨leaseUntil, _, _, rfl, ht, hl⟩ := claimRow_ok h
  rw [ht] at hc
  have hrowid : row.id = item.id := by
    obtain ⟨old, ho, rfl⟩ := mem_granted_items.mp hrow
    by_cases he : old.id = item.id
    · rw [if_pos he]
      exact he
    · rw [if_neg he] at hc
      obtain ⟨a, ha, hat, _⟩ := hv.current old ho db.serial hc
      have hlt := hv.tokensUsed a ha
      omega
  have hids : ((db.grant item now leaseUntil).items.map WorkItem.id).Nodup := by
    have hk := keys_revise (g := WorkItem.id) (f := (·.lease now leaseUntil db.serial))
      (fun _ => rfl) item.id db.items
    rw [show (db.grant item now leaseUntil).items.map WorkItem.id = _ from hk]
    exact hv.ids
  exact eq_of_key_eq WorkItem.id hids hrow (mem_of_lookup hl) (hrowid.trans (key_of_lookup hl).symm)

theorem claimRow_drawn {now : Instant} {leaseDuration : ℤ} {item : WorkItem}
    {work : ClaimedWork} {after : Database}
    (h : claimRow now leaseDuration item db = .ok (work, after)) : work.token < after.serial := by
  obtain ⟨leaseUntil, _, _, rfl, ht, _⟩ := claimRow_ok h
  rw [ht]
  exact Nat.lt_succ_self _

theorem claimRow_known (hv : Valid db) {now : Instant} {leaseDuration : ℤ} {item : WorkItem}
    {work : ClaimedWork} {after : Database}
    (h : claimRow now leaseDuration item db = .ok (work, after)) :
    work.workItem.id = item.id ∧ Known after [work] := by
  obtain ⟨leaseUntil, _, _, _, _, hl⟩ := claimRow_ok h
  refine ⟨key_of_lookup hl, fun w hw => ?_⟩
  rw [List.mem_singleton.mp hw]
  refine ⟨claimRow_drawn h, fun row hrow hc => ?_⟩
  rw [claimRow_current hv h hrow hc]
  exact ⟨rfl, rfl⟩

structure Claiming (db : Database) (now : Instant) (items : List WorkItem) : Prop where
  mem : ∀ item ∈ items, item ∈ db.items ∧ Claimable now item
  distinct : (items.map WorkItem.id).Nodup

theorem candidates_claiming (hv : Valid db) (request : Request) (now : Instant)
    (locked : ℕ → Bool) : Claiming db now (candidates request now locked db) :=
  ⟨fun _ => mem_candidates, candidates_distinct hv request now locked⟩

theorem Claiming.rest {now leaseUntil : Instant} {item : WorkItem} {rest : List WorkItem}
    (h : Claiming db now (item :: rest)) :
    Claiming (db.grant item now leaseUntil) now rest := by
  have hd := List.nodup_cons.mp h.distinct
  refine ⟨fun other ho => ?_, hd.2⟩
  obtain ⟨hoi, hoc⟩ := h.mem other (List.mem_cons_of_mem _ ho)
  refine ⟨mem_granted_items.mpr ⟨other, hoi, ?_⟩, hoc⟩
  rw [if_neg]
  intro he
  exact hd.1 (he ▸ List.mem_map_of_mem ho)

theorem claimRows_known {now : Instant} {leaseDuration : ℤ} {items : List WorkItem}
    {works : List ClaimedWork} {db after : Database} (hv : Valid db)
    (hc : Claiming db now items)
    (h : claimRows now leaseDuration items db = .ok (works, after)) :
    works.map (·.workItem.id) = items.map WorkItem.id ∧ Known after works := by
  induction items generalizing db works with
  | nil =>
    obtain ⟨rfl, rfl⟩ := Prod.mk.inj (Except.ok.inj h)
    exact ⟨rfl, by simp [Known]⟩
  | cons item rest ih =>
    simp only [claimRows, bind_ok] at h
    obtain ⟨⟨first, db₁⟩, h₁, ⟨others, db₂⟩, h₂, h⟩ := h
    obtain ⟨rfl, rfl⟩ := Prod.mk.inj (Except.ok.inj h)
    obtain ⟨hi, hclaim⟩ := hc.mem item List.mem_cons_self
    obtain ⟨hid, hk⟩ := claimRow_known hv h₁
    obtain ⟨leaseUntil, _, hl, rfl, _, _⟩ := claimRow_ok h₁
    have hv₁ := grant_valid hv hi hclaim hl
    have hr : Claiming (db.grant item now leaseUntil) now rest := hc.rest
    obtain ⟨hids, hks⟩ := ih hv₁ hr h₂
    have hm : Moves (fun _ _ => True) (fun _ => True) (fun _ => True)
        (db.grant item now leaseUntil) db₂ :=
      claimRows_moves h₂ (fun i hi => ⟨(hr.mem i hi).1, (hr.mem i hi).2, trivial⟩) hr.distinct
    refine ⟨by simp [hid, hids], ?_⟩
    exact (hk.carried (moves_carried hm)).append hks

theorem claimRows_total {now leaseUntil : Instant} {leaseDuration : ℤ} {items : List WorkItem}
    {db : Database} (hv : Valid db) (hc : Claiming db now items)
    (hs : shift now leaseDuration = some leaseUntil) (hl : now < leaseUntil) :
    ∃ works after, claimRows now leaseDuration items db = .ok (works, after) := by
  induction items generalizing db with
  | nil => exact ⟨[], db, rfl⟩
  | cons item rest ih =>
    obtain ⟨hi, hclaim⟩ := hc.mem item List.mem_cons_self
    have hv₁ := grant_valid hv hi hclaim hl
    have hmem : item.lease now leaseUntil db.serial ∈ (db.grant item now leaseUntil).items :=
      mem_granted_items.mpr ⟨item, hi, by rw [if_pos rfl]⟩
    have hrow := lookup_mem hv₁.ids hmem
    obtain ⟨works, after, hrest⟩ := ih hv₁ hc.rest
    refine ⟨⟨item.lease now leaseUntil db.serial, db.serial⟩ :: works, after, ?_⟩
    have hid : (item.lease now leaseUntil db.serial).id = item.id := rfl
    rw [hid] at hrow
    simp [claimRows, claimRow, fetch, demand, hs, hl, hrow, hrest]

theorem claim_usable {request : Request} {now : Instant} {leaseDuration : ℤ}
    {locked : ℕ → Bool} {works : List ClaimedWork} {after : Database}
    (h : claim request now leaseDuration locked db = .ok (works, after)) :
    candidates request now locked db = [] ∨
      ∃ leaseUntil, shift now leaseDuration = some leaseUntil ∧ now < leaseUntil := by
  cases hi : candidates request now locked db with
  | nil => exact .inl rfl
  | cons item rest =>
    right
    rw [claim, hi] at h
    simp only [claimRows, bind_ok] at h
    obtain ⟨⟨first, db₁⟩, h₁, _⟩ := h
    obtain ⟨leaseUntil, hs, hl, _⟩ := claimRow_ok h₁
    exact ⟨leaseUntil, hs, hl⟩

end Workbench.Claims
