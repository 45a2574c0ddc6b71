import Workbench.Jobs
import Mathlib.Logic.Relation

/-!
# What the job services can do

Every service is a sequence of a few moves on the tables: granting a lease,
closing an attempt that lost its lease, finishing the current attempt, adding
an item, purging a workspace, and changes that touch neither items nor
attempts. What holds of every run is proved of the moves.
-/

set_option autoImplicit false

namespace Workbench.JobRuns
open Workbench.Listing Workbench.Tables Workbench.Calendar Workbench.Workspaces Workbench.Jobs
open Workbench.Raising (bind_ok ok_bind map_ok demand fetch demand_ok fetch_ok)

def expiredIn (db : Database) (token : ℕ) (now : Instant) : Database :=
  { db with attempts := revise JobAttempt.token token (·.complete .expired now none) db.attempts }

def finishedIn (db : Database) (item : ℕ) (token : ℕ) (state : JobState)
    (availableAt now : Instant) (outcome : JobAttemptOutcome)
    (category : Option FailureCategory) (workspaces : List Workspace) : Database :=
  { db.closeItem item state availableAt now with
    attempts := revise JobAttempt.token token (·.complete outcome now category) db.attempts
    workspaces := workspaces }

structure Fresh (serial : ℕ) (item : WorkItem) : Prop where
  id : item.id = serial
  state : item.state = .ready
  leaseUntil : item.leaseUntil = none
  currentToken : item.currentToken = none
  attemptCount : item.attemptCount = 0
  maxAttempts : 1 ≤ item.maxAttempts

/-- How a current attempt may end: the state of the item, the outcome of the
attempt and the failure category go together. -/
inductive Finish : JobState → JobAttemptOutcome → Option FailureCategory → Prop
  | succeeded : Finish .succeeded .succeeded none
  | retried (category : FailureCategory) : Finish .ready .failed (some category)
  | failed (category : FailureCategory) : Finish .failed .failed (some category)

/-- The moves. `may` says which attempts may be closed as expired, and when;
`retry` and `take` which items may be made ready again, and which be leased. -/
inductive Move (may : JobAttempt → Instant → Prop) (retry take : WorkItem → Prop)
    (db : Database) : Database → Prop
  | grant {item : WorkItem} {now leaseUntil : Instant} (mem : item ∈ db.items)
      (claimable : Claimable now item) (allowed : take item) (later : now < leaseUntil) :
      Move may retry take db (db.grant item now leaseUntil)
  | expire {a : JobAttempt} {item : WorkItem} {now : Instant} (attempt : a ∈ db.attempts)
      (mem : item ∈ db.items) (owner : item.id = a.workItem)
      (outdated : item.currentToken ≠ some a.token) (allowed : may a now)
      (shape : (a.complete .expired now none).OutcomeShape) :
      Move may retry take db (expiredIn db a.token now)
  | finish {a : JobAttempt} {item : WorkItem} {state : JobState} {availableAt now : Instant}
      {outcome : JobAttemptOutcome} {category : Option FailureCategory}
      (workspaces : List Workspace) (attempt : a ∈ db.attempts) (mem : item ∈ db.items)
      (owner : item.id = a.workItem) (current : item.currentToken = some a.token)
      (finish : Finish state outcome category) (retried : state = .ready → retry item) :
      Move may retry take db
        (finishedIn db item.id a.token state availableAt now outcome category workspaces)
  | add {item : WorkItem} (fresh : Fresh db.serial item) :
      Move may retry take db { db with items := db.items ++ [item], serial := db.serial+1 }
  | purge (id : ℕ) : Move may retry take db (db.purged id)
  | elsewhere (workspaces : List Workspace) (cleanups : List CleanupRequest) {serial : ℕ}
      (later : db.serial ≤ serial) :
      Move may retry take db
        { db with workspaces := workspaces, cleanups := cleanups, serial := serial }

structure Valid (db : Database) : Prop where
  ids : (db.items.map WorkItem.id).Nodup
  tokens : (db.attempts.map JobAttempt.token).Nodup
  idsUsed : ∀ item ∈ db.items, item.id < db.serial
  tokensUsed : ∀ a ∈ db.attempts, a.token < db.serial
  owners : ∀ a ∈ db.attempts, ∃ item ∈ db.items,
    item.id = a.workItem ∧ item.workspace = a.workspace
  current : ∀ item ∈ db.items, ∀ token, item.currentToken = some token →
    ∃ a ∈ db.attempts, a.token = token ∧ a.workItem = item.id ∧ a.outcome = none
  leases : ∀ item ∈ db.items, item.LeaseShape
  shapes : ∀ a ∈ db.attempts, a.OutcomeShape
  granted : ∀ a ∈ db.attempts, a.leasedAt < a.leaseUntil
  settled : ∀ a ∈ db.attempts, a.outcome = some .succeeded →
    ∀ item ∈ db.items, item.id = a.workItem → item.state = .succeeded
  single : ∀ a ∈ db.attempts, ∀ b ∈ db.attempts, a.workItem = b.workItem →
    a.outcome = some .succeeded → b.outcome = some .succeeded → a = b

theorem empty_valid : Valid Database.empty where
  ids := by simp [Database.empty]
  tokens := by simp [Database.empty]
  idsUsed := by simp [Database.empty]
  tokensUsed := by simp [Database.empty]
  owners := by simp [Database.empty]
  current := by simp [Database.empty]
  leases := by simp [Database.empty]
  shapes := by simp [Database.empty]
  granted := by simp [Database.empty]
  settled := by simp [Database.empty]
  single := by simp [Database.empty]

variable {db : Database}

theorem Valid.item_eq (h : Valid db) {x y : WorkItem} (hx : x ∈ db.items) (hy : y ∈ db.items)
    (he : x.id = y.id) : x = y := eq_of_key_eq WorkItem.id h.ids hx hy he

theorem Valid.attempt_eq (h : Valid db) {x y : JobAttempt} (hx : x ∈ db.attempts)
    (hy : y ∈ db.attempts) (he : x.token = y.token) : x = y :=
  eq_of_key_eq JobAttempt.token h.tokens hx hy he

theorem Valid.owner (h : Valid db) {item : WorkItem} {a : JobAttempt} (hi : item ∈ db.items)
    (ha : a ∈ db.attempts) (hc : item.currentToken = some a.token) :
    item.id = a.workItem ∧ a.outcome = none := by
  obtain ⟨b, hb, ht, hw, ho⟩ := h.current item hi _ hc
  have hab : b = a := h.attempt_eq hb ha ht
  subst hab
  exact ⟨hw.symm, ho⟩

theorem Valid.leased (h : Valid db) {item : WorkItem} {token : ℕ} (hi : item ∈ db.items)
    (hc : item.currentToken = some token) : item.state = .leased := by
  have hs := h.leases item hi
  unfold WorkItem.LeaseShape at hs
  by_cases hl : item.state = .leased
  · exact hl
  · rw [if_neg hl, hc] at hs
    exact absurd hs.2 (by simp)

theorem claimable_state {now : Instant} {item : WorkItem} (h : Claimable now item) :
    item.state = .ready ∨ item.state = .leased := by
  cases h with
  | inl h => exact .inl h.1
  | inr h => exact .inr h.1

theorem lease_shape (item : WorkItem) (now leaseUntil : Instant) (token : ℕ) :
    (item.lease now leaseUntil token).LeaseShape := by
  simp [WorkItem.LeaseShape, WorkItem.lease]

theorem finish_leased {state : JobState} {outcome : JobAttemptOutcome}
    {category : Option FailureCategory} (h : Finish state outcome category) :
    state ≠ .leased := by
  cases h <;> simp

theorem close_shape {state : JobState} (h : state ≠ .leased) (item : WorkItem)
    (availableAt now : Instant) : (item.close state availableAt now).LeaseShape := by
  simp [WorkItem.LeaseShape, WorkItem.close, h]

theorem finish_shape {state : JobState} {outcome : JobAttemptOutcome}
    {category : Option FailureCategory} (h : Finish state outcome category) {a : JobAttempt}
    (hs : a.OutcomeShape) (ho : a.outcome = none) (now : Instant) :
    (a.complete outcome now category).OutcomeShape := by
  have hc : a.failureCategory = none := by
    simp only [JobAttempt.OutcomeShape, ho] at hs
    exact hs.2
  cases h <;> simp [JobAttempt.OutcomeShape, JobAttempt.complete, hc]

theorem mem_granted_attempts {item : WorkItem} {now leaseUntil : Instant} {a : JobAttempt} :
    a ∈ (db.grant item now leaseUntil).attempts ↔ a ∈ db.attempts ∨
      a = ⟨item.workspace, item.id, db.serial, now, leaseUntil, none, none, none⟩ := by
  simp [Database.grant]

theorem mem_granted_items {item row : WorkItem} {now leaseUntil : Instant} :
    row ∈ (db.grant item now leaseUntil).items ↔ ∃ old ∈ db.items,
      row = if old.id = item.id then old.lease now leaseUntil db.serial else old :=
  mem_revise

theorem revised_id {f : WorkItem → WorkItem} (hf : ∀ r, (f r).id = r.id) {k : ℕ}
    {old : WorkItem} : (if old.id = k then f old else old).id = old.id := by
  by_cases h : old.id = k <;> simp [h, hf]

theorem grant_valid (h : Valid db) {item : WorkItem} {now leaseUntil : Instant}
    (mem : item ∈ db.items) (claimable : Claimable now item) (later : now < leaseUntil) :
    Valid (db.grant item now leaseUntil) where
  ids := by
    have hk := keys_revise (g := WorkItem.id) (f := (·.lease now leaseUntil db.serial))
      (fun _ => rfl) item.id db.items
    rw [show (db.grant item now leaseUntil).items.map WorkItem.id = _ from hk]
    exact h.ids
  tokens := by
    simp only [Database.grant, List.map_append, List.map_cons, List.map_nil]
    apply List.Nodup.append h.tokens (List.nodup_singleton _)
    intro t ht hs
    obtain ⟨a, ha, rfl⟩ := List.mem_map.mp ht
    have hlt := h.tokensUsed a ha
    have heq := List.mem_singleton.mp hs
    omega
  idsUsed := by
    intro row hrow
    obtain ⟨old, ho, rfl⟩ := mem_granted_items.mp hrow
    have hlt := h.idsUsed old ho
    rw [revised_id (f := (·.lease now leaseUntil db.serial)) (fun _ => rfl)]
    exact Nat.lt_succ_of_lt hlt
  tokensUsed := by
    intro a ha
    cases mem_granted_attempts.mp ha with
    | inl ha => exact Nat.lt_succ_of_lt (h.tokensUsed a ha)
    | inr he =>
      subst he
      exact Nat.lt_succ_self _
  owners := by
    intro a ha
    have hkeep : ∀ old ∈ db.items, ∃ row ∈ (db.grant item now leaseUntil).items,
        row.id = old.id ∧ row.workspace = old.workspace := by
      intro old ho
      refine ⟨_, mem_granted_items.mpr ⟨old, ho, rfl⟩, ?_⟩
      by_cases he : old.id = item.id <;> simp [he, WorkItem.lease]
    cases mem_granted_attempts.mp ha with
    | inl ha =>
      obtain ⟨old, ho, hid, hw⟩ := h.owners a ha
      obtain ⟨row, hr, hrid, hrw⟩ := hkeep old ho
      exact ⟨row, hr, hrid.trans hid, hrw.trans hw⟩
    | inr he =>
      subst he
      exact hkeep item mem
  current := by
    intro row hrow token hc
    obtain ⟨old, ho, rfl⟩ := mem_granted_items.mp hrow
    by_cases he : old.id = item.id
    · rw [if_pos he] at hc ⊢
      have ht : db.serial = token := Option.some.inj hc
      exact ⟨_, mem_granted_attempts.mpr (.inr rfl), ht, he.symm, rfl⟩
    · rw [if_neg he] at hc ⊢
      obtain ⟨a, ha, hs⟩ := h.current old ho token hc
      exact ⟨a, mem_granted_attempts.mpr (.inl ha), hs⟩
  leases := by
    intro row hrow
    obtain ⟨old, ho, rfl⟩ := mem_granted_items.mp hrow
    by_cases he : old.id = item.id
    · rw [if_pos he]
      exact lease_shape old now leaseUntil db.serial
    · rw [if_neg he]
      exact h.leases old ho
  shapes := by
    intro a ha
    cases mem_granted_attempts.mp ha with
    | inl ha => exact h.shapes a ha
    | inr he =>
      subst he
      exact ⟨rfl, rfl⟩
  granted := by
    intro a ha
    cases mem_granted_attempts.mp ha with
    | inl ha => exact h.granted a ha
    | inr he =>
      subst he
      exact later
  settled := by
    intro a ha hs row hrow hid
    obtain ⟨old, ho, rfl⟩ := mem_granted_items.mp hrow
    rw [revised_id (f := (·.lease now leaseUntil db.serial)) (fun _ => rfl)] at hid
    cases mem_granted_attempts.mp ha with
    | inl ha =>
      have hold := h.settled a ha hs old ho hid
      by_cases he : old.id = item.id
      · have hitem : old = item := h.item_eq ho mem he
        subst hitem
        cases claimable_state claimable with
        | inl hst => simp [hst] at hold
        | inr hst => simp [hst] at hold
      · rw [if_neg he]
        exact hold
    | inr he =>
      subst he
      simp at hs
  single := by
    intro a ha b hb hw hsa hsb
    cases mem_granted_attempts.mp ha with
    | inr he =>
      subst he
      simp at hsa
    | inl ha =>
      cases mem_granted_attempts.mp hb with
      | inr he =>
        subst he
        simp at hsb
      | inl hb => exact h.single a ha b hb hw hsa hsb

theorem add_valid (h : Valid db) {item : WorkItem} (fresh : Fresh db.serial item) :
    Valid { db with items := db.items ++ [item], serial := db.serial+1 } where
  ids := by
    simp only [List.map_append, List.map_cons, List.map_nil]
    apply List.Nodup.append h.ids (List.nodup_singleton _)
    intro i hi hs
    obtain ⟨old, ho, rfl⟩ := List.mem_map.mp hi
    have hlt := h.idsUsed old ho
    have heq := List.mem_singleton.mp hs
    rw [fresh.id] at heq
    omega
  tokens := h.tokens
  idsUsed := by
    intro row hrow
    cases List.mem_append.mp hrow with
    | inl ho => exact Nat.lt_succ_of_lt (h.idsUsed row ho)
    | inr he =>
      rw [List.mem_singleton.mp he, fresh.id]
      exact Nat.lt_succ_self _
  tokensUsed := fun a ha => Nat.lt_succ_of_lt (h.tokensUsed a ha)
  owners := by
    intro a ha
    obtain ⟨old, ho, hs⟩ := h.owners a ha
    exact ⟨old, List.mem_append_left _ ho, hs⟩
  current := by
    intro row hrow token hc
    cases List.mem_append.mp hrow with
    | inl ho => exact h.current row ho token hc
    | inr he =>
      rw [List.mem_singleton.mp he, fresh.currentToken] at hc
      simp at hc
  leases := by
    intro row hrow
    cases List.mem_append.mp hrow with
    | inl ho => exact h.leases row ho
    | inr he =>
      rw [List.mem_singleton.mp he]
      simp [WorkItem.LeaseShape, fresh.state, fresh.leaseUntil, fresh.currentToken]
  shapes := h.shapes
  granted := h.granted
  settled := by
    intro a ha hs row hrow hid
    cases List.mem_append.mp hrow with
    | inl ho => exact h.settled a ha hs row ho hid
    | inr he =>
      obtain ⟨old, ho, hold, _⟩ := h.owners a ha
      have hlt := h.idsUsed old ho
      rw [List.mem_singleton.mp he, fresh.id] at hid
      omega
  single := h.single

theorem purge_valid (h : Valid db) (id : ℕ) : Valid (db.purged id) where
  ids := h.ids.sublist (List.filter_sublist.map _)
  tokens := h.tokens.sublist (List.filter_sublist.map _)
  idsUsed := fun item hi => h.idsUsed item (List.mem_of_mem_filter hi)
  tokensUsed := fun a ha => h.tokensUsed a (List.mem_of_mem_filter ha)
  owners := by
    intro a ha
    obtain ⟨ha, hw⟩ := List.mem_filter.mp ha
    obtain ⟨item, hi, hid, hiw⟩ := h.owners a ha
    exact ⟨item, List.mem_filter.mpr ⟨hi, by rw [hiw]; exact hw⟩, hid, hiw⟩
  current := by
    intro item hi token hc
    obtain ⟨hi, hw⟩ := List.mem_filter.mp hi
    obtain ⟨a, ha, ht, hid, ho⟩ := h.current item hi token hc
    obtain ⟨other, hoi, hoid, how⟩ := h.owners a ha
    have he : other = item := h.item_eq hoi hi (hoid.trans hid)
    subst he
    exact ⟨a, List.mem_filter.mpr ⟨ha, by rw [← how]; exact hw⟩, ht, hid, ho⟩
  leases := fun item hi => h.leases item (List.mem_of_mem_filter hi)
  shapes := fun a ha => h.shapes a (List.mem_of_mem_filter ha)
  granted := fun a ha => h.granted a (List.mem_of_mem_filter ha)
  settled := fun a ha hs item hi =>
    h.settled a (List.mem_of_mem_filter ha) hs item (List.mem_of_mem_filter hi)
  single := fun a ha b hb =>
    h.single a (List.mem_of_mem_filter ha) b (List.mem_of_mem_filter hb)

theorem mem_completed {token : ℕ} {now : Instant} {outcome : JobAttemptOutcome}
    {category : Option FailureCategory} {b : JobAttempt} :
    b ∈ revise JobAttempt.token token (·.complete outcome now category) db.attempts ↔
      ∃ old ∈ db.attempts,
        b = if old.token = token then old.complete outcome now category else old :=
  mem_revise

theorem completed_keeps {token : ℕ} {now : Instant} {outcome : JobAttemptOutcome}
    {category : Option FailureCategory} {old : JobAttempt} :
    let b := if old.token = token then old.complete outcome now category else old
    b.token = old.token ∧ b.workItem = old.workItem ∧ b.workspace = old.workspace ∧
      b.leasedAt = old.leasedAt ∧ b.leaseUntil = old.leaseUntil := by
  by_cases h : old.token = token <;> simp [h, JobAttempt.complete]

theorem expire_valid (h : Valid db) {a : JobAttempt} {item : WorkItem} {now : Instant}
    (attempt : a ∈ db.attempts) (mem : item ∈ db.items) (owner : item.id = a.workItem)
    (outdated : item.currentToken ≠ some a.token)
    (shape : (a.complete .expired now none).OutcomeShape) :
    Valid (expiredIn db a.token now) where
  ids := h.ids
  tokens := by
    have hk := keys_revise (g := JobAttempt.token) (f := (·.complete .expired now none))
      (fun _ => rfl) a.token db.attempts
    rw [show (expiredIn db a.token now).attempts.map JobAttempt.token = _ from hk]
    exact h.tokens
  idsUsed := h.idsUsed
  tokensUsed := by
    intro b hb
    obtain ⟨old, ho, rfl⟩ := mem_completed.mp hb
    rw [completed_keeps.1]
    exact h.tokensUsed old ho
  owners := by
    intro b hb
    obtain ⟨old, ho, rfl⟩ := mem_completed.mp hb
    rw [completed_keeps.2.1, completed_keeps.2.2.1]
    exact h.owners old ho
  current := by
    intro other hi token hc
    obtain ⟨b, hb, ht, hw, hn⟩ := h.current other hi token hc
    refine ⟨b, mem_completed.mpr ⟨b, hb, ?_⟩, ht, hw, hn⟩
    -- the current attempt of an item is not the one that is closed
    rw [if_neg]
    intro he
    have hab : b = a := h.attempt_eq hb attempt he
    subst hab
    have hoi : other = item := h.item_eq hi mem (hw.symm.trans owner.symm)
    subst hoi
    exact outdated (by rw [hc, ht])
  leases := h.leases
  shapes := by
    intro b hb
    obtain ⟨old, ho, rfl⟩ := mem_completed.mp hb
    by_cases he : old.token = a.token
    · rw [if_pos he, h.attempt_eq ho attempt he]
      exact shape
    · rw [if_neg he]
      exact h.shapes old ho
  granted := by
    intro b hb
    obtain ⟨old, ho, rfl⟩ := mem_completed.mp hb
    rw [completed_keeps.2.2.2.1, completed_keeps.2.2.2.2]
    exact h.granted old ho
  settled := by
    intro b hb hs other hi hid
    obtain ⟨old, ho, rfl⟩ := mem_completed.mp hb
    by_cases he : old.token = a.token
    · rw [if_pos he] at hs
      simp [JobAttempt.complete] at hs
    · rw [if_neg he] at hs hid
      exact h.settled old ho hs other hi hid
  single := by
    intro b hb c hc hw hsb hsc
    obtain ⟨old, ho, rfl⟩ := mem_completed.mp hb
    obtain ⟨old', ho', rfl⟩ := mem_completed.mp hc
    by_cases he : old.token = a.token
    · rw [if_pos he] at hsb
      simp [JobAttempt.complete] at hsb
    · by_cases he' : old'.token = a.token
      · rw [if_pos he'] at hsc
        simp [JobAttempt.complete] at hsc
      · rw [if_neg he] at hsb hw ⊢
        rw [if_neg he'] at hsc hw ⊢
        exact h.single old ho old' ho' hw hsb hsc

theorem mem_closed {id : ℕ} {state : JobState} {availableAt now : Instant} {row : WorkItem} :
    row ∈ (db.closeItem id state availableAt now).items ↔ ∃ old ∈ db.items,
      row = if old.id = id then old.close state availableAt now else old :=
  mem_revise

theorem finish_valid (h : Valid db) {a : JobAttempt} {item : WorkItem} {state : JobState}
    {availableAt now : Instant} {outcome : JobAttemptOutcome}
    {category : Option FailureCategory} (workspaces : List Workspace)
    (attempt : a ∈ db.attempts) (mem : item ∈ db.items)
    (current : item.currentToken = some a.token) (finish : Finish state outcome category) :
    Valid (finishedIn db item.id a.token state availableAt now outcome category workspaces) := by
  have hleased : item.state = .leased := h.leased mem current
  obtain ⟨hown, hnone⟩ := h.owner mem attempt current
  -- no attempt of a leased item has been recorded as succeeded
  have hopen : ∀ b ∈ db.attempts, b.workItem = item.id → b.outcome ≠ some .succeeded := by
    intro b hb hw hs
    have hst := h.settled b hb hs item mem hw.symm
    rw [hleased] at hst
    simp at hst
  constructor
  · have hk := keys_revise (g := WorkItem.id) (f := (·.close state availableAt now))
      (fun _ => rfl) item.id db.items
    rw [show (finishedIn db item.id a.token state availableAt now outcome category
      workspaces).items.map WorkItem.id = _ from hk]
    exact h.ids
  · have hk := keys_revise (g := JobAttempt.token) (f := (·.complete outcome now category))
      (fun _ => rfl) a.token db.attempts
    rw [show (finishedIn db item.id a.token state availableAt now outcome category
      workspaces).attempts.map JobAttempt.token = _ from hk]
    exact h.tokens
  · intro row hrow
    obtain ⟨old, ho, rfl⟩ := mem_closed.mp hrow
    rw [revised_id (f := (·.close state availableAt now)) (fun _ => rfl)]
    exact h.idsUsed old ho
  · intro b hb
    obtain ⟨old, ho, rfl⟩ := mem_completed.mp hb
    rw [completed_keeps.1]
    exact h.tokensUsed old ho
  · intro b hb
    obtain ⟨old, ho, rfl⟩ := mem_completed.mp hb
    rw [completed_keeps.2.1, completed_keeps.2.2.1]
    obtain ⟨i, hi, hid, hw⟩ := h.owners old ho
    refine ⟨_, mem_closed.mpr ⟨i, hi, rfl⟩, ?_⟩
    by_cases he : i.id = item.id
    · rw [if_pos he]
      exact ⟨hid, hw⟩
    · rw [if_neg he]
      exact ⟨hid, hw⟩
  · intro row hrow token hc
    obtain ⟨old, ho, rfl⟩ := mem_closed.mp hrow
    by_cases he : old.id = item.id
    · rw [if_pos he] at hc
      simp [WorkItem.close] at hc
    · rw [if_neg he] at hc ⊢
      obtain ⟨b, hb, ht, hw, hn⟩ := h.current old ho token hc
      refine ⟨b, mem_completed.mpr ⟨b, hb, ?_⟩, ht, hw, hn⟩
      rw [if_neg]
      intro hba
      have hab : b = a := h.attempt_eq hb attempt hba
      subst hab
      exact he (hw.symm.trans hown.symm)
  · intro row hrow
    obtain ⟨old, ho, rfl⟩ := mem_closed.mp hrow
    by_cases he : old.id = item.id
    · rw [if_pos he]
      exact close_shape (finish_leased finish) old availableAt now
    · rw [if_neg he]
      exact h.leases old ho
  · intro b hb
    obtain ⟨old, ho, rfl⟩ := mem_completed.mp hb
    by_cases he : old.token = a.token
    · rw [if_pos he, h.attempt_eq ho attempt he]
      exact finish_shape finish (h.shapes a attempt) hnone now
    · rw [if_neg he]
      exact h.shapes old ho
  · intro b hb
    obtain ⟨old, ho, rfl⟩ := mem_completed.mp hb
    rw [completed_keeps.2.2.2.1, completed_keeps.2.2.2.2]
    exact h.granted old ho
  · intro b hb hs row hrow hid
    obtain ⟨old, ho, rfl⟩ := mem_completed.mp hb
    obtain ⟨i, hi, rfl⟩ := mem_closed.mp hrow
    rw [completed_keeps.2.1, revised_id (f := (·.close state availableAt now)) (fun _ => rfl)]
      at hid
    by_cases he : old.token = a.token
    · rw [if_pos he] at hs
      have hao : old = a := h.attempt_eq ho attempt he
      subst hao
      have hout : outcome = .succeeded := Option.some.inj hs
      subst hout
      rw [if_pos (hid.trans hown.symm)]
      cases finish
      rfl
    · rw [if_neg he] at hs
      rw [if_neg fun hie => hopen old ho (hid.symm.trans hie) hs]
      exact h.settled old ho hs i hi hid
  · intro b hb c hc hw hsb hsc
    obtain ⟨old, ho, rfl⟩ := mem_completed.mp hb
    obtain ⟨old', ho', rfl⟩ := mem_completed.mp hc
    rw [completed_keeps.2.1, completed_keeps.2.1] at hw
    by_cases he : old.token = a.token
    · have hao : old = a := h.attempt_eq ho attempt he
      by_cases he' : old'.token = a.token
      · have hao' : old' = a := h.attempt_eq ho' attempt he'
        rw [hao, hao']
      · rw [if_neg he'] at hsc
        have hwi : old'.workItem = item.id := by rw [← hw, hao, hown]
        exact absurd hsc (hopen old' ho' hwi)
    · rw [if_neg he] at hsb ⊢
      by_cases he' : old'.token = a.token
      · have hao' : old' = a := h.attempt_eq ho' attempt he'
        have hwi : old.workItem = item.id := by rw [hw, hao', hown]
        exact absurd hsb (hopen old ho hwi)
      · rw [if_neg he'] at hsc ⊢
        exact h.single old ho old' ho' hw hsb hsc

theorem elsewhere_valid (h : Valid db) (workspaces : List Workspace)
    (cleanups : List CleanupRequest) {serial : ℕ} (later : db.serial ≤ serial) :
    Valid { db with workspaces := workspaces, cleanups := cleanups, serial := serial } where
  ids := h.ids
  tokens := h.tokens
  idsUsed := fun item hi => lt_of_lt_of_le (h.idsUsed item hi) later
  tokensUsed := fun a ha => lt_of_lt_of_le (h.tokensUsed a ha) later
  owners := h.owners
  current := h.current
  leases := h.leases
  shapes := h.shapes
  granted := h.granted
  settled := h.settled
  single := h.single

variable {may : JobAttempt → Instant → Prop} {retry take : WorkItem → Prop}

theorem move_valid {after : Database} (h : Valid db) (m : Move may retry take db after) :
    Valid after := by
  cases m with
  | grant mem claimable _ later => exact grant_valid h mem claimable later
  | expire attempt mem owner outdated _ shape =>
    exact expire_valid h attempt mem owner outdated shape
  | finish workspaces attempt mem _ current finish _ =>
    exact finish_valid h workspaces attempt mem current finish
  | add fresh => exact add_valid h fresh
  | purge id => exact purge_valid h id
  | elsewhere workspaces cleanups later => exact elsewhere_valid h workspaces cleanups later

abbrev Moves (may : JobAttempt → Instant → Prop) (retry take : WorkItem → Prop) :
    Database → Database → Prop := Relation.ReflTransGen (Move may retry take)

theorem moves_valid {after : Database} (h : Valid db) (m : Moves may retry take db after) :
    Valid after := by
  induction m with
  | refl => exact h
  | tail _ step ih => exact move_valid ih step

theorem completeAttempt_ok {token : ℕ} {outcome : JobAttemptOutcome} {now : Instant}
    {category : Option FailureCategory} {after : Database}
    (h : completeAttempt token outcome now category db = .ok after) :
    (∀ a ∈ db.attempts, a.token = token → (a.complete outcome now category).OutcomeShape) ∧
      after = { db with
        attempts := revise JobAttempt.token token (·.complete outcome now category)
          db.attempts } := by
  simp only [completeAttempt, bind_ok, demand_ok] at h
  obtain ⟨_, hall, hafter⟩ := h
  refine ⟨fun a ha ht => ?_, (Except.ok.inj hafter).symm⟩
  have hmem : a.complete outcome now category ∈
      revise JobAttempt.token token (·.complete outcome now category) db.attempts :=
    mem_completed.mpr ⟨a, ha, by rw [if_pos ht]⟩
  have hb := List.all_eq_true.mp hall _ hmem
  rw [Bool.or_eq_true, decide_eq_true_eq, decide_eq_true_eq] at hb
  exact hb.resolve_left fun hne => hne ht

theorem completeAttempt_total {token : ℕ} {outcome : JobAttemptOutcome} {now : Instant}
    {category : Option FailureCategory}
    (h : ∀ a ∈ db.attempts, a.token = token → (a.complete outcome now category).OutcomeShape) :
    completeAttempt token outcome now category db = .ok { db with
      attempts := revise JobAttempt.token token (·.complete outcome now category)
        db.attempts } := by
  have hall : (revise JobAttempt.token token (·.complete outcome now category) db.attempts).all
      (fun a => a.token ≠ token || a.OutcomeShape) = true := by
    rw [List.all_eq_true]
    intro b hb
    obtain ⟨old, ho, rfl⟩ := mem_completed.mp hb
    by_cases he : old.token = token
    · rw [if_pos he, Bool.or_eq_true, decide_eq_true_eq, decide_eq_true_eq]
      exact .inr (h old ho he)
    · rw [if_neg he]
      simp [he]
  simp only [completeAttempt, demand, hall, if_true, ok_bind]

theorem attemptAndItem_ok {token : ℕ} {a : JobAttempt} {item : WorkItem}
    (h : attemptAndItem token db = .ok (a, item)) :
    (a ∈ db.attempts ∧ a.token = token) ∧ item ∈ db.items ∧ item.id = a.workItem := by
  simp only [attemptAndItem, bind_ok, fetch_ok] at h
  obtain ⟨b, hb, i, hi, he⟩ := h
  obtain ⟨rfl, rfl⟩ := Prod.mk.inj (Except.ok.inj he)
  exact ⟨lookup_some hb, lookup_some hi⟩

theorem attemptAndItem_total (hv : Valid db) {a : JobAttempt} (ha : a ∈ db.attempts) :
    ∃ item ∈ db.items, item.id = a.workItem ∧ attemptAndItem a.token db = .ok (a, item) := by
  obtain ⟨item, hi, hid, _⟩ := hv.owners a ha
  refine ⟨item, hi, hid, ?_⟩
  simp [attemptAndItem, lookup_mem hv.tokens ha, ← hid, lookup_mem hv.ids hi, fetch]

theorem expired_shape {a : JobAttempt} {now : Instant} :
    (a.complete .expired now none).OutcomeShape ↔ a.failureCategory = none := by
  simp [JobAttempt.OutcomeShape, JobAttempt.complete]

theorem withWorkspaces_ok {x : Except Refusal (List Workspace)} {after : Database}
    (h : withWorkspaces db x = .ok after) :
    ∃ workspaces, x = .ok workspaces ∧ after = { db with workspaces := workspaces } := by
  cases x with
  | error e => simp [withWorkspaces] at h
  | ok workspaces => exact ⟨workspaces, rfl, (Except.ok.inj h).symm⟩

theorem current_passes (hv : Valid db) {a : JobAttempt} {item : WorkItem} {state : JobState}
    {availableAt now : Instant} {outcome : JobAttemptOutcome}
    {category : Option FailureCategory} (ha : a ∈ db.attempts) (hi : item ∈ db.items)
    (hc : item.currentToken = some a.token) (hf : Finish state outcome category) :
    completeAttempt a.token outcome now category (db.closeItem item.id state availableAt now) =
      .ok (finishedIn db item.id a.token state availableAt now outcome category
        db.workspaces) := by
  refine completeAttempt_total fun b hb ht => ?_
  have hab : b = a := hv.attempt_eq hb ha ht
  subst hab
  exact finish_shape hf (hv.shapes b ha) (hv.owner hi ha hc).2 now

theorem releaseJob_error {workspace : ℕ} {clock : Instant} {e : JobFailure}
    (h : releaseJob workspace clock db = .error e) : ∃ reason, e = .refused reason := by
  unfold releaseJob at h
  cases hr : release workspace oneActiveJob clock db.workspaces with
  | error reason =>
    rw [hr] at h
    exact ⟨reason, (Except.error.inj h).symm⟩
  | ok ws =>
    rw [hr] at h
    simp [withWorkspaces] at h

/-- What a completion call can do: close an attempt that lost its lease, or
finish the current one. -/
inductive Completed (db : Database) (token : ℕ) (now clock : Instant) (retried : Prop) :
    Bool → Database → Prop
  | outdated {a : JobAttempt} {item : WorkItem} (found : attemptAndItem token db = .ok (a, item))
      (outdated : item.currentToken ≠ some token)
      (shape : (a.complete .expired now none).OutcomeShape) :
      Completed db token now clock retried false (expiredIn db token now)
  | current {a : JobAttempt} {item : WorkItem} {state : JobState} {availableAt : Instant}
      {outcome : JobAttemptOutcome} {category : Option FailureCategory}
      (workspaces : List Workspace) (found : attemptAndItem token db = .ok (a, item))
      (current : item.currentToken = some token) (finish : Finish state outcome category)
      (again : state = .ready → retried)
      (released : state ≠ .ready → Releasable item.workspace oneActiveJob clock db.workspaces) :
      Completed db token now clock retried true
        (finishedIn db item.id token state availableAt now outcome category workspaces)

theorem markSucceeded_ok {token : ℕ} {now clock : Instant} {done : Bool} {after : Database}
    (h : markSucceeded token now clock db = .ok (done, after)) :
    Completed db token now clock False done after := by
  simp only [markSucceeded, bind_ok] at h
  obtain ⟨⟨a, item⟩, hf, h⟩ := h
  obtain ⟨⟨ha, ht⟩, hi, _⟩ := attemptAndItem_ok hf
  by_cases hc : item.currentToken = some token
  · rw [if_neg (not_not.mpr hc)] at h
    simp only [bind_ok] at h
    obtain ⟨db₁, h₁, db₂, h₂, h⟩ := h
    obtain ⟨rfl, rfl⟩ := Prod.mk.inj (Except.ok.inj h)
    obtain ⟨_, rfl⟩ := completeAttempt_ok h₁
    obtain ⟨ws, hr, rfl⟩ := withWorkspaces_ok h₂
    exact .current ws hf hc .succeeded (by simp) fun _ => (release_ok hr).1
  · rw [if_pos hc] at h
    simp only [bind_ok] at h
    obtain ⟨db₁, h₁, h⟩ := h
    obtain ⟨rfl, rfl⟩ := Prod.mk.inj (Except.ok.inj h)
    obtain ⟨hs, rfl⟩ := completeAttempt_ok h₁
    exact .outdated hf hc (hs a ha ht)

theorem markFailed_ok {token : ℕ} {retryOutcome : RetryOutcome} {category : FailureCategory}
    {now clock : Instant} {done : Bool} {after : Database}
    (h : markFailed token retryOutcome category now clock db = .ok (done, after)) :
    Completed db token now clock (retryOutcome ≠ .failed) done after := by
  simp only [markFailed, bind_ok] at h
  obtain ⟨⟨a, item⟩, hf, h⟩ := h
  obtain ⟨⟨ha, ht⟩, hi, _⟩ := attemptAndItem_ok hf
  by_cases hc : item.currentToken = some token
  · rw [if_neg (not_not.mpr hc)] at h
    simp only [bind_ok] at h
    obtain ⟨db₁, h₁, h⟩ := h
    obtain ⟨_, rfl⟩ := completeAttempt_ok h₁
    cases retryOutcome with
    | ready availableAt =>
      simp only [reduceCtorEq, if_false] at h
      obtain ⟨rfl, rfl⟩ := Prod.mk.inj (Except.ok.inj h)
      exact .current db.workspaces hf hc (.retried category) (by simp) fun hn => absurd rfl hn
    | failed =>
      simp only [if_true, bind_ok] at h
      obtain ⟨db₂, h₂, h⟩ := h
      obtain ⟨rfl, rfl⟩ := Prod.mk.inj (Except.ok.inj h)
      obtain ⟨ws, hr, rfl⟩ := withWorkspaces_ok h₂
      exact .current ws hf hc (.failed category) (by simp [RetryOutcome.state]) fun _ => (release_ok hr).1
  · rw [if_pos hc] at h
    simp only [bind_ok] at h
    obtain ⟨db₁, h₁, h⟩ := h
    obtain ⟨rfl, rfl⟩ := Prod.mk.inj (Except.ok.inj h)
    obtain ⟨hs, rfl⟩ := completeAttempt_ok h₁
    exact .outdated hf hc (hs a ha ht)

theorem claimRow_ok {now : Instant} {leaseDuration : ℤ} {item : WorkItem} {work : ClaimedWork}
    {after : Database} (h : claimRow now leaseDuration item db = .ok (work, after)) :
    ∃ leaseUntil, shift now leaseDuration = some leaseUntil ∧ now < leaseUntil ∧
      after = db.grant item now leaseUntil ∧ work.token = db.serial ∧
      lookup WorkItem.id after.items item.id = some work.workItem := by
  simp only [claimRow, bind_ok, fetch_ok, demand_ok] at h
  obtain ⟨leaseUntil, hs, _, hl, row, hr, he⟩ := h
  obtain ⟨rfl, rfl⟩ := Prod.mk.inj (Except.ok.inj he)
  exact ⟨leaseUntil, hs, hl, rfl, rfl, hr⟩

theorem mem_candidates {request : Request} {now : Instant} {locked : ℕ → Bool}
    {item : WorkItem} (h : item ∈ candidates request now locked db) :
    item ∈ db.items ∧ Claimable now item := by
  cases request with
  | batch kind batchSize =>
    have hm := (sortOn_perm _ _).mem_iff.mp (List.mem_of_mem_take h)
    obtain ⟨hi, hp⟩ := List.mem_filter.mp hm
    simp only [Bool.and_eq_true, decide_eq_true_eq] at hp
    exact ⟨hi, hp.2⟩
  | one workItem =>
    obtain ⟨hi, hp⟩ := List.mem_filter.mp (List.mem_of_mem_take h)
    simp only [Bool.and_eq_true, decide_eq_true_eq] at hp
    exact ⟨hi, hp.2⟩

theorem candidates_distinct (h : Valid db) (request : Request) (now : Instant)
    (locked : ℕ → Bool) :
    ((candidates request now locked db).map WorkItem.id).Nodup := by
  cases request with
  | batch kind batchSize =>
    apply List.Nodup.sublist ((List.take_sublist _ _).map _)
    apply ((sortOn_perm _ _).map WorkItem.id).nodup_iff.mpr
    exact h.ids.sublist (List.filter_sublist.map _)
  | one workItem =>
    apply List.Nodup.sublist ((List.take_sublist _ _).map _)
    exact h.ids.sublist (List.filter_sublist.map _)

theorem claimRows_moves {now : Instant} {leaseDuration : ℤ} {items : List WorkItem}
    {works : List ClaimedWork} {db after : Database}
    (h : claimRows now leaseDuration items db = .ok (works, after))
    (hm : ∀ item ∈ items, item ∈ db.items ∧ Claimable now item ∧ take item)
    (hd : (items.map WorkItem.id).Nodup) : Moves may retry take db after := by
  induction items generalizing db works with
  | nil =>
    obtain ⟨-, rfl⟩ := Prod.mk.inj (Except.ok.inj h)
    exact .refl
  | cons item rest ih =>
    simp only [claimRows, bind_ok] at h
    obtain ⟨⟨work, db₁⟩, h₁, ⟨works', db₂⟩, h₂, h⟩ := h
    obtain ⟨-, rfl⟩ := Prod.mk.inj (Except.ok.inj h)
    obtain ⟨leaseUntil, _, hl, rfl, _, _⟩ := claimRow_ok h₁
    obtain ⟨hi, hc, ht⟩ := hm item List.mem_cons_self
    rw [List.map_cons, List.nodup_cons] at hd
    refine .head (.grant hi hc ht hl) (ih h₂ (fun other ho => ?_) hd.2)
    -- the rows still to be claimed are untouched by this grant
    obtain ⟨hoi, hoc⟩ := hm other (List.mem_cons_of_mem _ ho)
    refine ⟨mem_granted_items.mpr ⟨other, hoi, ?_⟩, hoc⟩
    rw [if_neg]
    intro he
    exact hd.1 (he ▸ List.mem_map_of_mem ho)

theorem claim_moves (hv : Valid db) {request : Request} {now : Instant} {leaseDuration : ℤ}
    {locked : ℕ → Bool} {works : List ClaimedWork} {after : Database}
    (h : claim request now leaseDuration locked db = .ok (works, after))
    (ht : ∀ item ∈ candidates request now locked db, take item) :
    Moves may retry take db after := by
  refine claimRows_moves h (fun item hi => ?_) (candidates_distinct hv request now locked)
  exact ⟨(mem_candidates hi).1, (mem_candidates hi).2, ht item hi⟩

theorem addItem_ok {item : WorkItem} {after : Database} (h : addItem item db = .ok after) :
    1 ≤ item.maxAttempts ∧
      after = { db with items := db.items ++ [item], serial := db.serial+1 } := by
  simp only [addItem, bind_ok, demand_ok] at h
  obtain ⟨_, _, _, hm, he⟩ := h
  exact ⟨hm, (Except.ok.inj he).symm⟩

theorem shelve (workspaces : List Workspace) (cleanups : List CleanupRequest) :
    Move may retry take db { db with workspaces := workspaces, cleanups := cleanups } :=
  .elsewhere workspaces cleanups le_rfl

theorem enqueue_moves {limits : QuotaAmounts} {workspace maxAttempts : ℕ} {kind : JobKind}
    {target : Target} {now clock : Instant} {after : Database}
    (h : enqueue limits workspace kind target maxAttempts now clock db = .ok after) :
    Moves may retry take db after := by
  unfold enqueue at h
  split at h
  · obtain rfl := Except.ok.inj h
    exact .refl
  · simp only [bind_ok] at h
    obtain ⟨db₁, h₁, h⟩ := h
    obtain ⟨ws, _, rfl⟩ := withWorkspaces_ok h₁
    obtain ⟨hm, rfl⟩ := addItem_ok h
    exact .head (shelve ws db.cleanups) (.single (.add ⟨rfl, rfl, rfl, rfl, rfl, hm⟩))

theorem revokeWorkspace_moves {cleanupMaxAttempts id : ℕ} {final : WorkspaceState}
    {reason : CleanupReason} {now : Instant} {after : Database}
    (h : revokeWorkspace cleanupMaxAttempts id final reason now db = .ok after) :
    Moves may retry take db after := by
  simp only [revokeWorkspace, bind_ok] at h
  obtain ⟨_, _, h⟩ := h
  split at h
  · obtain rfl := Except.ok.inj h
    exact .single (shelve _ _)
  · obtain ⟨hm, rfl⟩ := addItem_ok h
    exact .head (shelve _ _) (.single (.add ⟨rfl, rfl, rfl, rfl, rfl, hm⟩))

theorem purgeWorkspace_moves {id : ℕ} {attemptToken : Option ℕ} {after : Database}
    (h : purgeWorkspace id attemptToken db = .ok after) : Moves may retry take db after := by
  unfold purgeWorkspace at h
  split at h
  · obtain rfl := Except.ok.inj h
    exact .refl
  · simp only [bind_ok] at h
    obtain ⟨_, _, h⟩ := h
    have hp : after = db.purged id := by
      cases attemptToken with
      | none => exact (Except.ok.inj h).symm
      | some token =>
        simp only [bind_ok] at h
        obtain ⟨_, _, _, _, h⟩ := h
        exact (Except.ok.inj h).symm
    rw [hp]
    exact .single (.purge id)

/-- What the attempts and items a command works on must meet for its moves to
stay within `may`, `retry` and `take`. -/
structure Allows (may : JobAttempt → Instant → Prop) (retry take : WorkItem → Prop)
    (db : Database) (c : Command) : Prop where
  expire : ∀ token now, c.completion = some (token, now) → ∀ a ∈ db.attempts,
    a.token = token → (∀ item ∈ db.items, item.currentToken ≠ some token) → may a now
  retry : ∀ token availableAt category now clock,
    c = .markFailed token (.ready availableAt) category now clock →
    ∀ item ∈ db.items, item.currentToken = some token → retry item
  take : ∀ request now leaseDuration locked, c = .claim request now leaseDuration locked →
    ∀ item ∈ candidates request now (fun id => locked.contains id) db, take item

theorem Valid.outdated (h : Valid db) {a : JobAttempt} {item : WorkItem} (ha : a ∈ db.attempts)
    (hi : item ∈ db.items) (hid : item.id = a.workItem)
    (ho : item.currentToken ≠ some a.token) :
    ∀ other ∈ db.items, other.currentToken ≠ some a.token := by
  intro other hother hc
  have he : other = item := h.item_eq hother hi ((h.owner hother ha hc).1.trans hid.symm)
  exact ho (he ▸ hc)

theorem completed_moves (hv : Valid db) {token : ℕ} {now clock : Instant} {retried : Prop}
    {done : Bool} {after : Database} (h : Completed db token now clock retried done after)
    (hmay : ∀ a ∈ db.attempts, a.token = token →
      (∀ item ∈ db.items, item.currentToken ≠ some token) → may a now)
    (hretry : retried → ∀ item ∈ db.items, item.currentToken = some token → retry item) :
    Moves may retry take db after := by
  cases h with
  | outdated found outdated shape =>
    obtain ⟨⟨ha, rfl⟩, hi, hid⟩ := attemptAndItem_ok found
    exact .single (.expire ha hi hid outdated
      (hmay _ ha rfl (hv.outdated ha hi hid outdated)) shape)
  | current workspaces found current finish again released =>
    obtain ⟨⟨ha, rfl⟩, hi, hid⟩ := attemptAndItem_ok found
    exact .single (.finish workspaces ha hi hid current finish fun hs =>
      hretry (again hs) _ hi current)

theorem perform_moves {settings : Settings} {c : Command} {after : Database} (hv : Valid db)
    (hc : Allows may retry take db c) (h : perform settings db c = .ok after) :
    Moves may retry take db after := by
  cases c with
  | createWorkspace expiresAt =>
    obtain rfl := Except.ok.inj h
    exact .single (.elsewhere _ db.cleanups (Nat.le_succ _))
  | reserve workspace requested clock =>
    obtain ⟨ws, _, rfl⟩ := withWorkspaces_ok h
    exact .single (shelve ws db.cleanups)
  | release workspace released clock =>
    obtain ⟨ws, _, rfl⟩ := withWorkspaces_ok h
    exact .single (shelve ws db.cleanups)
  | enqueue workspace kind target maxAttempts now clock => exact enqueue_moves h
  | claim request now leaseDuration locked =>
    obtain ⟨⟨works, _⟩, hclaim, rfl⟩ := map_ok.mp h
    exact claim_moves hv hclaim (hc.take request now leaseDuration locked rfl)
  | markSucceeded token now clock =>
    obtain ⟨⟨done, _⟩, hmark, rfl⟩ := map_ok.mp h
    exact completed_moves hv (markSucceeded_ok hmark) (hc.expire token now rfl) False.elim
  | markFailed token outcome category now clock =>
    obtain ⟨⟨done, _⟩, hmark, rfl⟩ := map_ok.mp h
    refine completed_moves hv (markFailed_ok hmark) (hc.expire token now rfl) fun hr => ?_
    cases outcome with
    | ready availableAt => exact hc.retry token availableAt category now clock rfl
    | failed => exact absurd rfl hr
  | expire workspace now => exact revokeWorkspace_moves h
  | delete workspace now => exact revokeWorkspace_moves h
  | purge workspace attemptToken => exact purgeWorkspace_moves h

theorem allows_any (db : Database) (c : Command) :
    Allows (fun _ _ => True) (fun _ => True) (fun _ => True) db c where
  expire := fun _ _ _ _ _ _ _ => trivial
  retry := fun _ _ _ _ _ _ _ _ _ => trivial
  take := fun _ _ _ _ _ _ _ => trivial

theorem call_valid (settings : Settings) (hv : Valid db) (c : Command) :
    Valid (call settings db c) :=
  settle_keeps hv fun _ hs => moves_valid hv (perform_moves hv (allows_any db c) hs)

theorem run_valid (settings : Settings) (hv : Valid db) (cs : List Command) :
    Valid (cs.foldl (call settings) db) :=
  foldl_keeps (P := Valid) (fun _ c h _ => call_valid settings h c) hv (along_true db cs)

/-- The tables after a run of the services from nothing. -/
def reached (settings : Settings) (cs : List Command) : Database :=
  cs.foldl (call settings) Database.empty

theorem reached_valid (settings : Settings) (cs : List Command) :
    Valid (reached settings cs) := run_valid settings empty_valid cs

theorem reached_append (settings : Settings) (cs ds : List Command) :
    reached settings (cs ++ ds) = ds.foldl (call settings) (reached settings cs) := by
  simp [reached, List.foldl_append]

def sampleSettings : Settings := ⟨⟨1000, 10, 10⟩, 3⟩

end Workbench.JobRuns
