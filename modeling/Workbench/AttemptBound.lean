import Workbench.Claims

/-!
# How often an item is attempted

An item that is made ready again has attempts left, since the retry policy
says so of the count the worker was handed. An expired lease is taken over
without asking, so only there an item can be leased beyond its last attempt.
-/

set_option autoImplicit false

namespace Workbench.AttemptBound
open Workbench.Listing Workbench.Tables Workbench.Calendar Workbench.Workspaces Workbench.Jobs
open Workbench.JobRuns Workbench.Claims
open Workbench.Raising (bind_ok)

/-- The tables, and the claimed work that was ever handed to a worker. A
worker that crashes makes no further call with its work. -/
structure Workers where
  db : Database
  held : List ClaimedWork
deriving DecidableEq

inductive WorkerCall where
  | claim (request : Request) (now : Instant) (leaseDuration : ℤ) (locked : List ℕ)
  | succeed (token : ℕ) (now clock : Instant)
  | fail (token : ℕ) (category : FailureCategory) (policy : RetryPolicy) (now clock : Instant)
  | service (c : Command)

/-- One call of a worker. A failure is decided by the policy from the attempt
count of the work the worker holds. -/
def work (settings : Settings) (w : Workers) : WorkerCall → Workers
  | .claim request now leaseDuration locked =>
    match claim request now leaseDuration (fun id => locked.contains id) w.db with
    | .ok (works, db) => ⟨db, w.held ++ works⟩
    | .error _ => w
  | .succeed token now clock => { w with db := call settings w.db (.markSucceeded token now clock) }
  | .fail token category policy now clock =>
    match lookup ClaimedWork.token w.held token with
    | none => w
    | some held =>
      match policy.decide held.workItem.attemptCount category now with
      | .error _ => w
      | .ok outcome =>
        { w with db := call settings w.db (.markFailed token outcome category now clock) }
  | .service c => if c.ofAttempts then w else { w with db := call settings w.db c }

def start : Workers := ⟨Database.empty, []⟩

/-- The limit of the policy is that of the item the worker holds. -/
def Agreed (w : Workers) (c : WorkerCall) : Prop :=
  ∀ token category policy now clock, c = .fail token category policy now clock →
    ∀ held ∈ w.held, held.token = token → policy.maxAttempts = held.workItem.maxAttempts

/-- No claim with a usable lease finds an item whose last attempt is leased
and has run out. -/
def Prompt (w : Workers) (c : WorkerCall) : Prop :=
  ∀ request now leaseDuration locked, c = .claim request now leaseDuration locked →
    (∃ leaseUntil, shift now leaseDuration = some leaseUntil ∧ now < leaseUntil) →
    ∀ item ∈ candidates request now (fun id => locked.contains id) w.db,
      item.state = .leased → item.attemptCount < item.maxAttempts

variable {db : Database} {may : JobAttempt → Instant → Prop} {retry take : WorkItem → Prop}

def HasAttempts (item : WorkItem) : Prop := item.attemptCount < item.maxAttempts

structure Counted (db : Database) : Prop where
  ready : ∀ item ∈ db.items, item.state = .ready → HasAttempts item
  bound : ∀ item ∈ db.items, item.attemptCount ≤ item.maxAttempts

theorem grant_counted (hv : Valid db) (h : Counted db) {item : WorkItem}
    {now leaseUntil : Instant} (mem : item ∈ db.items) (left : HasAttempts item) :
    Counted (db.grant item now leaseUntil) where
  ready := by
    intro row hrow hs
    obtain ⟨old, ho, rfl⟩ := mem_granted_items.mp hrow
    by_cases he : old.id = item.id
    · rw [if_pos he] at hs
      simp [WorkItem.lease] at hs
    · rw [if_neg he] at hs ⊢
      exact h.ready old ho hs
  bound := by
    intro row hrow
    obtain ⟨old, ho, rfl⟩ := mem_granted_items.mp hrow
    by_cases he : old.id = item.id
    · have hoi : old = item := hv.item_eq ho mem he
      subst hoi
      rw [if_pos he]
      exact left
    · rw [if_neg he]
      exact h.bound old ho

theorem finish_counted (hv : Valid db) (h : Counted db) {item : WorkItem} {token : ℕ}
    {state : JobState} {availableAt now : Instant} {outcome : JobAttemptOutcome}
    {category : Option FailureCategory} (workspaces : List Workspace) (mem : item ∈ db.items)
    (again : state = .ready → HasAttempts item) :
    Counted (finishedIn db item.id token state availableAt now outcome category workspaces) where
  ready := by
    intro row hrow hs
    obtain ⟨old, ho, rfl⟩ := mem_closed.mp hrow
    by_cases he : old.id = item.id
    · have hoi : old = item := hv.item_eq ho mem he
      subst hoi
      rw [if_pos he] at hs ⊢
      exact again hs
    · rw [if_neg he] at hs ⊢
      exact h.ready old ho hs
  bound := by
    intro row hrow
    obtain ⟨old, ho, rfl⟩ := mem_closed.mp hrow
    by_cases he : old.id = item.id
    · rw [if_pos he]
      exact h.bound old ho
    · rw [if_neg he]
      exact h.bound old ho

theorem move_counted {after : Database} (hv : Valid db) (h : Counted db)
    (m : Move may HasAttempts HasAttempts db after) : Counted after := by
  cases m with
  | grant mem claimable allowed later => exact grant_counted hv h mem allowed
  | expire attempt mem owner outdated allowed shape => exact ⟨h.ready, h.bound⟩
  | finish workspaces attempt mem owner current finish again =>
    exact finish_counted hv h workspaces mem again
  | add fresh =>
    constructor
    · intro row hrow hs
      cases List.mem_append.mp hrow with
      | inl ho => exact h.ready row ho hs
      | inr he =>
        rw [List.mem_singleton.mp he, HasAttempts, fresh.attemptCount]
        exact fresh.maxAttempts
    · intro row hrow
      cases List.mem_append.mp hrow with
      | inl ho => exact h.bound row ho
      | inr he =>
        rw [List.mem_singleton.mp he, fresh.attemptCount]
        exact Nat.zero_le _
  | purge id =>
    exact ⟨fun item hi => h.ready item (List.mem_of_mem_filter hi),
      fun item hi => h.bound item (List.mem_of_mem_filter hi)⟩
  | elsewhere workspaces cleanups later => exact ⟨h.ready, h.bound⟩

theorem moves_counted {after : Database} (hv : Valid db) (h : Counted db)
    (m : Moves may HasAttempts HasAttempts db after) : Counted after := by
  induction m with
  | refl => exact h
  | tail first last ih => exact move_counted (moves_valid hv first) ih last

structure Bounded (w : Workers) : Prop where
  valid : Valid w.db
  counted : Counted w.db
  known : Known w.db w.held

theorem start_bounded : Bounded start where
  valid := empty_valid
  counted := ⟨by simp [start, Database.empty], by simp [start, Database.empty]⟩
  known := by simp [Known, start]

theorem Bounded.called {settings : Settings} {w : Workers} (h : Bounded w) {c : Command}
    (ha : Allows (fun _ _ => True) HasAttempts HasAttempts w.db c) :
    Bounded { w with db := call settings w.db c } := by
  unfold call
  cases hx : perform settings w.db c with
  | error e => exact h
  | ok after =>
    have hm := perform_moves h.valid ha hx
    exact ⟨moves_valid h.valid hm, moves_counted h.valid h.counted hm,
      h.known.carried (moves_carried hm)⟩

theorem decide_ready {policy : RetryPolicy} {attemptCount : ℕ} {category : FailureCategory}
    {now availableAt : Instant}
    (h : policy.decide attemptCount category now = .ok (.ready availableAt)) :
    attemptCount < policy.maxAttempts := by
  simp only [RetryPolicy.decide, bind_ok] at h
  obtain ⟨_, _, h⟩ := h
  by_cases hc : category = .permanent
  · rw [if_pos hc] at h
    simp at h
  · rw [if_neg hc] at h
    by_cases hm : policy.maxAttempts ≤ attemptCount
    · rw [if_pos hm] at h
      simp at h
    · exact Nat.lt_of_not_le hm

theorem claim_allowed {w : Workers} (h : Bounded w) {request : Request} {now : Instant}
    {leaseDuration : ℤ} {locked : List ℕ}
    (hp : Prompt w (.claim request now leaseDuration locked))
    (hl : ∃ leaseUntil, shift now leaseDuration = some leaseUntil ∧ now < leaseUntil) :
    ∀ item ∈ candidates request now (fun id => locked.contains id) w.db, HasAttempts item := by
  intro item hi
  obtain ⟨hmem, hclaim⟩ := mem_candidates hi
  cases claimable_state hclaim with
  | inl hready => exact h.counted.ready item hmem hready
  | inr hleased => exact hp request now leaseDuration locked rfl hl item hi hleased

theorem work_bounded (settings : Settings) {w : Workers} {c : WorkerCall} (h : Bounded w)
    (hc : Agreed w c ∧ Prompt w c) : Bounded (work settings w c) := by
  cases c with
  | claim request now leaseDuration locked =>
    cases hx : claim request now leaseDuration (fun id => locked.contains id) w.db with
    | error e =>
      simp only [work, hx]
      exact h
    | ok result =>
      obtain ⟨works, after⟩ := result
      simp only [work, hx]
      have htake : ∀ item ∈ candidates request now (fun id => locked.contains id) w.db,
          HasAttempts item := by
        cases claim_usable hx with
        | inl hnil =>
          rw [hnil]
          simp
        | inr hl => exact claim_allowed h hc.2 hl
      have hm : Moves (fun _ _ => True) HasAttempts HasAttempts w.db after :=
        claim_moves h.valid hx htake
      obtain ⟨_, hk⟩ :=
        claimRows_known h.valid (candidates_claiming h.valid request now _) hx
      exact ⟨moves_valid h.valid hm, moves_counted h.valid h.counted hm,
        (h.known.carried (moves_carried hm)).append hk⟩
  | succeed token now clock =>
    refine h.called ⟨fun _ _ _ _ _ _ _ => trivial, ?_, ?_⟩
    · intro _ _ _ _ _ he
      simp at he
    · intro _ _ _ _ he
      simp at he
  | fail token category policy now clock =>
    cases hl : lookup ClaimedWork.token w.held token with
    | none =>
      simp only [work, hl]
      exact h
    | some held =>
      cases hd : policy.decide held.workItem.attemptCount category now with
      | error e =>
        simp only [work, hl, hd]
        exact h
      | ok outcome =>
        simp only [work, hl, hd]
        refine h.called ⟨fun _ _ _ _ _ _ _ => trivial, ?_, ?_⟩
        · intro t availableAt g n k he item hi hcur
          obtain ⟨rfl, rfl, _⟩ := Command.markFailed.inj he
          have hheld := mem_of_lookup hl
          have htoken := key_of_lookup hl
          -- the current token is the one handed out, so the counts are those decided on
          rw [← htoken] at hcur
          obtain ⟨hcount, hmax⟩ := (h.known held hheld).2 item hi hcur
          have hlimit := hc.1 _ category policy now clock rfl held hheld htoken
          rw [HasAttempts, hcount, hmax, ← hlimit]
          exact decide_ready hd
        · intro _ _ _ _ he
          simp at he
  | service c =>
    by_cases hs : c.ofAttempts = true
    · simp only [work, hs, if_true]
      exact h
    · simp only [work, hs]
      refine h.called ⟨fun _ _ _ _ _ _ _ => trivial, ?_, ?_⟩
      · intro _ _ _ _ _ he
        rw [he] at hs
        exact absurd rfl hs
      · intro _ _ _ _ he
        rw [he] at hs
        exact absurd rfl hs

def reached (settings : Settings) (calls : List WorkerCall) : Workers :=
  calls.foldl (work settings) start

/-- Along the run no count passes its limit, and whatever a claim takes had
attempts left. -/
structure WithinBound (settings : Settings) (calls : List WorkerCall) : Prop where
  bound : ∀ before rest, calls = before ++ rest →
    ∀ item ∈ (reached settings before).db.items, item.attemptCount ≤ item.maxAttempts
  spent : ∀ before request now leaseDuration locked rest,
    calls = before ++ .claim request now leaseDuration locked :: rest →
    ∀ works after, claim request now leaseDuration (fun id => locked.contains id)
      (reached settings before).db = .ok (works, after) →
    ∀ claimed ∈ works, ∀ item ∈ (reached settings before).db.items,
      item.id = claimed.workItem.id → item.attemptCount < item.maxAttempts

theorem prompt_within {settings : Settings} {calls : List WorkerCall}
    (h : Along (work settings) (fun w c => Agreed w c ∧ Prompt w c) start calls) :
    WithinBound settings calls where
  bound := by
    intro before rest he
    subst he
    have hb : Bounded (reached settings before) :=
      foldl_keeps (P := Bounded) (fun _ _ hs hc => work_bounded settings hs hc) start_bounded
        (along_append.mp h).1
    exact hb.counted.bound
  spent := by
    intro before request now leaseDuration locked rest he works after hx claimed hclaimed item
      hitem hid
    subst he
    obtain ⟨hbefore, hstep, _⟩ := along_append.mp h
    have hb : Bounded (reached settings before) :=
      foldl_keeps (P := Bounded) (fun _ _ hs hc => work_bounded settings hs hc) start_bounded
        hbefore
    obtain ⟨hids, _⟩ :=
      claimRows_known hb.valid (candidates_claiming hb.valid request now _) hx
    have hmem : claimed.workItem.id ∈ (candidates request now (fun id => locked.contains id)
        (reached settings before).db).map WorkItem.id := by
      rw [← hids]
      exact List.mem_map_of_mem hclaimed
    obtain ⟨row, hrow, hrowid⟩ := List.mem_map.mp hmem
    have he : row = item :=
      hb.valid.item_eq (mem_candidates hrow).1 hitem (hrowid.trans hid.symm)
    subst he
    cases claim_usable hx with
    | inl hnil =>
      rw [hnil] at hrow
      simp at hrow
    | inr hl => exact claim_allowed hb hstep.2 hl row hrow

/-- Whatever the condition of a run, the tables stay valid. -/
theorem work_valid (settings : Settings) {w : Workers} (hv : Valid w.db) (c : WorkerCall) :
    Valid (work settings w c).db := by
  cases c with
  | claim request now leaseDuration locked =>
    cases hx : claim request now leaseDuration (fun id => locked.contains id) w.db with
    | error e =>
      simp only [work, hx]
      exact hv
    | ok result =>
      simp only [work, hx]
      have hm : Moves (fun _ _ => True) (fun _ => True) (fun _ => True) w.db result.2 :=
        claim_moves hv hx fun _ _ => trivial
      exact moves_valid hv hm
  | succeed token now clock => exact call_valid settings hv _
  | fail token category policy now clock =>
    cases hl : lookup ClaimedWork.token w.held token with
    | none =>
      simp only [work, hl]
      exact hv
    | some held =>
      cases hd : policy.decide held.workItem.attemptCount category now with
      | error e =>
        simp only [work, hl, hd]
        exact hv
      | ok outcome =>
        simp only [work, hl, hd]
        exact call_valid settings hv _
  | service c =>
    by_cases hs : c.ofAttempts = true
    · simp only [work, hs, if_true]
      exact hv
    · simp only [work, hs]
      exact call_valid settings hv c

/-- Under policies with the items' own limits, attempts stay within the limits
exactly in the runs in which no claim finds an item on its last attempt with
its lease run out. -/
theorem attempts_within_bound (settings : Settings) (calls : List WorkerCall)
    (h : Along (work settings) Agreed start calls) :
    WithinBound settings calls ↔ Along (work settings) Prompt start calls := by
  constructor
  · intro hw
    refine along_iff.mpr fun before c rest he request now leaseDuration locked hc hl item hi _ => ?_
    subst hc
    have hv : Valid (reached settings before).db :=
      foldl_keeps (P := fun w : Workers => Valid w.db) (fun _ c hs _ => work_valid settings hs c)
        empty_valid (along_true start before)
    obtain ⟨leaseUntil, hs, hlt⟩ := hl
    have hclaiming := candidates_claiming hv request now (fun id => locked.contains id)
    obtain ⟨works, after, hx⟩ := claimRows_total hv hclaiming hs hlt
    obtain ⟨hids, _⟩ := claimRows_known hv hclaiming hx
    have hmem : item.id ∈ works.map (·.workItem.id) := by
      rw [hids]
      exact List.mem_map_of_mem hi
    obtain ⟨claimed, hclaimed, hid⟩ := List.mem_map.mp hmem
    exact hw.spent before request now leaseDuration locked rest he works after hx claimed hclaimed
      item (mem_candidates hi).1 hid.symm
  · intro hp
    refine prompt_within (along_iff.mpr fun before c rest he => ⟨?_, ?_⟩)
    · exact along_iff.mp h before c rest he
    · exact along_iff.mp hp before c rest he

/-- One item is claimed, its worker crashes, and it is claimed again after the
lease although it had a single attempt. -/
def crashedCalls : List WorkerCall :=
  [.service (.createWorkspace 1000),
    .service (.enqueue 0 .importValidation (.importAttempt 7) 1 0 0),
    .claim (.one 1) 0 60 [], .claim (.one 1) 61 60 []]

theorem crashed_item_retried : Along (work sampleSettings) Agreed start crashedCalls ∧
    ¬WithinBound sampleSettings crashedCalls := by
  constructor
  · simp [crashedCalls, Along, Agreed]
  · intro h
    have hmem : (⟨1, 0, .importValidation, .leased, .importAttempt 7, 0, some 121, some 3, 2, 1,
        0, 61⟩ : WorkItem) ∈ (reached sampleSettings crashedCalls).db.items := by
      decide +kernel
    have hle := h.bound crashedCalls [] (by simp) _ hmem
    simp at hle

/-- A transient failure decided under the item's own limit. -/
def retriedCalls : List WorkerCall :=
  [.service (.createWorkspace 1000),
    .service (.enqueue 0 .importValidation (.importAttempt 7) 2 0 0),
    .claim (.one 1) 0 60 [], .fail 2 .transient ⟨2, 5, Nat.two_pos, by decide⟩ 1 1,
    .claim (.one 1) 7 60 []]

theorem retried_agreed : Along (work sampleSettings) Agreed start retriedCalls := by
  refine ⟨by simp [Agreed], by simp [Agreed], by simp [Agreed], ?_, by simp [Agreed], trivial⟩
  intro token category policy now clock he held hheld ht
  obtain ⟨rfl, _, rfl, _⟩ := WorkerCall.fail.inj he
  have hall : ∀ held ∈ (reached sampleSettings (retriedCalls.take 3)).held,
      held.workItem.maxAttempts = 2 := by decide +kernel
  exact (hall held hheld).symm

theorem attempts_within_bound_sample :
    Along (work sampleSettings) Agreed start retriedCalls ∧
      (WithinBound sampleSettings retriedCalls ↔
        Along (work sampleSettings) Prompt start retriedCalls) :=
  ⟨retried_agreed, attempts_within_bound sampleSettings retriedCalls retried_agreed⟩

end Workbench.AttemptBound
