import Workbench.Claims

/-!
# Isolation of a batch

One worker cycle claims a batch, runs the executor on each item and records
how it ended. The records are complete exactly when every recording goes
through; a recording asks the workspace to be active and to have an active job
to release, and raises otherwise, which ends the loop.
-/

set_option autoImplicit false

namespace Workbench.JobIsolation
open Workbench.Listing Workbench.Tables Workbench.Calendar Workbench.Workspaces Workbench.Jobs
open Workbench.JobRuns Workbench.Claims
open Workbench.Raising (bind_ok ok_bind map_ok demand fetch fetch_ok demand_error bind_eq_error)

variable {db : Database} {settings : Settings} {policy : RetryPolicy} {now : Instant}
  {executor : Executor}

def Retried (policy : RetryPolicy) (work : ClaimedWork) (ending : Ending) : Prop :=
  ending = .transientFailure ∧ work.workItem.attemptCount < policy.maxAttempts

/-- What the recording of an outcome asks of the tables it finds: a retry has
a representable time, the attempt of a failure still exists, an outdated
attempt has no failure on record, and an item that ends under its current
token has an active workspace with an active job. -/
structure Recordable (policy : RetryPolicy) (now : Instant) (work : ClaimedWork)
    (ending : Ending) (clock : Instant) (db : Database) : Prop where
  retryTime : Retried policy work ending →
    ∃ t, shift now (policy.backoff*2^(work.workItem.attemptCount-1)) = some t
  attempt : ending ≠ .succeeded → ∃ a ∈ db.attempts, a.token = work.token
  outdated : ∀ a ∈ db.attempts, a.token = work.token →
    (∀ item ∈ db.items, item.currentToken ≠ some work.token) → a.failureCategory = none
  released : ¬Retried policy work ending → ∀ item ∈ db.items,
    item.currentToken = some work.token →
    Releasable item.workspace oneActiveJob clock db.workspaces

/-- The attempt of a token is missing, or it is current for its own item, or
for none. -/
theorem token_cases (hv : Valid db) (token : ℕ) :
    (∀ a ∈ db.attempts, a.token ≠ token) ∨
      ∃ a ∈ db.attempts, a.token = token ∧ ∃ item ∈ db.items,
        attemptAndItem token db = .ok (a, item) ∧
        (item.currentToken = some token ∨
          ∀ other ∈ db.items, other.currentToken ≠ some token) := by
  by_cases hk : ∃ a ∈ db.attempts, a.token = token
  · obtain ⟨a, ha, rfl⟩ := hk
    obtain ⟨item, hi, hid, hf⟩ := attemptAndItem_total hv ha
    refine .inr ⟨a, ha, rfl, item, hi, hf, ?_⟩
    by_cases hc : item.currentToken = some a.token
    · exact .inl hc
    · exact .inr (hv.outdated ha hi hid hc)
  · exact .inl fun a ha ht => hk ⟨a, ha, ht⟩

theorem attemptAndItem_missing {token : ℕ} (h : ∀ a ∈ db.attempts, a.token ≠ token) :
    attemptAndItem token db = .error .workItemUnavailable := by
  have hl : lookup JobAttempt.token db.attempts token = none := lookup_none.mpr h
  simp [attemptAndItem, hl, fetch]

theorem releaseJob_total {workspace : ℕ} {clock : Instant}
    (h : Releasable workspace oneActiveJob clock db.workspaces) :
    ∃ after, releaseJob workspace clock db = .ok after := by
  obtain ⟨ws, hr⟩ := release_total h
  exact ⟨{ db with workspaces := ws }, by simp [releaseJob, hr, withWorkspaces]⟩

structure Completable (token : ℕ) (ends : Prop) (clock : Instant) (db : Database) : Prop where
  attempt : ∃ a ∈ db.attempts, a.token = token
  outdated : ∀ a ∈ db.attempts, a.token = token →
    (∀ item ∈ db.items, item.currentToken ≠ some token) → a.failureCategory = none
  released : ends → ∀ item ∈ db.items, item.currentToken = some token →
    Releasable item.workspace oneActiveJob clock db.workspaces

theorem completed_completable (hv : Valid db) {token : ℕ} {clock : Instant} {retried : Prop}
    {done : Bool} {after : Database} {at_ : Instant}
    (h : Completed db token at_ clock retried done after) :
    Completable token (¬retried) clock db := by
  cases h with
  | outdated found outdated shape =>
    obtain ⟨⟨ha, rfl⟩, hi, hid⟩ := attemptAndItem_ok found
    have hall := hv.outdated ha hi hid outdated
    refine ⟨⟨_, ha, rfl⟩, fun b hb ht _ => ?_, fun _ other ho hc => absurd hc (hall other ho)⟩
    rw [hv.attempt_eq hb ha ht]
    exact expired_shape.mp shape
  | current workspaces found current finish again released =>
    obtain ⟨⟨ha, rfl⟩, hi, hid⟩ := attemptAndItem_ok found
    refine ⟨⟨_, ha, rfl⟩, fun b hb ht hall => absurd current (hall _ hi), fun hend other ho hc => ?_⟩
    have he := hv.item_eq ho hi ((hv.owner ho ha hc).1.trans hid.symm)
    rw [he]
    exact released fun hs => hend (again hs)

theorem markSucceeded_total (hv : Valid db) {token : ℕ} {clock : Instant}
    (h : Completable token True clock db) :
    ∃ done after, markSucceeded token now clock db = .ok (done, after) := by
  rcases token_cases hv token with hm | ⟨a, ha, rfl, item, hi, hf, hc⟩
  · obtain ⟨a, ha, ht⟩ := h.attempt
    exact absurd ht (hm a ha)
  rcases hc with hc | hc
  · have hr : ∃ after, releaseJob item.workspace clock (finishedIn db item.id a.token .succeeded
        item.availableAt now .succeeded none db.workspaces) = .ok after :=
      releaseJob_total (h.released trivial item hi hc)
    obtain ⟨after, hr⟩ := hr
    refine ⟨true, after, ?_⟩
    simp [markSucceeded, hf, hc, current_passes hv ha hi hc .succeeded, hr]
  · refine ⟨false, expiredIn db a.token now, ?_⟩
    have hx : completeAttempt a.token .expired now none db = .ok (expiredIn db a.token now) :=
      completeAttempt_total fun b hb ht => expired_shape.mpr (h.outdated b hb ht hc)
    simp [markSucceeded, hf, hc item hi, hx]

theorem markFailed_total (hv : Valid db) {token : ℕ} {outcome : RetryOutcome}
    {category : FailureCategory} {clock : Instant}
    (h : Completable token (outcome = .failed) clock db) :
    ∃ done after, markFailed token outcome category now clock db = .ok (done, after) := by
  rcases token_cases hv token with hm | ⟨a, ha, rfl, item, hi, hf, hc⟩
  · obtain ⟨a, ha, ht⟩ := h.attempt
    exact absurd ht (hm a ha)
  rcases hc with hc | hc
  · cases outcome with
    | ready availableAt =>
      refine ⟨true, finishedIn db item.id a.token .ready availableAt now .failed (some category)
        db.workspaces, ?_⟩
      simp [markFailed, hf, hc, RetryOutcome.state,
        current_passes hv ha hi hc (.retried category)]
    | failed =>
      have hr : ∃ after, releaseJob item.workspace clock (finishedIn db item.id a.token .failed
          item.availableAt now .failed (some category) db.workspaces) = .ok after :=
        releaseJob_total (h.released rfl item hi hc)
      obtain ⟨after, hr⟩ := hr
      refine ⟨true, after, ?_⟩
      simp [markFailed, hf, hc, RetryOutcome.state,
        current_passes hv ha hi hc (.failed category), hr]
  · refine ⟨false, expiredIn db a.token now, ?_⟩
    have hx : completeAttempt a.token .expired now none db = .ok (expiredIn db a.token now) :=
      completeAttempt_total fun b hb ht => expired_shape.mpr (h.outdated b hb ht hc)
    simp [markFailed, hf, hc item hi, hx]

/-- After a completion call the token is current no more, and an item it was
current for is leased no more. -/
theorem completed_settles (hv : Valid db) {token : ℕ} {clock at_ : Instant} {retried : Prop}
    {done : Bool} {after : Database} (h : Completed db token at_ clock retried done after) :
    (∀ row ∈ after.items, row.currentToken ≠ some token) ∧
      ∀ item ∈ db.items, item.currentToken = some token →
        ∃ row ∈ after.items, row.id = item.id ∧ row.state ≠ .leased := by
  cases h with
  | outdated found outdated shape =>
    obtain ⟨⟨ha, rfl⟩, hi, hid⟩ := attemptAndItem_ok found
    have hall := hv.outdated ha hi hid outdated
    exact ⟨hall, fun item hitem hc => absurd hc (hall item hitem)⟩
  | @current a item state availableAt outcome category workspaces found current finish again
      released =>
    obtain ⟨⟨ha, rfl⟩, hi, hid⟩ := attemptAndItem_ok found
    constructor
    · intro row hrow hc
      obtain ⟨old, ho, rfl⟩ := mem_closed.mp hrow
      by_cases he : old.id = item.id
      · rw [if_pos he] at hc
        simp [WorkItem.close] at hc
      · rw [if_neg he] at hc
        exact he ((hv.owner ho ha hc).1.trans hid.symm)
    · intro other ho hc
      have he := hv.item_eq ho hi ((hv.owner ho ha hc).1.trans hid.symm)
      subst he
      refine ⟨other.close state availableAt at_, ?_, rfl, finish_leased finish⟩
      exact mem_closed.mpr ⟨other, ho, by rw [if_pos rfl]⟩

structure Settles (work : ClaimedWork) (found : Database) (record : ExecutionRecord)
    (left : Database) : Prop where
  record : record.workItem = work.workItem
  moves : Moves (fun _ _ => True) (fun _ => True) (fun _ => True) found left
  retired : ∀ item ∈ left.items, item.currentToken ≠ some work.token
  settled : ∀ item ∈ found.items, item.currentToken = some work.token →
    ∃ row ∈ left.items, row.id = item.id ∧ row.state ≠ .leased

theorem completed_settled (hv : Valid db) {work : ClaimedWork} {clock at_ : Instant}
    {retried : Prop} {done succeeded : Bool} {after : Database}
    (h : Completed db work.token at_ clock retried done after) :
    Settles work db ⟨work.workItem, succeeded⟩ after where
  record := rfl
  moves := completed_moves hv h (fun _ _ _ _ => trivial) fun _ _ _ _ => trivial
  retired := (completed_settles hv h).1
  settled := (completed_settles hv h).2

theorem retryPolicy_decide {attemptCount : ℕ} (h : 1 ≤ attemptCount)
    (category : FailureCategory) : policy.decide attemptCount category now =
      if category = .permanent ∨ policy.maxAttempts ≤ attemptCount then .ok .failed
      else RetryOutcome.ready <$>
        fetch .overflow (shift now (policy.backoff*2^(attemptCount-1))) := by
  simp only [RetryPolicy.decide, demand, h, if_true, ok_bind]
  by_cases hc : category = .permanent
  · simp [hc]
  · by_cases hm : policy.maxAttempts ≤ attemptCount
    · simp [hm]
    · simp only [hc, hm, if_false, or_false]
      cases fetch JobFailure.overflow (shift now (policy.backoff*2^(attemptCount-1))) <;> rfl

theorem markSucceeded_unavailable (hv : Valid db) {token : ℕ} {clock : Instant}
    (h : markSucceeded token now clock db = .error .workItemUnavailable) :
    ∀ a ∈ db.attempts, a.token ≠ token := by
  rcases token_cases hv token with hm | ⟨a, ha, rfl, item, hi, hf, hc⟩
  · exact hm
  exfalso
  rcases hc with hc | hc
  · simp only [markSucceeded, hf, ok_bind, ne_eq, hc, not_true_eq_false, if_false,
      current_passes hv ha hi hc .succeeded, bind_eq_error, reduceCtorEq, and_false,
      exists_false, or_false] at h
    obtain ⟨reason, hr⟩ := releaseJob_error h
    simp at hr
  · simp only [markSucceeded, hf, ok_bind, ne_eq, hc item hi, not_false_eq_true, if_true,
      completeAttempt, bind_eq_error, demand_error, reduceCtorEq, and_false, exists_false,
      or_false] at h

theorem markSucceeded_missing {token : ℕ} {clock : Instant}
    (h : ∀ a ∈ db.attempts, a.token ≠ token) :
    markSucceeded token now clock db = .error .workItemUnavailable := by
  simp [markSucceeded, attemptAndItem_missing h]

theorem not_retried_succeeded (policy : RetryPolicy) (work : ClaimedWork) :
    ¬Retried policy work .succeeded := by
  intro h
  have he := h.1
  simp at he

theorem missing_settles (hv : Valid db) {work : ClaimedWork}
    (h : ∀ a ∈ db.attempts, a.token ≠ work.token) (succeeded : Bool) :
    Settles work db ⟨work.workItem, succeeded⟩ db := by
  have hnone : ∀ item ∈ db.items, item.currentToken ≠ some work.token := by
    intro item hi hc
    obtain ⟨a, ha, ht, _⟩ := hv.current item hi _ hc
    exact h a ha ht
  exact ⟨rfl, .refl, hnone, fun item hi hc => absurd hc (hnone item hi)⟩

theorem success_recorded (hv : Valid db) {work : ClaimedWork} {clock : Instant}
    {record : ExecutionRecord} {left : Database}
    (h : recordOutcome policy now work .succeeded clock db = .ok (record, left)) :
    Recordable policy now work .succeeded clock db ∧ Settles work db record left := by
  have hn := not_retried_succeeded policy work
  cases hx : markSucceeded work.token now clock db with
  | ok result =>
    obtain ⟨done, after⟩ := result
    simp only [recordOutcome, hx] at h
    obtain ⟨rfl, rfl⟩ := Prod.mk.inj (Except.ok.inj h)
    have hcompleted := markSucceeded_ok hx
    have hc := completed_completable hv hcompleted
    exact ⟨⟨fun hr => absurd hr hn, fun hs => absurd rfl hs, hc.outdated,
      fun _ => hc.released id⟩, completed_settled hv hcompleted⟩
  | error e =>
    have hmissing : e = .workItemUnavailable := by
      cases e <;> simp [recordOutcome, hx] at h ⊢
    subst hmissing
    simp only [recordOutcome, hx] at h
    obtain ⟨rfl, rfl⟩ := Prod.mk.inj (Except.ok.inj h)
    have hnone := markSucceeded_unavailable hv hx
    refine ⟨⟨fun hr => absurd hr hn, fun hs => absurd rfl hs, ?_, ?_⟩,
      missing_settles hv hnone true⟩
    · exact fun a ha ht => absurd ht (hnone a ha)
    · intro _ item hi hc
      obtain ⟨a, ha, ht, _⟩ := hv.current item hi _ hc
      exact absurd ht (hnone a ha)

theorem success_total (hv : Valid db) {work : ClaimedWork} {clock : Instant}
    (h : Recordable policy now work .succeeded clock db) :
    ∃ record left, recordOutcome policy now work .succeeded clock db = .ok (record, left) := by
  by_cases hk : ∃ a ∈ db.attempts, a.token = work.token
  · have hx : ∃ done after, markSucceeded work.token now clock db = .ok (done, after) :=
      markSucceeded_total hv
        ⟨hk, h.outdated, fun _ => h.released (not_retried_succeeded policy work)⟩
    obtain ⟨done, after, hx⟩ := hx
    exact ⟨⟨work.workItem, true⟩, after, by simp [recordOutcome, hx]⟩
  · have hx : markSucceeded work.token now clock db = .error .workItemUnavailable :=
      markSucceeded_missing fun a ha ht => hk ⟨a, ha, ht⟩
    exact ⟨⟨work.workItem, true⟩, db, by simp [recordOutcome, hx]⟩

def Ending.category : Ending → FailureCategory
  | .transientFailure => .transient
  | _ => .permanent

theorem failure_eq {work : ClaimedWork} {ending : Ending} {clock : Instant}
    (he : ending ≠ .succeeded) : recordOutcome policy now work ending clock db = (do
      let outcome ← policy.decide work.workItem.attemptCount (Ending.category ending) now
      let (_, db) ← markFailed work.token outcome (Ending.category ending) now clock db
      .ok (⟨work.workItem, false⟩, db)) := by
  cases ending with
  | succeeded => exact absurd rfl he
  | transientFailure => rfl
  | otherException => rfl

/-- The policy's decision: a retry when the failure is one and attempts are
left, else the end. -/
theorem decide_eq (policy : RetryPolicy) (now : Instant) {work : ClaimedWork} {ending : Ending}
    (he : ending ≠ .succeeded)
    (hcount : 1 ≤ work.workItem.attemptCount) :
    (Retried policy work ending ∧
      policy.decide work.workItem.attemptCount (Ending.category ending) now =
        RetryOutcome.ready <$> fetch .overflow
          (shift now (policy.backoff*2^(work.workItem.attemptCount-1)))) ∨
    (¬Retried policy work ending ∧
      policy.decide work.workItem.attemptCount (Ending.category ending) now = .ok .failed) := by
  rw [retryPolicy_decide hcount]
  by_cases hr : Retried policy work ending
  · obtain ⟨rfl, hlt⟩ := hr
    refine .inl ⟨⟨rfl, hlt⟩, ?_⟩
    rw [if_neg]
    simp [Ending.category, hlt]
  · refine .inr ⟨hr, ?_⟩
    rw [if_pos]
    cases ending with
    | succeeded => exact absurd rfl he
    | transientFailure => exact .inr (Nat.le_of_not_lt fun hlt => hr ⟨rfl, hlt⟩)
    | otherException => exact .inl rfl

theorem failure_recorded (hv : Valid db) {work : ClaimedWork} {ending : Ending} {clock : Instant}
    (he : ending ≠ .succeeded) (hcount : 1 ≤ work.workItem.attemptCount)
    {record : ExecutionRecord} {left : Database}
    (h : recordOutcome policy now work ending clock db = .ok (record, left)) :
    Recordable policy now work ending clock db ∧ Settles work db record left := by
  rw [failure_eq he] at h
  simp only [bind_ok] at h
  obtain ⟨outcome, hd, ⟨done, after⟩, hx, h⟩ := h
  obtain ⟨rfl, rfl⟩ := Prod.mk.inj (Except.ok.inj h)
  have hcompleted := markFailed_ok hx
  have hc := completed_completable hv hcompleted
  refine ⟨?_, completed_settled hv hcompleted⟩
  rcases decide_eq policy now he hcount with ⟨hr, hq⟩ | ⟨hr, hq⟩
  · rw [hq, map_ok] at hd
    obtain ⟨t, ht, rfl⟩ := hd
    exact ⟨fun _ => ⟨t, fetch_ok.mp ht⟩, fun _ => hc.attempt, hc.outdated,
      fun hn => absurd hr hn⟩
  · rw [hq] at hd
    obtain rfl := Except.ok.inj hd
    exact ⟨fun hn => absurd hn hr, fun _ => hc.attempt, hc.outdated,
      fun _ => hc.released fun hn => hn rfl⟩

theorem failure_total (hv : Valid db) {work : ClaimedWork} {ending : Ending} {clock : Instant}
    (he : ending ≠ .succeeded) (hcount : 1 ≤ work.workItem.attemptCount)
    (h : Recordable policy now work ending clock db) :
    ∃ record left, recordOutcome policy now work ending clock db = .ok (record, left) := by
  rw [failure_eq he]
  rcases decide_eq policy now he hcount with ⟨hr, hq⟩ | ⟨hr, hq⟩
  · obtain ⟨t, ht⟩ := h.retryTime hr
    have hc : Completable work.token (RetryOutcome.ready t = .failed) clock db :=
      ⟨h.attempt he, h.outdated, fun hf => by simp at hf⟩
    have hx : ∃ done after, markFailed work.token (.ready t) (Ending.category ending) now clock
        db = .ok (done, after) := markFailed_total hv hc
    obtain ⟨done, after, hx⟩ := hx
    refine ⟨⟨work.workItem, false⟩, after, ?_⟩
    rw [hq, ht]
    simp [fetch, Functor.map, Except.map, hx]
  · have hc : Completable work.token (RetryOutcome.failed = .failed) clock db :=
      ⟨h.attempt he, h.outdated, fun _ => h.released hr⟩
    have hx : ∃ done after, markFailed work.token .failed (Ending.category ending) now clock
        db = .ok (done, after) := markFailed_total hv hc
    obtain ⟨done, after, hx⟩ := hx
    refine ⟨⟨work.workItem, false⟩, after, ?_⟩
    rw [hq]
    simp [hx]

theorem recordOutcome_ok (hv : Valid db) {work : ClaimedWork} {ending : Ending} {clock : Instant}
    (hcount : 1 ≤ work.workItem.attemptCount) {record : ExecutionRecord} {left : Database}
    (h : recordOutcome policy now work ending clock db = .ok (record, left)) :
    Recordable policy now work ending clock db ∧ Settles work db record left := by
  by_cases he : ending = .succeeded
  · subst he
    exact success_recorded hv h
  · exact failure_recorded hv he hcount h

theorem recordOutcome_total (hv : Valid db) {work : ClaimedWork} {ending : Ending}
    {clock : Instant} (hcount : 1 ≤ work.workItem.attemptCount)
    (h : Recordable policy now work ending clock db) :
    ∃ record left, recordOutcome policy now work ending clock db = .ok (record, left) := by
  by_cases he : ending = .succeeded
  · subst he
    exact success_total hv h
  · exact failure_total hv he hcount h

def Retired (token : ℕ) (db : Database) : Prop :=
  token < db.serial ∧ ∀ item ∈ db.items, item.currentToken ≠ some token

theorem Retired.carried {token : ℕ} {after : Database} (h : Retired token db)
    (hc : Carried db after) : Retired token after := by
  refine ⟨lt_of_lt_of_le h.1 hc.1, fun row hrow ht => ?_⟩
  obtain ⟨old, ho, hot, _⟩ := hc.2 row hrow token ht h.1
  exact h.2 old ho hot

theorem call_carried (settings : Settings) (hv : Valid db) (c : Command) :
    Carried db (call settings db c) :=
  settle_keeps (P := Carried db) (carried_refl db) fun _ hs =>
    moves_carried (perform_moves hv (allows_any db c) hs)

theorem run_carried (settings : Settings) (hv : Valid db) (cs : List Command) :
    Carried db (cs.foldl (call settings) db) := by
  induction cs generalizing db with
  | nil => exact carried_refl db
  | cons c cs ih => exact (call_carried settings hv c).trans (ih (call_valid settings hv c))

/-- Every recording of the loop finds tables it can be made in. -/
def AllRecordable (settings : Settings) (policy : RetryPolicy) (now : Instant)
    (executor : Executor) : List ClaimedWork → Database → Prop
  | [], _ => True
  | work :: rest, db =>
    let ran := executor work.workItem work.token db
    let found := ran.meanwhile.foldl (call settings) db
    Recordable policy now work ran.ending ran.clock found ∧
      ∀ record left, recordOutcome policy now work ran.ending ran.clock found = .ok (record, left) →
        AllRecordable settings policy now executor rest left

/-- Every claimed item is attempted and has its record, and none of them is
left leased under its attempt. -/
structure Isolated (claimed : List ClaimedWork) (cycle : Cycle) : Prop where
  attempted : cycle.attempted.map (·.work) = claimed
  recorded : ∃ records, cycle.records = .ok records ∧
    records.map (·.workItem) = claimed.map (·.workItem)
  settled : ∀ s ∈ cycle.attempted, ∀ item ∈ s.found.items,
    item.currentToken = some s.work.token → ∃ row ∈ s.left.items, row.id = item.id ∧
      (row.state = .succeeded ∨ row.state = .ready ∨ row.state = .failed)
  released : ∀ work ∈ claimed, ∀ item ∈ cycle.db.items,
    ¬(item.state = .leased ∧ item.currentToken = some work.token)

theorem state_cases {s : JobState} (h : s ≠ .leased) : s = .succeeded ∨ s = .ready ∨ s = .failed := by
  cases s <;> simp at h ⊢

theorem executeClaimed_retired {works : List ClaimedWork} {token : ℕ} {db : Database}
    (hv : Valid db) (hcount : ∀ work ∈ works, 1 ≤ work.workItem.attemptCount)
    (h : Retired token db) :
    Retired token (executeClaimed settings policy now executor works db).db := by
  induction works generalizing db with
  | nil => exact h
  | cons work rest ih =>
    have hfound := run_valid settings hv (executor work.workItem work.token db).meanwhile
    have hretired := h.carried
      (run_carried settings hv (executor work.workItem work.token db).meanwhile)
    cases hx : recordOutcome policy now work (executor work.workItem work.token db).ending
        (executor work.workItem work.token db).clock
        ((executor work.workItem work.token db).meanwhile.foldl (call settings) db) with
    | error e =>
      simp only [executeClaimed, hx]
      exact hretired
    | ok result =>
      obtain ⟨record, left⟩ := result
      simp only [executeClaimed, hx]
      have hs := (recordOutcome_ok hfound (hcount work List.mem_cons_self) hx).2
      exact ih (moves_valid hfound hs.moves)
        (fun w hw => hcount w (List.mem_cons_of_mem _ hw))
        (hretired.carried (moves_carried hs.moves))

/-- With every recording made in tables it can be made in, the batch is
isolated. -/
theorem executeClaimed_isolated {works : List ClaimedWork} {db : Database} (hv : Valid db)
    (hcount : ∀ work ∈ works, 1 ≤ work.workItem.attemptCount)
    (htoken : ∀ work ∈ works, work.token < db.serial)
    (h : AllRecordable settings policy now executor works db) :
    Isolated works (executeClaimed settings policy now executor works db) := by
  induction works generalizing db with
  | nil => exact ⟨rfl, ⟨[], rfl, rfl⟩, by simp [executeClaimed], by simp⟩
  | cons work rest ih =>
    have hfound := run_valid settings hv (executor work.workItem work.token db).meanwhile
    have hcarried := run_carried settings hv (executor work.workItem work.token db).meanwhile
    have hcw := hcount work List.mem_cons_self
    obtain ⟨record, left, hx⟩ := recordOutcome_total hfound hcw h.1
    have hs := (recordOutcome_ok hfound hcw hx).2
    have hleft := moves_valid hfound hs.moves
    have hcl := moves_carried hs.moves
    have hcr : ∀ w ∈ rest, 1 ≤ w.workItem.attemptCount :=
      fun w hw => hcount w (List.mem_cons_of_mem _ hw)
    have hrest := ih hleft hcr
      (fun w hw => lt_of_lt_of_le (htoken w (List.mem_cons_of_mem _ hw))
        (hcarried.1.trans hcl.1)) (h.2 record left hx)
    obtain ⟨records, hrecords, hitems⟩ := hrest.recorded
    simp only [executeClaimed, hx]
    refine ⟨by simp [hrest.attempted], ⟨record :: records, ?_, ?_⟩, ?_, ?_⟩
    · rw [hrecords]
      rfl
    · simp [hs.record, hitems]
    · intro s hmem item hi hc
      cases List.mem_cons.mp hmem with
      | inl he =>
        subst he
        obtain ⟨row, hrow, hid, hstate⟩ := hs.settled item hi hc
        exact ⟨row, hrow, hid, state_cases hstate⟩
      | inr hin => exact hrest.settled s hin item hi hc
    · intro w hw item hi hlease
      cases List.mem_cons.mp hw with
      | inl he =>
        subst he
        have hlt := lt_of_lt_of_le (htoken w List.mem_cons_self) (hcarried.1.trans hcl.1)
        have hr : Retired w.token left := ⟨hlt, hs.retired⟩
        exact (executeClaimed_retired hleft hcr hr).2 item hi hlease.2
      | inr hin => exact hrest.released w hin item hi hlease

theorem executeClaimed_recordable {works : List ClaimedWork} {db : Database} (hv : Valid db)
    (hcount : ∀ work ∈ works, 1 ≤ work.workItem.attemptCount) {records : List ExecutionRecord}
    (h : (executeClaimed settings policy now executor works db).records = .ok records) :
    AllRecordable settings policy now executor works db := by
  induction works generalizing db records with
  | nil => trivial
  | cons work rest ih =>
    have hfound := run_valid settings hv (executor work.workItem work.token db).meanwhile
    have hcw := hcount work List.mem_cons_self
    cases hx : recordOutcome policy now work (executor work.workItem work.token db).ending
        (executor work.workItem work.token db).clock
        ((executor work.workItem work.token db).meanwhile.foldl (call settings) db) with
    | error e =>
      simp [executeClaimed, hx] at h
    | ok result =>
      obtain ⟨record, left⟩ := result
      obtain ⟨hr, hs⟩ := recordOutcome_ok hfound hcw hx
      simp only [executeClaimed, hx, map_ok] at h
      obtain ⟨others, hothers, _⟩ := h
      have hleft := moves_valid hfound hs.moves
      have hrest := ih hleft (fun w hw => hcount w (List.mem_cons_of_mem _ hw)) hothers
      refine ⟨hr, fun record' left' hx' => ?_⟩
      have he := Except.ok.inj (hx.symm.trans hx')
      obtain ⟨rfl, rfl⟩ := Prod.mk.inj he
      exact hrest

theorem claimRow_count {leaseDuration : ℤ} {item : WorkItem}
    {work : ClaimedWork} {after : Database}
    (h : claimRow now leaseDuration item db = .ok (work, after)) :
    1 ≤ work.workItem.attemptCount := by
  obtain ⟨leaseUntil, _, _, rfl, _, hl⟩ := claimRow_ok h
  obtain ⟨old, ho, he⟩ := mem_granted_items.mp (mem_of_lookup hl)
  have hid : old.id = item.id := by
    have hk := key_of_lookup hl
    rw [he, revised_id (f := (·.lease now leaseUntil db.serial)) fun _ => rfl] at hk
    exact hk
  rw [he, if_pos hid]
  exact Nat.succ_le_succ (Nat.zero_le _)

theorem claimRows_count {leaseDuration : ℤ} {items : List WorkItem} {works : List ClaimedWork}
    {db after : Database} (h : claimRows now leaseDuration items db = .ok (works, after)) :
    ∀ work ∈ works, 1 ≤ work.workItem.attemptCount := by
  induction items generalizing db works with
  | nil =>
    obtain ⟨rfl, rfl⟩ := Prod.mk.inj (Except.ok.inj h)
    simp
  | cons item rest ih =>
    simp only [claimRows, bind_ok] at h
    obtain ⟨⟨first, db₁⟩, h₁, ⟨others, db₂⟩, h₂, h⟩ := h
    obtain ⟨rfl, rfl⟩ := Prod.mk.inj (Except.ok.inj h)
    intro work hw
    cases List.mem_cons.mp hw with
    | inl he =>
      subst he
      exact claimRow_count h₁
    | inr hin => exact ih h₂ work hin

/-- The claim goes through and its batch is isolated. -/
def IsolatesBatch (settings : Settings) (policy : RetryPolicy) (executor : Executor)
    (request : Request) (now : Instant) (leaseDuration : ℤ) (locked : ℕ → Bool)
    (db : Database) : Prop :=
  ∃ claimed after, claim request now leaseDuration locked db = .ok (claimed, after) ∧
    Isolated claimed
      (claimAndExecute settings policy executor request now leaseDuration locked db)

/-- Either nothing can be claimed, or the lease ends at a representable time
after it begins. -/
def Leasable (request : Request) (now : Instant) (leaseDuration : ℤ) (locked : ℕ → Bool)
    (db : Database) : Prop :=
  candidates request now locked db = [] ∨
    ∃ leaseUntil, shift now leaseDuration = some leaseUntil ∧ now < leaseUntil

theorem claim_total (hv : Valid db) {request : Request} {leaseDuration : ℤ} {locked : ℕ → Bool}
    (h : Leasable request now leaseDuration locked db) :
    ∃ works after, claim request now leaseDuration locked db = .ok (works, after) := by
  cases h with
  | inl hnil => exact ⟨[], db, by simp [claim, hnil, claimRows]⟩
  | inr hl =>
    obtain ⟨leaseUntil, hs, hl⟩ := hl
    exact claimRows_total hv (candidates_claiming hv request now locked) hs hl

/-- In every reachable state a cycle isolates its batch exactly when the lease
is usable and every outcome is recorded in tables it can be recorded in. -/
theorem claim_and_execute_isolates_iff (settings : Settings) (history : List Command)
    (policy : RetryPolicy) (executor : Executor) (request : Request) (now : Instant)
    (leaseDuration : ℤ) (locked : ℕ → Bool) :
    IsolatesBatch settings policy executor request now leaseDuration locked
        (reached settings history) ↔
      Leasable request now leaseDuration locked (reached settings history) ∧
        ∀ claimed after, claim request now leaseDuration locked (reached settings history) =
          .ok (claimed, after) → AllRecordable settings policy now executor claimed after := by
  have hv := reached_valid settings history
  constructor
  · intro h
    obtain ⟨claimed, after, hx, h⟩ := h
    refine ⟨claim_usable hx, fun claimed' after' hx' => ?_⟩
    obtain ⟨rfl, rfl⟩ := Prod.mk.inj (Except.ok.inj (hx.symm.trans hx'))
    obtain ⟨records, hrecords, _⟩ := h.recorded
    simp only [claimAndExecute, hx] at hrecords
    have hm : Moves (fun _ _ => True) (fun _ => True) (fun _ => True) _ after :=
      claim_moves hv hx fun _ _ => trivial
    exact executeClaimed_recordable (moves_valid hv hm) (claimRows_count hx) hrecords
  · intro h
    obtain ⟨hl, hall⟩ := h
    obtain ⟨claimed, after, hx⟩ := claim_total hv hl
    refine ⟨claimed, after, hx, ?_⟩
    simp only [claimAndExecute, hx]
    have hm : Moves (fun _ _ => True) (fun _ => True) (fun _ => True) _ after :=
      claim_moves hv hx fun _ _ => trivial
    obtain ⟨_, hk⟩ := claimRows_known hv (candidates_claiming hv request now locked) hx
    exact executeClaimed_isolated (moves_valid hv hm) (claimRows_count hx)
      (fun work hw => (hk work hw).1) (hall claimed after hx)

/-- Two items of one workspace; the owner deletes the workspace while the
first executor runs, which then succeeds. -/
def twoItems : List Command :=
  [.createWorkspace 1000, .enqueue 0 .importValidation (.importAttempt 7) 3 0 0,
    .enqueue 0 .importValidation (.importAttempt 8) 3 0 0]

def deletedMeanwhile : Executor := fun _ _ _ => ⟨.succeeded, [.delete 0 5], 5⟩

theorem deleted_workspace_ends_batch : ¬IsolatesBatch sampleSettings
    ⟨3, 5, by decide, by decide⟩ deletedMeanwhile (.batch .importValidation 10) 1 60
    (fun _ => false) (reached sampleSettings twoItems) := by
  intro h
  obtain ⟨claimed, after, _, h⟩ := h
  obtain ⟨records, hrecords, _⟩ := h.recorded
  have hraised : (claimAndExecute sampleSettings ⟨3, 5, by decide, by decide⟩ deletedMeanwhile
      (.batch .importValidation 10) 1 60 (fun _ => false)
      (reached sampleSettings twoItems)).records.toOption = none := by decide +kernel
  rw [hrecords] at hraised
  simp [Except.toOption] at hraised

end Workbench.JobIsolation
