import Workbench.JobRuns

/-!
# The history of attempts

A completion call that finds its attempt unrecorded changes no recorded
outcome and passes the checks of the attempt table. A repeated call finds the
token cleared, takes the attempt for an outdated one and writes over its
outcome.
-/

set_option autoImplicit false

namespace Workbench.AttemptHistory
open Workbench.Listing Workbench.Tables Workbench.Calendar Workbench.Workspaces Workbench.Jobs
open Workbench.JobRuns
open Workbench.Raising (ok_bind demand fetch fetch_ok)
open Workbench.Raising (demand_error fetch_error bind_eq_error map_eq_error)

def Unrecorded (a : JobAttempt) (now : Instant) : Prop :=
  a.outcome = none ∨ a.outcome = some .expired ∧ a.completedAt = some now

/-- A completion call names an attempt with no recorded outcome, and a claim
that finds an item asks for a lease that ends after it begins. -/
structure Orderly (db : Database) (c : Command) : Prop where
  completion : ∀ token now, c.completion = some (token, now) → ∀ a ∈ db.attempts,
    a.token = token → Unrecorded a now
  lease : ∀ request now leaseDuration locked, c = .claim request now leaseDuration locked →
    candidates request now (fun id => locked.contains id) db ≠ [] →
    ∀ leaseUntil, shift now leaseDuration = some leaseUntil → now < leaseUntil

variable {db : Database} {settings : Settings}

/-- With a token that is no longer current a completion call only closes its
attempt as expired. -/
theorem perform_outdated (hv : Valid db) {c : Command} {a : JobAttempt} {now : Instant}
    (hc : c.completion = some (a.token, now)) (ha : a ∈ db.attempts)
    (ho : ∀ item ∈ db.items, item.currentToken ≠ some a.token) :
    perform settings db c = completeAttempt a.token .expired now none db := by
  obtain ⟨item, hi, _, hf⟩ := attemptAndItem_total hv ha
  cases c with
  | markSucceeded token at_ clock =>
    obtain ⟨rfl, rfl⟩ := Prod.mk.inj (Option.some.inj hc)
    simp only [perform, markSucceeded, hf, ok_bind, ne_eq, ho item hi, not_false_eq_true,
      if_true]
    cases completeAttempt a.token .expired at_ none db <;> rfl
  | markFailed token outcome category at_ clock =>
    obtain ⟨rfl, rfl⟩ := Prod.mk.inj (Option.some.inj hc)
    simp only [perform, markFailed, hf, ok_bind, ne_eq, ho item hi, not_false_eq_true,
      if_true]
    cases completeAttempt a.token .expired at_ none db <;> rfl
  | _ => simp [Command.completion] at hc

theorem unrecorded_category {a : JobAttempt} {now : Instant} (hs : a.OutcomeShape)
    (h : Unrecorded a now) : a.failureCategory = none := by
  cases h with
  | inl hn =>
    simp only [JobAttempt.OutcomeShape, hn] at hs
    exact hs.2
  | inr he =>
    simp only [JobAttempt.OutcomeShape, he.1] at hs
    exact hs.2

theorem unrecorded_expired {a : JobAttempt} {now : Instant} (hr : a.outcome ≠ none)
    (h : Unrecorded a now) : a.complete .expired now none = a := by
  obtain ⟨ho, hc⟩ := h.resolve_left hr
  cases a
  simp only at ho hc
  subst ho hc
  rfl

theorem recorded_outdated (hv : Valid db) {a : JobAttempt} (ha : a ∈ db.attempts)
    (hr : a.outcome ≠ none) : ∀ item ∈ db.items, item.currentToken ≠ some a.token :=
  fun _ hi hc => hr (hv.owner hi ha hc).2

/-- A completion call with a token that is current for no item leaves the
items, the quota and every other attempt as they were. -/
theorem outdated_no_effect (hv : Valid db) {c : Command} {token : ℕ} {now : Instant}
    (hc : c.completion = some (token, now))
    (ho : ∀ item ∈ db.items, item.currentToken ≠ some token) :
    (call settings db c).items = db.items ∧ (call settings db c).workspaces = db.workspaces ∧
      ∀ a, a.token ≠ token → (a ∈ (call settings db c).attempts ↔ a ∈ db.attempts) := by
  by_cases hk : ∃ a ∈ db.attempts, a.token = token
  · obtain ⟨a, ha, rfl⟩ := hk
    unfold call
    rw [perform_outdated hv hc ha ho]
    cases hx : completeAttempt a.token .expired now none db with
    | error e => exact ⟨rfl, rfl, fun _ _ => Iff.rfl⟩
    | ok after =>
      obtain ⟨_, rfl⟩ := completeAttempt_ok hx
      refine ⟨rfl, rfl, fun b hb => ?_⟩
      constructor
      · intro hm
        obtain ⟨old, hold, rfl⟩ := mem_completed.mp hm
        rw [completed_keeps.1] at hb
        rw [if_neg hb]
        exact hold
      · intro hm
        exact mem_completed.mpr ⟨b, hm, by rw [if_neg hb]⟩
  · -- no attempt carries the token, so the call raises
    have hl : lookup JobAttempt.token db.attempts token = none :=
      lookup_none.mpr fun a ha ht => hk ⟨a, ha, ht⟩
    have hs : call settings db c = db := by
      cases c with
      | markSucceeded t n k =>
        obtain ⟨rfl, rfl⟩ := Prod.mk.inj (Option.some.inj hc)
        simp [call, perform, markSucceeded, attemptAndItem, hl, fetch, settle, Functor.map,
          Except.map]
      | markFailed t o g n k =>
        obtain ⟨rfl, rfl⟩ := Prod.mk.inj (Option.some.inj hc)
        simp [call, perform, markFailed, attemptAndItem, hl, fetch, settle, Functor.map,
          Except.map]
      | _ => simp [Command.completion] at hc
    rw [hs]
    exact ⟨rfl, rfl, fun _ _ => Iff.rfl⟩

/-- What a later state keeps of an earlier one: no row comes back, and a
recorded attempt is the same row as long as its item exists. -/
structure Later (before after : Database) : Prop where
  serial : before.serial ≤ after.serial
  items : ∀ item ∈ after.items, item.id < before.serial →
    ∃ old ∈ before.items, old.id = item.id
  attempts : ∀ b ∈ after.attempts, b.token < before.serial → ∃ a ∈ before.attempts,
    a.token = b.token ∧ a.workItem = b.workItem ∧ (a.outcome ≠ none → b = a)
  kept : ∀ a ∈ before.attempts, (∃ item ∈ after.items, item.id = a.workItem) →
    ∃ b ∈ after.attempts, b.token = a.token

theorem Later.refl (db : Database) : Later db db where
  serial := le_rfl
  items := fun item hi _ => ⟨item, hi, rfl⟩
  attempts := fun b hb _ => ⟨b, hb, rfl, rfl, fun _ => rfl⟩
  kept := fun a ha _ => ⟨a, ha, rfl⟩

theorem Later.trans {first second third : Database} (hv : Valid first)
    (h : Later first second) (k : Later second third) : Later first third where
  serial := h.serial.trans k.serial
  items := by
    intro item hi hlt
    obtain ⟨mid, hm, hme⟩ := k.items item hi (lt_of_lt_of_le hlt h.serial)
    obtain ⟨old, ho, hoe⟩ := h.items mid hm (by rw [hme]; exact hlt)
    exact ⟨old, ho, hoe.trans hme⟩
  attempts := by
    intro c hc hlt
    obtain ⟨b, hb, hbt, hbw, hbr⟩ := k.attempts c hc (lt_of_lt_of_le hlt h.serial)
    obtain ⟨a, ha, hat, haw, har⟩ := h.attempts b hb (by rw [hbt]; exact hlt)
    refine ⟨a, ha, hat.trans hbt, haw.trans hbw, fun hr => ?_⟩
    have hba : b = a := har hr
    subst hba
    exact hbr hr
  kept := by
    intro a ha hex
    obtain ⟨item, hi, hid⟩ := hex
    obtain ⟨own, hown, howni, _⟩ := hv.owners a ha
    have hlt : a.workItem < first.serial := howni ▸ hv.idsUsed own hown
    have hlate : item.id < second.serial := by
      rw [hid]
      exact lt_of_lt_of_le hlt h.serial
    obtain ⟨mid, hm, hme⟩ := k.items item hi hlate
    obtain ⟨b, hb, hbt⟩ := h.kept a ha ⟨mid, hm, hme.trans hid⟩
    obtain ⟨a', ha', hat', haw', _⟩ := h.attempts b hb (by rw [hbt]; exact hv.tokensUsed a ha)
    have haa : a' = a := hv.attempt_eq ha' ha (hat'.trans hbt)
    subst haa
    obtain ⟨c, hc, hct⟩ := k.kept b hb ⟨item, hi, hid.trans haw'⟩
    exact ⟨c, hc, hct.trans hbt⟩

variable {retry take : WorkItem → Prop}

theorem grant_later (item : WorkItem) (now leaseUntil : Instant) :
    Later db (db.grant item now leaseUntil) where
  serial := Nat.le_succ _
  items := by
    intro row hrow _
    obtain ⟨old, ho, rfl⟩ := mem_granted_items.mp hrow
    exact ⟨old, ho, (revised_id (f := (·.lease now leaseUntil db.serial)) fun _ => rfl).symm⟩
  attempts := by
    intro b hb hlt
    cases mem_granted_attempts.mp hb with
    | inl hb => exact ⟨b, hb, rfl, rfl, fun _ => rfl⟩
    | inr he =>
      subst he
      exact absurd hlt (lt_irrefl _)
  kept := fun a ha _ => ⟨a, mem_granted_attempts.mpr (.inl ha), rfl⟩

/-- A rewriting of one attempt keeps the recorded rows when that attempt has
no outcome yet or is rewritten to itself. -/
theorem completed_later {a : JobAttempt} {items : List WorkItem} {workspaces : List Workspace}
    {outcome : JobAttemptOutcome} {now : Instant} {category : Option FailureCategory}
    (hv : Valid db) (ha : a ∈ db.attempts)
    (hsame : a.outcome ≠ none → a.complete outcome now category = a)
    (hitems : ∀ row ∈ items, ∃ old ∈ db.items, old.id = row.id) :
    Later db { db with
      workspaces := workspaces
      items := items
      attempts := revise JobAttempt.token a.token (·.complete outcome now category)
        db.attempts } where
  serial := le_rfl
  items := fun row hrow _ => hitems row hrow
  attempts := by
    intro b hb _
    obtain ⟨old, ho, rfl⟩ := mem_completed.mp hb
    refine ⟨old, ho, completed_keeps.1.symm, completed_keeps.2.1.symm, fun hr => ?_⟩
    by_cases he : old.token = a.token
    · have hoa : old = a := hv.attempt_eq ho ha he
      rw [if_pos he]
      subst hoa
      exact hsame hr
    · rw [if_neg he]
  kept := fun b hb _ => ⟨_, mem_completed.mpr ⟨b, hb, rfl⟩, completed_keeps.1⟩

theorem purge_later (hv : Valid db) (id : ℕ) : Later db (db.purged id) where
  serial := le_rfl
  items := fun item hi _ => ⟨item, List.mem_of_mem_filter hi, rfl⟩
  attempts := fun b hb _ => ⟨b, List.mem_of_mem_filter hb, rfl, rfl, fun _ => rfl⟩
  kept := by
    intro a ha hex
    obtain ⟨item, hi, hid⟩ := hex
    obtain ⟨hi, hw⟩ := List.mem_filter.mp hi
    obtain ⟨own, hown, howni, howw⟩ := hv.owners a ha
    have he : own = item := hv.item_eq hown hi (howni.trans hid.symm)
    subst he
    exact ⟨a, List.mem_filter.mpr ⟨ha, by rw [← howw]; exact hw⟩, rfl⟩

theorem move_later {after : Database} (hv : Valid db) (m : Move Unrecorded retry take db after) :
    Later db after := by
  cases m with
  | grant mem claimable _ later => exact grant_later _ _ _
  | expire attempt mem owner outdated allowed shape =>
    exact completed_later hv attempt (fun hr => unrecorded_expired hr allowed)
      fun row hrow => ⟨row, hrow, rfl⟩
  | @finish a item state availableAt now outcome category workspaces attempt mem owner current
      finish again =>
    refine completed_later hv attempt (fun hr => absurd (hv.owner mem attempt current).2 hr)
      fun row hrow => ?_
    obtain ⟨old, ho, rfl⟩ := mem_closed.mp hrow
    exact ⟨old, ho, (revised_id (f := (·.close state availableAt now)) fun _ => rfl).symm⟩
  | @add item fresh =>
    constructor
    · exact Nat.le_succ _
    · intro row hrow hlt
      cases List.mem_append.mp hrow with
      | inl ho => exact ⟨row, ho, rfl⟩
      | inr he =>
        rw [List.mem_singleton.mp he, fresh.id] at hlt
        exact absurd hlt (lt_irrefl _)
    · exact fun b hb _ => ⟨b, hb, rfl, rfl, fun _ => rfl⟩
    · exact fun a ha _ => ⟨a, ha, rfl⟩
  | purge id => exact purge_later hv id
  | elsewhere workspaces cleanups later =>
    constructor
    · exact later
    · exact fun item hi _ => ⟨item, hi, rfl⟩
    · exact fun b hb _ => ⟨b, hb, rfl, rfl, fun _ => rfl⟩
    · exact fun a ha _ => ⟨a, ha, rfl⟩

theorem moves_later {after : Database} (hv : Valid db) (m : Moves Unrecorded retry take db after) :
    Later db after := by
  induction m with
  | refl => exact Later.refl db
  | tail first last ih => exact ih.trans hv (move_later (moves_valid hv first) last)

theorem call_later (hv : Valid db) {c : Command} (h : Orderly db c) :
    Later db (call settings db c) := by
  have ha : Allows Unrecorded (fun _ => True) (fun _ => True) db c :=
    ⟨fun token now hc a ha ht _ => h.completion token now hc a ha ht,
      fun _ _ _ _ _ _ _ _ _ => trivial, fun _ _ _ _ _ _ _ => trivial⟩
  unfold call
  cases hx : perform settings db c with
  | error e => exact Later.refl db
  | ok after => exact moves_later hv (perform_moves hv ha hx)

theorem run_later {cs : List Command} (hv : Valid db)
    (h : Along (call settings) Orderly db cs) : Later db (cs.foldl (call settings) db) := by
  induction cs generalizing db with
  | nil => exact Later.refl db
  | cons c cs ih => exact (call_later hv h.1).trans hv (ih (call_valid settings hv c) h.2)

theorem claimRows_error {now : Instant} {leaseDuration : ℤ} {items : List WorkItem}
    {db : Database} {k : Constraint}
    (h : claimRows now leaseDuration items db = .error (.integrity k)) :
    items ≠ [] ∧ k = .attemptLeaseAfterGrant ∧
      ∃ leaseUntil, shift now leaseDuration = some leaseUntil ∧ ¬now < leaseUntil := by
  induction items generalizing db with
  | nil => simp [claimRows] at h
  | cons item rest ih =>
    refine ⟨List.cons_ne_nil _ _, ?_⟩
    simp only [claimRows, bind_eq_error] at h
    rcases h with h | ⟨⟨work, db₁⟩, _, h⟩
    · simp only [claimRow, bind_eq_error, fetch_error, fetch_ok] at h
      rcases h with ⟨_, h⟩ | ⟨leaseUntil, hs, h⟩
      · simp at h
      rcases h with h | ⟨_, _, h⟩
      · obtain ⟨hl, hk⟩ := demand_error.mp h
        exact ⟨(JobFailure.integrity.inj hk).symm, leaseUntil, hs, hl⟩
      rcases h with ⟨_, h⟩ | ⟨_, _, h⟩ <;> simp at h
    · rcases h with h | ⟨_, _, h⟩
      · exact (ih h).2
      · simp at h

theorem claim_passes {request : Request} {now : Instant} {leaseDuration : ℤ} {locked : List ℕ}
    (h : Orderly db (.claim request now leaseDuration locked)) (k : Constraint) :
    perform settings db (.claim request now leaseDuration locked) ≠ .error (.integrity k) := by
  intro he
  obtain ⟨hne, _, leaseUntil, hs, hl⟩ := claimRows_error (map_eq_error.mp he)
  exact hl (h.lease request now leaseDuration locked rfl hne leaseUntil hs)

theorem completion_passes (hv : Valid db) {c : Command} (h : Orderly db c) {token : ℕ}
    {now : Instant} (hc : c.completion = some (token, now)) (k : Constraint) :
    perform settings db c ≠ .error (.integrity k) := by
  intro he
  by_cases hk : ∃ a ∈ db.attempts, a.token = token
  · obtain ⟨a, ha, rfl⟩ := hk
    obtain ⟨item, hi, hid, hf⟩ := attemptAndItem_total hv ha
    by_cases ho : item.currentToken = some a.token
    · cases c with
      | markSucceeded t n clock =>
        obtain ⟨rfl, rfl⟩ := Prod.mk.inj (Option.some.inj hc)
        have he := map_eq_error.mp he
        simp only [markSucceeded, hf, ok_bind, ne_eq, ho, not_true_eq_false, if_false,
          current_passes hv ha hi ho .succeeded, bind_eq_error, reduceCtorEq, and_false,
          exists_false, or_false] at he
        obtain ⟨reason, hr⟩ := releaseJob_error he
        simp at hr
      | markFailed t outcome category n clock =>
        obtain ⟨rfl, rfl⟩ := Prod.mk.inj (Option.some.inj hc)
        have he := map_eq_error.mp he
        cases outcome with
        | ready availableAt =>
          simp [markFailed, hf, ho, RetryOutcome.state,
            current_passes hv ha hi ho (.retried category)] at he
        | failed =>
          simp only [markFailed, hf, ok_bind, ne_eq, ho, not_true_eq_false, if_false,
            RetryOutcome.state, current_passes hv ha hi ho (.failed category), if_true,
            bind_eq_error, reduceCtorEq, and_false, exists_false, or_false] at he
          obtain ⟨reason, hr⟩ := releaseJob_error he
          simp at hr
      | _ => simp [Command.completion] at hc
    · have hall := hv.outdated ha hi hid ho
      rw [perform_outdated hv hc ha hall, completeAttempt_total] at he
      · simp at he
      · intro b hb ht
        have hab : b = a := hv.attempt_eq hb ha ht
        subst hab
        exact expired_shape.mpr
          (unrecorded_category (hv.shapes b ha) (h.completion b.token now hc b ha rfl))
  · have hl : lookup JobAttempt.token db.attempts token = none :=
      lookup_none.mpr fun a ha ht => hk ⟨a, ha, ht⟩
    cases c with
    | markSucceeded t n clock =>
      obtain ⟨rfl, rfl⟩ := Prod.mk.inj (Option.some.inj hc)
      simp [perform, markSucceeded, attemptAndItem, hl, fetch, Functor.map, Except.map] at he
    | markFailed t outcome category n clock =>
      obtain ⟨rfl, rfl⟩ := Prod.mk.inj (Option.some.inj hc)
      simp [perform, markFailed, attemptAndItem, hl, fetch, Functor.map, Except.map] at he
    | _ => simp [Command.completion] at hc

/-- Along the whole run recorded outcomes last, outdated tokens do nothing to
others, an item succeeds at most once and no claim or completion call violates
a check. -/
structure Upheld (settings : Settings) (cs : List Command) : Prop where
  lasting : ∀ before after rest, cs = before ++ after ++ rest →
    ∀ a ∈ (reached settings before).attempts, a.outcome ≠ none →
    ∀ b ∈ (reached settings (before ++ after)).attempts, b.token = a.token →
      b.outcome = a.outcome ∧ b.completedAt = a.completedAt
  outdated : ∀ before c rest, cs = before ++ c :: rest →
    ∀ token now, c.completion = some (token, now) →
    (∀ item ∈ (reached settings before).items, item.currentToken ≠ some token) →
    (reached settings (before ++ [c])).items = (reached settings before).items ∧
      (reached settings (before ++ [c])).workspaces = (reached settings before).workspaces ∧
      ∀ a, a.token ≠ token → (a ∈ (reached settings (before ++ [c])).attempts ↔
        a ∈ (reached settings before).attempts)
  single : ∀ before after rest, cs = before ++ after ++ rest →
    ∀ a ∈ (reached settings before).attempts,
    ∀ b ∈ (reached settings (before ++ after)).attempts, a.workItem = b.workItem →
    a.outcome = some .succeeded → b.outcome = some .succeeded → a.token = b.token
  checks : ∀ before c rest, cs = before ++ c :: rest → c.ofAttempts = true →
    ∀ k, perform settings (reached settings before) c ≠ .error (.integrity k)

theorem single_ever {before after : Database} (hv : Valid before) (hva : Valid after)
    (h : Later before after) {a b : JobAttempt} (ha : a ∈ before.attempts)
    (hb : b ∈ after.attempts) (hw : a.workItem = b.workItem)
    (hsa : a.outcome = some .succeeded) (hsb : b.outcome = some .succeeded) :
    a.token = b.token := by
  obtain ⟨item, hi, hid, _⟩ := hva.owners b hb
  obtain ⟨c, hc, hct⟩ := h.kept a ha ⟨item, hi, hid.trans hw.symm⟩
  have hlt : c.token < before.serial := by
    rw [hct]
    exact hv.tokensUsed a ha
  obtain ⟨a', ha', hat, _, hrec⟩ := h.attempts c hc hlt
  have haa : a' = a := hv.attempt_eq ha' ha (hat.trans hct)
  subst haa
  have hca : c = a' := hrec (by simp [hsa])
  subst hca
  rw [hva.single c hc b hb hw hsa hsb]

theorem orderly_upheld {cs : List Command}
    (h : Along (call settings) Orderly Database.empty cs) : Upheld settings cs where
  lasting := by
    intro before after rest he a ha hr b hb ht
    subst he
    have hv := reached_valid settings before
    have halong := (along_append.mp (along_append.mp h).1).2
    have hl : Later (reached settings before) (reached settings (before ++ after)) := by
      rw [reached_append]
      exact run_later hv halong
    have hlt : b.token < (reached settings before).serial := by
      rw [ht]
      exact hv.tokensUsed a ha
    obtain ⟨a', ha', hat, _, hrec⟩ := hl.attempts b hb hlt
    have haa : a' = a := hv.attempt_eq ha' ha (hat.trans ht)
    subst haa
    rw [hrec hr]
    exact ⟨rfl, rfl⟩
  outdated := by
    intro before c rest _ token now hc ho
    rw [reached_append]
    exact outdated_no_effect (reached_valid settings before) hc ho
  single := by
    intro before after rest he a ha b hb hw hsa hsb
    subst he
    have hv := reached_valid settings before
    have halong := (along_append.mp (along_append.mp h).1).2
    have hl : Later (reached settings before) (reached settings (before ++ after)) := by
      rw [reached_append]
      exact run_later hv halong
    exact single_ever hv (reached_valid settings _) hl ha hb hw hsa hsb
  checks := by
    intro before c rest he hof k
    have hv := reached_valid settings before
    have hord : Orderly (reached settings before) c := along_iff.mp h before c rest he
    cases c with
    | claim request now leaseDuration locked => exact claim_passes hord k
    | markSucceeded token now clock => exact completion_passes hv hord rfl k
    | markFailed token outcome category now clock => exact completion_passes hv hord rfl k
    | _ => simp [Command.ofAttempts] at hof

/-- A call that repeats a recorded completion either violates the check or
rewrites the recorded outcome. -/
theorem upheld_unrecorded {cs before rest : List Command} {c : Command}
    (h : Upheld settings cs) (he : cs = before ++ c :: rest) {a : JobAttempt} {now : Instant}
    (hc : c.completion = some (a.token, now)) (ha : a ∈ (reached settings before).attempts) :
    Unrecorded a now := by
  by_cases hr : a.outcome = none
  · exact .inl hr
  right
  have hv := reached_valid settings before
  have hperform : perform settings (reached settings before) c =
      completeAttempt a.token .expired now none (reached settings before) :=
    perform_outdated hv hc ha (recorded_outdated hv ha hr)
  have hof : c.ofAttempts = true := by
    cases c <;> first | rfl | simp [Command.completion] at hc
  cases hx : completeAttempt a.token .expired now none (reached settings before) with
  | error e =>
    have hfailure : JobFailure.integrity .attemptOutcomeShape = e := by
      simp only [completeAttempt, bind_eq_error, demand_error, reduceCtorEq, and_false,
        exists_false, or_false] at hx
      exact hx.2
    subst hfailure
    exact absurd (hperform.trans hx) (h.checks before c rest he hof .attemptOutcomeShape)
  | ok after =>
    obtain ⟨_, hafter⟩ := completeAttempt_ok hx
    have hreached : reached settings (before ++ [c]) = after := by
      rw [reached_append]
      simp [call, hperform, hx, settle]
    have hmem : a.complete .expired now none ∈ (reached settings (before ++ [c])).attempts := by
      rw [hreached, hafter]
      exact mem_completed.mpr ⟨a, ha, by rw [if_pos rfl]⟩
    obtain ⟨ho, hcompleted⟩ := h.lasting before [c] rest (by simp [he]) a ha hr _ hmem rfl
    exact ⟨ho.symm, hcompleted.symm⟩

theorem upheld_lease {cs before rest : List Command} {request : Request} {now : Instant}
    {leaseDuration : ℤ} {locked : List ℕ} (h : Upheld settings cs)
    (he : cs = before ++ .claim request now leaseDuration locked :: rest)
    (hne : candidates request now (fun id => locked.contains id) (reached settings before) ≠ [])
    {leaseUntil : Instant} (hs : shift now leaseDuration = some leaseUntil) :
    now < leaseUntil := by
  by_contra hl
  refine h.checks before _ rest he rfl .attemptLeaseAfterGrant ?_
  obtain ⟨item, items, hi⟩ := List.exists_cons_of_ne_nil hne
  refine map_eq_error.mpr ?_
  rw [claim, hi]
  simp [claimRows, claimRow, hs, fetch, demand, hl]

/-- The history of attempts is kept exactly by the runs in which no completion
call repeats a recorded completion and no claim asks for an empty lease. -/
theorem attempts_recorded_once (settings : Settings) (cs : List Command) :
    Upheld settings cs ↔ Along (call settings) Orderly Database.empty cs := by
  constructor
  · intro h
    refine along_iff.mpr fun before c rest he => ⟨?_, ?_⟩
    · intro token now hc a ha ht
      subst ht
      exact upheld_unrecorded h he hc ha
    · intro request now leaseDuration locked hc hne leaseUntil hs
      subst hc
      exact upheld_lease h he hne hs
  · exact orderly_upheld

/-- A success that is reported twice. -/
def reportedOnce : List Command :=
  [.createWorkspace 1000, .enqueue 0 .importValidation (.importAttempt 7) 3 0 0,
    .claim (.one 1) 0 60 [], .markSucceeded 2 10 10]

theorem repeated_success_expires :
    ¬Upheld sampleSettings (reportedOnce ++ [.markSucceeded 2 20 20] ++ []) := by
  intro h
  have hfirst : (⟨0, 1, 2, 0, 60, some 10, some .succeeded, none⟩ : JobAttempt) ∈
      (reached sampleSettings reportedOnce).attempts := by decide +kernel
  have hsecond : (⟨0, 1, 2, 0, 60, some 20, some .expired, none⟩ : JobAttempt) ∈
      (reached sampleSettings (reportedOnce ++ [.markSucceeded 2 20 20])).attempts := by
    decide +kernel
  have hsame := h.lasting reportedOnce [.markSucceeded 2 20 20] [] rfl _ hfirst (by simp) _
    hsecond rfl
  simp at hsame

end Workbench.AttemptHistory
