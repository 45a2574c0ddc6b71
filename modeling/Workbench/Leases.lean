import Workbench.JobRuns

/-!
# The leases of one item

An item is granted again only after its last attempt was recorded as failed or
outlived its lease. So the leases of an item follow each other: at any instant
at most one attempt that has not failed holds one.
-/

set_option autoImplicit false

namespace Workbench.Leases
open Workbench.Tables Workbench.Calendar Workbench.Workspaces Workbench.Jobs Workbench.JobRuns

structure Next (db : Database) (a next : JobAttempt) : Prop where
  mem : next ∈ db.attempts
  item : next.workItem = a.workItem
  later : a.token < next.token
  first : ∀ b ∈ db.attempts, b.workItem = a.workItem → a.token < b.token → next.token ≤ b.token

/-- The attempt failed, or its lease was over when the next one was granted. -/
def Passed (db : Database) (a : JobAttempt) : Prop :=
  a.outcome = some .failed ∨ ∃ next, Next db a next ∧ a.leaseUntil < next.leasedAt

/-- The attempt is the last one of its item, which it still holds or has
completed. -/
structure Holding (db : Database) (item : WorkItem) (a : JobAttempt) : Prop where
  last : ∀ b ∈ db.attempts, b.workItem = item.id → b.token ≤ a.token
  held : item.currentToken = some a.token ∧ item.leaseUntil = some a.leaseUntil ∨
    item.state = .succeeded

/-- The current attempt of an item is its last one, and every attempt is passed
or holds the item. -/
structure Sequenced (db : Database) : Prop where
  current : ∀ item ∈ db.items, ∀ token, item.currentToken = some token →
    ∀ b ∈ db.attempts, b.workItem = item.id → b.token ≤ token
  placed : ∀ item ∈ db.items, ∀ a ∈ db.attempts, a.workItem = item.id →
    Passed db a ∨ Holding db item a

theorem empty_sequenced : Sequenced Database.empty where
  current := by simp [Database.empty]
  placed := by simp [Database.empty]

section Moves
variable {db after : Database} {item : WorkItem} {a a' next next' : JobAttempt}

/-- The next attempt stays the next one when rows are rewritten under their
tokens and later attempts are added. -/
theorem Next.carried (h : Next db a next)
    (hrows : ∀ b ∈ after.attempts, next.token ≤ b.token ∨
      ∃ old ∈ db.attempts, b.token = old.token ∧ b.workItem = old.workItem)
    (hmem : next' ∈ after.attempts) (hnext : next'.token = next.token)
    (hitem : next'.workItem = next.workItem) (ha : a'.token = a.token)
    (haitem : a'.workItem = a.workItem) : Next after a' next' where
  mem := hmem
  item := by rw [hitem, haitem, h.item]
  later := by
    rw [ha, hnext]
    exact h.later
  first := by
    intro b hb hw hlt
    rw [hnext]
    rcases hrows b hb with hle | ⟨old, ho, ht, hwo⟩
    · exact hle
    · rw [ht]
      exact h.first old ho (by rw [← hwo, hw, haitem]) (by rw [← ht, ← ha]; exact hlt)

theorem Passed.of_attempts (h : Passed db a) (hsame : after.attempts = db.attempts) :
    Passed after a := by
  refine h.imp_right ?_
  rintro ⟨next, hnext, hlt⟩
  exact ⟨next, hnext.carried (fun b hb => .inr ⟨b, hsame ▸ hb, rfl, rfl⟩) (hsame ▸ hnext.mem) rfl
    rfl rfl rfl, hlt⟩

theorem Holding.of_attempts (h : Holding db item a) (hsame : after.attempts = db.attempts) :
    Holding after item a :=
  ⟨fun b hb hw => h.last b (hsame ▸ hb) hw, h.held⟩

theorem granted_rows {now leaseUntil : Instant} {token : ℕ}
    (ht : token < db.serial) : ∀ b ∈ (db.grant item now leaseUntil).attempts, token ≤ b.token ∨
      ∃ old ∈ db.attempts, b.token = old.token ∧ b.workItem = old.workItem := by
  intro b hb
  cases mem_granted_attempts.mp hb with
  | inl hb => exact .inr ⟨b, hb, rfl, rfl⟩
  | inr he =>
    subst he
    exact .inl ht.le

theorem Passed.granted {now leaseUntil : Instant} (hv : Valid db) (h : Passed db a) :
    Passed (db.grant item now leaseUntil) a := by
  refine h.imp_right ?_
  rintro ⟨next, hnext, hlt⟩
  exact ⟨next, hnext.carried (granted_rows (hv.tokensUsed next hnext.mem))
    (mem_granted_attempts.mpr (.inl hnext.mem)) rfl rfl rfl rfl, hlt⟩

theorem claimable_over {now : Instant} (hv : Valid db) (mem : item ∈ db.items)
    (claimable : Claimable now item) (h : Holding db item a) : a.leaseUntil < now := by
  rcases h.held with ⟨hcurrent, hlease⟩ | hdone
  · rcases claimable with ⟨hready, -⟩ | ⟨-, until_, huntil, hlt⟩
    · rw [hv.leased mem hcurrent] at hready
      simp at hready
    · obtain rfl := Option.some.inj (hlease.symm.trans huntil)
      exact hlt
  · rcases claimable_state claimable with hs | hs
    · simp [hs] at hdone
    · simp [hs] at hdone

theorem grant_sequenced (hv : Valid db) (h : Sequenced db) {now leaseUntil : Instant}
    (mem : item ∈ db.items) (claimable : Claimable now item) :
    Sequenced (db.grant item now leaseUntil) where
  current := by
    intro row hrow token hc b hb hw
    obtain ⟨old, ho, rfl⟩ := mem_granted_items.mp hrow
    by_cases he : old.id = item.id
    · rw [if_pos he] at hc
      obtain rfl : db.serial = token := Option.some.inj hc
      cases mem_granted_attempts.mp hb with
      | inl hb => exact (hv.tokensUsed b hb).le
      | inr hb =>
        subst hb
        exact le_rfl
    · rw [if_neg he] at hc hw
      cases mem_granted_attempts.mp hb with
      | inl hb => exact h.current old ho token hc b hb hw
      | inr hb =>
        subst hb
        exact absurd hw.symm he
  placed := by
    intro row hrow x hx hw
    obtain ⟨old, ho, rfl⟩ := mem_granted_items.mp hrow
    by_cases he : old.id = item.id
    · rw [if_pos he] at hw ⊢
      obtain rfl : old = item := hv.item_eq ho mem he
      cases mem_granted_attempts.mp hx with
      | inr hx =>
        subst hx
        refine .inr ⟨fun b hb _ => ?_, .inl ⟨rfl, rfl⟩⟩
        cases mem_granted_attempts.mp hb with
        | inl hb => exact (hv.tokensUsed b hb).le
        | inr hb =>
          subst hb
          exact le_rfl
      | inl hx =>
        refine .inl ?_
        rcases h.placed old ho x hx hw with hp | hh
        · exact hp.granted hv
        · -- the attempt that held the item is passed by the one granted now
          refine .inr ⟨_, ⟨mem_granted_attempts.mpr (.inr rfl), hw.symm, hv.tokensUsed x hx, ?_⟩,
            claimable_over hv mem claimable hh⟩
          intro b hb hbw hlt
          cases mem_granted_attempts.mp hb with
          | inl hb => exact absurd (hh.last b hb (hbw.trans hw)) (not_le.mpr hlt)
          | inr hb =>
            subst hb
            exact le_rfl
    · rw [if_neg he] at hw ⊢
      have hold : ∀ b ∈ (db.grant item now leaseUntil).attempts, b.workItem = old.id →
          b ∈ db.attempts := by
        intro b hb hbw
        cases mem_granted_attempts.mp hb with
        | inl hb => exact hb
        | inr hb =>
          subst hb
          exact absurd hbw.symm he
      exact (h.placed old ho x (hold x hx hw) hw).imp (·.granted hv)
        fun hh => ⟨fun b hb hbw => hh.last b (hold b hb hbw) hbw, hh.held⟩

theorem completed_rows {attempts : List JobAttempt} {token least : ℕ} {now : Instant}
    {outcome : JobAttemptOutcome} {category : Option FailureCategory}
    (hrows : attempts =
      revise JobAttempt.token token (·.complete outcome now category) db.attempts) :
    ∀ b ∈ attempts, least ≤ b.token ∨
      ∃ old ∈ db.attempts, b.token = old.token ∧ b.workItem = old.workItem := by
  intro b hb
  obtain ⟨old, ho, rfl⟩ := mem_completed.mp (hrows ▸ hb)
  exact .inr ⟨old, ho, completed_keeps.1, completed_keeps.2.1⟩

/-- An attempt that is passed stays so when another one is rewritten, or when it
had not failed itself. -/
theorem Passed.completed {token : ℕ} {now : Instant} {outcome : JobAttemptOutcome}
    {category : Option FailureCategory} (h : Passed db a)
    (hrows : after.attempts =
      revise JobAttempt.token token (·.complete outcome now category) db.attempts)
    (hfailed : a.token = token → a.outcome ≠ some .failed) :
    Passed after (if a.token = token then a.complete outcome now category else a) := by
  rcases h with hf | ⟨next, hnext, hlt⟩
  · rw [if_neg fun he => hfailed he hf]
    exact .inl hf
  · refine .inr ⟨_, hnext.carried (completed_rows hrows)
      (hrows ▸ mem_completed.mpr ⟨next, hnext.mem, rfl⟩) completed_keeps.1 completed_keeps.2.1
      completed_keeps.1 completed_keeps.2.1, ?_⟩
    rw [completed_keeps.2.2.2.1, completed_keeps.2.2.2.2]
    exact hlt

theorem Holding.completed {row : WorkItem} {token : ℕ} {now : Instant}
    {outcome : JobAttemptOutcome} {category : Option FailureCategory} (h : Holding db row a)
    (hrows : after.attempts =
      revise JobAttempt.token token (·.complete outcome now category) db.attempts) :
    Holding after row (if a.token = token then a.complete outcome now category else a) := by
  refine ⟨fun b hb hw => ?_, ?_⟩
  · obtain ⟨old, ho, rfl⟩ := mem_completed.mp (hrows ▸ hb)
    rw [completed_keeps.2.1] at hw
    rw [completed_keeps.1, completed_keeps.1]
    exact h.last old ho hw
  · rw [completed_keeps.1, completed_keeps.2.2.2.2]
    exact h.held

theorem expire_sequenced (hv : Valid db) (h : Sequenced db) {now : Instant}
    (attempt : a ∈ db.attempts) (shape : (a.complete .expired now none).OutcomeShape) :
    Sequenced (expiredIn db a.token now) where
  current := by
    intro row hrow token hc b hb hw
    obtain ⟨old, ho, rfl⟩ := mem_completed.mp hb
    rw [completed_keeps.2.1] at hw
    rw [completed_keeps.1]
    exact h.current row hrow token hc old ho hw
  placed := by
    intro row hrow x hx hw
    obtain ⟨old, ho, rfl⟩ := mem_completed.mp hx
    rw [completed_keeps.2.1] at hw
    -- a failed attempt carries a category, which an expired one may not
    have hfailed : old.token = a.token → old.outcome ≠ some .failed := by
      intro he hf
      obtain rfl : old = a := hv.attempt_eq ho attempt he
      have hs := hv.shapes old ho
      simp only [JobAttempt.OutcomeShape, hf, expired_shape.mp shape] at hs
      simp at hs
    exact (h.placed row hrow old ho hw).imp (·.completed rfl hfailed) (·.completed rfl)

theorem finish_sequenced (hv : Valid db) (h : Sequenced db) {state : JobState}
    {availableAt now : Instant} {outcome : JobAttemptOutcome}
    {category : Option FailureCategory} (workspaces : List Workspace)
    (attempt : a ∈ db.attempts) (mem : item ∈ db.items)
    (current : item.currentToken = some a.token) (finish : Finish state outcome category) :
    Sequenced (finishedIn db item.id a.token state availableAt now outcome category
      workspaces) where
  current := by
    intro row hrow token hc b hb hw
    obtain ⟨old, ho, rfl⟩ := mem_closed.mp hrow
    obtain ⟨x, hx, rfl⟩ := mem_completed.mp hb
    rw [completed_keeps.2.1] at hw
    rw [completed_keeps.1]
    by_cases he : old.id = item.id
    · rw [if_pos he] at hc
      simp [WorkItem.close] at hc
    · rw [if_neg he] at hc hw
      exact h.current old ho token hc x hx hw
  placed := by
    intro row hrow y hy hw
    obtain ⟨old, ho, rfl⟩ := mem_closed.mp hrow
    obtain ⟨x, hx, rfl⟩ := mem_completed.mp hy
    obtain ⟨hown, hopen⟩ := hv.owner mem attempt current
    rw [completed_keeps.2.1, revised_id (f := (·.close state availableAt now)) fun _ => rfl] at hw
    have hfailed : x.token = a.token → x.outcome ≠ some .failed := by
      intro he hf
      obtain rfl : x = a := hv.attempt_eq hx attempt he
      simp [hopen] at hf
    by_cases he : old.id = item.id
    · rw [if_pos he]
      obtain rfl : old = item := hv.item_eq ho mem he
      by_cases hxa : x.token = a.token
      · cases finish with
        | succeeded =>
          refine .inr ⟨fun b hb hbw => ?_, .inr rfl⟩
          obtain ⟨z, hz, rfl⟩ := mem_completed.mp hb
          rw [completed_keeps.2.1] at hbw
          rw [completed_keeps.1, completed_keeps.1, hxa]
          exact h.current old ho a.token current z hz hbw
        | retried category =>
          rw [if_pos hxa]
          exact .inl (.inl rfl)
        | failed category =>
          rw [if_pos hxa]
          exact .inl (.inl rfl)
      · refine .inl ?_
        rcases h.placed old ho x hx hw with hp | hh
        · exact hp.completed rfl hfailed
        · rcases hh.held with ⟨hx', -⟩ | hdone
          · exact absurd (Option.some.inj (hx'.symm.trans current)) hxa
          · rw [hv.leased mem current] at hdone
            simp at hdone
    · rw [if_neg he]
      exact (h.placed old ho x hx hw).imp (·.completed rfl hfailed) (·.completed rfl)

theorem add_sequenced (hv : Valid db) (h : Sequenced db) (fresh : Fresh db.serial item) :
    Sequenced { db with items := db.items ++ [item], serial := db.serial+1 } where
  current := by
    intro row hrow token hc b hb hw
    cases List.mem_append.mp hrow with
    | inl ho => exact h.current row ho token hc b hb hw
    | inr he =>
      rw [List.mem_singleton.mp he, fresh.currentToken] at hc
      simp at hc
  placed := by
    intro row hrow x hx hw
    cases List.mem_append.mp hrow with
    | inl ho =>
      exact (h.placed row ho x hx hw).imp (·.of_attempts rfl) (·.of_attempts rfl)
    | inr he =>
      obtain ⟨old, ho, hid, -⟩ := hv.owners x hx
      have hlt := hv.idsUsed old ho
      rw [List.mem_singleton.mp he, fresh.id] at hw
      omega

theorem purge_sequenced (hv : Valid db) (h : Sequenced db) (id : ℕ) :
    Sequenced (db.purged id) where
  current := fun row hrow token hc b hb hw => h.current row (List.mem_of_mem_filter hrow) token hc b
    (List.mem_of_mem_filter hb) hw
  placed := by
    intro row hrow x hx hw
    obtain ⟨hxdb, hkept⟩ := List.mem_filter.mp hx
    rcases h.placed row (List.mem_of_mem_filter hrow) x hxdb hw with hp | hh
    · refine .inl (hp.imp_right ?_)
      rintro ⟨next, hnext, hlt⟩
      -- the attempts of one item belong to one workspace
      obtain ⟨own, hown, hid, hws⟩ := hv.owners x hxdb
      obtain ⟨own', hown', hid', hws'⟩ := hv.owners next hnext.mem
      obtain rfl : own' = own := hv.item_eq hown' hown (hid'.trans (hnext.item.trans hid.symm))
      have hmem : next ∈ (db.purged id).attempts :=
        List.mem_filter.mpr ⟨hnext.mem, by rw [← hws', hws]; exact hkept⟩
      exact ⟨next, hnext.carried (fun b hb => .inr ⟨b, List.mem_of_mem_filter hb, rfl, rfl⟩) hmem
        rfl rfl rfl rfl, hlt⟩
    · exact .inr ⟨fun b hb hbw => hh.last b (List.mem_of_mem_filter hb) hbw, hh.held⟩

variable {may : JobAttempt → Instant → Prop} {retry take : WorkItem → Prop}

theorem move_sequenced (hv : Valid db) (h : Sequenced db) (m : Move may retry take db after) :
    Sequenced after := by
  cases m with
  | grant mem claimable _ later => exact grant_sequenced hv h mem claimable
  | expire attempt mem owner outdated _ shape => exact expire_sequenced hv h attempt shape
  | finish workspaces attempt mem _ current finish _ =>
    exact finish_sequenced hv h workspaces attempt mem current finish
  | add fresh => exact add_sequenced hv h fresh
  | purge id => exact purge_sequenced hv h id
  | elsewhere workspaces cleanups later =>
    exact ⟨h.current, fun row hrow x hx hw =>
      (h.placed row hrow x hx hw).imp (·.of_attempts rfl) (·.of_attempts rfl)⟩

theorem moves_sequenced (hv : Valid db) (h : Sequenced db) (m : Moves may retry take db after) :
    Sequenced after := by
  induction m with
  | refl => exact h
  | tail steps step ih => exact move_sequenced (moves_valid hv steps) ih step

end Moves

theorem reached_sequenced (settings : Settings) (cs : List Command) :
    Sequenced (reached settings cs) := by
  have hboth : Valid (reached settings cs) ∧ Sequenced (reached settings cs) := by
    refine foldl_keeps (P := fun db => Valid db ∧ Sequenced db) (fun db c h _ => ?_)
      ⟨empty_valid, empty_sequenced⟩ (along_true _ cs)
    exact ⟨call_valid settings h.1 c, settle_keeps h.2 fun _ hs =>
      moves_sequenced h.1 h.2 (perform_moves h.1 (allows_any db c) hs)⟩
  exact hboth.2

/-- The clocks that stamped the grants of an item did not run backwards. -/
def InOrder (db : Database) : Prop := ∀ a ∈ db.attempts, ∀ b ∈ db.attempts,
  a.workItem = b.workItem → a.token < b.token → a.leasedAt ≤ b.leasedAt

/-- The attempt has not failed, and its lease runs at the instant. -/
structure Leasing (db : Database) (a : JobAttempt) (t : Instant) : Prop where
  mem : a ∈ db.attempts
  running : a.outcome ≠ some .failed
  begun : a.leasedAt ≤ t
  until_ : t ≤ a.leaseUntil

theorem passed_of_later {settings : Settings} {cs : List Command} {a b : JobAttempt}
    (ha : a ∈ (reached settings cs).attempts) (hb : b ∈ (reached settings cs).attempts)
    (hitem : a.workItem = b.workItem) (hlt : a.token < b.token) :
    Passed (reached settings cs) a := by
  obtain ⟨item, hi, hid, -⟩ := (reached_valid settings cs).owners a ha
  rcases (reached_sequenced settings cs).placed item hi a ha hid.symm with hp | hh
  · exact hp
  · exact absurd (hh.last b hb (hitem.symm.trans hid.symm)) (not_le.mpr hlt)

/-- In every state of every run an item was granted again only once the attempt
before had failed or its lease was over; so, while the clocks do not run
backwards, at most one attempt of an item holds a lease at an instant. -/
theorem leases_follow (settings : Settings) (cs : List Command) :
    (∀ a ∈ (reached settings cs).attempts, ∀ b ∈ (reached settings cs).attempts,
      a.workItem = b.workItem → a.token < b.token → Passed (reached settings cs) a) ∧
    (InOrder (reached settings cs) → ∀ t a b, Leasing (reached settings cs) a t →
      Leasing (reached settings cs) b t → a.workItem = b.workItem → a = b) := by
  refine ⟨fun a ha b hb hitem hlt => passed_of_later ha hb hitem hlt,
    fun horder t a b ha hb hitem => ?_⟩
  have hnever : ∀ {x y}, Leasing (reached settings cs) x t → Leasing (reached settings cs) y t →
      x.workItem = y.workItem → ¬x.token < y.token := by
    intro x y hx hy hxy hlt
    rcases passed_of_later hx.mem hy.mem hxy hlt with hfailed | ⟨next, hnext, hover⟩
    · exact hx.running hfailed
    · -- the lease of `x` is over before that of `next`, which is not after `y`
      have hle : next.leasedAt ≤ y.leasedAt := by
        rcases (hnext.first y hy.mem hxy.symm hlt).lt_or_eq with hl | he
        · exact horder next hnext.mem y hy.mem (hnext.item.trans hxy) hl
        · rw [(reached_valid settings cs).attempt_eq hnext.mem hy.mem he]
      exact absurd (hover.trans_le (hle.trans hy.begun)) (not_lt.mpr hx.until_)
  refine (reached_valid settings cs).attempt_eq ha.mem hb.mem ?_
  exact le_antisymm (not_lt.mp (hnever hb ha hitem.symm)) (not_lt.mp (hnever ha hb hitem))

end Workbench.Leases
