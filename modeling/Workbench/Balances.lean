import Workbench.Accounts

/-!
# Balanced quotas

The counters stay exact as long as no reservation is left without its item, and
go wrong the moment one is.
-/

set_option autoImplicit false

namespace Workbench.Balances
open Workbench.Listing Workbench.Tables Workbench.Calendar Workbench.Workspaces Workbench.Jobs
open Workbench.JobRuns (withWorkspaces_ok addItem_ok)
open Workbench.Quotas Workbench.Accounts
open Workbench.Raising (bind_ok map_ok demand fetch demand_ok fetch_ok)

structure Kept (settings : Settings) (s : System) : Prop where
  tidy : Tidy settings.limits s.db
  bookIds : (s.books.map Book.id).Nodup
  books : ∀ b ∈ s.books, b.id < s.db.serial ∧ b.workspace < s.db.serial
  resources : ∀ r ∈ s.resources, r.workspace < s.db.serial ∧ r.target.kind ≠ .workspaceCleanup
  callers : (s.calls.map Call.caller).Nodup
  calls : ∀ c ∈ s.calls, c.reserved = true → c.workspace < s.db.serial

def jobs (s : System) (workspace : ℕ) : ℕ :=
  openItems s.db.items workspace + pending s.calls workspace

def Shift (s t : System) : Prop :=
  ∀ y ∈ t.db.workspaces, y.state = .active → ∃ x ∈ s.db.workspaces, x.state = .active ∧
    x.id = y.id ∧ y.usage.activeJobs + jobs s y.id = x.usage.activeJobs + jobs t y.id ∧
      y.usage.books + bookCount s.books y.id = x.usage.books + bookCount t.books y.id

def withUsage (s : System) (id : ℕ) (usage : QuotaAmounts) : System :=
  { s with db := { s.db with workspaces := setUsage id usage s.db.workspaces } }

section Steps
variable {settings : Settings} {s t : System}

theorem start_kept (settings : Settings) : Kept settings start where
  tidy := empty_tidy settings.limits
  bookIds := List.nodup_nil
  books := fun b hb => by cases hb
  resources := fun r hr => by cases hr
  callers := List.nodup_nil
  calls := fun c hc => by cases hc

theorem shift_balanced (h : Balanced s) (hs : Shift s t) : Balanced t := by
  intro y hy ha
  obtain ⟨x, hx, hxa, hid, hjobs, hbooks⟩ := hs y hy ha
  obtain ⟨hj, hb⟩ := h x hx hxa
  rw [hid] at hj hb
  unfold jobs at hjobs
  omega

theorem same_shift (hw : t.db.workspaces = s.db.workspaces)
    (hj : ∀ w, Active s.db.workspaces w → jobs t w = jobs s w)
    (hb : ∀ w, bookCount t.books w = bookCount s.books w) : Shift s t := by
  intro y hy ha
  rw [hw] at hy
  refine ⟨y, hy, ha, rfl, ?_, ?_⟩
  · rw [hj y.id ⟨y, hy, rfl, ha⟩]
  · rw [hb]

theorem db_kept (h : Kept settings s) {db : Database} (hdb : Tidy settings.limits db)
    (hs : s.db.serial ≤ db.serial) : Kept settings { s with db := db } where
  tidy := hdb
  bookIds := h.bookIds
  books := fun b hb => ⟨Nat.lt_of_lt_of_le (h.books b hb).1 hs,
    Nat.lt_of_lt_of_le (h.books b hb).2 hs⟩
  resources := fun r hr => ⟨Nat.lt_of_lt_of_le (h.resources r hr).1 hs, (h.resources r hr).2⟩
  callers := h.callers
  calls := fun c hc hr => Nat.lt_of_lt_of_le (h.calls c hc hr) hs

theorem end_kept (h : Kept settings s) (caller : ℕ) : Kept settings (s.endCall caller) where
  tidy := h.tidy
  bookIds := h.bookIds
  books := h.books
  resources := h.resources
  callers := h.callers.sublist (List.Sublist.map _ List.filter_sublist)
  calls := fun c hc => h.calls c (List.mem_filter.mp hc).1

theorem usage_shift (h : Kept settings s) {w : Workspace} (hw : w ∈ s.db.workspaces)
    {usage : QuotaAmounts} (ht : t.db.workspaces = setUsage w.id usage s.db.workspaces)
    (hj : usage.activeJobs + jobs s w.id = w.usage.activeJobs + jobs t w.id)
    (hb : usage.books + bookCount s.books w.id = w.usage.books + bookCount t.books w.id)
    (hother : ∀ k ≠ w.id, jobs t k = jobs s k ∧ bookCount t.books k = bookCount s.books k) :
    Shift s t := by
  intro y hy ha
  rw [ht] at hy
  obtain ⟨x, hx, hid, hstate, hsame, hdiffer⟩ := mem_setUsage hy
  refine ⟨x, hx, hstate ▸ ha, hid.symm, ?_⟩
  by_cases hxw : x.id = w.id
  · obtain rfl := eq_of_key_eq Workspace.id h.tidy.workspaces hx hw hxw
    rw [hsame rfl, hid]
    exact ⟨hj, hb⟩
  · obtain ⟨hkj, hkb⟩ := hother y.id (hid ▸ hxw)
    rw [hdiffer hxw, hkj, hkb]
    exact ⟨rfl, rfl⟩

theorem openItems_ended {items : List WorkItem} (hids : (items.map WorkItem.id).Nodup)
    {item : WorkItem} (hi : item ∈ items) (hl : item.state = .leased)
    (hk : item.kind ≠ .workspaceCleanup) {state : JobState} (availableAt now : Instant)
    (hc : state = .succeeded ∨ state = .failed) (w : ℕ) :
    openItems (revise WorkItem.id item.id (·.close state availableAt now) items) w +
      (if item.workspace = w then 1 else 0) = openItems items w := by
  have hcount := countP_revise (f := fun i => WorkItem.close i state availableAt now) hids hi rfl
    fun i => decide (Open w i)
  have hopen : Open w item ↔ item.workspace = w := by
    unfold Open
    exact ⟨fun h => h.1, fun h => ⟨h, hk, .inr hl⟩⟩
  have hclosed : ¬Open w (item.close state availableAt now) := by
    intro h
    have hs : state = .ready ∨ state = .leased := h.2.2
    rcases hc with rfl | rfl <;> rcases hs with hs | hs <;> cases hs
  unfold openItems
  by_cases hw : item.workspace = w
  · simp only [hopen.mpr hw, hclosed, decide_true, decide_false, if_true, if_pos hw] at hcount ⊢
    simpa using hcount
  · have hno : ¬Open w item := fun h => hw (hopen.mp h)
    simp only [hno, hclosed, decide_false, if_neg hw] at hcount ⊢
    simpa using hcount

theorem finished_shift (h : Kept settings s) {db : Database} (hf : Finished s.db db) :
    Kept settings { s with db := db } ∧ Shift s { s with db := db } := by
  refine ⟨db_kept h (finished_tidy h.tidy hf) ?_, ?_⟩
  · cases hf with
    | same _ _ _ serial => exact Nat.le_of_eq serial.symm
    | ended _ _ _ _ _ serial => exact Nat.le_of_eq serial.symm
  · cases hf with
    | same items shaped workspaces serial =>
      apply same_shift workspaces
      · intro w _
        unfold jobs
        rw [openItems_alike items]
      · exact fun _ => rfl
    | ended mem leased closed items released serial =>
      rename_i item state availableAt now clock
      obtain ⟨w, hw, hid, hactive, hcovers, hafter⟩ := release_spec released
      have hkind : item.kind ≠ .workspaceCleanup :=
        fun hk => h.tidy.cleanups item mem hk ⟨w, hw, hid, hactive⟩
      have hcount := openItems_ended h.tidy.ids mem
        leased hkind availableAt now closed
      rw [← items] at hcount
      rw [← hid] at hafter hcount
      apply usage_shift h hw hafter
      · have hone := hcount w.id
        have hcov : 1 ≤ w.usage.activeJobs := hcovers.2.2
        rw [if_pos rfl] at hone
        show w.usage.activeJobs-1+(openItems s.db.items w.id+pending s.calls w.id) =
          w.usage.activeJobs+(openItems db.items w.id+pending s.calls w.id)
        omega
      · rfl
      · intro k hk
        have hnone := hcount k
        rw [if_neg fun he => hk he.symm] at hnone
        refine ⟨?_, rfl⟩
        show openItems db.items k+pending s.calls k = openItems s.db.items k+pending s.calls k
        omega

theorem revoke_shift (h : Kept settings s) {db : Database} {cleanupMaxAttempts id : ℕ}
    {final : WorkspaceState} {reason : CleanupReason} {now : Instant}
    (hr : revokeWorkspace cleanupMaxAttempts id final reason now s.db = .ok db) :
    Kept settings { s with db := db } ∧ Shift s { s with db := db } := by
  obtain ⟨_, hrows, hitems⟩ := revokeWorkspace_items hr
  have hcount : s.db.serial ≤ db.serial ∧ ∀ w, openItems db.items w = openItems s.db.items w := by
    rcases hitems with ⟨hi, hs⟩ | ⟨item, hi, hs, _, _, hkind, _⟩
    · exact ⟨Nat.le_of_eq hs.symm, fun w => by rw [hi]⟩
    · refine ⟨by omega, fun w => ?_⟩
      unfold openItems
      rw [hi, List.countP_append, List.countP_singleton]
      simp [Open, hkind]
  refine ⟨db_kept h (revoke_tidy h.tidy hr) hcount.1, ?_⟩
  intro y hy ha
  have hy : y ∈ db.workspaces := hy
  rw [hrows] at hy
  obtain ⟨x, hx, hid, husage, hstate⟩ := revoked_row hy
  refine ⟨x, hx, (hstate ha).2, hid.symm, ?_, ?_⟩
  · unfold jobs
    rw [husage, hcount.2]
  · rw [husage]

theorem call_shift (h : Kept settings s) (c : JobCall) :
    Kept settings { s with db := call settings s.db c.command } ∧
      (Balanced s → Balanced { s with db := call settings s.db c.command }) := by
  have hstill : Kept settings s ∧ (Balanced s → Balanced s) := ⟨h, id⟩
  have hdone : ∀ {db : Database},
      Kept settings { s with db := db } ∧ Shift s { s with db := db } →
        Kept settings { s with db := db } ∧ (Balanced s → Balanced { s with db := db }) :=
    fun hd => ⟨hd.1, fun hb => shift_balanced hb hd.2⟩
  apply settle_keeps (P := fun db => Kept settings { s with db := db } ∧
    (Balanced s → Balanced { s with db := db })) hstill
  intro db hdb
  cases c with
  | createWorkspace expiresAt =>
    obtain rfl := Except.ok.inj hdb
    refine ⟨db_kept h (create_tidy h.tidy expiresAt) (Nat.le_succ _), fun hb => ?_⟩
    intro y hy ha
    rcases List.mem_append.mp hy with hy | hy
    · exact hb y hy ha
    · rw [List.mem_singleton.mp hy]
      constructor
      · have hnone : openItems s.db.items s.db.serial = 0 := by
          apply List.countP_eq_zero.mpr
          intro i hi hopen
          have := (h.tidy.drawn i hi).2
          have he : i.workspace = s.db.serial := (of_decide_eq_true hopen).1
          omega
        have hidle : pending s.calls s.db.serial = 0 := by
          apply List.countP_eq_zero.mpr
          intro c hc hopen
          obtain ⟨he, hr⟩ := of_decide_eq_true hopen
          have := h.calls c hc hr
          omega
        show 0 = openItems s.db.items s.db.serial + pending s.calls s.db.serial
        omega
      · have hnone : bookCount s.books s.db.serial = 0 := by
          apply List.countP_eq_zero.mpr
          intro b hbm hopen
          have := (h.books b hbm).2
          have he := of_decide_eq_true hopen
          omega
        exact hnone.symm
  | reserveBytes workspace bytes clock =>
    obtain ⟨rows, hr, rfl⟩ := withWorkspaces_ok hdb
    obtain ⟨w, hw, hid, _, hcovers, hrows⟩ := reserve_spec hr
    rw [← hid] at hrows
    subst hrows
    refine hdone ⟨db_kept h (usage_tidy h.tidy _ hcovers) (Nat.le_refl _), ?_⟩
    apply usage_shift h hw rfl
    · rfl
    · rfl
    · exact fun _ _ => ⟨rfl, rfl⟩
  | claim request now leaseDuration locked =>
    obtain ⟨⟨works, after⟩, hc, rfl⟩ := map_ok.mp hdb
    have hwaiting : ∀ item ∈ candidates request now (fun id => locked.contains id) s.db,
        ∀ row ∈ s.db.items, row.id = item.id → Waiting row := by
      intro item hi row hrow hid
      obtain ⟨hm, hcl⟩ := JobRuns.mem_candidates hi
      obtain rfl := eq_of_key_eq WorkItem.id h.tidy.ids hrow hm hid
      exact JobRuns.claimable_state hcl
    obtain ⟨halike, hshaped, hws, hserial⟩ := claimRows_alike hc hwaiting h.tidy.shaped
    refine hdone ⟨db_kept h (alike_tidy h.tidy halike hshaped hws hserial) hserial, ?_⟩
    apply same_shift hws
    · intro w _
      unfold jobs
      rw [openItems_alike halike]
    · exact fun _ => rfl
  | markSucceeded token now clock =>
    obtain ⟨⟨done, after⟩, hm, rfl⟩ := map_ok.mp hdb
    exact hdone (finished_shift h (markSucceeded_finished h.tidy.shaped hm))
  | markFailed token outcome category now clock =>
    obtain ⟨⟨done, after⟩, hm, rfl⟩ := map_ok.mp hdb
    exact hdone (finished_shift h (markFailed_finished h.tidy.ids h.tidy.shaped hm))
  | expire workspace now => exact hdone (revoke_shift h hdb)
  | delete workspace now => exact hdone (revoke_shift h hdb)

theorem countP_kept {α : Type} {l : List α} {p q : α → Bool}
    (h : ∀ a ∈ l, p a = true → q a = true) :
    (l.filter q).countP p = l.countP p := by
  rw [List.countP_filter]
  apply List.countP_congr
  intro a ha
  constructor
  · exact fun hpq => (Bool.and_eq_true_iff.mp hpq).1
  · exact fun hp => Bool.and_eq_true_iff.mpr ⟨hp, h a ha hp⟩

theorem purged_shift (h : Kept settings s) {id : ℕ} {attemptToken : Option ℕ} {db : Database}
    (hp : purgeWorkspace id attemptToken s.db = .ok db) :
    Kept settings (s.purged id db) ∧ Shift s (s.purged id db) := by
  have hdb : Tidy settings.limits db ∧ db.serial = s.db.serial ∧
      (∀ y ∈ db.workspaces, y ∈ s.db.workspaces ∧ y.id ≠ id) ∧
        ∀ w ≠ id, openItems db.items w = openItems s.db.items w := by
    unfold purgeWorkspace at hp
    cases hw : lookup Workspace.id s.db.workspaces id with
    | none =>
      rw [hw] at hp
      obtain rfl := Except.ok.inj hp
      exact ⟨h.tidy, rfl, fun y hy => ⟨hy, lookup_none.mp hw y hy⟩, fun _ _ => rfl⟩
    | some w =>
      rw [hw] at hp
      simp only [bind_ok] at hp
      obtain ⟨_, _, hp⟩ := hp
      have hafter : db = s.db.purged id := by
        cases attemptToken with
        | none => exact (Except.ok.inj hp).symm
        | some token =>
          simp only [bind_ok] at hp
          obtain ⟨_, _, _, _, hp⟩ := hp
          exact (Except.ok.inj hp).symm
      subst hafter
      refine ⟨purged_tidy h.tidy id, rfl, ?_, ?_⟩
      · intro y hy
        obtain ⟨hy, hne⟩ := List.mem_filter.mp hy
        exact ⟨hy, of_decide_eq_true hne⟩
      · intro k hk
        apply countP_kept
        intro i _ hopen
        exact decide_eq_true ((of_decide_eq_true hopen).1 ▸ hk)
  obtain ⟨htidy, hserial, hrows, hitems⟩ := hdb
  refine ⟨?_, ?_⟩
  · have hk := db_kept h htidy (Nat.le_of_eq hserial.symm)
    exact ⟨hk.tidy, hk.bookIds.sublist (List.Sublist.map _ List.filter_sublist),
      fun b hb => hk.books b (List.mem_filter.mp hb).1,
      fun r hr => hk.resources r (List.mem_filter.mp hr).1, hk.callers, hk.calls⟩
  · intro y hy ha
    obtain ⟨hold, hne⟩ := hrows y hy
    refine ⟨y, hold, ha, rfl, ?_, ?_⟩
    · unfold jobs
      show _ = y.usage.activeJobs+(openItems db.items y.id+pending s.calls y.id)
      rw [hitems y.id hne]
    · have hbooks : bookCount (s.purged id db).books y.id = bookCount s.books y.id := by
        apply countP_kept
        intro b _ hb
        exact decide_eq_true ((of_decide_eq_true hb).symm ▸ hne)
      rw [hbooks]

theorem reserveQuota_ok {workspace : ℕ} {requested : QuotaAmounts} {clock : Instant}
    (h : s.reserveQuota settings workspace requested clock = .ok t) :
    ∃ w ∈ s.db.workspaces, w.id = workspace ∧ settings.limits.covers (w.usage.plus requested) ∧
      t = withUsage s workspace (w.usage.plus requested) := by
  simp only [System.reserveQuota, bind_ok] at h
  obtain ⟨db, hdb, h⟩ := h
  unfold liftJob at hdb
  split at hdb
  · rename_i after hx
    obtain rfl := Except.ok.inj hdb
    obtain ⟨rows, hr, rfl⟩ := withWorkspaces_ok hx
    obtain ⟨w, hw, hid, _, hcovers, hrows⟩ := reserve_spec hr
    exact ⟨w, hw, hid, hcovers, by rw [← Except.ok.inj h, hrows]; rfl⟩
  · cases hdb

theorem releaseQuota_ok {workspace : ℕ} {released : QuotaAmounts} {clock : Instant}
    (h : s.releaseQuota workspace released clock = .ok t) :
    ∃ w ∈ s.db.workspaces, w.id = workspace ∧ w.state = .active ∧ w.usage.covers released ∧
      t = withUsage s workspace (w.usage.minus released) := by
  simp only [System.releaseQuota, bind_ok] at h
  obtain ⟨db, hdb, h⟩ := h
  unfold liftJob at hdb
  split at hdb
  · rename_i after hx
    obtain rfl := Except.ok.inj hdb
    obtain ⟨rows, hr, rfl⟩ := withWorkspaces_ok hx
    obtain ⟨w, hw, hid, ha, hcovers, hrows⟩ := release_spec hr
    exact ⟨w, hw, hid, ha, hcovers, by rw [← Except.ok.inj h, hrows]; rfl⟩
  · cases hdb

theorem createBook_shift (h : Kept settings s) {workspace : ℕ} {clock : Instant}
    (hc : createBook settings workspace clock s = .ok t) : Kept settings t ∧ Shift s t := by
  simp only [createBook, bind_ok] at hc
  obtain ⟨u, hu, hc⟩ := hc
  obtain ⟨w, hw, rfl, hcovers, rfl⟩ := reserveQuota_ok hu
  obtain rfl := Except.ok.inj hc
  have hused := usage_tidy h.tidy w.id hcovers
  constructor
  · refine ⟨⟨hused.ids, hused.shaped, ?_, hused.cleanups, hused.workspaces, ?_, hused.within⟩,
      ?_, ?_, ?_, h.callers, ?_⟩
    · exact fun i hi => ⟨Nat.lt_succ_of_lt (hused.drawn i hi).1,
        Nat.lt_succ_of_lt (hused.drawn i hi).2⟩
    · exact fun y hy => Nat.lt_succ_of_lt (hused.known y hy)
    · show ((s.books ++ [(⟨s.db.serial, w.id⟩ : Book)]).map Book.id).Nodup
      rw [List.map_append]
      apply List.Nodup.append h.bookIds (List.nodup_singleton _)
      intro k hk hin
      obtain ⟨b, hb, rfl⟩ := List.mem_map.mp hk
      have hlt := (h.books b hb).1
      have heq : b.id = s.db.serial := List.mem_singleton.mp hin
      omega
    · intro b hb
      show b.id < s.db.serial+1 ∧ b.workspace < s.db.serial+1
      rcases List.mem_append.mp hb with hb | hb
      · have := h.books b hb
        omega
      · rw [List.mem_singleton.mp hb]
        exact ⟨Nat.lt_succ_self _, Nat.lt_succ_of_lt (h.tidy.known w hw)⟩
    · exact fun r hr => ⟨Nat.lt_succ_of_lt (h.resources r hr).1, (h.resources r hr).2⟩
    · exact fun c hc hr => Nat.lt_succ_of_lt (h.calls c hc hr)
  · have hcount : ∀ k, bookCount (s.books ++ [(⟨s.db.serial, w.id⟩ : Book)]) k =
        bookCount s.books k+if w.id = k then 1 else 0 := by
      intro k
      unfold bookCount
      rw [List.countP_append, List.countP_singleton]
      simp only [decide_eq_true_eq]
    apply usage_shift h hw rfl
    · rfl
    · show w.usage.books+1+bookCount s.books w.id =
        w.usage.books+bookCount (s.books ++ [⟨s.db.serial, w.id⟩]) w.id
      rw [hcount, if_pos rfl]
      omega
    · intro k hk
      refine ⟨rfl, ?_⟩
      show bookCount (s.books ++ [⟨s.db.serial, w.id⟩]) k = bookCount s.books k
      rw [hcount, if_neg fun he => hk he.symm, Nat.add_zero]

theorem deleteBook_ok {workspace book : ℕ} {clock : Instant}
    (hd : deleteBook workspace book clock s = .ok t) :
    ∃ b ∈ s.books, b.id = book ∧ b.workspace = workspace ∧ book ∉ s.held ∧
      ∃ w ∈ s.db.workspaces, w.id = workspace ∧ w.state = .active ∧ w.usage.covers oneBook ∧
        t = (withUsage s workspace (w.usage.minus oneBook)).without book := by
  simp only [deleteBook, bind_ok, fetch_ok, demand_ok] at hd
  obtain ⟨b, hb, u, hu, _, hheld, hd⟩ := hd
  obtain ⟨w, hw, hid, ha, hcovers, rfl⟩ := releaseQuota_ok hu
  have hfound : b.id = book ∧ b.workspace = workspace := by
    have hb' := List.find?_some hb
    exact of_decide_eq_true hb'
  exact ⟨b, List.mem_of_find?_eq_some hb, hfound.1, hfound.2, hheld, w, hw, hid, ha, hcovers,
    (Except.ok.inj hd).symm⟩

/-- Without a book, its items are gone from the count. -/
theorem openItems_without (s : System) (book w : ℕ) :
    openItems (s.without book).db.items w ≤ openItems s.db.items w ∧
      (openItems (s.without book).db.items w = openItems s.db.items w ↔
        ∀ i ∈ s.db.items, Open w i → i.target ∉ s.targetsOf book) := by
  unfold openItems System.without
  simp only [List.countP_filter]
  constructor
  · apply List.countP_mono_left
    intro i _ hi
    exact (Bool.and_eq_true_iff.mp hi).1
  · constructor
    · intro heq i hi hopen hin
      have hlt : s.db.items.countP (fun i => decide (Open w i) &&
          decide (i.target ∉ s.targetsOf book)) < s.db.items.countP fun i => Open w i := by
        have hsplit : ∀ l : List WorkItem, l.countP (fun i => decide (Open w i)) =
            l.countP (fun i => decide (Open w i) && decide (i.target ∉ s.targetsOf book)) +
              l.countP fun i => decide (Open w i) && decide (i.target ∈ s.targetsOf book) := by
          intro l
          induction l with
          | nil => rfl
          | cons x l ih =>
            simp only [List.countP_cons, ih]
            by_cases hx : x.target ∈ s.targetsOf book <;> by_cases ho : Open w x <;>
              simp [hx, ho] <;> omega
        rw [hsplit s.db.items]
        have hpos : 0 < s.db.items.countP fun i =>
            decide (Open w i) && decide (i.target ∈ s.targetsOf book) :=
          List.countP_pos_iff.mpr ⟨i, hi, by simp [hopen, hin]⟩
        omega
      omega
    · intro hnone
      apply List.countP_congr
      intro i hi
      constructor
      · exact fun h => (Bool.and_eq_true_iff.mp h).1
      · intro h
        exact Bool.and_eq_true_iff.mpr
          ⟨h, decide_eq_true (hnone i hi (of_decide_eq_true h))⟩

theorem deleteBook_kept (h : Kept settings s) {workspace book : ℕ} {clock : Instant}
    (hd : deleteBook workspace book clock s = .ok t) : Kept settings t := by
  obtain ⟨b, hb, _, _, _, w, hw, hid, _, _, rfl⟩ := deleteBook_ok hd
  have hused := usage_tidy h.tidy workspace
    (covers_minus (b := oneBook) (h.tidy.within w hw))
  refine ⟨filter_tidy hused _ _, ?_, ?_, ?_, h.callers, h.calls⟩
  · exact h.bookIds.sublist (List.Sublist.map _ List.filter_sublist)
  · exact fun b hb => h.books b (List.mem_filter.mp hb).1
  · exact fun r hr => h.resources r (List.mem_filter.mp hr).1

/-- The book's counter moves with the books; a job's counter stays, whatever
becomes of the items. -/
theorem deleteBook_counts (h : Kept settings s) (hb : Balanced s) {workspace book : ℕ}
    {clock : Instant} (hd : deleteBook workspace book clock s = .ok t) :
    ∀ y ∈ t.db.workspaces, y.state = .active → Active s.db.workspaces y.id ∧
      y.usage.activeJobs = openItems s.db.items y.id+pending s.calls y.id ∧
        y.usage.books = bookCount t.books y.id := by
  obtain ⟨b, hbm, rfl, rfl, _, w, hw, hid, hwa, hcovers, rfl⟩ := deleteBook_ok hd
  intro y hy ha
  obtain ⟨x, hx, hyx, hstate, hsame, hdiffer⟩ := mem_setUsage hy
  have hxa : x.state = .active := hstate ▸ ha
  obtain ⟨hjobs, hbooks⟩ := hb x hx hxa
  have hdrop := countP_drop h.bookIds hbm rfl
    fun c => decide (c.workspace = x.id)
  have hcount : bookCount ((withUsage s b.workspace (w.usage.minus oneBook)).without b.id).books
      x.id + (if b.workspace = x.id then 1 else 0) = bookCount s.books x.id := by
    have hp : (if (decide (b.workspace = x.id)) = true then 1 else 0) =
        if b.workspace = x.id then 1 else 0 := by
      simp only [decide_eq_true_eq]
    rw [← hp]
    exact hdrop
  refine ⟨⟨x, hx, hyx.symm, hxa⟩, ?_, ?_⟩
  · rw [hyx, ← hjobs]
    by_cases hxw : x.id = b.workspace
    · obtain rfl := eq_of_key_eq Workspace.id h.tidy.workspaces hx hw (hxw.trans hid.symm)
      rw [hsame hxw]
      exact Nat.sub_zero _
    · rw [hdiffer hxw]
  · rw [hyx]
    by_cases hxw : x.id = b.workspace
    · obtain rfl := eq_of_key_eq Workspace.id h.tidy.workspaces hx hw (hxw.trans hid.symm)
      rw [hsame hxw]
      rw [if_pos hxw.symm] at hcount
      show x.usage.books-1 = _
      omega
    · rw [hdiffer hxw]
      rw [if_neg fun he => hxw he.symm] at hcount
      omega

theorem deleteBook_balanced (h : Kept settings s) (hb : Balanced s) {workspace book : ℕ}
    {clock : Instant} (hd : deleteBook workspace book clock s = .ok t) :
    Balanced t ↔ ¬∃ i ∈ s.db.items, i.target ∈ s.targetsOf book ∧
      ∃ w, Active s.db.workspaces w ∧ Open w i := by
  have hcounts := deleteBook_counts h hb hd
  obtain ⟨b, hbm, rfl, rfl, _, w, hw, hid, hwa, hcovers, rfl⟩ := deleteBook_ok hd
  constructor
  · intro hbal hleak
    obtain ⟨i, hi, hin, k, ⟨x, hx, rfl, hxa⟩, hopen⟩ := hleak
    obtain ⟨y, hy, hyx, hstate⟩ := setUsage_mem b.workspace
      (w.usage.minus oneBook) hx
    have ha : y.state = .active := hstate.trans hxa
    obtain ⟨hj, _⟩ := hbal y hy ha
    obtain ⟨_, hold, _⟩ := hcounts y hy ha
    have heq : openItems ((withUsage s b.workspace (w.usage.minus oneBook)).without b.id).db.items
        y.id = openItems s.db.items y.id := by
      have hsame : pending ((withUsage s b.workspace (w.usage.minus oneBook)).without b.id).calls
        y.id = pending s.calls y.id := rfl
      omega
    exact (openItems_without (withUsage s b.workspace (w.usage.minus oneBook)) b.id y.id).2.mp heq
      i hi (hyx ▸ hopen) hin
  · intro hnone y hy ha
    obtain ⟨hactive, hj, hbooks⟩ := hcounts y hy ha
    have heq := (openItems_without (withUsage s b.workspace (w.usage.minus oneBook)) b.id
      y.id).2.mpr fun i hi hopen hin => hnone ⟨i, hi, hin, y.id, hactive, hopen⟩
    refine ⟨?_, hbooks⟩
    rw [heq]
    exact hj

theorem deleteBook_total {workspace book : ℕ} {clock : Instant}
    (hbook : ∃ b ∈ s.books, b.id = book ∧ b.workspace = workspace) (hheld : book ∉ s.held)
    (hr : Releasable workspace oneBook clock s.db.workspaces) :
    ∃ t, deleteBook workspace book clock s = .ok t := by
  obtain ⟨rows, hrows⟩ := release_total hr
  obtain ⟨b, hb, hrest⟩ := hbook
  have hfound : (s.books.find? fun b => b.id = book ∧ b.workspace = workspace).isSome :=
    List.find?_isSome.mpr ⟨b, hb, decide_eq_true hrest⟩
  obtain ⟨c, hc⟩ := Option.isSome_iff_exists.mp hfound
  unfold deleteBook System.releaseQuota
  rw [hrows, hc]
  simp [fetch, demand, liftJob, withWorkspaces, hheld]

theorem deleteBook_releasable {workspace book : ℕ} {clock : Instant}
    (hd : deleteBook workspace book clock s = .ok t) :
    (∃ b ∈ s.books, b.id = book ∧ b.workspace = workspace) ∧ book ∉ s.held ∧
      Releasable workspace oneBook clock s.db.workspaces := by
  have hspec := deleteBook_ok hd
  obtain ⟨b, hb, hid, hws, hheld, _⟩ := hspec
  refine ⟨⟨b, hb, hid, hws⟩, hheld, ?_⟩
  simp only [deleteBook, System.releaseQuota, bind_ok] at hd
  obtain ⟨_, _, u, ⟨db, hdb, _⟩, _⟩ := hd
  unfold liftJob at hdb
  split at hdb
  · rename_i hx
    obtain ⟨rows, hr, _⟩ := withWorkspaces_ok hx
    exact (release_ok hr).1
  · cases hdb

theorem pending_end (h : Kept settings s) {c : Call} (hc : c ∈ s.calls) (w : ℕ) :
    pending (s.endCall c.caller).calls w +
      (if c.workspace = w ∧ c.reserved = true then 1 else 0) = pending s.calls w := by
  have hdrop := countP_drop h.callers hc rfl
    fun c => decide (c.workspace = w ∧ c.reserved = true)
  have hp : (if (decide (c.workspace = w ∧ c.reserved = true)) = true then 1 else 0) =
      if c.workspace = w ∧ c.reserved = true then 1 else 0 := by
    simp only [decide_eq_true_eq]
  rw [← hp]
  exact hdrop

theorem end_balanced (h : Kept settings s) (hb : Balanced s) {c : Call} (hc : c ∈ s.calls) :
    Balanced (s.endCall c.caller) ↔
      ¬(c.reserved = true ∧ Active s.db.workspaces c.workspace) := by
  constructor
  · intro hbal hleak
    obtain ⟨hr, w, hw, hid, ha⟩ := hleak
    obtain ⟨hold, _⟩ := hb w hw ha
    obtain ⟨hnew, _⟩ := hbal w hw ha
    have hcount := pending_end h hc w.id
    rw [if_pos ⟨hid.symm, hr⟩] at hcount
    have hsame : openItems (s.endCall c.caller).db.items w.id = openItems s.db.items w.id := rfl
    omega
  · intro hnone
    apply shift_balanced hb
    have hrows : (s.endCall c.caller).db.workspaces = s.db.workspaces := rfl
    apply same_shift hrows
    · intro w hw
      have hcount := pending_end h hc w
      rw [if_neg] at hcount
      · unfold jobs
        rw [← hcount]
        rfl
      · intro he
        exact hnone ⟨he.2, he.1 ▸ hw⟩
    · exact fun _ => rfl

theorem end_missing {caller : ℕ} (h : lookup Call.caller s.calls caller = none) :
    s.endCall caller = s := by
  have hsame : (s.calls.filter fun c => c.caller ≠ caller) = s.calls := by
    apply List.filter_eq_self.mpr
    intro c hc
    exact decide_eq_true (lookup_none.mp h c hc)
  unfold System.endCall
  rw [hsame]

theorem insertItem_ok {workspace maxAttempts : ℕ} {target : Target} {now : Instant} :
    insertItem workspace target maxAttempts now s = .ok t ↔
      ((∃ r ∈ s.resources, r.target = target ∧ r.workspace = workspace) ∧
        (∀ item ∈ s.db.items, item.target ≠ target) ∧ 1 ≤ maxAttempts) ∧
      t = { s with db := { s.db with
        items := s.db.items ++ [⟨s.db.serial, workspace, target.kind, .ready, target, now, none,
          none, 0, maxAttempts, now, now⟩]
        serial := s.db.serial+1 } } := by
  unfold insertItem
  simp only [bind_ok, demand_ok, Except.ok.injEq]
  constructor
  · intro h
    obtain ⟨_, hr, _, hn, db, hdb, rfl⟩ := h
    unfold liftJob at hdb
    split at hdb
    · rename_i hx
      obtain rfl := Except.ok.inj hdb
      obtain ⟨hm, rfl⟩ := addItem_ok hx
      exact ⟨⟨hr, hn, hm⟩, rfl⟩
    · cases hdb
  · intro h
    obtain ⟨⟨hr, hn, hm⟩, rfl⟩ := h
    have hadd : addItem ⟨s.db.serial, workspace, target.kind, .ready, target, now, none, none, 0,
        maxAttempts, now, now⟩ s.db = .ok { s.db with
          items := s.db.items ++ [⟨s.db.serial, workspace, target.kind, .ready, target, now, none,
            none, 0, maxAttempts, now, now⟩]
          serial := s.db.serial+1 } := by
      simp [addItem, demand, hm]
    exact ⟨(), hr, (), hn, _, by rw [hadd]; rfl, rfl⟩

theorem insertItem_total {c : Call} (h : Insertable s c) (now : Instant) :
    ∃ t, insertItem c.workspace c.target c.maxAttempts now s = .ok t :=
  ⟨_, insertItem_ok.mpr ⟨h, rfl⟩⟩

theorem insertItem_kept (h : Kept settings s) {workspace maxAttempts : ℕ} {target : Target}
    {now : Instant} (hi : insertItem workspace target maxAttempts now s = .ok t) :
    Kept settings t ∧ t.calls = s.calls ∧ t.books = s.books ∧
      t.db.workspaces = s.db.workspaces ∧
        ∀ w, openItems t.db.items w =
          openItems s.db.items w+if workspace = w then 1 else 0 := by
  obtain ⟨⟨⟨r, hr, rfl, rfl⟩, _, _⟩, rfl⟩ := insertItem_ok.mp hi
  obtain ⟨hserial, hkind⟩ := h.resources r hr
  have hadd := add_tidy h.tidy ⟨s.db.serial, r.workspace, r.target.kind, .ready, r.target, now,
    none, none, 0, maxAttempts, now, now⟩ rfl hserial (by simp [WorkItem.LeaseShape])
    (fun hk => absurd hk hkind)
  refine ⟨db_kept h hadd (Nat.le_succ _), rfl, rfl, rfl, ?_⟩
  intro w
  unfold openItems
  rw [List.countP_append, List.countP_singleton]
  by_cases hw : r.workspace = w <;> simp [Open, hw, hkind]

theorem reserve_call (h : Kept settings s) {c : Call} (hc : c ∈ s.calls)
    (hn : c.reserved = false) {clock : Instant}
    (hr : s.reserveQuota settings c.workspace oneActiveJob clock = .ok t) :
    Kept settings { t with calls := revise Call.caller c.caller Call.reserve t.calls } ∧
      Shift s { t with calls := revise Call.caller c.caller Call.reserve t.calls } := by
  obtain ⟨w, hw, hid, hcovers, rfl⟩ := reserveQuota_ok hr
  have hcount := fun k => countP_revise (f := Call.reserve) h.callers hc rfl
    fun c => decide (c.workspace = k ∧ c.reserved = true)
  constructor
  · refine ⟨usage_tidy h.tidy _ hcovers, h.bookIds, h.books, h.resources, ?_, ?_⟩
    · show ((revise Call.caller c.caller Call.reserve s.calls).map Call.caller).Nodup
      rw [keys_revise (f := Call.reserve) (fun _ => rfl)]
      exact h.callers
    · intro d hd hres
      obtain ⟨old, ho, rfl⟩ := mem_revise.mp hd
      by_cases hk : old.caller = c.caller
      · obtain rfl := eq_of_key_eq Call.caller h.callers ho hc hk
        rw [if_pos rfl]
        exact hid ▸ h.tidy.known w hw
      · rw [if_neg hk] at hres ⊢
        exact h.calls old ho hres
  · have hpending : ∀ k, pending (revise Call.caller c.caller Call.reserve s.calls) k =
        pending s.calls k+if c.workspace = k then 1 else 0 := by
      intro k
      have hk := hcount k
      simp only [hn, Bool.false_eq_true, and_false, decide_false, if_false, Nat.add_zero] at hk
      unfold pending
      rw [hk]
      simp [Call.reserve]
    have hrows : (withUsage s c.workspace (w.usage.plus oneActiveJob)).db.workspaces =
        setUsage w.id (w.usage.plus oneActiveJob) s.db.workspaces := by
      rw [hid]
      rfl
    apply usage_shift (t := { withUsage s c.workspace (w.usage.plus oneActiveJob) with
      calls := revise Call.caller c.caller Call.reserve s.calls }) h hw hrows
    · show w.usage.activeJobs+1+(openItems s.db.items w.id+pending s.calls w.id) =
        w.usage.activeJobs+(openItems s.db.items w.id+
          pending (revise Call.caller c.caller Call.reserve s.calls) w.id)
      rw [hpending, if_pos hid.symm]
      omega
    · rfl
    · intro k hk
      refine ⟨?_, rfl⟩
      show openItems s.db.items k+pending (revise Call.caller c.caller Call.reserve s.calls) k = _
      rw [hpending, if_neg fun he => hk (he.symm.trans hid.symm)]
      rfl

theorem enqueueWithin_shift (h : Kept settings s) {workspace maxAttempts : ℕ} {target : Target}
    {now clock : Instant}
    (he : enqueueWithin settings workspace target maxAttempts now clock s = .ok t) :
    Kept settings t ∧ (Balanced s → Balanced t) := by
  unfold enqueueWithin at he
  split at he
  · obtain rfl := Except.ok.inj he
    exact ⟨h, id⟩
  · simp only [bind_ok] at he
    obtain ⟨u, hu, hi⟩ := he
    obtain ⟨w, hw, hid, hcovers, rfl⟩ := reserveQuota_ok hu
    have hused : Kept settings (withUsage s workspace (w.usage.plus oneActiveJob)) :=
      db_kept h (usage_tidy h.tidy _ hcovers) (Nat.le_refl _)
    obtain ⟨hkept, hcalls, hbooks, hrows, hcount⟩ := insertItem_kept hused hi
    refine ⟨hkept, fun hb => shift_balanced hb ?_⟩
    apply usage_shift h hw (hid ▸ hrows)
    · unfold jobs
      rw [hcalls, hcount, if_pos hid.symm]
      show w.usage.activeJobs+1+(openItems s.db.items w.id+pending s.calls w.id) =
        w.usage.activeJobs+(openItems s.db.items w.id+1+pending s.calls w.id)
      omega
    · rw [hbooks]
      rfl
    · intro k hk
      unfold jobs
      rw [hcalls, hbooks, hcount, if_neg fun he => hk (he.symm.trans hid.symm)]
      exact ⟨rfl, rfl⟩

theorem find_kept (h : Kept settings s) {caller : ℕ} (workspace maxAttempts : ℕ) (target : Target)
    (hc : caller ∉ s.calls.map Call.caller) :
    Kept settings { s with calls := s.calls ++ [⟨caller, workspace, target, maxAttempts, false⟩] } ∧
      Shift s { s with
        calls := s.calls ++ [⟨caller, workspace, target, maxAttempts, false⟩] } := by
  constructor
  · refine ⟨h.tidy, h.bookIds, h.books, h.resources, ?_, ?_⟩
    · show ((s.calls ++ [(⟨caller, workspace, target, maxAttempts, false⟩ : Call)]).map
        Call.caller).Nodup
      rw [List.map_append]
      apply List.Nodup.append h.callers (List.nodup_singleton _)
      intro k hk hin
      have hin : k = caller := List.mem_singleton.mp hin
      exact hc (hin ▸ hk)
    · intro c hcm hr
      rcases List.mem_append.mp hcm with hcm | hcm
      · exact h.calls c hcm hr
      · rw [List.mem_singleton.mp hcm] at hr
        cases hr
  · have hrows : ({ s with calls := s.calls ++
        [⟨caller, workspace, target, maxAttempts, false⟩] } : System).db.workspaces =
          s.db.workspaces := rfl
    apply same_shift hrows
    · intro w _
      unfold jobs pending
      simp
    · exact fun _ => rfl

theorem resource_kept (h : Kept settings s) {target : Target} {book : ℕ} {b : Book}
    (hb : b ∈ s.books) (hk : target.kind ≠ .workspaceCleanup) :
    Kept settings { s with resources := s.resources ++ [⟨target, book, b.workspace⟩] } := by
  refine ⟨h.tidy, h.bookIds, h.books, ?_, h.callers, h.calls⟩
  intro r hr
  rcases List.mem_append.mp hr with hr | hr
  · exact h.resources r hr
  · rw [List.mem_singleton.mp hr]
    exact ⟨(h.books b hb).2, hk⟩

/-- What one event keeps, and that it leaves the accounts balanced exactly when
it leaves no reservation without its item. -/
theorem step_accounts (h : Kept settings s) (e : Event) :
    Kept settings (step settings s e) ∧
      (Balanced s → (¬Leaks s e ↔ Balanced (step settings s e))) := by
  have hsound : ∀ {t : System}, (Balanced s → Balanced t) →
      Balanced s → (¬False ↔ Balanced t) := fun ht hb => iff_of_true not_false (ht hb)
  have hstill : Balanced s → (¬False ↔ Balanced s) := hsound id
  cases e with
  | job c =>
    obtain ⟨hk, hb⟩ := call_shift h c
    exact ⟨hk, hsound hb⟩
  | purge workspace attemptToken =>
    simp only [step, Leaks]
    split
    · rename_i db hp
      obtain ⟨hk, hs⟩ := purged_shift h hp
      exact ⟨hk, hsound fun hb => shift_balanced hb hs⟩
    · exact ⟨h, hstill⟩
  | createBook workspace clock =>
    simp only [step, Leaks]
    cases hc : createBook settings workspace clock s with
    | error failure => exact ⟨h, hstill⟩
    | ok t =>
      obtain ⟨hk, hs⟩ := createBook_shift h hc
      exact ⟨hk, hsound fun hb => shift_balanced hb hs⟩
  | deleteBook workspace book clock =>
    simp only [step, Leaks]
    cases hd : deleteBook workspace book clock s with
    | error failure =>
      refine ⟨h, fun hb => iff_of_true ?_ hb⟩
      intro hleak
      obtain ⟨t, ht⟩ := deleteBook_total hleak.1 hleak.2.1 hleak.2.2.1
      rw [hd] at ht
      cases ht
    | ok t =>
      refine ⟨deleteBook_kept h hd, fun hb => ?_⟩
      obtain ⟨hbook, hheld, hrel⟩ := deleteBook_releasable hd
      have hiff := deleteBook_balanced h hb hd
      constructor
      · intro hno
        exact hiff.mpr fun hleak => hno ⟨hbook, hheld, hrel, hleak⟩
      · intro hbal hleak
        exact hiff.mp hbal hleak.2.2.2
  | addResource target book =>
    simp only [step, Leaks]
    split
    · rename_i b hfind
      split
      · exact ⟨h, hstill⟩
      · rename_i hnot
        exact ⟨resource_kept h (List.mem_of_find?_eq_some hfind) fun hk => hnot (.inl hk), hstill⟩
    · exact ⟨h, hstill⟩
  | hold book =>
    exact ⟨⟨h.tidy, h.bookIds, h.books, h.resources, h.callers, h.calls⟩, hstill⟩
  | find caller workspace target maxAttempts =>
    simp only [step, Leaks]
    split
    · exact ⟨h, hstill⟩
    · rename_i hnot
      obtain ⟨hk, hs⟩ := find_kept h workspace maxAttempts target
        fun hc => hnot (.inr hc)
      exact ⟨hk, hsound fun hb => shift_balanced hb hs⟩
  | reserve caller clock =>
    simp only [step, Leaks]
    split
    · rename_i c hc
      obtain ⟨hm, rfl⟩ := lookup_some hc
      split
      · exact ⟨h, hstill⟩
      · rename_i hn
        have hn : c.reserved = false := by simpa using hn
        split
        · rename_i t ht
          obtain ⟨hk, hs⟩ := reserve_call h hm hn ht
          exact ⟨hk, hsound fun hb => shift_balanced hb hs⟩
        · refine ⟨end_kept h c.caller, hsound fun hb => (end_balanced h hb hm).mpr ?_⟩
          intro hleak
          rw [hn] at hleak
          cases hleak.1
    · exact ⟨h, hstill⟩
  | insert caller now =>
    simp only [step, Leaks]
    cases hc : lookup Call.caller s.calls caller with
    | none => exact ⟨h, fun hb => iff_of_true (by rintro ⟨c, he, _⟩; cases he) hb⟩
    | some c =>
      obtain ⟨hm, rfl⟩ := lookup_some hc
      simp only [Option.some.injEq, exists_eq_left']
      by_cases hr : c.reserved = true
      · rw [if_pos hr]
        cases hi : insertItem c.workspace c.target c.maxAttempts now s with
        | ok t =>
          obtain ⟨hk, hcalls, hbooks, hrows, hcount⟩ := insertItem_kept h hi
          have hins : Insertable s c := (insertItem_ok.mp hi).1
          have hmt : c ∈ t.calls := hcalls ▸ hm
          refine ⟨end_kept hk c.caller, fun hb => iff_of_true (fun hl => hl.2.2 hins) ?_⟩
          apply shift_balanced hb
          have hsame : (t.endCall c.caller).db.workspaces = s.db.workspaces := hrows
          apply same_shift hsame
          · intro w _
            have hend := pending_end hk hmt w
            rw [hcalls] at hend
            have hopen := hcount w
            show openItems t.db.items w+pending (t.endCall c.caller).calls w =
              openItems s.db.items w+pending s.calls w
            by_cases hw : c.workspace = w
            · rw [if_pos ⟨hw, hr⟩] at hend
              rw [if_pos hw] at hopen
              omega
            · rw [if_neg fun he => hw he.1] at hend
              rw [if_neg hw] at hopen
              omega
          · intro w
            show bookCount t.books w = _
            rw [hbooks]
        | error failure =>
          refine ⟨end_kept h c.caller, fun hb => ?_⟩
          have hnot : ¬Insertable s c := by
            intro hins
            obtain ⟨t, ht⟩ := insertItem_total hins now
            rw [hi] at ht
            cases ht
          have hiff := end_balanced h hb hm
          constructor
          · exact fun hno => hiff.mpr fun hl => hno ⟨hr, hl.2, hnot⟩
          · exact fun hbal hl => hiff.mp hbal ⟨hr, hl.2.1⟩
      · rw [if_neg hr]
        exact ⟨h, fun hb => iff_of_true (fun hl => hr hl.1) hb⟩
  | crash caller =>
    simp only [step, Leaks]
    cases hc : lookup Call.caller s.calls caller with
    | none =>
      rw [end_missing hc]
      exact ⟨h, fun hb => iff_of_true (by rintro ⟨c, he, _⟩; cases he) hb⟩
    | some c =>
      obtain ⟨hm, rfl⟩ := lookup_some hc
      simp only [Option.some.injEq, exists_eq_left']
      exact ⟨end_kept h c.caller, fun hb => (end_balanced h hb hm).symm⟩
  | enqueueWithin workspace target maxAttempts now clock =>
    simp only [step, Leaks]
    cases he : enqueueWithin settings workspace target maxAttempts now clock s with
    | error failure => exact ⟨h, hstill⟩
    | ok t =>
      obtain ⟨hk, hb⟩ := enqueueWithin_shift h he
      exact ⟨hk, hsound hb⟩

end Steps

/-- Quotas over a run: the counters are exact throughout it if and only if no step
leaves a reservation without its item, and in any case within the limits. -/
structure Exact (settings : Settings) (events : List Event) : Prop where
  balanced : Along (step settings) (fun s e => ¬Leaks s e) start events ↔
    Throughout (step settings) Balanced start events
  within : ∀ w ∈ (reached settings events).db.workspaces, settings.limits.covers w.usage

theorem quotas_exact_iff (settings : Settings) (events : List Event) : Exact settings events where
  balanced := by
    apply along_iff_throughout (I := Kept settings)
    · exact fun s e h => (step_accounts h e).1
    · exact fun s e h hb => (step_accounts h e).2 hb
    · exact start_kept settings
    · exact fun w hw => by cases hw
  within := by
    have hkept : Kept settings (reached settings events) := by
      unfold reached
      exact foldl_keeps (P := Kept settings) (fun s e h _ => (step_accounts h e).1)
        (start_kept settings) (along_true _ events)
    exact hkept.tidy.within

/-- A workspace with a book and an uploaded file that is not enqueued yet. -/
def uploaded : List Event :=
  [.job (.createWorkspace 9000), .createBook 0 71, .addResource (.importAttempt 7) 1]

/-- No enqueue is under way, and an active workspace counts jobs it does not have. -/
def Miscounted (s : System) : Prop :=
  s.calls = [] ∧ ∃ w ∈ s.db.workspaces, w.state = .active ∧
    w.usage.activeJobs ≠ openItems s.db.items w.id

instance miscounted_decidable (s : System) : Decidable (Miscounted s) :=
  inferInstanceAs (Decidable (_ ∧ _))

/-- A request crashes between the reservation and the insert; or the book is
deleted while its import waits. -/
theorem reservations_leak :
    Miscounted (reached ⟨⟨1000, 10, 10⟩, 3⟩
      (uploaded ++ [.find 1 0 (.importAttempt 7) 3, .reserve 1 72, .crash 1])) ∧
    Miscounted (reached ⟨⟨1000, 10, 10⟩, 3⟩ (uploaded ++
      [.find 1 0 (.importAttempt 7) 3, .reserve 1 72, .insert 1 73, .deleteBook 0 1 74])) := by
  decide +kernel

end Workbench.Balances
