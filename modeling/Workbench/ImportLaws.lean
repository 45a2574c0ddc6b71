import Workbench.ImportJobs
import Workbench.CaseHealth

/-!
# Imports agree with their jobs

What one transaction does to the items of imports, and to the attempts, keeps
the two records linked in every run. They agree in the runs whose uploads and
deliveries are not cut short.
-/

set_option autoImplicit false

namespace Workbench.ImportLaws
open Workbench.Listing Workbench.Tables Workbench.Calendar Workbench.Workspaces Workbench.Jobs
open Workbench.JobRuns Workbench.Claims Workbench.ItemFates
open Workbench.Ingestion Workbench.Interpretation Workbench.Activation Workbench.ActivationLaws
open Workbench.ImportJobs
open Workbench.Accounts (Waiting mem_setUsage reserve_spec release_spec revoked_row)
open Workbench.Raising (bind_ok ok_bind map_ok demand fetch)
open Workbench.Raising (demand_ok fetch_ok demand_error fetch_error bind_eq_error)

def OfImport (target : Target) : Prop := ∃ attempt, target = .importAttempt attempt

section Jobs
variable {settings : Jobs.Settings} {db after : Database}

def Dimmed (db after : Database) : Prop :=
  ∀ w ∈ after.workspaces, w.state = .active →
    (∃ v ∈ db.workspaces, v.id = w.id ∧ v.state = .active) ∨ db.serial ≤ w.id

theorem same_dimmed (h : after.workspaces = db.workspaces) : Dimmed db after :=
  fun w hw ha => .inl ⟨w, h ▸ hw, rfl, ha⟩

theorem used_dimmed {id : ℕ} {usage : QuotaAmounts}
    (h : after.workspaces = setUsage id usage db.workspaces) : Dimmed db after := by
  intro w hw ha
  rw [h] at hw
  obtain ⟨v, hv, hid, hstate, _⟩ := mem_setUsage hw
  exact .inl ⟨v, hv, hid.symm, hstate.symm.trans ha⟩

theorem revoke_dimmed {cleanupMaxAttempts id : ℕ} {state : WorkspaceState}
    {reason : CleanupReason} {now : Instant}
    (h : revokeWorkspace cleanupMaxAttempts id state reason now db = .ok after) :
    Dimmed db after := by
  have hw : after.workspaces = revise Workspace.id id (·.revoke state now) db.workspaces := by
    simp only [revokeWorkspace, bind_ok] at h
    obtain ⟨_, _, h⟩ := h
    split at h
    · rw [← Except.ok.inj h]
    · obtain ⟨_, rfl⟩ := addItem_ok h
      rfl
  intro w hmem ha
  rw [hw] at hmem
  obtain ⟨v, hv, hid, _, hstate⟩ := revoked_row hmem
  exact .inl ⟨v, hv, hid.symm, (hstate ha).2⟩

theorem released_dimmed {workspace : ℕ} {clock : Instant} {mid : Database}
    (h : releaseJob workspace clock mid = .ok after) (hm : mid.workspaces = db.workspaces) :
    Dimmed db after := by
  obtain ⟨rows, hr, rfl⟩ := withWorkspaces_ok h
  obtain ⟨_, _, _, _, _, hafter⟩ := release_spec hr
  exact used_dimmed (hafter.trans (by rw [hm]))

theorem succeeded_dimmed {token : ℕ} {now clock : Instant} {done : Bool}
    (h : markSucceeded token now clock db = .ok (done, after)) : Dimmed db after := by
  simp only [markSucceeded, bind_ok] at h
  obtain ⟨⟨a, item⟩, _, h⟩ := h
  split at h
  · simp only [bind_ok] at h
    obtain ⟨db₁, h₁, h⟩ := h
    obtain ⟨-, rfl⟩ := Prod.mk.inj (Except.ok.inj h)
    obtain ⟨_, rfl⟩ := completeAttempt_ok h₁
    exact same_dimmed rfl
  · simp only [bind_ok] at h
    obtain ⟨db₁, h₁, db₂, h₂, h⟩ := h
    obtain ⟨-, rfl⟩ := Prod.mk.inj (Except.ok.inj h)
    obtain ⟨_, rfl⟩ := completeAttempt_ok h₁
    exact released_dimmed h₂ rfl

theorem failed_dimmed {token : ℕ} {retryOutcome : RetryOutcome} {category : FailureCategory}
    {now clock : Instant} {done : Bool}
    (h : markFailed token retryOutcome category now clock db = .ok (done, after)) :
    Dimmed db after := by
  simp only [markFailed, bind_ok] at h
  obtain ⟨⟨a, item⟩, _, h⟩ := h
  split at h
  · simp only [bind_ok] at h
    obtain ⟨db₁, h₁, h⟩ := h
    obtain ⟨-, rfl⟩ := Prod.mk.inj (Except.ok.inj h)
    obtain ⟨_, rfl⟩ := completeAttempt_ok h₁
    exact same_dimmed rfl
  · simp only [bind_ok] at h
    obtain ⟨db₁, h₁, h⟩ := h
    obtain ⟨_, rfl⟩ := completeAttempt_ok h₁
    split at h
    · simp only [bind_ok] at h
      obtain ⟨db₂, h₂, h⟩ := h
      obtain ⟨-, rfl⟩ := Prod.mk.inj (Except.ok.inj h)
      exact released_dimmed h₂ rfl
    · obtain ⟨-, rfl⟩ := Prod.mk.inj (Except.ok.inj h)
      exact same_dimmed rfl

theorem purge_dimmed {id : ℕ} {attemptToken : Option ℕ}
    (h : purgeWorkspace id attemptToken db = .ok after) : Dimmed db after := by
  have hw : ∀ w ∈ after.workspaces, w ∈ db.workspaces := by
    unfold purgeWorkspace at h
    split at h
    · obtain rfl := Except.ok.inj h
      exact fun _ hw => hw
    · simp only [bind_ok] at h
      obtain ⟨_, _, h⟩ := h
      cases attemptToken with
      | none =>
        obtain rfl := Except.ok.inj h
        exact fun _ hw => List.mem_of_mem_filter hw
      | some token =>
        simp only [bind_ok] at h
        obtain ⟨_, _, _, _, h⟩ := h
        obtain rfl := Except.ok.inj h
        exact fun _ hw => List.mem_of_mem_filter hw
  exact fun w hmem ha => .inl ⟨w, hw w hmem, rfl, ha⟩

theorem claimRows_workspaces {now : Instant} {leaseDuration : ℤ} {items : List WorkItem}
    {works : List ClaimedWork}
    (h : claimRows now leaseDuration items db = .ok (works, after)) :
    after.workspaces = db.workspaces := by
  induction items generalizing db works with
  | nil =>
    obtain ⟨-, rfl⟩ := Prod.mk.inj (Except.ok.inj h)
    rfl
  | cons item rest ih =>
    simp only [claimRows, bind_ok] at h
    obtain ⟨⟨work, db₁⟩, h₁, ⟨works', db₂⟩, h₂, h⟩ := h
    obtain ⟨-, rfl⟩ := Prod.mk.inj (Except.ok.inj h)
    obtain ⟨leaseUntil, _, _, rfl, _, _⟩ := claimRow_ok h₁
    have hrest : db₂.workspaces = (db.grant item now leaseUntil).workspaces := ih h₂
    exact hrest

theorem perform_dimmed {c : Jobs.Command} (h : Jobs.perform settings db c = .ok after) :
    Dimmed db after := by
  cases c with
  | createWorkspace expiresAt =>
    obtain rfl := Except.ok.inj h
    intro w hw ha
    rcases List.mem_append.mp hw with hw | hw
    · exact .inl ⟨w, hw, rfl, ha⟩
    · rw [List.mem_singleton.mp hw]
      exact .inr (Nat.le_refl _)
  | reserve workspace requested clock =>
    obtain ⟨rows, hr, rfl⟩ := withWorkspaces_ok h
    obtain ⟨_, _, _, _, _, hafter⟩ := reserve_spec hr
    exact used_dimmed hafter
  | release workspace released clock =>
    obtain ⟨rows, hr, rfl⟩ := withWorkspaces_ok h
    obtain ⟨_, _, _, _, _, hafter⟩ := release_spec hr
    exact used_dimmed hafter
  | enqueue workspace kind target maxAttempts now clock =>
    simp only [Jobs.perform, enqueue] at h
    split at h
    · obtain rfl := Except.ok.inj h
      exact same_dimmed rfl
    · simp only [bind_ok] at h
      obtain ⟨db₁, h₁, h⟩ := h
      obtain ⟨rows, hr, rfl⟩ := withWorkspaces_ok h₁
      obtain ⟨_, _, _, _, _, hafter⟩ := reserve_spec hr
      obtain ⟨_, rfl⟩ := addItem_ok h
      exact used_dimmed hafter
  | claim request now leaseDuration locked =>
    obtain ⟨⟨works, _⟩, hclaim, rfl⟩ := map_ok.mp h
    exact same_dimmed (claimRows_workspaces hclaim)
  | markSucceeded token now clock =>
    obtain ⟨⟨done, _⟩, hmark, rfl⟩ := map_ok.mp h
    exact succeeded_dimmed hmark
  | markFailed token outcome category now clock =>
    obtain ⟨⟨done, _⟩, hmark, rfl⟩ := map_ok.mp h
    exact failed_dimmed hmark
  | expire workspace now => exact revoke_dimmed h
  | delete workspace now => exact revoke_dimmed h
  | purge workspace attemptToken => exact purge_dimmed h

theorem Dimmed.active (h : Dimmed db after) {workspace : ℕ} (hlt : workspace < db.serial)
    (ha : Active after workspace) : Active db workspace := by
  obtain ⟨w, hw, rfl, hstate⟩ := ha
  rcases h w hw hstate with hv | hle
  · exact hv
  · exact absurd hlt (Nat.not_lt.mpr hle)

structure Worked (c : Jobs.Command) (db after : Database) : Prop where
  followed : Followed OfImport (fate c) db after
  valid : Valid after
  traced : Traced db after
  dimmed : Dimmed db after

theorem perform_worked (hv : Valid db) {c : Jobs.Command}
    (other : ∀ workspace kind attempt maxAttempts now clock,
      c ≠ .enqueue workspace kind (.importAttempt attempt) maxAttempts now clock)
    (h : Jobs.perform settings db c = .ok after) : Worked c db after := by
  have hmoves := perform_moves hv (allows_any db c) h
  refine ⟨perform_followed hv ?_ ?_ h, moves_valid hv hmoves, moves_traced hmoves,
    perform_dimmed h⟩
  · rintro id ⟨attempt, ht⟩
    cases ht
  · rintro workspace kind target maxAttempts now clock rfl ⟨attempt, rfl⟩
    exact other workspace kind attempt maxAttempts now clock rfl

theorem outside_fate {c : Jobs.Command} (h : Outside c = true) (i : WorkItem) :
    fate c i = none := by
  cases c with
  | claim => cases h
  | markSucceeded => cases h
  | markFailed => cases h
  | createWorkspace => rfl
  | reserve => rfl
  | release => rfl
  | enqueue => rfl
  | expire => rfl
  | delete => rfl
  | purge => rfl

theorem outside_other {c : Jobs.Command} (h : Outside c = true) (workspace : ℕ) (kind : JobKind)
    (attempt maxAttempts : ℕ) (now clock : Instant) :
    c ≠ .enqueue workspace kind (.importAttempt attempt) maxAttempts now clock := by
  rintro rfl
  cases h

end Jobs

def blankEvidence : Written := ⟨false, 0, 0, [], [], []⟩

def PhaseHolds (st : State) (a : Attempt) : Phase → Prop
  | .claimed => True
  | .read state => .attempt a.id state ∈ st.sources.readings ∧
      (state = .received ↔ a.state = .received)
  | .ended .succeeded => a.state ≠ .received
  | .ended _ => True

structure Handed (st : State) (d : Delivery) : Prop where
  drawn : d.token < st.jobs.serial
  row : ∀ i ∈ st.jobs.items, i.currentToken = some d.token →
    i.target = d.target ∧ i.workspace = d.work.workItem.workspace
  phase : ∀ i ∈ st.jobs.items, i.currentToken = some d.token → ∀ a ∈ st.sources.attempts,
    i.target = .importAttempt a.id → PhaseHolds st a d.phase

structure Linked (st : State) : Prop where
  valid : Valid st.jobs
  shared : st.sources.workspaces = st.jobs.workspaces
  known : ∀ w ∈ st.jobs.workspaces, w.id < st.jobs.serial
  attempts : Numbered Attempt.id st.sources.attempts
  drawn : ∀ a ∈ st.sources.attempts, a.workspace < st.jobs.serial
  owned : ∀ i ∈ st.jobs.items, ∀ attempt, i.target = .importAttempt attempt →
    ∃ a ∈ st.sources.attempts, a.id = attempt ∧ a.workspace = i.workspace
  single : ∀ i ∈ st.jobs.items, ∀ j ∈ st.jobs.items, ∀ attempt,
    i.target = .importAttempt attempt → j.target = .importAttempt attempt → i = j
  requested : ∀ attempt ∈ st.requests, ∀ i ∈ st.jobs.items, i.target ≠ .importAttempt attempt
  blank : ∀ a ∈ st.sources.attempts, a.state = .received → writtenOf st a = blankEvidence
  rows : ∀ r ∈ st.sources.rawRows, r.attempt < st.sources.attempts.length
  hashes : ∀ h ∈ st.hashes, h.1 < st.sources.attempts.length
  tokens : (st.deliveries.map Delivery.token).Nodup
  handed : ∀ d ∈ st.deliveries, Handed st d

def FailureHolds (settings : ImportJobs.Settings) (st : State) (a : Attempt) (d : Delivery) : Prop :=
  match d.phase with
  | .ended .transientFailure => a.state ≠ .received ∧
      d.work.workItem.attemptCount < (settings.policy d.work.workItem.kind).maxAttempts
  | .ended .otherException => a.state = .received ∧ ¬Active st.jobs a.workspace
  | _ => True

structure Agreed (settings : ImportJobs.Settings) (st : State) : Prop where
  agreeing : Agreeing st
  failures : ∀ d ∈ st.deliveries, ∀ i ∈ st.jobs.items, i.currentToken = some d.token →
    ∀ a ∈ st.sources.attempts, i.target = .importAttempt a.id → FailureHolds settings st a d

theorem empty_linked : Linked State.empty where
  valid := empty_valid
  shared := rfl
  known := fun w hw => by cases hw
  attempts := rfl
  drawn := fun a ha => by cases ha
  owned := fun i hi => by cases hi
  single := fun i hi => by cases hi
  requested := fun k hk => by cases hk
  blank := fun a ha => by cases ha
  rows := fun r hr => by cases hr
  hashes := fun h hh => by cases hh
  tokens := List.nodup_nil
  handed := fun d hd => by cases hd

theorem empty_agreed (settings : ImportJobs.Settings) : Agreed settings State.empty where
  agreeing := ⟨fun a ha => (by cases ha), fun a ha => by cases ha⟩
  failures := fun d hd => by cases hd

section Records
variable {settings : ImportJobs.Settings} {st after : State}

theorem Linked.attempt_eq (h : Linked st) {a b : Attempt} (ha : a ∈ st.sources.attempts)
    (hb : b ∈ st.sources.attempts) (he : a.id = b.id) : a = b :=
  eq_of_key_eq Attempt.id h.attempts.nodup ha hb he

theorem Linked.sync_eq (h : Linked st) : State.sync st = st := by
  unfold State.sync
  rw [← h.shared]

theorem written_congr {a : Attempt} (hr : after.sources.rawRows = st.sources.rawRows)
    (hh : after.hashes = st.hashes) : writtenOf after a = writtenOf st a := by
  simp only [writtenOf, rawOf, hr, hh]

theorem jobs_linked (h : Linked st) {c : Jobs.Command} {jobs : Database}
    (hw : Worked c st.jobs jobs) : Linked (State.sync { st with jobs := jobs }) where
  valid := hw.valid
  shared := rfl
  known := by
    intro w hmem
    rcases hw.followed.workspaces w hmem with ⟨v, hv, hid⟩ | ⟨_, hlt⟩
    · exact hid ▸ Nat.lt_of_lt_of_le (h.known v hv) hw.followed.serial
    · exact hlt
  attempts := h.attempts
  drawn := fun a ha => Nat.lt_of_lt_of_le (h.drawn a ha) hw.followed.serial
  owned := by
    intro j hj attempt ht
    obtain ⟨i, hi, hc⟩ := hw.followed.back j hj ⟨attempt, ht⟩
    obtain ⟨a, ha, hid, hws⟩ := h.owned i hi attempt (hc.target.symm.trans ht)
    exact ⟨a, ha, hid, hws.trans hc.workspace.symm⟩
  single := by
    intro j hj j' hj' attempt ht ht'
    obtain ⟨i, hi, hc⟩ := hw.followed.back j hj ⟨attempt, ht⟩
    obtain ⟨i', hi', hc'⟩ := hw.followed.back j' hj' ⟨attempt, ht'⟩
    have he : i = i' := h.single i hi i' hi' attempt (hc.target.symm.trans ht)
      (hc'.target.symm.trans ht')
    exact hw.valid.item_eq hj hj' (by rw [hc.id, hc'.id, he])
  requested := by
    intro attempt hk j hj ht
    obtain ⟨i, hi, hc⟩ := hw.followed.back j hj ⟨attempt, ht⟩
    exact h.requested attempt hk i hi (hc.target.symm.trans ht)
  blank := h.blank
  rows := h.rows
  hashes := h.hashes
  tokens := h.tokens
  handed := by
    intro d hd
    have hh := h.handed d hd
    refine ⟨Nat.lt_of_lt_of_le hh.drawn hw.followed.serial, ?_, ?_⟩
    · exact fun j hj hc => hh.row j (hw.traced.2 j hj d.token hc hh.drawn) hc
    · exact fun j hj hc => hh.phase j (hw.traced.2 j hj d.token hc hh.drawn) hc

def EndsRightly (c : Jobs.Command) (st : State) : Prop :=
  ∀ i ∈ st.jobs.items, ∀ a ∈ st.sources.attempts, i.target = .importAttempt a.id →
    ∀ state ∈ fate c i, state = .succeeded ∧ a.state ≠ .received ∨
      state = .failed ∧ a.state = .received ∧ ¬Active st.jobs a.workspace

theorem jobs_agreed (h : Linked st) (ha : Agreed settings st) {c : Jobs.Command} {jobs : Database}
    (hw : Worked c st.jobs jobs) (hends : EndsRightly c st) :
    Agreed settings (State.sync { st with jobs := jobs }) where
  agreeing := by
    constructor
    · intro a hmem hstate hactive hrequest
      have hbefore : Active st.jobs a.workspace := hw.dimmed.active (h.drawn a hmem) hactive
      obtain ⟨i, hi, ht, hwait⟩ := ha.agreeing.waiting a hmem hstate hbefore hrequest
      obtain ⟨b, hb, hbid, hbw⟩ := h.owned i hi a.id ht
      have hab : b = a := h.attempt_eq hb hmem hbid
      subst hab
      -- the workspace is still there, and so is the item
      obtain ⟨w, hwm, hwid, _⟩ := hactive
      obtain ⟨j, hj, hjt⟩ := hw.followed.kept i hi ⟨w, hwm, hwid.trans hbw⟩
      obtain ⟨i', hi', hc⟩ := hw.followed.back j hj ⟨b.id, hjt.trans ht⟩
      have hii : i' = i := h.single i' hi' i hi b.id (hc.target.symm.trans (hjt.trans ht)) ht
      subst hii
      refine ⟨j, hj, hjt.trans ht, hc.waiting.mpr ⟨hwait, ?_⟩⟩
      cases hf : fate c i' with
      | none => rfl
      | some state =>
        rcases hends i' hi b hmem ht state hf with ⟨_, hno⟩ | ⟨_, _, hno⟩
        · exact absurd hstate hno
        · exact absurd hbefore hno
    · intro a hmem hstate j hj ht hfailed
      obtain ⟨i, hi, hc⟩ := hw.followed.back j hj ⟨a.id, ht⟩
      have hit : i.target = .importAttempt a.id := hc.target.symm.trans ht
      have hold := ha.agreeing.unfailed a hmem hstate i hi hit
      cases hf : fate c i with
      | none =>
        by_cases hwait : Waiting i
        · rcases hc.waits hf hwait with hj' | hj' <;> rw [hj'] at hfailed <;> cases hfailed
        · exact hold ((hc.rests hf hwait).symm.trans hfailed)
      | some state =>
        rcases hends i hi a hmem hit state hf with ⟨rfl, _⟩ | ⟨_, hno, _⟩
        · have hj' := hc.ended _ hf
          rw [hj'] at hfailed
          cases hfailed
        · exact hstate hno
  failures := by
    intro d hd j hj hc a hmem ht
    have hold := ha.failures d hd j (hw.traced.2 j hj d.token hc (h.handed d hd).drawn) hc a hmem ht
    have hdim : ¬Active st.jobs a.workspace → ¬Active jobs a.workspace :=
      fun hno hact => hno (hw.dimmed.active (h.drawn a hmem) hact)
    unfold FailureHolds at hold ⊢
    split
    · rename_i hp
      rw [hp] at hold
      exact hold
    · rename_i hp
      rw [hp] at hold
      exact ⟨hold.1, hdim hold.2⟩
    · trivial

theorem outside_agreed (h : Linked st) (ha : Agreed settings st) {c : Jobs.Command}
    {jobs : Database} (hw : Worked c st.jobs jobs) (hf : ∀ i, fate c i = none) :
    Agreed settings (State.sync { st with jobs := jobs }) := by
  apply jobs_agreed h ha hw
  intro i _ a _ _ state hs
  rw [hf i] at hs
  cases hs

theorem deliveries_linked (h : Linked st) {deliveries : List Delivery}
    (ht : (deliveries.map Delivery.token).Nodup) (hd : ∀ d ∈ deliveries, Handed st d) :
    Linked { st with deliveries := deliveries } :=
  { h with
    tokens := ht
    handed := fun d hmem => ⟨(hd d hmem).drawn, (hd d hmem).row, (hd d hmem).phase⟩ }

theorem deliveries_agreed (ha : Agreed settings st) {deliveries : List Delivery}
    (hd : ∀ d ∈ deliveries, ∀ i ∈ st.jobs.items, i.currentToken = some d.token →
      ∀ a ∈ st.sources.attempts, i.target = .importAttempt a.id → FailureHolds settings st a d) :
    Agreed settings { st with deliveries := deliveries } :=
  ⟨⟨ha.agreeing.waiting, ha.agreeing.unfailed⟩, hd⟩

theorem drop_linked (h : Linked st) (token : ℕ) : Linked (st.dropDelivery token) :=
  deliveries_linked h (h.tokens.sublist (List.filter_sublist.map _))
    fun d hd => h.handed d (List.mem_of_mem_filter hd)

theorem drop_agreed (ha : Agreed settings st) (token : ℕ) :
    Agreed settings (st.dropDelivery token) :=
  deliveries_agreed ha fun d hd => ha.failures d (List.mem_of_mem_filter hd)

def Delivery.inPhase (d : Delivery) (phase : Phase) : Delivery := { d with phase := phase }

theorem mem_setPhase (ht : (st.deliveries.map Delivery.token).Nodup) {d : Delivery}
    (hd : d ∈ st.deliveries) {phase : Phase} {e : Delivery}
    (he : e ∈ (st.setPhase d.token phase).deliveries) :
    e ∈ st.deliveries ∧ e.token ≠ d.token ∨ e = Delivery.inPhase d phase := by
  obtain ⟨old, ho, rfl⟩ := mem_revise.mp he
  by_cases hold : old.token = d.token
  · rw [if_pos hold, eq_of_key_eq Delivery.token ht ho hd hold]
    exact .inr rfl
  · rw [if_neg hold]
    exact .inl ⟨ho, hold⟩

theorem setPhase_tokens (token : ℕ) (phase : Phase) :
    (st.setPhase token phase).deliveries.map Delivery.token =
      st.deliveries.map Delivery.token :=
  keys_revise (g := Delivery.token) (f := fun d => { d with phase := phase }) (fun _ => rfl) token
    st.deliveries

theorem setPhase_linked (h : Linked st) {d : Delivery} (hd : d ∈ st.deliveries) {phase : Phase}
    (hp : ∀ i ∈ st.jobs.items, i.currentToken = some d.token → ∀ a ∈ st.sources.attempts,
      i.target = .importAttempt a.id → PhaseHolds st a phase) :
    Linked (st.setPhase d.token phase) := by
  apply deliveries_linked h
  · exact (setPhase_tokens d.token phase).symm ▸ h.tokens
  · intro e he
    rcases mem_setPhase h.tokens hd he with ⟨he, _⟩ | rfl
    · exact h.handed e he
    · exact ⟨(h.handed d hd).drawn, (h.handed d hd).row, hp⟩

theorem setPhase_agreed (h : Linked st) (ha : Agreed settings st) {d : Delivery}
    (hd : d ∈ st.deliveries) {phase : Phase}
    (hp : ∀ i ∈ st.jobs.items, i.currentToken = some d.token → ∀ a ∈ st.sources.attempts,
      i.target = .importAttempt a.id → FailureHolds settings st a (Delivery.inPhase d phase)) :
    Agreed settings (st.setPhase d.token phase) := by
  apply deliveries_agreed ha
  intro e he i hi hc a hmem ht
  rcases mem_setPhase h.tokens hd he with ⟨he, _⟩ | rfl
  · exact ha.failures e he i hi hc a hmem ht
  · exact hp i hi hc a hmem ht

def HandedOut (db : Database) (works : List ClaimedWork) : Prop :=
  ∀ work ∈ works, work.token < db.serial ∧ ∀ row ∈ db.items,
    row.currentToken = some work.token → row = work.workItem

theorem HandedOut.traced {db later : Database} {works : List ClaimedWork} (h : HandedOut db works)
    (ht : Traced db later) : HandedOut later works := by
  intro work hw
  obtain ⟨hlt, hrow⟩ := h work hw
  exact ⟨Nat.lt_of_lt_of_le hlt ht.1, fun row hr hc => hrow row (ht.2 row hr _ hc hlt) hc⟩

theorem claimRows_handed {now : Instant} {leaseDuration : ℤ} {items : List WorkItem}
    {works : List ClaimedWork} {db later : Database} (hv : Valid db)
    (hc : Claiming db now items)
    (h : claimRows now leaseDuration items db = .ok (works, later)) :
    HandedOut later works ∧ works.map ClaimedWork.token = List.range' db.serial works.length := by
  induction items generalizing db works with
  | nil =>
    obtain ⟨rfl, rfl⟩ := Prod.mk.inj (Except.ok.inj h)
    exact ⟨fun work hw => (by cases hw), rfl⟩
  | cons item rest ih =>
    simp only [claimRows, bind_ok] at h
    obtain ⟨⟨first, db₁⟩, h₁, ⟨others, db₂⟩, h₂, h⟩ := h
    obtain ⟨rfl, rfl⟩ := Prod.mk.inj (Except.ok.inj h)
    obtain ⟨hi, hclaim⟩ := hc.mem item List.mem_cons_self
    have hfirst : HandedOut db₁ [first] := by
      intro work hw
      rw [List.mem_singleton.mp hw]
      exact ⟨claimRow_drawn h₁, fun row hr hcur => claimRow_current hv h₁ hr hcur⟩
    obtain ⟨leaseUntil, _, hl, rfl, htoken, _⟩ := claimRow_ok h₁
    have hr : Claiming (db.grant item now leaseUntil) now rest := hc.rest
    obtain ⟨hout, htokens⟩ := ih (grant_valid hv hi hclaim hl) hr h₂
    have hm : Moves (fun _ _ => True) (fun _ => True) (fun _ => True)
        (db.grant item now leaseUntil) db₂ :=
      claimRows_moves h₂ (fun i hi => ⟨(hr.mem i hi).1, (hr.mem i hi).2, trivial⟩) hr.distinct
    refine ⟨?_, ?_⟩
    · intro work hw
      rcases List.mem_cons.mp hw with rfl | hw
      · exact hfirst.traced (moves_traced hm) work (List.mem_singleton_self _)
      · exact hout work hw
    · rw [List.map_cons, htokens, htoken, List.length_cons, List.range'_succ]
      rfl

theorem claim_worked (h : Linked st) {request : Jobs.Request} {now : Instant} {leaseDuration : ℤ}
    {locked : List ℕ} {works : List ClaimedWork} {jobs : Database}
    (hc : Jobs.claim request now leaseDuration (fun id => locked.contains id) st.jobs =
      .ok (works, jobs)) : Worked (.claim request now leaseDuration locked) st.jobs jobs :=
  @perform_worked ⟨⟨0, 0, 0⟩, 0⟩ st.jobs jobs h.valid _ (by rintro _ _ _ _ _ _ ⟨⟩)
    (map_ok.mpr ⟨_, hc, rfl⟩)

theorem claim_sync (h : Linked st) {request : Jobs.Request} {now : Instant} {leaseDuration : ℤ}
    {locked : List ℕ} {works : List ClaimedWork} {jobs : Database}
    (hc : Jobs.claim request now leaseDuration (fun id => locked.contains id) st.jobs =
      .ok (works, jobs)) : State.sync { st with jobs := jobs } = { st with jobs := jobs } := by
  have hw : jobs.workspaces = st.sources.workspaces :=
    (claimRows_workspaces hc).trans h.shared.symm
  unfold State.sync
  rw [hw]

theorem claim_linked (h : Linked st) (request : Jobs.Request) (now : Instant) (leaseDuration : ℤ)
    (locked : List ℕ) : Linked (claimWork st request now leaseDuration locked) := by
  unfold claimWork
  split
  · exact h
  · rename_i works jobs hc
    have hnext := jobs_linked h (claim_worked h hc)
    rw [claim_sync h hc] at hnext
    obtain ⟨hout, htokens⟩ := claimRows_handed h.valid (candidates_claiming h.valid request now _) hc
    have hmap : (works.map fun work => (⟨work, now, .claimed⟩ : Delivery)).map Delivery.token =
        works.map ClaimedWork.token := by
      rw [List.map_map]
      rfl
    refine deliveries_linked hnext ?_ ?_
    · rw [List.map_append, hmap, htokens]
      refine List.Nodup.append h.tokens List.nodup_range' fun token hold hnew => ?_
      obtain ⟨d, hd, rfl⟩ := List.mem_map.mp hold
      exact absurd (h.handed d hd).drawn (Nat.not_lt.mpr (List.mem_range'_1.mp hnew).1)
    · intro d hd
      rcases List.mem_append.mp hd with hd | hd
      · exact hnext.handed d hd
      · obtain ⟨work, hwork, rfl⟩ := List.mem_map.mp hd
        obtain ⟨hlt, hrow⟩ := hout work hwork
        refine ⟨hlt, fun i hi hcur => ?_, fun _ _ _ _ _ _ => trivial⟩
        rw [hrow i hi hcur]
        exact ⟨rfl, rfl⟩

theorem claim_agreed (h : Linked st) (ha : Agreed settings st) (request : Jobs.Request)
    (now : Instant) (leaseDuration : ℤ) (locked : List ℕ) :
    Agreed settings (claimWork st request now leaseDuration locked) := by
  unfold claimWork
  split
  · exact ha
  · rename_i works jobs hc
    have hnext := outside_agreed h ha (claim_worked h hc) fun _ => rfl
    rw [claim_sync h hc] at hnext
    refine deliveries_agreed hnext fun d hd => ?_
    rcases List.mem_append.mp hd with hd | hd
    · exact hnext.failures d hd
    · obtain ⟨work, _, rfl⟩ := List.mem_map.mp hd
      exact fun _ _ _ _ _ _ => trivial

inductive Recording (policy : RetryPolicy) (now : Instant) (work : ClaimedWork) (clock : Instant) :
    Ending → Jobs.Command → Prop
  | succeeded : Recording policy now work clock .succeeded (.markSucceeded work.token now clock)
  | transient {outcome : RetryOutcome}
      (decided : policy.decide work.workItem.attemptCount .transient now = .ok outcome) :
      Recording policy now work clock .transientFailure
        (.markFailed work.token outcome .transient now clock)
  | permanent {outcome : RetryOutcome} : Recording policy now work clock .otherException
      (.markFailed work.token outcome .permanent now clock)

theorem recordOutcome_ok {jobSettings : Jobs.Settings} {policy : RetryPolicy} {now clock : Instant}
    {work : ClaimedWork} {ending : Ending} {db later : Database} {record : ExecutionRecord}
    (h : recordOutcome policy now work ending clock db = .ok (record, later)) : later = db ∨
      ∃ c, Recording policy now work clock ending c ∧ Jobs.perform jobSettings db c = .ok later := by
  cases ending with
  | succeeded =>
    simp only [recordOutcome] at h
    split at h
    · rename_i hm
      obtain ⟨-, rfl⟩ := Prod.mk.inj (Except.ok.inj h)
      exact .inr ⟨_, .succeeded, map_ok.mpr ⟨_, hm, rfl⟩⟩
    · obtain ⟨-, rfl⟩ := Prod.mk.inj (Except.ok.inj h)
      exact .inl rfl
    · cases h
  | transientFailure =>
    simp only [recordOutcome, bind_ok] at h
    obtain ⟨outcome, hd, marked, hm, h⟩ := h
    obtain ⟨-, rfl⟩ := Prod.mk.inj (Except.ok.inj h)
    exact .inr ⟨_, .transient hd, map_ok.mpr ⟨_, hm, rfl⟩⟩
  | otherException =>
    simp only [recordOutcome, bind_ok] at h
    obtain ⟨outcome, _, marked, hm, h⟩ := h
    obtain ⟨-, rfl⟩ := Prod.mk.inj (Except.ok.inj h)
    exact .inr ⟨_, .permanent, map_ok.mpr ⟨_, hm, rfl⟩⟩

theorem decided_again {policy : RetryPolicy} {count : ℕ} {now : Instant} {outcome : RetryOutcome}
    (h : policy.decide count .transient now = .ok outcome) (hlt : count < policy.maxAttempts) :
    outcome ≠ .failed := by
  simp only [RetryPolicy.decide, reduceCtorEq, if_false, if_neg (Nat.not_le.mpr hlt), bind_ok] at h
  obtain ⟨_, _, _, _, h⟩ := h
  rw [← Except.ok.inj h]
  simp

theorem recording_ends (h : Linked st) (ha : Agreed settings st) {d : Delivery}
    (hd : d ∈ st.deliveries) {ending : Ending} (hp : d.phase = .ended ending) {clock : Instant}
    {c : Jobs.Command}
    (hr : Recording (settings.policy d.work.workItem.kind) d.now d.work clock ending c) :
    EndsRightly c st := by
  intro i hi a hmem ht state hs
  have hphase := (h.handed d hd).phase i hi
  have hfailure := ha.failures d hd i hi
  cases hr with
  | succeeded =>
    simp only [fate] at hs
    split at hs
    · rename_i hc
      have hholds := hphase hc a hmem ht
      rw [hp] at hholds
      exact .inl ⟨(Option.some.inj hs).symm, hholds⟩
    · cases hs
  | @transient outcome decided =>
    cases outcome with
    | ready => cases hs
    | failed =>
      simp only [fate] at hs
      split at hs
      · rename_i hc
        have hholds := hfailure hc a hmem ht
        rw [FailureHolds, hp] at hholds
        exact absurd rfl (decided_again decided hholds.2)
      · cases hs
  | @permanent outcome =>
    cases outcome with
    | ready => cases hs
    | failed =>
      simp only [fate] at hs
      split at hs
      · rename_i hc
        have hholds := hfailure hc a hmem ht
        rw [FailureHolds, hp] at hholds
        exact .inr ⟨(Option.some.inj hs).symm, hholds⟩
      · cases hs

theorem recorded_cases (h : Linked st) (d : Delivery) (ending : Ending) (clock : Instant) :
    recordDelivery settings st d ending clock = st.dropDelivery d.token ∨
      ∃ c jobs, Recording (settings.policy d.work.workItem.kind) d.now d.work clock ending c ∧
        Worked c st.jobs jobs ∧ recordDelivery settings st d ending clock =
          State.dropDelivery (State.sync { st with jobs := jobs }) d.token := by
  unfold recordDelivery
  cases hr : recordOutcome (settings.policy d.work.workItem.kind) d.now d.work ending clock st.jobs with
  | error e => exact .inl (congrArg (State.dropDelivery · d.token) h.sync_eq)
  | ok x =>
    obtain ⟨record, later⟩ := x
    rcases @recordOutcome_ok settings.jobs _ _ _ _ _ _ _ _ hr with rfl | ⟨c, hc, hperform⟩
    · exact .inl (congrArg (State.dropDelivery · d.token) h.sync_eq)
    · have hother : ∀ workspace kind attempt maxAttempts now clock,
          c ≠ .enqueue workspace kind (.importAttempt attempt) maxAttempts now clock := by
        rintro _ _ _ _ _ _ rfl
        cases hc
      exact .inr ⟨c, later, hc, perform_worked h.valid hother hperform, rfl⟩

theorem record_linked (h : Linked st) (d : Delivery) (ending : Ending) (clock : Instant) :
    Linked (recordDelivery settings st d ending clock) := by
  rcases @recorded_cases settings st h d ending clock with he | ⟨c, jobs, _, hw, he⟩
  · exact he ▸ drop_linked h d.token
  · exact he ▸ drop_linked (jobs_linked h hw) d.token

theorem record_agreed (h : Linked st) (ha : Agreed settings st) {d : Delivery}
    (hd : d ∈ st.deliveries) {ending : Ending} (hp : d.phase = .ended ending) (clock : Instant) :
    Agreed settings (recordDelivery settings st d ending clock) := by
  rcases @recorded_cases settings st h d ending clock with he | ⟨c, jobs, hr, hw, he⟩
  · exact he ▸ drop_agreed ha d.token
  · exact he ▸ drop_agreed (jobs_agreed h ha hw (recording_ends h ha hd hp hr)) d.token

theorem endRequest_linked (h : Linked st) (attempt : ℕ) : Linked (st.endRequest attempt) :=
  { h with
    requested := fun k hk => h.requested k (List.mem_of_mem_filter hk)
    handed := fun d hd => ⟨(h.handed d hd).drawn, (h.handed d hd).row, (h.handed d hd).phase⟩ }

theorem endRequest_agreed (ha : Agreed settings st) {attempt : ℕ}
    (hw : attempt ∈ st.requests → ∀ a ∈ st.sources.attempts, a.id = attempt →
      ¬Active st.jobs a.workspace) : Agreed settings (st.endRequest attempt) where
  agreeing := by
    refine ⟨fun a hmem hstate hactive hrequest => ?_, ha.agreeing.unfailed⟩
    refine ha.agreeing.waiting a hmem hstate hactive fun hpending => ?_
    by_cases he : a.id = attempt
    · exact hw (he ▸ hpending) a hmem he hactive
    · exact hrequest (List.mem_filter.mpr ⟨hpending, by simpa using he⟩)
  failures := ha.failures

structure Enqueued (st : State) (a : Attempt) (jobs : Database) (item : WorkItem) : Prop where
  valid : Valid jobs
  items : jobs.items = st.jobs.items ++ [item]
  target : item.target = .importAttempt a.id
  workspace : item.workspace = a.workspace
  ready : item.state = .ready
  untaken : item.currentToken = none
  serial : st.jobs.serial ≤ jobs.serial
  ids : jobs.workspaces.map Workspace.id = st.jobs.workspaces.map Workspace.id
  dimmed : Dimmed st.jobs jobs

theorem enqueue_ok (h : Linked st) {limits : QuotaAmounts} {a : Attempt} {kind : JobKind}
    {maxAttempts : ℕ} {now clock : Instant} {jobs : Database} (hr : a.id ∈ st.requests)
    (he : enqueue limits a.workspace kind (.importAttempt a.id) maxAttempts now clock st.jobs =
      .ok jobs) : ∃ item, Enqueued st a jobs item := by
  have hmoves : Moves (fun _ _ => True) (fun _ => True) (fun _ => True) st.jobs jobs :=
    enqueue_moves he
  have hvalid : Valid jobs := moves_valid h.valid hmoves
  unfold enqueue at he
  split at he
  · rename_i i hi
    have ht : i.target = .importAttempt a.id := by simpa using List.find?_some hi
    exact absurd ht (h.requested a.id hr i (List.mem_of_find?_eq_some hi))
  · simp only [bind_ok] at he
    obtain ⟨db₁, h₁, he⟩ := he
    obtain ⟨rows, hr, rfl⟩ := withWorkspaces_ok h₁
    obtain ⟨_, _, _, _, _, hafter⟩ := reserve_spec hr
    obtain ⟨_, rfl⟩ := addItem_ok he
    refine ⟨_, hvalid, rfl, rfl, rfl, rfl, rfl, Nat.le_succ _, ?_, used_dimmed hafter⟩
    show rows.map Workspace.id = _
    rw [hafter, ids_setUsage]

theorem enqueue_total (h : Linked st) {a : Attempt} (hr : a.id ∈ st.requests) {now clock : Instant}
    (hroom : HasRoom settings st.jobs a.workspace clock) :
    ∃ jobs, enqueue settings.jobs.limits a.workspace .importValidation (.importAttempt a.id)
      (settings.policy .importValidation).maxAttempts now clock st.jobs = .ok jobs := by
  have hnone : st.jobs.items.find? (·.target = .importAttempt a.id) = none := by
    rw [List.find?_eq_none]
    intro i hi
    simpa using h.requested a.id hr i hi
  obtain ⟨w, hw, haccess, hbytes, hbooks, hjobs⟩ := hroom
  have hmax := (settings.policy .importValidation).maxAttempts_positive
  unfold enqueue
  rw [hnone]
  simp [reserve, requireActive, QuotaAmounts.reserve, withWorkspaces, addItem, demand, fetch, hw,
    haccess, hbytes, hbooks, hjobs, hmax, Target.kind, pure, Except.pure]

theorem enqueued_linked (h : Linked st) {a : Attempt} (ha : a ∈ st.sources.attempts)
    (hr : a.id ∈ st.requests) {jobs : Database} {item : WorkItem} (he : Enqueued st a jobs item) :
    Linked (State.endRequest (State.sync { st with jobs := jobs }) a.id) := by
  have hitems : ∀ j ∈ jobs.items, j ∈ st.jobs.items ∨ j = item := by
    intro j hj
    rw [he.items] at hj
    rcases List.mem_append.mp hj with hj | hj
    · exact .inl hj
    · exact .inr (List.mem_singleton.mp hj)
  refine ⟨he.valid, rfl, ?_, h.attempts, ?_, ?_, ?_, ?_, h.blank, h.rows, h.hashes, h.tokens, ?_⟩
  · intro w hw
    have hm : w.id ∈ jobs.workspaces.map Workspace.id := List.mem_map_of_mem hw
    rw [he.ids] at hm
    obtain ⟨v, hv, hid⟩ := List.mem_map.mp hm
    exact hid ▸ Nat.lt_of_lt_of_le (h.known v hv) he.serial
  · exact fun b hb => Nat.lt_of_lt_of_le (h.drawn b hb) he.serial
  · intro j hj attempt ht
    rcases hitems j hj with hj | rfl
    · exact h.owned j hj attempt ht
    · rw [he.target, Target.importAttempt.injEq] at ht
      exact ⟨a, ha, ht, he.workspace.symm⟩
  · intro j hj k hk attempt htj htk
    rcases hitems j hj with hj | rfl
    · rcases hitems k hk with hk | rfl
      · exact h.single j hj k hk attempt htj htk
      · rw [he.target, Target.importAttempt.injEq] at htk
        exact absurd (htk ▸ htj) (h.requested a.id hr j hj)
    · rcases hitems k hk with hk | rfl
      · rw [he.target, Target.importAttempt.injEq] at htj
        exact absurd (htj ▸ htk) (h.requested a.id hr k hk)
      · rfl
  · intro attempt hk j hj ht
    obtain ⟨hk, hne⟩ := List.mem_filter.mp hk
    rcases hitems j hj with hj | rfl
    · exact h.requested attempt hk j hj ht
    · rw [he.target, Target.importAttempt.injEq] at ht
      simp [ht] at hne
  · intro d hd
    have hh := h.handed d hd
    refine ⟨Nat.lt_of_lt_of_le hh.drawn he.serial, ?_, ?_⟩
    · intro j hj hc
      rcases hitems j hj with hj | rfl
      · exact hh.row j hj hc
      · rw [he.untaken] at hc
        cases hc
    · intro j hj hc
      rcases hitems j hj with hj | rfl
      · exact hh.phase j hj hc
      · rw [he.untaken] at hc
        cases hc

theorem enqueued_agreed (h : Linked st) (ha : Agreed settings st) {a : Attempt} {jobs : Database}
    {item : WorkItem} (he : Enqueued st a jobs item) :
    Agreed settings (State.endRequest (State.sync { st with jobs := jobs }) a.id) := by
  have hactive : ∀ b ∈ st.sources.attempts, Active jobs b.workspace → Active st.jobs b.workspace :=
    fun b hb => he.dimmed.active (h.drawn b hb)
  refine ⟨⟨?_, ?_⟩, ?_⟩
  · intro b hb hstate hact hrequest
    by_cases hid : b.id = a.id
    · exact ⟨item, he.items ▸ List.mem_append_right _ (List.mem_singleton_self item),
        hid ▸ he.target, .inl he.ready⟩
    · have hpending : b.id ∉ st.requests := fun hp =>
        hrequest (List.mem_filter.mpr ⟨hp, by simpa using hid⟩)
      obtain ⟨i, hi, ht, hwait⟩ := ha.agreeing.waiting b hb hstate (hactive b hb hact) hpending
      exact ⟨i, he.items ▸ List.mem_append_left _ hi, ht, hwait⟩
  · intro b hb hstate j hj ht hfailed
    change j ∈ jobs.items at hj
    rw [he.items] at hj
    rcases List.mem_append.mp hj with hj | hj
    · exact ha.agreeing.unfailed b hb hstate j hj ht hfailed
    · rw [List.mem_singleton.mp hj, he.ready] at hfailed
      cases hfailed
  · intro d hd j hj hc b hb ht
    change j ∈ jobs.items at hj
    rw [he.items] at hj
    rcases List.mem_append.mp hj with hj | hj
    · have hold := ha.failures d hd j hj hc b hb ht
      unfold FailureHolds at hold ⊢
      split
      · rename_i hp
        rw [hp] at hold
        exact hold
      · rename_i hp
        rw [hp] at hold
        exact ⟨hold.1, fun hact => hold.2 (hactive b hb hact)⟩
      · trivial
    · rw [List.mem_singleton.mp hj, he.untaken] at hc
      cases hc

theorem enqueue_linked (h : Linked st) (attempt : ℕ) (now clock : Instant) :
    Linked (enqueueImport settings st attempt now clock) := by
  unfold enqueueImport
  split
  · exact h
  · rename_i a ha
    split
    · rename_i hr
      obtain rfl := key_of_lookup ha
      cases he : enqueue settings.jobs.limits a.workspace .importValidation (.importAttempt a.id)
          (settings.policy .importValidation).maxAttempts now clock st.jobs with
      | error e =>
        show Linked (State.endRequest (State.sync st) a.id)
        rw [h.sync_eq]
        exact endRequest_linked h a.id
      | ok jobs =>
        obtain ⟨item, hitem⟩ := enqueue_ok h hr he
        exact enqueued_linked h (mem_of_lookup ha) hr hitem
    · exact h

theorem enqueue_agreed (h : Linked st) (ha : Agreed settings st) {attempt : ℕ}
    {now clock : Instant} (hroom : attempt ∈ st.requests → ∀ a ∈ st.sources.attempts,
      a.id = attempt → Active st.jobs a.workspace → HasRoom settings st.jobs a.workspace clock) :
    Agreed settings (enqueueImport settings st attempt now clock) := by
  unfold enqueueImport
  split
  · exact ha
  · rename_i a hl
    split
    · rename_i hr
      obtain rfl := key_of_lookup hl
      cases he : enqueue settings.jobs.limits a.workspace .importValidation (.importAttempt a.id)
          (settings.policy .importValidation).maxAttempts now clock st.jobs with
      | error e =>
        show Agreed settings (State.endRequest (State.sync st) a.id)
        rw [h.sync_eq]
        apply endRequest_agreed ha
        intro _ b hb hid hact
        obtain ⟨jobs, hok⟩ := @enqueue_total settings st h a hr now clock
          (hroom hr a (mem_of_lookup hl) rfl (h.attempt_eq hb (mem_of_lookup hl) hid ▸ hact))
        rw [he] at hok
        cases hok
      | ok jobs =>
        obtain ⟨item, hitem⟩ := enqueue_ok h hr he
        exact enqueued_agreed h ha hitem
    · exact ha

structure Shelled (st after : State) (a : Attempt) : Prop where
  state_eq : after = { st with
    sources := { st.sources with attempts := st.sources.attempts ++ [a] }
    requests := st.requests ++ [st.sources.attempts.length] }
  number : a.id = st.sources.attempts.length
  received : a.state = .received
  counts : a.rowCount = 0 ∧ a.errorCount = 0 ∧ a.validation = []
  owner : ∃ w ∈ st.sources.workspaces, w.id = a.workspace

theorem createShell_ok {workspace dataset : ℕ} {base : Option ℕ} {artifact : FileArtifact}
    {contract : ContractRevision} {now : Instant}
    (hc : ImportJobs.createShell st workspace dataset base artifact contract now = .ok after) :
    ∃ a, Shelled st after a := by
  simp only [ImportJobs.createShell, Activation.createShell, bind_ok, demand_ok, fetch_ok] at hc
  obtain ⟨_, ⟨w, hw, _, _, d, _, _, _, _, _, _, _, _, _, hsources⟩, he⟩ := hc
  rw [← Except.ok.inj hsources] at he
  exact ⟨_, (Except.ok.inj he).symm, rfl, rfl, ⟨rfl, rfl, rfl⟩, w, mem_of_lookup hw,
    key_of_lookup hw⟩

theorem shelled_linked (h : Linked st) {a : Attempt} (hs : Shelled st after a) : Linked after := by
  obtain ⟨rfl, hid, hreceived, ⟨hrows, herrors, hvalidation⟩, w, hw, hwid⟩ := hs
  have hcases : ∀ b ∈ st.sources.attempts ++ [a], b ∈ st.sources.attempts ∨ b = a := by
    intro b hb
    rcases List.mem_append.mp hb with hb | hb
    · exact .inl hb
    · exact .inr (List.mem_singleton.mp hb)
  -- no item is of the new number yet
  have hnew : ∀ i ∈ st.jobs.items, i.target ≠ .importAttempt st.sources.attempts.length := by
    intro i hi ht
    obtain ⟨b, hb, hbid, _⟩ := h.owned i hi _ ht
    exact (h.attempts.lt hb).ne hbid
  refine ⟨h.valid, h.shared, h.known, h.attempts.concat hid, ?_, ?_, h.single, ?_, ?_, ?_, ?_,
    h.tokens, ?_⟩
  · intro b hb
    rcases hcases b hb with hb | rfl
    · exact h.drawn b hb
    · exact hwid ▸ h.known w (h.shared ▸ hw)
  · intro i hi attempt ht
    obtain ⟨b, hb, hrest⟩ := h.owned i hi attempt ht
    exact ⟨b, List.mem_append_left _ hb, hrest⟩
  · intro attempt hk
    rcases List.mem_append.mp hk with hk | hk
    · exact h.requested attempt hk
    · exact List.mem_singleton.mp hk ▸ hnew
  · intro b hb hstate
    rcases hcases b hb with hb | rfl
    · exact h.blank b hb hstate
    · have hnorows : (st.sources.rawRows.filter fun r => r.attempt = b.id) = [] := by
        rw [List.filter_eq_nil_iff]
        intro r hr
        have hlt := h.rows r hr
        simp only [decide_eq_true_eq]
        omega
      have hnohashes : (st.hashes.filter fun k => k.1 = b.id) = [] := by
        rw [List.filter_eq_nil_iff]
        intro k hk
        have hlt := h.hashes k hk
        simp only [decide_eq_true_eq]
        omega
      simp only [writtenOf, rawOf, blankEvidence, hnorows, hnohashes, hreceived, hrows, herrors,
        hvalidation]
      rfl
  · intro r hr
    have hlt := h.rows r hr
    show r.attempt < (st.sources.attempts ++ [a]).length
    rw [List.length_append]
    omega
  · intro k hk
    have hlt := h.hashes k hk
    show k.1 < (st.sources.attempts ++ [a]).length
    rw [List.length_append]
    omega
  · intro d hd
    have hh := h.handed d hd
    refine ⟨hh.drawn, hh.row, fun i hi hc b hb ht => ?_⟩
    rcases hcases b hb with hb | rfl
    · exact hh.phase i hi hc b hb ht
    · exact absurd (hid ▸ ht) (hnew i hi)

theorem shelled_agreed (h : Linked st) (ha : Agreed settings st) {a : Attempt}
    (hs : Shelled st after a) : Agreed settings after := by
  obtain ⟨rfl, hid, hreceived, _, _⟩ := hs
  have hcases : ∀ b ∈ st.sources.attempts ++ [a], b ∈ st.sources.attempts ∨ b = a := by
    intro b hb
    rcases List.mem_append.mp hb with hb | hb
    · exact .inl hb
    · exact .inr (List.mem_singleton.mp hb)
  refine ⟨⟨?_, ?_⟩, ?_⟩
  · intro b hb hstate hactive hrequest
    rcases hcases b hb with hb | rfl
    · exact ha.agreeing.waiting b hb hstate hactive
        fun hp => hrequest (List.mem_append_left _ hp)
    · exact absurd (List.mem_append_right _ (List.mem_singleton.mpr hid)) hrequest
  · intro b hb hstate
    rcases hcases b hb with hb | rfl
    · exact ha.agreeing.unfailed b hb hstate
    · exact absurd hreceived hstate
  · intro d hd i hi hc b hb ht
    rcases hcases b hb with hb | rfl
    · exact ha.failures d hd i hi hc b hb ht
    · obtain ⟨b', hb', hbid, _⟩ := h.owned i hi _ ht
      exact absurd (hbid.trans hid) (h.attempts.lt hb').ne

structure SameShell (a b : Attempt) : Prop where
  id : b.id = a.id
  workspace : b.workspace = a.workspace
  received : b.state = .received ↔ a.state = .received
  rejected : b.state = .rejected ↔ a.state = .rejected
  rowCount : b.rowCount = a.rowCount
  errorCount : b.errorCount = a.errorCount
  validation : b.validation = a.validation

theorem SameShell.refl (a : Attempt) : SameShell a a :=
  ⟨rfl, rfl, Iff.rfl, Iff.rfl, rfl, rfl, rfl⟩

structure Mapped (f : Attempt → Attempt) (s t : Store) : Prop where
  attempts : t.attempts = s.attempts.map f
  same : ∀ a ∈ s.attempts, SameShell a (f a)
  rawRows : t.rawRows = s.rawRows
  readings : ∀ r ∈ s.readings, r ∈ t.readings

theorem same_mapped {s t : Store} (ha : t.attempts = s.attempts) (hr : t.rawRows = s.rawRows)
    (hd : ∀ r ∈ s.readings, r ∈ t.readings) : ∃ f, Mapped f s t :=
  ⟨fun a => a, by rw [ha, List.map_id'], fun a _ => .refl a, hr, hd⟩

theorem revised_mapped {s t : Store} (hn : Numbered Attempt.id s.attempts) {a : Attempt}
    (ha : a ∈ s.attempts) (hready : a.state = .ready) {g : Attempt → Attempt}
    (hg : ∀ b, (g b).id = b.id ∧ (g b).workspace = b.workspace ∧ (g b).rowCount = b.rowCount ∧
      (g b).errorCount = b.errorCount ∧ (g b).validation = b.validation ∧
      (g b).state ≠ .received ∧ (g b).state ≠ .rejected)
    (ht : t.attempts = revise Attempt.id a.id g s.attempts) (hr : t.rawRows = s.rawRows)
    (hd : ∀ r ∈ s.readings, r ∈ t.readings) : ∃ f, Mapped f s t := by
  refine ⟨fun b => if b.id = a.id then g b else b, ht, ?_, hr, hd⟩
  intro b hb
  by_cases hid : b.id = a.id
  · obtain rfl := eq_of_key_eq Attempt.id hn.nodup hb ha hid
    rw [if_pos rfl]
    obtain ⟨h1, h2, h3, h4, h5, h6, h7⟩ := hg b
    exact ⟨h1, h2, by simp [h6, hready], by simp [h7, hready], h3, h4, h5⟩
  · rw [if_neg hid]
    exact .refl b

theorem activate_readings {sha : Sha256} {s t : Store} {workspace attempt : ℕ}
    {reason : Option String} {now : Instant} {result : Option DatasetRevision}
    (h : Activation.activate sha s workspace attempt reason now = .ok (t, result)) :
    t.readings = s.readings := by
  obtain ⟨a, _, dataset, _, p, _, _, _, _, _, hended⟩ := activate_ok h
  cases hended with
  | noChange => rfl
  | replayed => rfl
  | created reason t r _ hcommit =>
    simp only [commit, markDatasetActivation, bind_ok] at hcommit
    obtain ⟨_, _, _, _, _, _, _, _, _, ⟨_, _, hmark⟩, he⟩ := hcommit
    obtain ⟨rfl, rfl⟩ := Prod.mk.inj (Except.ok.inj he)
    rw [← Except.ok.inj hmark]

theorem aside_mapped {sha : Sha256} {reader : DatetimeReader} {s : Store}
    (hn : Numbered Attempt.id s.attempts) {c : Activation.Command} (hc : Aside c = true) :
    ∃ f, Mapped f s (Activation.step sha reader s c) := by
  cases c with
  | readHead => exact same_mapped rfl rfl fun _ hr => List.mem_append_left _ hr
  | readAttempt => exact same_mapped rfl rfl fun _ hr => List.mem_append_left _ hr
  | createShell => cases hc
  | complete => cases hc
  | createDataset => exact same_mapped rfl rfl fun _ hr => hr
  | elsewhere => exact same_mapped rfl rfl fun _ hr => hr
  | activate workspace attempt reason now =>
    simp only [Activation.step]
    cases h : Activation.activate sha s workspace attempt reason now with
    | error e => exact same_mapped rfl rfl fun _ hr => hr
    | ok x =>
      obtain ⟨t, result⟩ := x
      have hreadings : t.readings = s.readings := activate_readings h
      obtain ⟨a, ha, dataset, _, p, _, _, hready, _, _, hended⟩ := activate_ok h
      show ∃ f, Mapped f s t
      cases hended with
      | noChange => exact revised_mapped hn ha hready (fun b => by simp) rfl rfl fun _ hr => hr
      | replayed => exact revised_mapped hn ha hready (fun b => by simp) rfl rfl fun _ hr => hr
      | created reason t r _ hcommit =>
        obtain ⟨logicals, observations, hcommitted⟩ := commit_ok hcommit
        exact revised_mapped hn ha hready (fun b => by simp) hcommitted.attempts
          hcommitted.rawRows fun _ hr => hreadings ▸ hr

theorem Mapped.written {f : Attempt → Attempt} (hm : Mapped f st.sources after.sources)
    (hh : after.hashes = st.hashes) {a : Attempt} (ha : a ∈ st.sources.attempts) :
    writtenOf after (f a) = writtenOf st a := by
  have hs := hm.same a ha
  simp only [writtenOf, rawOf, hm.rawRows, hh, hs.id, hs.rowCount, hs.errorCount, hs.validation,
    hs.rejected]

theorem mapped_linked (h : Linked st) {t : Store} {f : Attempt → Attempt}
    (hm : Mapped f st.sources t) : Linked (State.sync { st with sources := t }) := by
  have hmem : ∀ b ∈ t.attempts, ∃ a ∈ st.sources.attempts, f a = b := by
    intro b hb
    rw [hm.attempts] at hb
    exact List.mem_map.mp hb
  have hlength : t.attempts.length = st.sources.attempts.length := by
    rw [hm.attempts, List.length_map]
  refine ⟨h.valid, rfl, h.known, ?_, ?_, ?_, h.single, h.requested, ?_, ?_, ?_, h.tokens, ?_⟩
  · show t.attempts.map Attempt.id = List.range t.attempts.length
    rw [hlength, ← h.attempts, hm.attempts, List.map_map]
    exact List.map_congr_left fun a ha => (hm.same a ha).id
  · intro b hb
    obtain ⟨a, ha, rfl⟩ := hmem b hb
    exact (hm.same a ha).workspace ▸ h.drawn a ha
  · intro i hi attempt ht
    obtain ⟨a, ha, hid, hw⟩ := h.owned i hi attempt ht
    refine ⟨f a, ?_, (hm.same a ha).id.trans hid, (hm.same a ha).workspace.trans hw⟩
    show f a ∈ t.attempts
    rw [hm.attempts]
    exact List.mem_map_of_mem ha
  · intro b hb hstate
    obtain ⟨a, ha, rfl⟩ := hmem b hb
    rw [← h.blank a ha ((hm.same a ha).received.mp hstate)]
    have hsynced : Mapped f st.sources (State.sync { st with sources := t }).sources :=
      ⟨hm.attempts, hm.same, hm.rawRows, hm.readings⟩
    exact hsynced.written rfl ha
  · intro r hr
    change r ∈ t.rawRows at hr
    rw [hm.rawRows] at hr
    exact hlength ▸ h.rows r hr
  · exact fun k hk => hlength ▸ h.hashes k hk
  · intro d hd
    have hh := h.handed d hd
    refine ⟨hh.drawn, hh.row, fun i hi hc b hb ht => ?_⟩
    obtain ⟨a, ha, rfl⟩ := hmem b hb
    have hs := hm.same a ha
    have hold := hh.phase i hi hc a ha (hs.id ▸ ht)
    generalize d.phase = phase at hold ⊢
    cases phase with
    | claimed => trivial
    | read state => exact ⟨hs.id ▸ hm.readings _ hold.1, hold.2.trans hs.received.symm⟩
    | ended ending =>
      cases ending with
      | succeeded => exact fun he => hold (hs.received.mp he)
      | transientFailure => trivial
      | otherException => trivial

theorem mapped_agreed (ha : Agreed settings st) {t : Store} {f : Attempt → Attempt}
    (hm : Mapped f st.sources t) : Agreed settings (State.sync { st with sources := t }) := by
  have hmem : ∀ b ∈ t.attempts, ∃ a ∈ st.sources.attempts, f a = b := by
    intro b hb
    rw [hm.attempts] at hb
    exact List.mem_map.mp hb
  refine ⟨⟨?_, ?_⟩, ?_⟩
  · intro b hb hstate hactive hrequest
    obtain ⟨a, hmem, rfl⟩ := hmem b hb
    have hs := hm.same a hmem
    have hfound := ha.agreeing.waiting a hmem (hs.received.mp hstate) (hs.workspace ▸ hactive)
      (hs.id ▸ hrequest)
    exact hs.id.symm ▸ hfound
  · intro b hb hstate i hi ht
    obtain ⟨a, hmem, rfl⟩ := hmem b hb
    have hs := hm.same a hmem
    exact ha.agreeing.unfailed a hmem (fun he => hstate (hs.received.mpr he)) i hi (hs.id ▸ ht)
  · intro d hd i hi hc b hb ht
    obtain ⟨a, hmem, rfl⟩ := hmem b hb
    have hs := hm.same a hmem
    have hold := ha.failures d hd i hi hc a hmem (hs.id ▸ ht)
    unfold FailureHolds at hold ⊢
    split
    · rename_i hp
      rw [hp] at hold
      exact ⟨fun he => hold.1 (hs.received.mp he), hold.2⟩
    · rename_i hp
      rw [hp] at hold
      exact ⟨hs.received.mpr hold.1, hs.workspace.symm ▸ hold.2⟩
    · trivial

theorem fail_linked (h : Linked st) {d : Delivery} (hd : d ∈ st.deliveries) {ending : Ending}
    (he : ending ≠ .succeeded) : Linked (st.setPhase d.token (.ended ending)) := by
  apply setPhase_linked h hd
  intro i _ _ a _ _
  cases ending with
  | succeeded => exact absurd rfl he
  | transientFailure => trivial
  | otherException => trivial

theorem deliveryOf_mem {token : ℕ} {d : Delivery} (h : deliveryOf st token = some d) :
    d ∈ st.deliveries ∧ d.token = token := lookup_some h

theorem target_attempt (h : Linked st) {d : Delivery} (hd : d ∈ st.deliveries) {i : WorkItem}
    (hi : i ∈ st.jobs.items) (hc : i.currentToken = some d.token) {attempt : ℕ}
    (ht : d.target = .importAttempt attempt) {a : Attempt}
    (hta : i.target = .importAttempt a.id) : a.id = attempt := by
  have hrow := ((h.handed d hd).row i hi hc).1
  rw [ht, hta, Target.importAttempt.injEq] at hrow
  exact hrow

theorem reading_linked (h : Linked st) (reading : Option Reading) :
    Linked { st with sources := Activation.read st.sources reading } := by
  have hnext := mapped_linked (f := fun a => a) h (t := Activation.read st.sources reading)
    ⟨(List.map_id' _).symm, fun a _ => .refl a, rfl, fun _ hr => List.mem_append_left _ hr⟩
  have hsync : State.sync { st with sources := Activation.read st.sources reading } =
      { st with sources := Activation.read st.sources reading } := by
    unfold State.sync
    rw [← h.shared]
    rfl
  rwa [hsync] at hnext

theorem reading_agreed (ha : Agreed settings st) (reading : Option Reading) :
    Agreed settings { st with sources := Activation.read st.sources reading } :=
  ⟨⟨ha.agreeing.waiting, ha.agreeing.unfailed⟩, ha.failures⟩

theorem readAttempt_linked (h : Linked st) {d : Delivery} (hd : d ∈ st.deliveries) :
    Linked (readAttempt st d) := by
  unfold readAttempt
  split
  · rename_i attempt ht
    split
    · exact fail_linked h hd (by simp)
    · rename_i a hl
      split
      · refine setPhase_linked (reading_linked h _) hd ?_
        intro i hi hc b hb htb
        have hab : b = a := h.attempt_eq hb (mem_of_lookup hl)
          ((target_attempt h hd hi hc ht htb).trans (key_of_lookup hl).symm)
        subst hab
        exact ⟨List.mem_append_right _ (List.mem_singleton_self _), Iff.rfl⟩
      · exact fail_linked h hd (by simp)
  · exact h

theorem readAttempt_agreed (h : Linked st) (ha : Agreed settings st) {d : Delivery}
    (hd : d ∈ st.deliveries) : Agreed settings (readAttempt st d) := by
  unfold readAttempt
  split
  · rename_i attempt ht
    split
    · rename_i hl
      apply setPhase_agreed h ha hd
      intro i hi hc a hmem hta
      have hid := target_attempt h hd hi hc ht hta
      rw [← hid, h.attempts.lookup hmem] at hl
      cases hl
    · rename_i a hl
      split
      · refine setPhase_agreed (reading_linked h _) (reading_agreed ha _) hd ?_
        exact fun _ _ _ _ _ _ => trivial
      · rename_i hne
        apply setPhase_agreed h ha hd
        intro i hi hc b hb htb
        have hab : b = a := h.attempt_eq hb (mem_of_lookup hl)
          ((target_attempt h hd hi hc ht htb).trans (key_of_lookup hl).symm)
        subst hab
        obtain ⟨b', hb', hid, hw⟩ := h.owned i hi _ htb
        rw [h.attempt_eq hb' hb hid, ((h.handed d hd).row i hi hc).2] at hw
        exact absurd hw hne
  · exact ha

theorem executeOther_linked (h : Linked st) {d : Delivery} (hd : d ∈ st.deliveries)
    (ht : ∀ attempt, d.target ≠ .importAttempt attempt) (phase : Phase) :
    Linked (st.setPhase d.token phase) := by
  apply setPhase_linked h hd
  intro i hi hc a _ hta
  exact absurd (((h.handed d hd).row i hi hc).1.symm.trans hta) (ht a.id)

theorem executeOther_agreed (h : Linked st) (ha : Agreed settings st) {d : Delivery}
    (hd : d ∈ st.deliveries) (ht : ∀ attempt, d.target ≠ .importAttempt attempt) (phase : Phase) :
    Agreed settings (st.setPhase d.token phase) := by
  apply setPhase_agreed h ha hd
  intro i hi hc a _ hta
  exact absurd (((h.handed d hd).row i hi hc).1.symm.trans hta) (ht a.id)

section Completions
variable {reader : DatetimeReader} {semanticHash : SemanticHash} {d : Delivery} {attempt : ℕ}
  {read : AttemptState} {now : Instant}

structure Completed (st after : State) (d : Delivery) (attempt : ℕ) (g : Attempt → Attempt)
    (rows : List RawRow) (hash : String) : Prop where
  state_eq : after = { st with
    sources := { st.sources with
      attempts := revise Attempt.id attempt g st.sources.attempts
      rawRows := st.sources.rawRows ++ rows }
    hashes := st.hashes ++ [(attempt, hash)] }
  found : ∃ a ∈ st.sources.attempts, a.id = attempt
  current : ∃ i ∈ st.jobs.items, i.target = .importAttempt attempt ∧ i.currentToken = some d.token
  closes : ∀ a, (g a).id = a.id ∧ (g a).workspace = a.workspace ∧ (g a).state ≠ .received
  own : ∀ r ∈ rows, r.attempt = attempt

theorem completeClaimed_ok
    (hc : completeClaimed reader semanticHash st d attempt read now = .ok after) :
    read = .received ∧ ∃ g rows hash, ImportLaws.Completed st after d attempt g rows hash := by
  simp only [completeClaimed, Activation.complete, bind_ok, demand_ok, fetch_ok] at hc
  obtain ⟨a, ha, interpreted, hi, hash, hhash, _, _, _, _, item, hitem, _, hcurrent, sources,
    ⟨a', ha', _, _, _, _, interpreted', _, _, _, _, _, _, hread, _, _, hsources⟩, he⟩ := hc
  obtain rfl := Option.some.inj (ha.symm.trans ha')
  obtain rfl := key_of_lookup ha
  have ht : item.target = .importAttempt a.id := by simpa using List.find?_some hitem
  obtain rfl := Except.ok.inj hsources
  obtain rfl := Except.ok.inj he
  refine ⟨hread, _, _, hash, rfl, ⟨a, mem_of_lookup ha, rfl⟩, ⟨item, List.mem_of_find?_eq_some hitem, ht, hcurrent⟩,
    fun b => ⟨rfl, rfl, ?_⟩, ?_⟩
  · by_cases hzero : interpreted'.errorCount = 0 <;> simp [hzero]
  · intro r hr
    obtain ⟨row, _, rfl⟩ := List.mem_map.mp hr
    rfl

theorem completed_written {g : Attempt → Attempt} {rows : List RawRow} {hash : String}
    (hc : ImportLaws.Completed st after d attempt g rows hash) {a : Attempt} (hne : a.id ≠ attempt) :
    writtenOf after a = writtenOf st a := by
  have hrows : (rows.filter fun r => r.attempt = a.id) = [] := by
    rw [List.filter_eq_nil_iff]
    intro r hr
    simp [hc.own r hr, hne.symm]
  obtain ⟨rfl, _, _, _, _⟩ := hc
  simp [writtenOf, rawOf, List.filter_append, hrows, hne.symm]

theorem completed_attempts {g : Attempt → Attempt} {rows : List RawRow} {hash : String}
    (hc : ImportLaws.Completed st after d attempt g rows hash) {b : Attempt}
    (hb : b ∈ after.sources.attempts) : (b ∈ st.sources.attempts ∧ b.id ≠ attempt) ∨
      ∃ old ∈ st.sources.attempts, old.id = attempt ∧ b = g old := by
  rw [hc.state_eq] at hb
  obtain ⟨old, ho, rfl⟩ := mem_revise.mp hb
  by_cases hid : old.id = attempt
  · rw [if_pos hid]
    exact .inr ⟨old, ho, hid, rfl⟩
  · rw [if_neg hid]
    exact .inl ⟨ho, hid⟩

theorem completed_linked (h : Linked st) (hd : d ∈ st.deliveries) {g : Attempt → Attempt}
    {rows : List RawRow} {hash : String}
    (hc : ImportLaws.Completed st after d attempt g rows hash) :
    Linked (after.setPhase d.token (.ended .succeeded)) := by
  have hwritten := fun (b : Attempt) (hb : b.id ≠ attempt) => completed_written hc hb
  have hmem := fun (b : Attempt) (hb : b ∈ after.sources.attempts) => completed_attempts hc hb
  obtain ⟨rfl, ⟨a, ha, haid⟩, ⟨i, hi, hit, hcurrent⟩, hg, hown⟩ := hc
  have hlength : (revise Attempt.id attempt g st.sources.attempts).length =
      st.sources.attempts.length := List.length_map ..
  refine ⟨h.valid, h.shared, h.known, h.attempts.revise (fun b => (hg b).1) attempt, ?_, ?_,
    h.single, h.requested, ?_, ?_, ?_, ?_, ?_⟩
  · intro b hb
    rcases hmem b hb with ⟨hb, _⟩ | ⟨old, ho, _, rfl⟩
    · exact h.drawn b hb
    · exact (hg old).2.1 ▸ h.drawn old ho
  · intro j hj k ht
    obtain ⟨b, hb, hid, hw⟩ := h.owned j hj k ht
    refine ⟨if b.id = attempt then g b else b, mem_revise.mpr ⟨b, hb, rfl⟩, ?_⟩
    split
    · exact ⟨(hg b).1.trans hid, (hg b).2.1.trans hw⟩
    · exact ⟨hid, hw⟩
  · intro b hb hstate
    rcases hmem b hb with ⟨hb, hne⟩ | ⟨old, _, _, rfl⟩
    · exact (hwritten b hne).trans (h.blank b hb hstate)
    · exact absurd hstate (hg old).2.2
  · intro r hr
    show r.attempt < (revise Attempt.id attempt g st.sources.attempts).length
    rw [hlength]
    rcases List.mem_append.mp hr with hr | hr
    · exact h.rows r hr
    · rw [hown r hr, ← haid]
      exact h.attempts.lt ha
  · intro k hk
    show k.1 < (revise Attempt.id attempt g st.sources.attempts).length
    rw [hlength]
    rcases List.mem_append.mp hk with hk | hk
    · exact h.hashes k hk
    · rw [List.mem_singleton.mp hk, ← haid]
      exact h.attempts.lt ha
  · exact (@setPhase_tokens st d.token _).symm ▸ h.tokens
  · intro e he
    rcases @mem_setPhase st h.tokens d hd _ _ he with ⟨he, hne⟩ | rfl
    · have hh := h.handed e he
      refine ⟨hh.drawn, hh.row, fun j hj hcj b hb ht => ?_⟩
      rcases hmem b hb with ⟨hb, _⟩ | ⟨old, _, hid, rfl⟩
      · exact hh.phase j hj hcj b hb ht
      · -- the only item of the attempt is under the token of the delivery
        rw [(hg old).1, hid] at ht
        rw [h.single j hj i hi attempt ht hit, hcurrent, Option.some.injEq] at hcj
        exact absurd hcj.symm hne
    · have hh := h.handed d hd
      refine ⟨hh.drawn, hh.row, fun j hj hcj b hb ht => ?_⟩
      rcases hmem b hb with ⟨_, hne⟩ | ⟨old, _, _, rfl⟩
      · have hji : j = i := by
          obtain ⟨x, hx, hxt, hxi, _⟩ := h.valid.current j hj _ hcj
          obtain ⟨y, hy, hyt, hyi, _⟩ := h.valid.current i hi _ hcurrent
          have hxy : x = y := h.valid.attempt_eq hx hy (hxt.trans hyt.symm)
          exact h.valid.item_eq hj hi (hxi.symm.trans ((congrArg JobAttempt.workItem hxy).trans hyi))
        rw [hji, hit, Target.importAttempt.injEq] at ht
        exact absurd ht.symm hne
      · exact (hg old).2.2

theorem completed_agreed (h : Linked st) (ha : Agreed settings st) (hd : d ∈ st.deliveries)
    {g : Attempt → Attempt} {rows : List RawRow} {hash : String}
    (hc : ImportLaws.Completed st after d attempt g rows hash) :
    Agreed settings (after.setPhase d.token (.ended .succeeded)) := by
  have hmem := fun (b : Attempt) (hb : b ∈ after.sources.attempts) => completed_attempts hc hb
  obtain ⟨rfl, _, ⟨i, hi, hit, hcurrent⟩, hg, _⟩ := hc
  refine ⟨⟨?_, ?_⟩, ?_⟩
  · intro b hb hstate hactive hrequest
    rcases hmem b hb with ⟨hb, _⟩ | ⟨old, _, _, rfl⟩
    · exact ha.agreeing.waiting b hb hstate hactive hrequest
    · exact absurd hstate (hg old).2.2
  · intro b hb hstate j hj ht hfailed
    rcases hmem b hb with ⟨hb, _⟩ | ⟨old, _, hid, rfl⟩
    · exact ha.agreeing.unfailed b hb hstate j hj ht hfailed
    · -- its item is under the token of the delivery, so it is leased
      rw [(hg old).1, hid] at ht
      rw [h.single j hj i hi attempt ht hit, h.valid.leased hi hcurrent] at hfailed
      cases hfailed
  · intro e he j hj hcj b hb ht
    rcases @mem_setPhase st h.tokens d hd _ _ he with ⟨he, hne⟩ | rfl
    · rcases hmem b hb with ⟨hb, _⟩ | ⟨old, _, hid, rfl⟩
      · exact ha.failures e he j hj hcj b hb ht
      · rw [(hg old).1, hid] at ht
        rw [h.single j hj i hi attempt ht hit, hcurrent, Option.some.injEq] at hcj
        exact absurd hcj.symm hne
    · trivial

/-- A delivery that can do its work meets a conflict just when the evidence is
there. -/
theorem completeClaimed_total (h : Linked st) (hd : d ∈ st.deliveries)
    (hp : d.phase = .read read) {i : WorkItem} (hi : i ∈ st.jobs.items)
    (hcur : i.currentToken = some d.token) {a : Attempt} (ha : a ∈ st.sources.attempts)
    (ht : i.target = .importAttempt a.id) (hreadable : Readable reader semanticHash a)
    (hopen : Open st.jobs d.work.workItem.workspace now) :
    (a.state = .received →
      ∃ after, completeClaimed reader semanticHash st d a.id read now = .ok after) ∧
    (a.state ≠ .received →
      completeClaimed reader semanticHash st d a.id read now = .error .importStateConflict) := by
  obtain ⟨interpreted, hash, hinterpreted, hhash⟩ := hreadable
  obtain ⟨w, hw, haccess⟩ := hopen
  rw [← h.shared] at hw
  have hfind : st.jobs.items.find? (·.target = .importAttempt a.id) = some i := by
    cases hf : st.jobs.items.find? (·.target = .importAttempt a.id) with
    | none =>
      have hno := List.find?_eq_none.mp hf i hi
      simp [ht] at hno
    | some j =>
      have hj : j.target = .importAttempt a.id := by simpa using List.find?_some hf
      rw [h.single j (List.mem_of_find?_eq_some hf) i hi a.id hj ht]
  have hworkspace : a.workspace = d.work.workItem.workspace := by
    obtain ⟨b, hb, hid, hbw⟩ := h.owned i hi a.id ht
    rw [← h.attempt_eq hb ha hid, hbw, ((h.handed d hd).row i hi hcur).2]
  have hphase := (h.handed d hd).phase i hi hcur a ha ht
  rw [hp] at hphase
  obtain ⟨hreading, hread⟩ := hphase
  constructor
  · intro hstate
    -- a shell has no raw rows yet
    have hblank : rawOf st.sources a.id = [] := congrArg Written.rawRows (h.blank a ha hstate)
    have hfresh : ∀ row ∈ interpreted.rows, ∀ old ∈ st.sources.rawRows,
        old.attempt = a.id → ¬old.rowNumber = row.rowNumber := by
      intro _ _ old hold he
      have hmem : old ∈ rawOf st.sources a.id := List.mem_filter.mpr ⟨hold, by simp [he]⟩
      rw [hblank] at hmem
      cases hmem
    have hr := hread.mpr hstate
    subst hr
    simp only [completeClaimed, Activation.complete, h.attempts.lookup ha, hinterpreted, hhash, hw,
      haccess, hfind, hcur, hworkspace, hreading, fetch, demand, Except.toOption, ok_bind,
      if_true]
    rw [if_pos]
    · exact ⟨_, rfl⟩
    · intro r hr old hold hboth
      obtain ⟨row, hrow, rfl⟩ := List.mem_map.mp hr
      exact hfresh row hrow old hold hboth.1 hboth.2
  · intro hstate
    have hr : ¬read = .received := fun he => hstate (hread.mp he)
    simp [completeClaimed, Activation.complete, h.attempts.lookup ha, hinterpreted, hhash, hw,
      haccess, hfind, hcur, hworkspace, hreading, fetch, demand, Except.toOption, hr]

theorem conflict_active (h : Linked st)
    (hc : completeClaimed reader semanticHash st d attempt read now =
      .error .importStateConflict) : Active st.jobs d.work.workItem.workspace := by
  simp only [completeClaimed, bind_eq_error, fetch_error, fetch_ok, demand_error, demand_ok,
    reduceCtorEq, and_false, false_or] at hc
  obtain ⟨_, _, _, _, _, _, w, hw, _, haccess, _⟩ := hc
  exact ⟨w, h.shared ▸ mem_of_lookup hw, key_of_lookup hw, ((accessAllowed_iff w now).mp haccess).1⟩

theorem execute_linked (h : Linked st) (hd : d ∈ st.deliveries) :
    Linked (executeClaimedImport reader semanticHash st d attempt read now) := by
  unfold executeClaimedImport
  split
  · rename_i hc
    obtain ⟨_, g, rows, hash, hcompleted⟩ := completeClaimed_ok hc
    exact completed_linked h hd hcompleted
  · exact fail_linked h hd (by simp)
  · exact fail_linked h hd (by simp)

theorem execute_agreed (h : Linked st) (ha : Agreed settings st) (hd : d ∈ st.deliveries)
    (hp : d.phase = .read read) (ht : d.target = .importAttempt attempt)
    (hcond : Current st d.token → ∀ a ∈ st.sources.attempts, d.target = .importAttempt a.id →
      (a.state = .received → Active st.jobs a.workspace) →
        Deliverable reader semanticHash settings st d a now) :
    Agreed settings (executeClaimedImport reader semanticHash st d attempt read now) := by
  unfold executeClaimedImport
  cases hc : completeClaimed reader semanticHash st d attempt read now with
  | ok after =>
    obtain ⟨_, g, rows, hash, hcompleted⟩ := completeClaimed_ok hc
    exact completed_agreed h ha hd hcompleted
  | error e =>
    have hfails : ∀ i ∈ st.jobs.items, i.currentToken = some d.token →
        ∀ a ∈ st.sources.attempts, i.target = .importAttempt a.id →
          a.workspace = d.work.workItem.workspace ∧
          (a.state = .received → ¬Active st.jobs a.workspace) ∧
          (a.state ≠ .received → e = .importStateConflict ∧ d.work.workItem.attemptCount <
            (settings.policy d.work.workItem.kind).maxAttempts) := by
      intro i hi hcur a hmem hta
      have hid := target_attempt h hd hi hcur ht hta
      subst hid
      have hdo := hcond ⟨i, hi, hcur⟩ a hmem ht
      refine ⟨?_, ?_, ?_⟩
      · obtain ⟨b, hb, hbid, hbw⟩ := h.owned i hi a.id hta
        rw [← h.attempt_eq hb hmem hbid, hbw, ((h.handed d hd).row i hi hcur).2]
      · intro hstate hactive
        have hable := hdo fun _ => hactive
        obtain ⟨after, hok⟩ := (completeClaimed_total h hd hp hi hcur hmem hta hable.readable
          hable.accessible).1 hstate
        rw [hc] at hok
        cases hok
      · intro hstate
        have hable := hdo fun he => absurd he hstate
        have hconflict := (completeClaimed_total h hd hp hi hcur hmem hta hable.readable
          hable.accessible).2 hstate
        rw [hc] at hconflict
        exact ⟨Except.error.inj hconflict, hable.again hstate⟩
    by_cases he : e = .importStateConflict
    · subst he
      apply setPhase_agreed h ha hd
      intro i hi hcur a hmem hta
      obtain ⟨hw, hreceived, hothers⟩ := hfails i hi hcur a hmem hta
      have hstate : a.state ≠ .received :=
        fun hs => hreceived hs (hw ▸ conflict_active h hc)
      exact ⟨hstate, (hothers hstate).2⟩
    · have hphase : Agreed settings (st.setPhase d.token (.ended .otherException)) := by
        apply setPhase_agreed h ha hd
        intro i hi hcur a hmem hta
        obtain ⟨_, hreceived, hothers⟩ := hfails i hi hcur a hmem hta
        have hstate : a.state = .received := by
          by_contra hs
          exact he (hothers hs).1
        exact ⟨hstate, hreceived hstate⟩
      split
      · rename_i heq
        cases heq
      · rename_i heq
        exact absurd (Except.error.inj heq) he
      · exact hphase

end Completions

end Records

section Every
variable {sha : Sha256} {reader : DatetimeReader} {semanticHash : SemanticHash}
  {settings : ImportJobs.Settings} {st after : State}

theorem jobsCall_cases (h : Linked st) {c : Jobs.Command} (hc : Outside c = true) :
    Jobs.call settings.jobs st.jobs c = st.jobs ∨
      Worked c st.jobs (Jobs.call settings.jobs st.jobs c) := by
  unfold Jobs.call
  cases hp : Jobs.perform settings.jobs st.jobs c with
  | error e => exact .inl rfl
  | ok jobs => exact .inr (perform_worked h.valid (outside_other hc) hp)

theorem call_linked (h : Linked st) (c : ImportJobs.Command) :
    Linked (ImportJobs.call sha reader semanticHash settings st c) := by
  cases c with
  | createShell workspace dataset base artifact contract now =>
    refine settle_keeps h fun t ht => ?_
    obtain ⟨a, hs⟩ := createShell_ok ht
    exact shelled_linked h hs
  | enqueue attempt now clock => exact enqueue_linked h attempt now clock
  | abandon attempt => exact endRequest_linked h attempt
  | claim request now leaseDuration locked => exact claim_linked h request now leaseDuration locked
  | readAttempt token =>
    simp only [ImportJobs.call]
    split
    · rename_i d hd
      split
      · exact readAttempt_linked h (deliveryOf_mem hd).1
      · exact h
    · exact h
  | complete token now =>
    simp only [ImportJobs.call]
    split
    · rename_i d hd
      split
      · exact execute_linked h (deliveryOf_mem hd).1
      · exact h
    · exact h
  | executeOther token ending =>
    simp only [ImportJobs.call]
    split
    · rename_i d hd
      obtain ⟨hmem, rfl⟩ := deliveryOf_mem hd
      split
      · exact h
      · rename_i ht
        exact executeOther_linked h hmem (fun attempt he => ht attempt he) _
    · exact h
  | record token clock =>
    simp only [ImportJobs.call]
    split
    · split
      · exact record_linked h _ _ clock
      · exact h
    · exact h
  | crash token => exact drop_linked h token
  | sources c hc =>
    obtain ⟨f, hm⟩ := @aside_mapped sha reader st.sources h.attempts c hc
    exact mapped_linked h hm
  | jobs c hc =>
    rcases @jobsCall_cases settings st h c hc with he | hw
    · show Linked (State.sync { st with jobs := Jobs.call settings.jobs st.jobs c })
      rw [he]
      exact h.sync_eq.symm ▸ h
    · exact jobs_linked h hw

theorem call_agreed (h : Linked st) (ha : Agreed settings st) (c : ImportJobs.Command)
    (hc : Unbroken reader semanticHash settings st c) :
    Agreed settings (ImportJobs.call sha reader semanticHash settings st c) := by
  cases c with
  | createShell workspace dataset base artifact contract now =>
    refine settle_keeps ha fun t ht => ?_
    obtain ⟨a, hs⟩ := createShell_ok ht
    exact shelled_agreed h ha hs
  | enqueue attempt now clock => exact enqueue_agreed h ha hc
  | abandon attempt => exact endRequest_agreed ha hc
  | claim request now leaseDuration locked =>
    exact claim_agreed h ha request now leaseDuration locked
  | readAttempt token =>
    simp only [ImportJobs.call]
    split
    · rename_i d hd
      split
      · exact readAttempt_agreed h ha (deliveryOf_mem hd).1
      · exact ha
    · exact ha
  | complete token now =>
    simp only [ImportJobs.call]
    split
    · rename_i d hd
      split
      · rename_i read attempt hp ht
        obtain ⟨hmem, rfl⟩ := deliveryOf_mem hd
        exact execute_agreed h ha hmem hp ht (hc d hd)
      · exact ha
    · exact ha
  | executeOther token ending =>
    simp only [ImportJobs.call]
    split
    · rename_i d hd
      obtain ⟨hmem, rfl⟩ := deliveryOf_mem hd
      split
      · exact ha
      · rename_i ht
        exact executeOther_agreed h ha hmem (fun attempt he => ht attempt he) _
    · exact ha
  | record token clock =>
    simp only [ImportJobs.call]
    split
    · rename_i d hd
      split
      · rename_i ending hp
        exact record_agreed h ha (deliveryOf_mem hd).1 hp clock
      · exact ha
    · exact ha
  | crash token => exact drop_agreed ha token
  | sources c aside =>
    obtain ⟨f, hm⟩ := @aside_mapped sha reader st.sources h.attempts c aside
    exact mapped_agreed ha hm
  | jobs c outside =>
    rcases @jobsCall_cases settings st h c outside with he | hw
    · show Agreed settings (State.sync { st with jobs := Jobs.call settings.jobs st.jobs c })
      rw [he]
      exact h.sync_eq.symm ▸ ha
    · exact outside_agreed h ha hw (outside_fate outside)

theorem reached_linked (cs : List ImportJobs.Command) :
    Linked (ImportJobs.reached sha reader semanticHash settings cs) :=
  foldl_keeps (P := Linked) (C := fun _ _ => True) (fun _ c h _ => call_linked h c) empty_linked
    (along_true _ cs)

def Keeps (st after : State) : Prop :=
  ∀ a ∈ st.sources.attempts, a.state ≠ .received → ∃ b ∈ after.sources.attempts,
    b.id = a.id ∧ b.state ≠ .received ∧ writtenOf after b = writtenOf st a

theorem Keeps.trans {first second third : State} (h : Keeps first second)
    (k : Keeps second third) : Keeps first third := by
  intro a ha hstate
  obtain ⟨b, hb, hbid, hbstate, hbw⟩ := h a ha hstate
  obtain ⟨c, hc, hcid, hcstate, hcw⟩ := k b hb hbstate
  exact ⟨c, hc, hcid.trans hbid, hcstate, hcw.trans hbw⟩

theorem same_keeps (ha : after.sources.attempts = st.sources.attempts)
    (hr : after.sources.rawRows = st.sources.rawRows) (hh : after.hashes = st.hashes) :
    Keeps st after :=
  fun a hmem hstate => ⟨a, ha.symm ▸ hmem, rfl, hstate, written_congr hr hh⟩

theorem shelled_keeps {a : Attempt} (hs : Shelled st after a) : Keeps st after := by
  obtain ⟨rfl, _⟩ := hs
  exact fun b hb hstate => ⟨b, List.mem_append_left _ hb, rfl, hstate, rfl⟩

theorem mapped_keeps {t : Store} {f : Attempt → Attempt} (hm : Mapped f st.sources t) :
    Keeps st (State.sync { st with sources := t }) := by
  intro a ha hstate
  have hs := hm.same a ha
  refine ⟨f a, ?_, hs.id, fun he => hstate (hs.received.mp he), ?_⟩
  · show f a ∈ t.attempts
    rw [hm.attempts]
    exact List.mem_map_of_mem ha
  · have hsynced : Mapped f st.sources (State.sync { st with sources := t }).sources :=
      ⟨hm.attempts, hm.same, hm.rawRows, hm.readings⟩
    exact hsynced.written rfl ha

theorem execute_keeps (h : Linked st) {d : Delivery} (hd : d ∈ st.deliveries) {attempt : ℕ}
    {read : AttemptState} (hp : d.phase = .read read) (now : Instant) :
    Keeps st (executeClaimedImport reader semanticHash st d attempt read now) := by
  unfold executeClaimedImport
  split
  · rename_i after hc
    obtain ⟨hread, g, rows, hash, hcompleted⟩ := completeClaimed_ok hc
    intro a ha hstate
    have hne : a.id ≠ attempt := by
      rintro rfl
      obtain ⟨i, hi, ht, hcur⟩ := hcompleted.current
      have hphase := (h.handed d hd).phase i hi hcur a ha ht
      rw [hp] at hphase
      exact hstate (hphase.2.mp hread)
    refine ⟨a, ?_, rfl, hstate, completed_written hcompleted hne⟩
    show a ∈ after.sources.attempts
    rw [hcompleted.state_eq]
    exact mem_revise.mpr ⟨a, ha, (if_neg hne).symm⟩
  · exact same_keeps rfl rfl rfl
  · exact same_keeps rfl rfl rfl

theorem enqueue_keeps (attempt : ℕ) (now clock : Instant) :
    Keeps st (enqueueImport settings st attempt now clock) := by
  unfold enqueueImport
  split
  · exact same_keeps rfl rfl rfl
  · split <;> exact same_keeps rfl rfl rfl

theorem claim_keeps (request : Jobs.Request) (now : Instant) (leaseDuration : ℤ)
    (locked : List ℕ) : Keeps st (claimWork st request now leaseDuration locked) := by
  unfold claimWork
  split <;> exact same_keeps rfl rfl rfl

theorem readAttempt_keeps (d : Delivery) : Keeps st (readAttempt st d) := by
  unfold readAttempt
  split
  · split
    · exact same_keeps rfl rfl rfl
    · split <;> exact same_keeps rfl rfl rfl
  · exact same_keeps rfl rfl rfl

theorem call_keeps (h : Linked st) (c : ImportJobs.Command) :
    Keeps st (ImportJobs.call sha reader semanticHash settings st c) := by
  have hsame : Keeps st st := same_keeps rfl rfl rfl
  cases c with
  | createShell workspace dataset base artifact contract now =>
    refine settle_keeps hsame fun t ht => ?_
    obtain ⟨a, hs⟩ := createShell_ok ht
    exact shelled_keeps hs
  | enqueue attempt now clock => exact enqueue_keeps attempt now clock
  | abandon attempt => exact same_keeps rfl rfl rfl
  | claim request now leaseDuration locked => exact claim_keeps request now leaseDuration locked
  | readAttempt token =>
    simp only [ImportJobs.call]
    split
    · split
      · exact readAttempt_keeps _
      · exact hsame
    · exact hsame
  | complete token now =>
    simp only [ImportJobs.call]
    split
    · rename_i d hd
      split
      · rename_i read attempt hp _
        exact execute_keeps h (deliveryOf_mem hd).1 hp now
      · exact hsame
    · exact hsame
  | executeOther token ending =>
    simp only [ImportJobs.call]
    split
    · split
      · exact hsame
      · exact same_keeps rfl rfl rfl
    · exact hsame
  | record token clock =>
    simp only [ImportJobs.call]
    split
    · split
      · exact same_keeps rfl rfl rfl
      · exact hsame
    · exact hsame
  | crash token => exact same_keeps rfl rfl rfl
  | sources c hc =>
    obtain ⟨f, hm⟩ := @aside_mapped sha reader st.sources h.attempts c hc
    exact mapped_keeps hm
  | jobs c hc => exact same_keeps rfl rfl rfl

theorem run_keeps (h : Linked st) (cs : List ImportJobs.Command) :
    Keeps st (cs.foldl (ImportJobs.call sha reader semanticHash settings) st) := by
  induction cs generalizing st with
  | nil => exact same_keeps rfl rfl rfl
  | cons c cs ih => exact (call_keeps h c).trans (ih (call_linked h c))

end Every

/-- In every run evidence is written to shells only, and once; a run whose
uploads and deliveries are not broken off keeps the two records in agreement. -/
theorem imports_agree (sha : Sha256) (reader : DatetimeReader) (semanticHash : SemanticHash)
    (settings : ImportJobs.Settings) (cs : List ImportJobs.Command) :
    (∀ before rest, cs = before ++ rest →
      WrittenOnce (ImportJobs.reached sha reader semanticHash settings before)
        (ImportJobs.reached sha reader semanticHash settings cs)) ∧
    (Along (ImportJobs.call sha reader semanticHash settings)
        (Unbroken reader semanticHash settings) State.empty cs →
      Throughout (ImportJobs.call sha reader semanticHash settings) Agreeing State.empty cs) := by
  constructor
  · rintro before rest rfl
    have hl := @reached_linked sha reader semanticHash settings before
    refine ⟨hl.blank, ?_⟩
    unfold ImportJobs.reached
    rw [List.foldl_append]
    exact run_keeps hl rest
  · intro h
    have hboth := throughout_keeps (P := fun st => Linked st ∧ Agreed settings st)
      (fun _ c hs hc => ⟨call_linked hs.1 c, call_agreed hs.1 hs.2 c hc⟩)
      ⟨empty_linked, empty_agreed settings⟩ h
    exact hboth.mono fun _ hs => hs.2.agreeing

def sampleSettings : ImportJobs.Settings :=
  ⟨⟨⟨1000, 10, 10⟩, 3⟩, fun _ => ⟨2, 5, Nat.le_succ 1, Int.natCast_pos.mpr (Nat.succ_pos 4)⟩⟩

def sampleHash : SemanticHash := fun _ _ _ => some "h"

def sampleFile : FileArtifact := ⟨["quantity"], [["1"]]⟩

def uploaded : List ImportJobs.Command :=
  [.jobs (.createWorkspace 1000) rfl, .sources (.createDataset 0 ⟨0, 0, 0⟩) rfl,
    .sources (.readHead 0) rfl,
    .createShell 0 0 none sampleFile ⟨0, Observations.sampleContract, "digest"⟩ 10]

def committed : List ImportJobs.Command :=
  uploaded ++ [.enqueue 0 10 10, .claim (.one 1) 20 60 [], .readAttempt 2, .complete 2 30]

/-- The request stops between its transactions. -/
def abandonedUpload : List ImportJobs.Command := uploaded ++ [.abandon 0]

/-- The worker dies before it records the outcome, and the item is delivered again. -/
def redelivered : List ImportJobs.Command :=
  committed ++ [.crash 2, .claim (.one 1) 90 60 [], .readAttempt 3, .complete 3 95, .record 3 95]

def after (cs : List ImportJobs.Command) : State :=
  ImportJobs.reached CaseHealth.constantSha Observations.sampleReader sampleHash sampleSettings cs

def sampleShell : Attempt :=
  ⟨0, 0, 0, sampleFile, ⟨0, Observations.sampleContract, "digest"⟩, none, .received, 0, 0, [], none⟩

/-- A shell has no item after an abandoned upload, and a failed one after its
evidence was delivered again at the limit. -/
theorem broken_imports_disagree :
    ¬Agreeing (after abandonedUpload) ∧ ¬Agreeing (after redelivered) := by
  constructor
  · intro h
    have hshell : (after abandonedUpload).sources.attempts = [sampleShell] := rfl
    have hactive : Active (after abandonedUpload).jobs 0 :=
      ⟨⟨0, .active, 1000, none, none, ⟨0, 0, 0⟩⟩, by decide +kernel, rfl, rfl⟩
    have hnone : (after abandonedUpload).jobs.items = [] := by decide +kernel
    have hended : (after abandonedUpload).requests = [] := by decide +kernel
    obtain ⟨i, hi, _⟩ := h.waiting sampleShell (hshell ▸ List.mem_singleton_self _) rfl hactive
      (by rw [hended]; exact List.not_mem_nil)
    rw [hnone] at hi
    cases hi
  · intro h
    have hstates : (after redelivered).sources.attempts.map (fun a => (a.id, a.state)) =
        [(0, .ready)] := by decide +kernel
    have hitems : (after redelivered).jobs.items.map (fun i => (i.target, i.state)) =
        [(.importAttempt 0, .failed)] := by decide +kernel
    have ha : (0, AttemptState.ready) ∈
        (after redelivered).sources.attempts.map fun a => (a.id, a.state) := by
      rw [hstates]
      exact List.mem_singleton_self _
    have hi : (Target.importAttempt 0, JobState.failed) ∈
        (after redelivered).jobs.items.map fun i => (i.target, i.state) := by
      rw [hitems]
      exact List.mem_singleton_self _
    obtain ⟨a, ha, he⟩ := List.mem_map.mp ha
    obtain ⟨hid, hstate⟩ := Prod.mk.inj he
    obtain ⟨i, hi, he⟩ := List.mem_map.mp hi
    obtain ⟨ht, hfailed⟩ := Prod.mk.inj he
    exact h.unfailed a ha (by simp [hstate]) i hi (hid.symm ▸ ht) hfailed

/-- An upload whose item is delivered once. -/
def deliveredOnce : List ImportJobs.Command := committed ++ [.record 2 31]

theorem deliveredOnce_unbroken : Along (ImportJobs.call CaseHealth.constantSha
    Observations.sampleReader sampleHash sampleSettings)
    (Unbroken Observations.sampleReader sampleHash sampleSettings) State.empty deliveredOnce := by
  refine ⟨trivial, trivial, trivial, trivial, ?_, trivial, trivial, ?_, trivial, trivial⟩
  · intro _ a ha _ _
    have hshell : (after uploaded).sources.attempts = [sampleShell] := rfl
    change a ∈ (after uploaded).sources.attempts at ha
    rw [hshell] at ha
    rw [List.mem_singleton.mp ha]
    exact ⟨⟨0, .active, 1000, none, none, ⟨0, 0, 0⟩⟩, by decide +kernel, by decide, by decide⟩
  · intro d hd _ a ha _ _
    have hshell : (after (committed.take 7)).sources.attempts = [sampleShell] := rfl
    change a ∈ (after (committed.take 7)).sources.attempts at ha
    rw [hshell] at ha
    obtain rfl := List.mem_singleton.mp ha
    have hcounts : (deliveryOf (after (committed.take 7)) 2).map (fun d =>
        (d.work.workItem.workspace, d.work.workItem.attemptCount)) = some (0, 1) := by
      decide +kernel
    change deliveryOf (after (committed.take 7)) 2 = some d at hd
    rw [hd, Option.map_some, Option.some.injEq] at hcounts
    obtain ⟨hworkspace, hcount⟩ := Prod.mk.inj hcounts
    have hreads : (Interpretation.interpretCsv Observations.sampleReader
        Observations.sampleContract sampleFile.header sampleFile.lines).toOption.isSome = true := by
      decide +kernel
    obtain ⟨p, hp⟩ := Option.isSome_iff_exists.mp hreads
    refine ⟨⟨p, "h", Raising.toOption_ok hp, rfl⟩, ?_, fun _ => ?_⟩
    · rw [hworkspace]
      exact ⟨⟨0, .active, 1000, none, none, ⟨0, 0, 1⟩⟩, by decide +kernel, by decide⟩
    · rw [hcount]
      exact Nat.lt_succ_self 1

theorem imports_agree_sample : Throughout (ImportJobs.call CaseHealth.constantSha
    Observations.sampleReader sampleHash sampleSettings) Agreeing State.empty deliveredOnce ∧
    (after deliveredOnce).sources.attempts.map (fun a => (a.state, a.rowCount, a.errorCount)) =
      [(.ready, 1, 0)] ∧ (after deliveredOnce).sources.rawRows.length = 1 :=
  ⟨(imports_agree CaseHealth.constantSha Observations.sampleReader sampleHash sampleSettings
    deliveredOnce).2 deliveredOnce_unbroken, by decide +kernel, by decide +kernel⟩

end Workbench.ImportLaws
