import Workbench.Requests
import Workbench.Policies

/-!
# Fenced publications

The token of an attempt stands on its work item, where the next claim replaces
it, and on the run, where the claiming update writes it. A publication compares
the token on the run only.
-/

set_option autoImplicit false

namespace Workbench.Fencing
open Workbench.Listing Workbench.Tables Workbench.Calendar Workbench.Workspaces Workbench.Jobs
open Workbench.JobRuns Workbench.Json Workbench.Records Workbench.Ingestion Workbench.Runs
open Workbench.Publications Workbench.PublicationRuns Workbench.Requests
open Workbench.Raising (bind_ok map_ok)

def AttemptOf (st : State) (run : ℕ) (a : JobAttempt) : Prop :=
  a ∈ st.jobs.attempts ∧ ∃ i ∈ st.jobs.items, i.id = a.workItem ∧ i.target = .reconciliationRun run

instance attemptOf_decidable (st : State) (run : ℕ) (a : JobAttempt) :
    Decidable (AttemptOf st run a) := instDecidableAnd

/-- The attempt with a token has not reported its outcome, and no later one has
claimed the item: tokens are drawn one after the other. -/
def Latest (st : State) (run token : ℕ) : Prop :=
  ∃ a ∈ st.jobs.attempts, a.token = token ∧ a.outcome = none ∧
    (∃ i ∈ st.jobs.items, i.id = a.workItem ∧ i.target = .reconciliationRun run) ∧
    ∀ b ∈ st.jobs.attempts, b.workItem = a.workItem → b.token ≤ token

instance latest_decidable (st : State) (run token : ℕ) : Decidable (Latest st run token) :=
  List.decidableBEx _ _

def CurrentToken (st : State) (run token : ℕ) : Prop :=
  ∃ i ∈ st.jobs.items, i.target = .reconciliationRun run ∧ i.currentToken = some token

instance currentToken_decidable (st : State) (run token : ℕ) :
    Decidable (CurrentToken st run token) := List.decidableBEx _ _

def recordedToken (st : State) (run : ℕ) : Option ℕ :=
  (lookup Run.id st.audit.runs run).bind Run.currentAttemptToken

def Command.attempt : Requests.Command → Option (ℕ × ℕ)
  | .audit (.claim _ run token) _ => token.map (run, ·)
  | .audit (.fail _ run token _) _ => token.map (run, ·)
  | .audit (.publish _ run p) _ => p.attemptToken.map (run, ·)
  | _ => none

section Fenced
variable (sha : Sha256) (digest : Digest) (settings : Requests.Settings)

/-- A publication that commits is made under the current token of the item. A
transaction of an attempt leaves the runs as they are when a newer attempt has
recorded its token, which is then still there when the newer one publishes. -/
structure Fenced (st : State) (c : Requests.Command) : Prop where
  current : ∀ workspace run p other, c = .audit (.publish workspace run p) other →
    ∀ token, p.attemptToken = some token →
      ∀ after, Requests.perform sha digest settings st c = .ok after → CurrentToken st run token
  undisturbed : ∀ run token, Command.attempt c = some (run, token) → ∀ a, AttemptOf st run a →
    token < a.token → recordedToken st run = some a.token →
      (Requests.call sha digest settings st c).audit.runs = st.audit.runs

/-- An attempt makes its claiming update before the item is claimed again, and
no attempt publishes after that a run that still carries its token. -/
def InTurn (st : State) : Requests.Command → Prop
  | .audit (.claim _ run token) _ => ∀ t ∈ token, Latest st run t
  | .audit (.publish _ run p) _ => ∀ t ∈ p.attemptToken, recordedToken st run = some t →
      Latest st run t
  | _ => True

end Fenced

def Crowned (db : Database) : Prop :=
  ∀ a ∈ db.attempts, a.outcome = none →
    (∀ b ∈ db.attempts, b.workItem = a.workItem → b.token ≤ a.token) →
      ∃ i ∈ db.items, i.id = a.workItem ∧ i.currentToken = some a.token

variable {db : Database} {may : JobAttempt → Instant → Prop} {retry take : WorkItem → Prop}

theorem grant_crowned (hv : Valid db) (h : Crowned db) {item : WorkItem} {now leaseUntil : Instant}
    (mem : item ∈ db.items) : Crowned (db.grant item now leaseUntil) := by
  intro a ha ho hl
  rcases mem_granted_attempts.mp ha with ha | rfl
  · have hne : a.workItem ≠ item.id := by
      intro he
      have hle := hl _ (mem_granted_attempts.mpr (.inr rfl)) he.symm
      exact absurd hle (Nat.not_le.mpr (hv.tokensUsed a ha))
    obtain ⟨i, hi, hid, hc⟩ :=
      h a ha ho fun b hb => hl b (mem_granted_attempts.mpr (.inl hb))
    refine ⟨i, mem_granted_items.mpr ⟨i, hi, ?_⟩, hid, hc⟩
    exact (if_neg fun he => hne (hid.symm.trans he)).symm
  · exact ⟨_, mem_granted_items.mpr ⟨item, mem, (if_pos rfl).symm⟩, rfl, rfl⟩

theorem completed_crowned (h : Crowned db) {token : ℕ} {outcome : JobAttemptOutcome}
    {now : Instant} {category : Option FailureCategory} {items : List WorkItem}
    {workspaces : List Workspace}
    (hitems : ∀ i ∈ db.items, ∀ t, i.currentToken = some t → t ≠ token → i ∈ items) :
    Crowned { db with
      items := items
      attempts := revise JobAttempt.token token (·.complete outcome now category) db.attempts
      workspaces := workspaces } := by
  intro a ha ho hl
  obtain ⟨old, hold, rfl⟩ := mem_revise.mp ha
  by_cases ht : old.token = token
  · rw [if_pos ht] at ho
    cases ho
  · rw [if_neg ht] at ho hl ⊢
    obtain ⟨i, hi, hid, hc⟩ := h old hold ho (by
      intro b hb hw
      have hrow := hl _ (mem_revise.mpr ⟨b, hb, rfl⟩)
      split at hrow
      · exact hrow hw
      · exact hrow hw)
    exact ⟨i, hitems i hi _ hc ht, hid, hc⟩

theorem purge_crowned (hv : Valid db) (h : Crowned db) (id : ℕ) : Crowned (db.purged id) := by
  intro a ha ho hl
  obtain ⟨ha, hw⟩ := List.mem_filter.mp ha
  obtain ⟨i, hi, hid, hiw⟩ := hv.owners a ha
  have hkept : i ∈ (db.purged id).items := List.mem_filter.mpr ⟨hi, by rw [hiw]; exact hw⟩
  obtain ⟨j, hj, hjd, hc⟩ := h a ha ho (by
    intro b hb hbw
    obtain ⟨k, hk, hkd, hkw⟩ := hv.owners b hb
    have hki := hv.item_eq hk hi (hkd.trans (hbw.trans hid.symm))
    apply hl b (List.mem_filter.mpr ⟨hb, ?_⟩) hbw
    rw [← hkw, hki, hiw]
    exact hw)
  exact ⟨i, hkept, hid, hv.item_eq hj hi (hjd.trans hid.symm) ▸ hc⟩

theorem move_crowned {after : Database} (hv : Valid db) (h : Crowned db)
    (m : Move may retry take db after) : Crowned after := by
  cases m with
  | grant mem _ _ _ => exact grant_crowned hv h mem
  | expire _ _ _ _ _ _ => exact completed_crowned h fun i hi _ _ _ => hi
  | @finish a item _ _ _ _ _ workspaces attempt mem owner current finish _ =>
    apply completed_crowned h
    intro i hi t hc hne
    refine mem_closed.mpr ⟨i, hi, (if_neg fun he => hne ?_).symm⟩
    rw [hv.item_eq hi mem he, current] at hc
    exact (Option.some.inj hc).symm
  | add _ =>
    intro a ha ho hl
    obtain ⟨i, hi, hrest⟩ := h a ha ho hl
    exact ⟨i, List.mem_append_left _ hi, hrest⟩
  | purge id => exact purge_crowned hv h id
  | elsewhere _ _ _ => exact h

theorem moves_crowned {after : Database} (hv : Valid db) (h : Crowned db)
    (m : Moves may retry take db after) : Crowned after := by
  have hboth : Valid after ∧ Crowned after := by
    induction m with
    | refl => exact ⟨hv, h⟩
    | tail _ step ih => exact ⟨move_valid ih.1 step, move_crowned ih.1 ih.2 step⟩
  exact hboth.2

section Every
variable {sha : Sha256} {digest : Digest} {settings : Requests.Settings} {st : State}

theorem call_crowned (hl : Linked st) (h : Crowned st.jobs) (c : Requests.Command) :
    Crowned (Requests.call sha digest settings st c).jobs := by
  refine settle_keeps (P := fun st : State => Crowned st.jobs) h fun after hp => ?_
  cases c with
  | request workspace scope now clock =>
    obtain ⟨⟨_, _⟩, hr, rfl⟩ := map_ok.mp hp
    simp only [Requests.createRunManifest, bind_ok, mapError_ok] at hr
    obtain ⟨_, _, jobs, henqueue, _, _, he⟩ := hr
    rw [← (Prod.mk.inj (Except.ok.inj he)).1]
    have hmoves : Moves (fun _ _ => True) (fun _ => True) (fun _ => True) st.jobs jobs :=
      enqueue_moves henqueue
    exact moves_crowned hl.valid h hmoves
  | audit c other =>
    simp only [Requests.perform, bind_ok, mapError_ok] at hp
    obtain ⟨_, _, he⟩ := hp
    rw [← Except.ok.inj he]
    exact h
  | jobs c other =>
    simp only [Requests.perform, bind_ok, mapError_ok] at hp
    obtain ⟨jobs, hj, he⟩ := hp
    rw [← Except.ok.inj he]
    exact moves_crowned hl.valid h (perform_moves hl.valid (allows_any _ c) hj)

theorem reached_crowned (cs : List Requests.Command) :
    Linked (Requests.reached sha digest settings cs) ∧
      Crowned (Requests.reached sha digest settings cs).jobs := by
  have hempty : Linked State.empty ∧ Crowned State.empty.jobs :=
    ⟨empty_linked, fun a ha => by cases ha⟩
  exact foldl_keeps (P := fun st => Linked st ∧ Crowned st.jobs)
    (fun st c h _ => ⟨(call_stepped h.1 c).linked, call_crowned h.1 h.2 c⟩) hempty
    (along_true State.empty cs)

theorem Crowned.current (hl : Linked st) (h : Crowned st.jobs) {run token : ℕ}
    (hlatest : Latest st run token) : CurrentToken st run token := by
  obtain ⟨a, ha, rfl, ho, ⟨i, hi, hid, ht⟩, hlast⟩ := hlatest
  obtain ⟨j, hj, hjd, hc⟩ := h a ha ho hlast
  rw [hl.valid.item_eq hj hi (hjd.trans hid.symm)] at hc
  exact ⟨i, hi, ht, hc⟩

theorem recordedToken_of (hl : Linked st) {r : Run} (hr : r ∈ st.audit.runs) :
    recordedToken st r.id = r.currentAttemptToken := by
  unfold recordedToken
  rw [hl.runs.lookup hr]
  rfl

theorem published_recorded (hl : Linked st) {workspace run : ℕ} {p : Publication}
    {other : ∀ w scope now,
      PublicationRuns.Command.publish workspace run p ≠ .createRun w scope now}
    {after : State} (h : Requests.perform sha digest settings st (.audit (.publish workspace run p) other) =
      .ok after) : ∀ token ∈ p.attemptToken, recordedToken st run = some token := by
  simp only [Requests.perform, bind_ok, mapError_ok] at h
  obtain ⟨_, hpublish, _⟩ := h
  obtain ⟨r, _, _, _, _, hr, _, htoken, _⟩ := publishRun_ok hpublish
  obtain ⟨hmem, rfl, _⟩ := runOf_some hr
  rw [recordedToken_of hl hmem]
  exact htoken

theorem failRun_other {s : Store} {workspace run : ℕ} {token : Option ℕ} {code : String}
    (h : ∀ r ∈ s.runs, r.id = run → r.currentAttemptToken ≠ token) :
    failRun workspace run token code s = .ok s := by
  unfold failRun
  cases hr : runOf workspace run s with
  | none => rfl
  | some r =>
    obtain ⟨hmem, hid, _⟩ := runOf_some hr
    exact if_neg fun hboth => h r hmem hid hboth.2

theorem latest_newest (hl : Linked st) {run token : ℕ} (h : Latest st run token) {a : JobAttempt}
    (ha : AttemptOf st run a) : a.token ≤ token := by
  obtain ⟨b, _, _, _, ⟨i, hi, hid, ht⟩, hlast⟩ := h
  obtain ⟨ha, j, hj, hjd, hjt⟩ := ha
  apply hlast a ha
  rw [← hjd, ← hid, hl.single j hj i hi run hjt ht]

theorem inTurn_fenced (hl : Linked st) (hcrowned : Crowned st.jobs) {c : Requests.Command}
    (h : InTurn st c) : Fenced sha digest settings st c where
  current := by
    rintro workspace run p other rfl token htoken after hp
    exact hcrowned.current hl (h token htoken (published_recorded hl hp token htoken))
  undisturbed := by
    intro run token hc a ha hlt hrecorded
    have hrow : ∀ r ∈ st.audit.runs, r.id = run → r.currentAttemptToken ≠ some token := by
      intro r hr hid he
      rw [← hid, recordedToken_of hl hr, he, Option.some.injEq] at hrecorded
      exact hlt.ne hrecorded
    cases c with
    | request => cases hc
    | jobs => cases hc
    | audit c other =>
      cases c with
      | review => cases hc
      | inputs => cases hc
      | createScope => cases hc
      | createRun => cases hc
      | claim workspace run' given =>
        obtain ⟨t, hgiven, he⟩ := Option.map_eq_some_iff.mp hc
        obtain ⟨rfl, rfl⟩ := Prod.mk.inj he
        exact absurd (latest_newest hl (h t hgiven) ha) (Nat.not_le.mpr hlt)
      | fail workspace run' given code =>
        obtain ⟨t, rfl, he⟩ := Option.map_eq_some_iff.mp hc
        obtain ⟨rfl, rfl⟩ := Prod.mk.inj he
        simp only [Requests.call, Requests.perform, PublicationRuns.perform, failRun_other hrow]
        rfl
      | publish workspace run' p =>
        obtain ⟨t, hgiven, he⟩ := Option.map_eq_some_iff.mp hc
        obtain ⟨rfl, rfl⟩ := Prod.mk.inj he
        unfold Requests.call
        cases hp : Requests.perform sha digest settings st
            (.audit (.publish workspace run' p) other) with
        | error e => rfl
        | ok after =>
          rw [published_recorded hl hp t hgiven, Option.some.injEq] at hrecorded
          exact absurd hrecorded hlt.ne

end Every

/-- In every interleaving of claims, expiries, requests and the transactions of
the attempts in which these are made in turn, each step is fenced. -/
theorem publications_fenced (sha : Sha256) (digest : Digest) (settings : Requests.Settings)
    (cs : List Requests.Command)
    (h : Along (Requests.call sha digest settings) InTurn State.empty cs) :
    Along (Requests.call sha digest settings) (Fenced sha digest settings) State.empty cs := by
  apply along_iff.mpr
  intro before c rest he
  obtain ⟨hl, hcrowned⟩ := @reached_crowned sha digest settings before
  exact inTurn_fenced hl hcrowned (along_iff.mp h before c rest he)

def started : List Requests.Command := failedRun.take 7

def publication (token : ℕ) : Publication :=
  { Policies.publication 95 with
    result := { Policies.emptyResult with engineVersion := "e", solverVersion := "s" }
    attemptToken := some token }

def publishing (token : ℕ) : Requests.Command := .audit (.publish 0 0 (publication token)) (by simp)

/-- The lease of the first attempt runs out, and a second one claims the item. -/
def overtaken : List Requests.Command := started ++ [.jobs (.claim (.one 1) 90 60 []) (by simp)]

def updating (token : ℕ) : Requests.Command := .audit (.claim 0 0 (some token)) (by simp)

def stateAfter (cs : List Requests.Command) : State :=
  Requests.reached CaseHealth.constantSha checksum sampleSettings cs

/-- The second attempt makes its update, the first one tries to publish, and the
second one does. -/
def taking : List Requests.Command := [updating 3, publishing 2, publishing 3]

theorem taking_inTurn : Along (Requests.call CaseHealth.constantSha checksum sampleSettings)
    InTurn (stateAfter overtaken) taking := by
  have hsecond : Latest (stateAfter overtaken) 0 3 := by decide +kernel
  have hfirst : recordedToken (stateAfter (overtaken ++ [updating 3])) 0 ≠ some 2 := by
    decide +kernel
  have hlast : Latest (stateAfter (overtaken ++ [updating 3, publishing 2])) 0 3 := by
    decide +kernel
  refine And.intro ?_ (And.intro ?_ (And.intro ?_ trivial))
  · intro t ht
    obtain rfl := Option.some.inj ht
    exact hsecond
  · intro t ht hrecorded
    obtain rfl := Option.some.inj ht
    exact absurd hrecorded hfirst
  · intro t ht _
    obtain rfl := Option.some.inj ht
    exact hlast

theorem overtaken_inTurn : Along (Requests.call CaseHealth.constantSha checksum sampleSettings)
    InTurn State.empty overtaken := by
  have hlatest : Latest (stateAfter (failedRun.take 6)) 0 2 := by decide +kernel
  refine And.intro trivial (And.intro trivial (And.intro trivial (And.intro trivial
    (And.intro trivial (And.intro trivial (And.intro ?_ (And.intro trivial trivial)))))))
  intro t ht
  obtain rfl := Option.some.inj ht
  exact hlatest

/-- The lease of the first attempt ends, and only the second one publishes. -/
theorem publications_fenced_sample :
    Along (Requests.call CaseHealth.constantSha checksum sampleSettings)
      (Fenced CaseHealth.constantSha checksum sampleSettings) State.empty (overtaken ++ taking) ∧
    ((stateAfter (overtaken ++ taking.take 2)).audit.runs.map (·.lifecycle)) = [.running] ∧
    ((stateAfter (overtaken ++ taking)).audit.runs.map (·.lifecycle)) = [.completed] :=
  ⟨publications_fenced CaseHealth.constantSha checksum sampleSettings _
    (along_append.mpr ⟨overtaken_inTurn, taking_inTurn⟩), by decide +kernel, by decide +kernel⟩

/-- The first attempt publishes while the second holds the item; and when the
second has made its claiming update, a late one of the first replaces its token. -/
theorem overtaken_not_fenced :
    ¬Fenced CaseHealth.constantSha checksum sampleSettings (stateAfter overtaken) (publishing 2) ∧
      ¬Fenced CaseHealth.constantSha checksum sampleSettings
        (stateAfter (overtaken ++ [updating 3])) (updating 2) := by
  constructor
  · intro h
    have hcommits : (Requests.perform CaseHealth.constantSha checksum sampleSettings
        (stateAfter overtaken) (publishing 2)).toOption.isSome = true := by decide +kernel
    obtain ⟨after, hafter⟩ := Option.isSome_iff_exists.mp hcommits
    have hcurrent := h.current 0 0 _ _ rfl 2 rfl after (Raising.toOption_ok hafter)
    have hnot : ¬CurrentToken (stateAfter overtaken) 0 2 := by decide +kernel
    exact hnot hcurrent
  · intro h
    have hattempt : AttemptOf (stateAfter (overtaken ++ [updating 3])) 0
        ⟨0, 1, 3, 90, 150, none, none, none⟩ := by decide +kernel
    have hrecorded : recordedToken (stateAfter (overtaken ++ [updating 3])) 0 = some 3 := by
      decide +kernel
    have hruns := h.undisturbed 0 2 rfl _ hattempt (Nat.lt_succ_self 2) hrecorded
    have hreplaced : (stateAfter (overtaken ++ [updating 3, updating 2])).audit.runs.map
        (·.currentAttemptToken) ≠ (stateAfter (overtaken ++ [updating 3])).audit.runs.map
        (·.currentAttemptToken) := by decide +kernel
    exact hreplaced (congrArg (List.map (·.currentAttemptToken)) hruns)

end Workbench.Fencing
