import Workbench.Jobs
import Workbench.Nesting

/-!
# Expiry inside transactions

`require_active` revokes an expired workspace in a transaction of its own and
then refuses. An operation that makes the check inside a transaction lets the
refusal undo the revocation; one that makes it before any transaction does not.
-/

set_option autoImplicit false

namespace Workbench.Expiry
open Workbench.Listing Workbench.Tables Workbench.Calendar Workbench.Workspaces
open Workbench.Jobs Workbench.Nesting
open Workbench.Raising (bind_ok demand fetch demand_ok fetch_ok)

inductive Failure where
  | refused (workspace : ℕ) (failure : Option WorkspaceAccessFailure)
  | job (failure : JobFailure)
deriving DecidableEq

/-- `WorkspaceLifecycleService.require_active`, on the row as it is read. -/
def checkActive (cleanupMaxAttempts workspace : ℕ) (now : Instant) (db : Database) :
    Option Failure × Database :=
  match lookup Workspace.id db.workspaces workspace with
  | none => (some (.job (.refused .workspaceUnavailable)), db)
  | some w =>
    let result := evaluate w.state w.expiresAt now
    let revoked := if result.requiresRevocation then
        expireWorkspace cleanupMaxAttempts workspace now db
      else .ok db
    match revoked with
    | .error failure => (some (.job failure), db)
    | .ok after =>
      if result.accessAllowed then (none, after)
      else (some (.refused workspace result.failure), after)

def standing (w : Workspace) : ℕ × WorkspaceState × Instant := (w.id, w.state, w.expiresAt)

def cleanupTargets (db : Database) : List Target :=
  (db.items.map WorkItem.target).filter fun t => t.kind = .workspaceCleanup

structure Keeps (db after : Database) : Prop where
  workspaces : after.workspaces.map standing = db.workspaces.map standing
  cleanups : after.cleanups = db.cleanups
  targets : cleanupTargets after = cleanupTargets db
  serial : db.serial ≤ after.serial

/-- A statement that neither creates nor revokes a workspace and asks for no
cleanup: only the lifecycle service and the purge do. -/
structure Other where
  run : Database → Except JobFailure Database
  keeps : ∀ {db after}, run db = .ok after → Keeps db after

inductive Statement where
  | requireActive (workspace : ℕ) (now : Instant)
  | delete (workspace : ℕ) (now : Instant)
  | create (expiresAt : Instant)
  | purge (workspace : ℕ) (attemptToken : Option ℕ)
  | other (statement : Other)

def outcome (db : Database) : Except JobFailure Database → Option Failure × Database
  | .ok after => (none, after)
  | .error failure => (some (.job failure), db)

def createWorkspace (expiresAt : Instant) (db : Database) : Database :=
  { db with
    workspaces := db.workspaces ++ [⟨db.serial, .active, expiresAt, none, none, ⟨0, 0, 0⟩⟩]
    serial := db.serial+1 }

def execute (settings : Settings) : Statement → Database → Option Failure × Database
  | .requireActive workspace now, db => checkActive settings.cleanupMaxAttempts workspace now db
  | .delete workspace now, db =>
    outcome db (deleteWorkspace settings.cleanupMaxAttempts workspace now db)
  | .create expiresAt, db => (none, createWorkspace expiresAt db)
  | .purge workspace attemptToken, db => outcome db (purgeWorkspace workspace attemptToken db)
  | .other statement, db => outcome db (statement.run db)

abbrev Operation := Block Database Statement

/-- The shape of the operations that lock the workspace first: run creation and
publication, decision commands, and the second half of a preview. -/
def guarded (workspace : ℕ) (now : Instant) (rest : Operation) : Operation :=
  .atomic (.seq (.statement (.requireActive workspace now)) rest)

/-- The shape of the operations that check before they open a transaction: a
session, a worker's guard, queries, shells of previews and run execution. -/
def authorized (workspace : ℕ) (now : Instant) (rest : Operation) : Operation :=
  .seq (.statement (.requireActive workspace now)) rest

def useQuota (workspace : ℕ) (resulting : QuotaAmounts → Except Refusal QuotaAmounts)
    (db : Database) : Except JobFailure Database :=
  match lookup Workspace.id db.workspaces workspace with
  | none => .error (.refused .workspaceUnavailable)
  | some w =>
    match resulting w.usage with
    | .error reason => .error (.refused reason)
    | .ok usage => .ok { db with workspaces := setUsage workspace usage db.workspaces }

theorem standing_setUsage (workspace : ℕ) (usage : QuotaAmounts) (rows : List Workspace) :
    (setUsage workspace usage rows).map standing = rows.map standing := by
  unfold setUsage revise
  rw [List.map_map]
  apply List.map_congr_left
  intro w _
  show standing (if w.id = workspace then { w with usage := usage } else w) = standing w
  split <;> rfl

def useStatement (workspace : ℕ) (resulting : QuotaAmounts → Except Refusal QuotaAmounts) :
    Other where
  run := useQuota workspace resulting
  keeps := by
    intro db after h
    unfold useQuota at h
    split at h
    · cases h
    · split at h
      · cases h
      · obtain rfl := Except.ok.inj h
        exact ⟨standing_setUsage workspace _ db.workspaces, rfl, rfl, Nat.le_refl _⟩

/-- `WorkspaceQuotaService.reserve`. -/
def reserve (limits : QuotaAmounts) (workspace : ℕ) (requested : QuotaAmounts) (now : Instant) :
    Operation :=
  guarded workspace now
    (.statement (.other (useStatement workspace fun usage => limits.reserve usage requested)))

/-- `WorkspaceQuotaService.release`. -/
def release (workspace : ℕ) (released : QuotaAmounts) (now : Instant) : Operation :=
  guarded workspace now
    (.statement (.other (useStatement workspace fun usage =>
      if usage.covers released then .ok (usage.minus released) else .error .quotaReleaseConflict)))

def addStatement (item : Database → WorkItem)
    (h : ∀ db, (item db).target.kind ≠ .workspaceCleanup) : Other where
  run db := addItem (item db) db
  keeps := by
    intro db after hok
    simp only [addItem, bind_ok, demand_ok, Except.ok.injEq] at hok
    obtain ⟨_, _, _, _, rfl⟩ := hok
    refine ⟨rfl, rfl, ?_, Nat.le_succ _⟩
    unfold cleanupTargets
    simp only [List.map_append, List.filter_append, List.map_singleton]
    rw [List.filter_cons_of_neg (by simp [h db]), List.filter_nil, List.append_nil]

/-- `enqueue` of an import or a run: the reservation commits before the insert. -/
def enqueue (limits : QuotaAmounts) (workspace : ℕ) (target : Target)
    (h : target.kind ≠ .workspaceCleanup) (maxAttempts : ℕ) (now clock : Instant) : Operation :=
  .branch (fun db => db.items.any fun item => item.target = target) .skip
    (.seq (reserve limits workspace oneActiveJob clock)
      (.statement (.other (addStatement (fun db => ⟨db.serial, workspace, target.kind, .ready,
        target, now, none, none, 0, maxAttempts, now, now⟩) fun _ => h))))

/-- `create_run_manifest`: it enqueues inside its own transaction. -/
def createRunManifest (limits : QuotaAmounts) (workspace run maxAttempts : ℕ)
    (now clock : Instant) (freeze : Other) : Operation :=
  guarded workspace now (.seq (.statement (.other freeze))
    (enqueue limits workspace (.reconciliationRun run) (fun h => by cases h) maxAttempts now clock))

/-- `execute_and_publish_run`: the claim, the computation and the failure are
statements of their own, `publish_run` is guarded. -/
def executeAndPublishRun (workspace : ℕ) (now completedAt : Instant)
    (claim publish : Other) : Operation :=
  authorized workspace now (.seq (.statement (.other claim))
    (guarded workspace completedAt (.statement (.other publish))))

/-- `ArtifactIntakeService.ingest`: checked before the file is staged, and again
by the reservation. -/
def ingest (limits : QuotaAmounts) (workspace bytes : ℕ) (now clock : Instant)
    (createArtifact : Other) : Operation :=
  authorized workspace now (.atomic (.seq (reserve limits workspace ⟨bytes, 0, 0⟩ clock)
    (.statement (.other createArtifact))))

/-- `ActivationService.activate`: checked before and inside its transaction. -/
def activate (workspace : ℕ) (now clock : Instant) (rest : Other) : Operation :=
  authorized workspace now (guarded workspace clock (.statement (.other rest)))

def rank : WorkspaceState → ℕ
  | .active => 0
  | .revoked => 1
  | .deleted => 2

/-- Workspaces that are still there have moved from active over revoked to
deleted, or not at all; the others are new. -/
structure Forward (db after : Database) : Prop where
  serial : db.serial ≤ after.serial
  states : ∀ y ∈ after.workspaces,
    (∃ x ∈ db.workspaces, x.id = y.id ∧ rank x.state ≤ rank y.state) ∨ db.serial ≤ y.id

structure Keyed (db : Database) : Prop where
  ids : (db.workspaces.map Workspace.id).Nodup
  used : ∀ w ∈ db.workspaces, w.id < db.serial
  cleanups : (db.cleanups.map CleanupRequest.workspace).Nodup
  targets : (cleanupTargets db).Nodup

section Statements
variable {settings : Settings} {db after : Database}

theorem Forward.refl (db : Database) : Forward db db where
  serial := Nat.le_refl _
  states := fun y hy => .inl ⟨y, hy, rfl, Nat.le_refl _⟩

theorem Forward.trans {first second third : Database} (h : Forward first second)
    (h' : Forward second third) : Forward first third where
  serial := Nat.le_trans h.serial h'.serial
  states := by
    intro z hz
    rcases h'.states z hz with ⟨y, hy, hid, hrank⟩ | hnew
    · rcases h.states y hy with ⟨x, hx, hxy, hle⟩ | hnew
      · exact .inl ⟨x, hx, hxy.trans hid, Nat.le_trans hle hrank⟩
      · exact .inr (hid ▸ hnew)
    · exact .inr (Nat.le_trans h.serial hnew)

theorem rank_revoke (final : WorkspaceState) (now : Instant) (w : Workspace) :
    rank w.state ≤ rank (w.revoke final now).state := by
  unfold Workspace.revoke
  cases final with
  | deleted =>
    show rank w.state ≤ 2
    cases w.state <;> decide
  | active | revoked =>
    by_cases h : w.state = .active
    · simp [h, rank]
    · simp [h]

theorem keeps_forward (h : Keeps db after) : Forward db after where
  serial := h.serial
  states := by
    intro y hy
    have hm := List.mem_map_of_mem (f := standing) hy
    rw [h.workspaces] at hm
    obtain ⟨x, hx, he⟩ := List.mem_map.mp hm
    have hid : x.id = y.id := congrArg Prod.fst he
    have hstate : x.state = y.state := congrArg (fun p => p.2.1) he
    exact .inl ⟨x, hx, hid, by rw [hstate]⟩

theorem keeps_keyed (hk : Keyed db) (h : Keeps db after) : Keyed after where
  ids := by
    have hid : ∀ rows : List Workspace,
        rows.map Workspace.id = (rows.map standing).map Prod.fst := by
      intro rows
      rw [List.map_map]
      rfl
    rw [hid, h.workspaces, ← hid]
    exact hk.ids
  used := by
    intro y hy
    have hm := List.mem_map_of_mem (f := standing) hy
    rw [h.workspaces] at hm
    obtain ⟨x, hx, he⟩ := List.mem_map.mp hm
    have hid : x.id = y.id := congrArg Prod.fst he
    exact hid ▸ Nat.lt_of_lt_of_le (hk.used x hx) h.serial
  cleanups := by
    rw [h.cleanups]
    exact hk.cleanups
  targets := by
    rw [h.targets]
    exact hk.targets

/-- What `_revoke` writes. -/
structure Revoked (workspace : ℕ) (final : WorkspaceState) (now : Instant) (db after : Database) :
    Prop where
  found : ∃ w ∈ db.workspaces, w.id = workspace
  workspaces : after.workspaces = revise Workspace.id workspace (·.revoke final now) db.workspaces
  cleanups : after.cleanups.map CleanupRequest.workspace =
    if workspace ∈ db.cleanups.map CleanupRequest.workspace then
      db.cleanups.map CleanupRequest.workspace
    else db.cleanups.map CleanupRequest.workspace ++ [workspace]
  targets : after.items.map WorkItem.target =
    if .cleanupRequest workspace ∈ db.items.map WorkItem.target then
      db.items.map WorkItem.target
    else db.items.map WorkItem.target ++ [.cleanupRequest workspace]
  serial : db.serial ≤ after.serial

theorem find_target {items : List WorkItem} {target : Target} :
    (items.find? (·.target = target)).isSome ↔ target ∈ items.map WorkItem.target := by
  rw [List.find?_isSome, List.mem_map]
  simp only [decide_eq_true_eq]

theorem revokeWorkspace_ok {cleanupMaxAttempts workspace : ℕ} {final : WorkspaceState}
    {reason : CleanupReason} {now : Instant}
    (h : revokeWorkspace cleanupMaxAttempts workspace final reason now db = .ok after) :
    Revoked workspace final now db after := by
  simp only [revokeWorkspace, bind_ok, fetch_ok] at h
  obtain ⟨w, hw, h⟩ := h
  have hcleanups : ∀ {cleanups : List CleanupRequest},
      cleanups = (lookup CleanupRequest.workspace db.cleanups workspace).elim
        (db.cleanups ++ [⟨workspace, reason, now⟩])
        (fun _ => if reason = .deleted then
          revise CleanupRequest.workspace workspace (fun c => { c with reason := reason })
            db.cleanups
        else db.cleanups) →
      cleanups.map CleanupRequest.workspace =
        if workspace ∈ db.cleanups.map CleanupRequest.workspace then
          db.cleanups.map CleanupRequest.workspace
        else db.cleanups.map CleanupRequest.workspace ++ [workspace] := by
    intro cleanups he
    subst he
    cases hc : lookup CleanupRequest.workspace db.cleanups workspace with
    | none =>
      have hnot : workspace ∉ db.cleanups.map CleanupRequest.workspace := by
        intro hm
        obtain ⟨c, hcm, hid⟩ := List.mem_map.mp hm
        exact lookup_none.mp hc c hcm hid
      rw [if_neg hnot, Option.elim_none, List.map_append]
      rfl
    | some c =>
      have hin : workspace ∈ db.cleanups.map CleanupRequest.workspace :=
        List.mem_map.mpr ⟨c, mem_of_lookup hc, key_of_lookup hc⟩
      rw [if_pos hin]
      show (if reason = .deleted then _ else _ : List CleanupRequest).map _ = _
      split
      · exact keys_revise (g := CleanupRequest.workspace)
          (f := fun c => { c with reason := reason }) (fun _ => rfl) workspace db.cleanups
      · rfl
  have hfound : ∃ w ∈ db.workspaces, w.id = workspace := ⟨w, mem_of_lookup hw, key_of_lookup hw⟩
  cases hi : db.items.find? (·.target = .cleanupRequest workspace) with
  | some item =>
    rw [hi] at h
    obtain rfl := Except.ok.inj h
    have hin : .cleanupRequest workspace ∈ db.items.map WorkItem.target :=
      find_target.mp (by rw [hi]; rfl)
    refine ⟨hfound, rfl, hcleanups ?_, by rw [if_pos hin], Nat.le_refl _⟩
    cases lookup CleanupRequest.workspace db.cleanups workspace <;> rfl
  | none =>
    rw [hi] at h
    simp only [addItem, bind_ok, demand_ok, Except.ok.injEq] at h
    obtain ⟨_, _, _, _, rfl⟩ := h
    have hnot : .cleanupRequest workspace ∉ db.items.map WorkItem.target := by
      intro hm
      have := find_target.mpr hm
      rw [hi] at this
      cases this
    refine ⟨hfound, rfl, hcleanups ?_, ?_, Nat.le_succ _⟩
    · cases lookup CleanupRequest.workspace db.cleanups workspace <;> rfl
    · rw [if_neg hnot, List.map_append]
      rfl

theorem revoked_forward {workspace : ℕ} {final : WorkspaceState} {now : Instant}
    (h : Revoked workspace final now db after) : Forward db after where
  serial := h.serial
  states := by
    intro y hy
    rw [h.workspaces] at hy
    obtain ⟨x, hx, rfl⟩ := mem_revise.mp hy
    left
    by_cases hid : x.id = workspace
    · rw [if_pos hid]
      exact ⟨x, hx, (Workspace.revoke_id final now x).symm, rank_revoke final now x⟩
    · rw [if_neg hid]
      exact ⟨x, hx, rfl, Nat.le_refl _⟩

theorem nodup_add {κ : Type} [DecidableEq κ] {l : List κ} (h : l.Nodup) (k : κ) :
    (if k ∈ l then l else l ++ [k]).Nodup := by
  by_cases hk : k ∈ l
  · rw [if_pos hk]
    exact h
  · rw [if_neg hk]
    apply List.Nodup.append h (List.nodup_singleton _)
    intro x hx hin
    exact hk (List.mem_singleton.mp hin ▸ hx)

theorem revoked_targets {workspace : ℕ} {final : WorkspaceState} {now : Instant}
    (h : Revoked workspace final now db after) : cleanupTargets after =
      if .cleanupRequest workspace ∈ cleanupTargets db then cleanupTargets db
      else cleanupTargets db ++ [.cleanupRequest workspace] := by
  have hmem : Target.cleanupRequest workspace ∈ cleanupTargets db ↔
      Target.cleanupRequest workspace ∈ db.items.map WorkItem.target := by
    unfold cleanupTargets
    rw [List.mem_filter]
    exact and_iff_left rfl
  simp only [hmem]
  unfold cleanupTargets
  rw [h.targets]
  split
  · rfl
  · rw [List.filter_append]
    rfl

theorem revoked_keyed {workspace : ℕ} {final : WorkspaceState} {now : Instant} (hk : Keyed db)
    (h : Revoked workspace final now db after) : Keyed after where
  ids := by
    rw [h.workspaces, keys_revise (Workspace.revoke_id final now)]
    exact hk.ids
  used := by
    intro y hy
    rw [h.workspaces] at hy
    obtain ⟨x, hx, rfl⟩ := mem_revise.mp hy
    have hlt := Nat.lt_of_lt_of_le (hk.used x hx) h.serial
    split
    · rw [Workspace.revoke_id]
      exact hlt
    · exact hlt
  cleanups := by
    rw [h.cleanups]
    exact nodup_add hk.cleanups workspace
  targets := by
    rw [revoked_targets h]
    exact nodup_add hk.targets _

theorem create_forward (hk : Keyed db) (expiresAt : Instant) :
    Keyed (createWorkspace expiresAt db) ∧ Forward db (createWorkspace expiresAt db) := by
  have hrow : ∀ w ∈ (createWorkspace expiresAt db).workspaces,
      w ∈ db.workspaces ∨ w.id = db.serial := by
    intro w hw
    rcases List.mem_append.mp hw with hw | hw
    · exact .inl hw
    · rw [List.mem_singleton] at hw
      exact .inr (congrArg Workspace.id hw)
  constructor
  · refine ⟨?_, ?_, hk.cleanups, hk.targets⟩
    · show ((db.workspaces ++ [_]).map Workspace.id).Nodup
      rw [List.map_append]
      apply List.Nodup.append hk.ids (List.nodup_singleton _)
      intro id hid hin
      obtain ⟨w, hw, rfl⟩ := List.mem_map.mp hid
      have hlt := hk.used w hw
      have heq : w.id = db.serial := List.mem_singleton.mp hin
      omega
    · intro w hw
      show w.id < db.serial+1
      rcases hrow w hw with hw | hid
      · have := hk.used w hw
        omega
      · omega
  · refine ⟨Nat.le_succ _, fun w hw => ?_⟩
    rcases hrow w hw with hw | hid
    · exact .inl ⟨w, hw, rfl, Nat.le_refl _⟩
    · exact .inr (Nat.le_of_eq hid.symm)

theorem purged_forward (hk : Keyed db) (id : ℕ) :
    Keyed (db.purged id) ∧ Forward db (db.purged id) := by
  constructor
  · refine ⟨?_, ?_, ?_, ?_⟩
    · exact hk.ids.sublist (List.Sublist.map _ List.filter_sublist)
    · exact fun w hw => hk.used w (List.mem_filter.mp hw).1
    · exact hk.cleanups.sublist (List.Sublist.map _ List.filter_sublist)
    · exact hk.targets.sublist (List.Sublist.filter _ (List.Sublist.map _ List.filter_sublist))
  · exact ⟨Nat.le_refl _, fun w hw => .inl ⟨w, (List.mem_filter.mp hw).1, rfl, Nat.le_refl _⟩⟩

theorem purgeWorkspace_cases {id : ℕ} {attemptToken : Option ℕ}
    (h : purgeWorkspace id attemptToken db = .ok after) : after = db ∨ after = db.purged id := by
  unfold purgeWorkspace at h
  split at h
  · exact .inl (Except.ok.inj h).symm
  · simp only [bind_ok, demand_ok] at h
    obtain ⟨_, _, h⟩ := h
    right
    cases attemptToken with
    | none => exact (Except.ok.inj h).symm
    | some token =>
      simp only [bind_ok, demand_ok, fetch_ok] at h
      obtain ⟨_, _, _, _, h⟩ := h
      exact (Except.ok.inj h).symm

theorem outcome_keeps {P : Database → Prop} {x : Except JobFailure Database} (hs : P db)
    (hx : ∀ t, x = .ok t → P t) : P (outcome db x).2 := by
  cases x with
  | error e => exact hs
  | ok t => exact hx t rfl

theorem checkActive_cases (cleanupMaxAttempts workspace : ℕ) (now : Instant) (db : Database) :
    (checkActive cleanupMaxAttempts workspace now db).2 = db ∧
        (checkActive cleanupMaxAttempts workspace now db).1 ≠
          some (.refused workspace (some .expired)) ∨
      ∃ w after, lookup Workspace.id db.workspaces workspace = some w ∧ w.state = .active ∧
        Revoked workspace .revoked now db after ∧
        checkActive cleanupMaxAttempts workspace now db =
          (some (.refused workspace (some .expired)), after) := by
  unfold checkActive
  cases hw : lookup Workspace.id db.workspaces workspace with
  | none => exact .inl ⟨rfl, by simp⟩
  | some w =>
    simp only
    cases hs : w.state with
    | deleted => exact .inl ⟨rfl, by simp [evaluate]⟩
    | revoked => exact .inl ⟨rfl, by simp [evaluate]⟩
    | active =>
      by_cases he : w.expiresAt ≤ now
      · simp only [evaluate, if_pos he, if_true]
        cases hx : expireWorkspace cleanupMaxAttempts workspace now db with
        | error failure => exact .inl ⟨rfl, by simp⟩
        | ok after => exact .inr ⟨w, after, rfl, hs, revokeWorkspace_ok hx, rfl⟩
      · left
        simp [evaluate, if_neg he]

theorem execute_forward (hk : Keyed db) (a : Statement) :
    Keyed (execute settings a db).2 ∧ Forward db (execute settings a db).2 := by
  have hstill : Keyed db ∧ Forward db db := ⟨hk, .refl db⟩
  cases a with
  | requireActive workspace now =>
    simp only [execute]
    rcases checkActive_cases settings.cleanupMaxAttempts workspace now db with ⟨h, _⟩ | h
    · rw [h]
      exact hstill
    · obtain ⟨w, after, _, _, hr, h⟩ := h
      rw [h]
      exact ⟨revoked_keyed hk hr, revoked_forward hr⟩
  | delete workspace now =>
    apply outcome_keeps (P := fun t => Keyed t ∧ Forward db t) hstill
    intro t ht
    have hr := revokeWorkspace_ok ht
    exact ⟨revoked_keyed hk hr, revoked_forward hr⟩
  | create expiresAt => exact create_forward hk expiresAt
  | purge workspace attemptToken =>
    apply outcome_keeps (P := fun t => Keyed t ∧ Forward db t) hstill
    intro t ht
    rcases purgeWorkspace_cases ht with rfl | rfl
    · exact hstill
    · exact purged_forward hk workspace
  | other statement =>
    apply outcome_keeps (P := fun t => Keyed t ∧ Forward db t) hstill
    intro t ht
    exact ⟨keeps_keyed hk (statement.keeps ht), keeps_forward (statement.keeps ht)⟩

end Statements

/-- The workspace is revoked, with one cleanup request and one work item for it. -/
structure Durable (db : Database) (workspace : ℕ) : Prop where
  revoked : ∃ w ∈ db.workspaces, w.id = workspace ∧ w.state = .revoked
  request : (db.cleanups.map CleanupRequest.workspace).count workspace = 1
  item : (db.items.map WorkItem.target).count (.cleanupRequest workspace) = 1

def reached (settings : Settings) (operations : List Operation) : Database :=
  operations.foldl (fun db p => (run (execute settings) p db).2) Database.empty

section Operations
variable {settings : Settings} {db after : Database}

theorem run_forward (hk : Keyed db) (p : Operation) :
    Keyed (run (execute settings) p db).2 ∧ Forward db (run (execute settings) p db).2 :=
  ⟨run_keeps (P := Keyed) (fun a _ h => (execute_forward h a).1) p hk,
    run_related (I := Keyed) Forward.refl (fun _ _ _ => Forward.trans)
      (fun a _ h => (execute_forward h a).1) (fun a _ h => (execute_forward h a).2) p hk⟩

theorem runs_forward (hk : Keyed db) (operations : List Operation) :
    Keyed (operations.foldl (fun db p => (run (execute settings) p db).2) db) ∧
      Forward db (operations.foldl (fun db p => (run (execute settings) p db).2) db) := by
  induction operations generalizing db with
  | nil => exact ⟨hk, .refl db⟩
  | cons p operations ih =>
    obtain ⟨hnext, hstep⟩ := run_forward hk p
    obtain ⟨hlast, hrest⟩ := ih hnext
    exact ⟨hlast, hstep.trans hrest⟩

theorem empty_keyed : Keyed Database.empty where
  ids := List.nodup_nil
  used := fun w hw => by cases hw
  cleanups := List.nodup_nil
  targets := List.nodup_nil

theorem reached_keyed (settings : Settings) (operations : List Operation) :
    Keyed (reached settings operations) := (runs_forward empty_keyed operations).1

theorem revoked_durable (hk : Keyed db) {workspace : ℕ} {now : Instant} {w : Workspace}
    (hw : lookup Workspace.id db.workspaces workspace = some w) (hs : w.state = .active)
    (h : Revoked workspace .revoked now db after) : Durable after workspace := by
  have hnext := revoked_keyed hk h
  constructor
  · refine ⟨w.revoke .revoked now, ?_, ?_, ?_⟩
    · rw [h.workspaces]
      refine mem_revise.mpr ⟨w, mem_of_lookup hw, ?_⟩
      rw [if_pos (key_of_lookup hw)]
    · rw [Workspace.revoke_id, key_of_lookup hw]
    · simp [Workspace.revoke, hs]
  · apply List.count_eq_one_of_mem hnext.cleanups
    rw [h.cleanups]
    split
    · assumption
    · exact List.mem_append_right _ (List.mem_singleton_self _)
  · have hm : Target.cleanupRequest workspace ∈ cleanupTargets after := by
      rw [revoked_targets h]
      split
      · assumption
      · exact List.mem_append_right _ (List.mem_singleton_self _)
    have hone := List.count_eq_one_of_mem hnext.targets hm
    unfold cleanupTargets at hone
    rw [List.count_filter rfl] at hone
    exact hone

theorem Forward.not_active (hk : Keyed db) (h : Forward db after) {workspace : ℕ}
    (hd : ∃ w ∈ db.workspaces, w.id = workspace ∧ w.state ≠ .active) :
    ∀ y ∈ after.workspaces, y.id = workspace → y.state ≠ .active := by
  intro y hy hid hactive
  obtain ⟨w, hw, hwid, hstate⟩ := hd
  rcases h.states y hy with ⟨x, hx, hxy, hrank⟩ | hnew
  · have hsame : x = w := eq_of_key_eq Workspace.id hk.ids hx hw (hxy.trans (hid.trans hwid.symm))
    subst hsame
    rw [hactive] at hrank
    apply hstate
    cases hx' : x.state with
    | active => rfl
    | revoked => rw [hx'] at hrank; exact absurd hrank (by decide)
    | deleted => rw [hx'] at hrank; exact absurd hrank (by decide)
  · have := hk.used w hw
    omega

/-- A refusal for expiry leaves the workspace revoked exactly when the check that
refuses is made outside every transaction. -/
theorem refusal_durable_iff (hk : Keyed db) {p : Operation} {workspace : ℕ}
    (h : run (execute settings) p db = (some (.refused workspace (some .expired)), after)) :
    Durable after workspace ↔ Exposed (execute settings) p db := by
  obtain ⟨a, u, hu, ha, hcase⟩ := run_raised (R := Forward) (I := Keyed) Forward.refl
    (fun _ _ _ => Forward.trans) (fun a _ h => (execute_forward h a).1)
    (fun a _ h => (execute_forward h a).2) p hk h
  have hafter : Keyed after := by
    have hrun : Keyed (run (execute settings) p db).2 := (run_forward hk p).1
    rw [h] at hrun
    exact hrun
  have hcheck : ∃ w now revoked, lookup Workspace.id u.workspaces workspace = some w ∧
      w.state = .active ∧ Revoked workspace .revoked now u revoked ∧
        (execute settings a u).2 = revoked := by
    cases a with
    | requireActive other now =>
      simp only [execute] at ha ⊢
      have hsame : other = workspace := by
        unfold checkActive at ha
        split at ha
        · cases ha
        · simp only at ha
          split at ha
          · cases ha
          · split at ha
            · cases ha
            · exact (Failure.refused.inj (Option.some.inj ha)).1
      subst hsame
      rcases checkActive_cases settings.cleanupMaxAttempts other now u with ⟨_, hne⟩ | hr
      · exact absurd ha hne
      · obtain ⟨w, revoked, hw, hs, hrev, he⟩ := hr
        exact ⟨w, now, revoked, hw, hs, hrev, by rw [he]⟩
    | create expiresAt => cases ha
    | delete other now =>
      simp only [execute] at ha
      cases hx : deleteWorkspace settings.cleanupMaxAttempts other now u <;>
        rw [hx] at ha <;> cases ha
    | purge other attemptToken =>
      simp only [execute] at ha
      cases hx : purgeWorkspace other attemptToken u <;> rw [hx] at ha <;> cases ha
    | other statement =>
      simp only [execute] at ha
      cases hx : statement.run u <;> rw [hx] at ha <;> cases ha
  obtain ⟨w, now, revoked, hw, hs, hrev, he⟩ := hcheck
  constructor
  · intro hd
    rcases hcase with ⟨hex, _⟩ | ⟨_, hbefore⟩
    · exact hex
    · obtain ⟨x, hx, hid, hstate⟩ := hd.revoked
      have hnot : ∃ w ∈ after.workspaces, w.id = workspace ∧ w.state ≠ .active :=
        ⟨x, hx, hid, by rw [hstate]; decide⟩
      exact absurd hs (hbefore.not_active hafter hnot w (mem_of_lookup hw) (key_of_lookup hw))
  · intro hex
    rcases hcase with ⟨_, _, rfl⟩ | ⟨hnot, _⟩
    · rw [he]
      exact revoked_durable hu hw hs hrev
    · exact absurd hex hnot

theorem guarded_not_exposed (workspace : ℕ) (now : Instant) (rest : Operation) :
    ¬Exposed (execute settings) (guarded workspace now rest) db := id

theorem createRunManifest_not_exposed (limits : QuotaAmounts) (workspace manifest : ℕ)
    (maxAttempts : ℕ) (now clock : Instant) (freeze : Other) :
    ¬Exposed (execute settings)
      (createRunManifest limits workspace manifest maxAttempts now clock freeze) db :=
  guarded_not_exposed _ _ _

theorem authorized_exposed (workspace : ℕ) (now : Instant) (rest : Operation) :
    Exposed (execute settings) (authorized workspace now rest) db ↔
      (checkActive settings.cleanupMaxAttempts workspace now db).1 ≠ none ∨
        (checkActive settings.cleanupMaxAttempts workspace now db).1 = none ∧
          Exposed (execute settings) rest
            (checkActive settings.cleanupMaxAttempts workspace now db).2 := by
  simp only [authorized, Exposed, run, execute]
  cases checkActive settings.cleanupMaxAttempts workspace now db with
  | mk raised t => cases raised <;> simp

theorem ingest_exposed (limits : QuotaAmounts) (workspace bytes : ℕ) (now clock : Instant)
    (createArtifact : Other) :
    Exposed (execute settings) (ingest limits workspace bytes now clock createArtifact) db ↔
      (checkActive settings.cleanupMaxAttempts workspace now db).1 ≠ none := by
  rw [ingest, authorized_exposed]
  exact or_iff_left fun h => h.2

theorem activate_exposed (workspace : ℕ) (now clock : Instant) (rest : Other) :
    Exposed (execute settings) (activate workspace now clock rest) db ↔
      (checkActive settings.cleanupMaxAttempts workspace now db).1 ≠ none := by
  rw [activate, authorized_exposed]
  exact or_iff_left fun h => h.2

theorem executeAndPublishRun_exposed (workspace : ℕ) (now completedAt : Instant)
    (claim publish : Other)
    (hclaim : ∀ db', ∃ t, claim.run db' = .ok t) :
    Exposed (execute settings) (executeAndPublishRun workspace now completedAt claim publish) db ↔
      (checkActive settings.cleanupMaxAttempts workspace now db).1 ≠ none := by
  rw [executeAndPublishRun, authorized_exposed]
  apply or_iff_left
  intro h
  obtain ⟨t, ht⟩ := hclaim (checkActive settings.cleanupMaxAttempts workspace now db).2
  have hnext := h.2
  simp only [Exposed, run, execute, ht, outcome, guarded] at hnext

theorem checkActive_passes (cleanupMaxAttempts workspace : ℕ) (now : Instant) (db : Database) :
    (∃ w, lookup Workspace.id db.workspaces workspace = some w ∧ w.accessAllowed now) ∧
        checkActive cleanupMaxAttempts workspace now db = (none, db) ∨
      (∀ w, lookup Workspace.id db.workspaces workspace = some w → ¬w.accessAllowed now) ∧
        ∃ e t, checkActive cleanupMaxAttempts workspace now db = (some e, t) := by
  unfold checkActive
  cases hw : lookup Workspace.id db.workspaces workspace with
  | none => exact .inr ⟨(fun _ h => by cases h), _, _, rfl⟩
  | some w =>
    simp only [accessAllowed_iff]
    cases hs : w.state with
    | deleted => exact .inr ⟨(fun x hx => by rw [← Option.some.inj hx, hs]; simp), _, _, rfl⟩
    | revoked => exact .inr ⟨(fun x hx => by rw [← Option.some.inj hx, hs]; simp), _, _, rfl⟩
    | active =>
      by_cases he : w.expiresAt ≤ now
      · right
        refine ⟨fun x hx => ?_, ?_⟩
        · rw [← Option.some.inj hx]
          exact fun h => absurd h.2 (not_lt.mpr he)
        · simp only [evaluate, if_pos he, if_true]
          cases expireWorkspace cleanupMaxAttempts workspace now db with
          | error failure => exact ⟨_, _, rfl⟩
          | ok after => exact ⟨_, _, rfl⟩
      · left
        exact ⟨⟨w, rfl, hs, lt_of_not_ge he⟩, by simp [evaluate, if_neg he]⟩

theorem reserve_run (limits : QuotaAmounts) (workspace : ℕ) (requested : QuotaAmounts)
    (now : Instant) : (run (execute settings) (reserve limits workspace requested now) db).2 =
      settle db (withWorkspaces db
        (Workspaces.reserve limits workspace requested now db.workspaces)) := by
  simp only [Expiry.reserve, guarded, run, execute]
  rcases checkActive_passes settings.cleanupMaxAttempts workspace now db with
    ⟨⟨w, hw, ha⟩, hpass⟩ | ⟨hnone, e, t, hraise⟩
  · rw [hpass]
    simp only [outcome, useStatement, useQuota, Workspaces.reserve, requireActive, hw, fetch]
    cases hr : limits.reserve w.usage requested with
    | error reason => simp [demand, ha, hr, withWorkspaces, settle]
    | ok usage => simp [demand, ha, hr, withWorkspaces, settle, pure, Except.pure]
  · rw [hraise]
    have hrefused : ∃ reason,
        Workspaces.reserve limits workspace requested now db.workspaces = .error reason := by
      unfold Workspaces.reserve requireActive
      cases hw : lookup Workspace.id db.workspaces workspace with
      | none => exact ⟨_, rfl⟩
      | some w => exact ⟨.workspaceUnavailable, by simp [fetch, demand, hnone w hw]⟩
    obtain ⟨reason, hreason⟩ := hrefused
    rw [hreason]
    rfl

end Operations

/-- Over any operations, nested in transactions in any way: workspaces only move
forward, and a refusal for expiry is durable when it is made in the open. -/
structure Upheld (settings : Settings) (operations : List Operation) : Prop where
  forward : ∀ later,
    Forward (reached settings operations) (reached settings (operations ++ later))
  durable : ∀ p workspace after,
    run (execute settings) p (reached settings operations) =
      (some (.refused workspace (some .expired)), after) →
    (Durable after workspace ↔ Exposed (execute settings) p (reached settings operations))

theorem expiry_durable_iff (settings : Settings) (operations : List Operation) :
    Upheld settings operations where
  forward := by
    intro later
    unfold reached
    rw [List.foldl_append]
    exact (runs_forward (reached_keyed settings operations) later).2
  durable := fun _ _ _ h => refusal_durable_iff (reached_keyed settings operations) h

/-- A reservation finds the workspace expired: it is refused, and the workspace
is still active, with no cleanup asked for. -/
theorem reservation_undoes_revocation :
    run (execute ⟨⟨1000, 10, 10⟩, 3⟩) (reserve ⟨1000, 10, 10⟩ 0 oneActiveJob 62)
        (reached ⟨⟨1000, 10, 10⟩, 3⟩ [.statement (.create 61)]) =
      (some (.refused 0 (some .expired)),
        reached ⟨⟨1000, 10, 10⟩, 3⟩ [.statement (.create 61)]) ∧
    ¬Durable (reached ⟨⟨1000, 10, 10⟩, 3⟩ [.statement (.create 61)]) 0 := by
  constructor
  · decide +kernel
  · intro h
    obtain ⟨w, hw, _, hs⟩ := h.revoked
    have hone : (reached ⟨⟨1000, 10, 10⟩, 3⟩ [.statement (.create 61)]).workspaces =
        [⟨0, .active, 61, none, none, ⟨0, 0, 0⟩⟩] := by decide +kernel
    rw [hone] at hw
    rw [List.mem_singleton.mp hw] at hs
    cases hs

end Workbench.Expiry
