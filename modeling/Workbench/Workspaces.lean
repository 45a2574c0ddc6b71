import Workbench.Tables
import Workbench.Calendar

/-!
# Workspaces and their quota

A workspace grants access while it is active and not yet expired. Its usage
counters are reserved against limits and released again, both only while
access is granted.
-/

set_option autoImplicit false

namespace Workbench.Workspaces
open Workbench.Listing Workbench.Tables Workbench.Calendar
open Workbench.Raising (bind_ok demand fetch demand_ok fetch_ok)

inductive WorkspaceState where
  | active
  | revoked
  | deleted
deriving DecidableEq, Repr

inductive WorkspaceAccessFailure where
  | expired
  | revoked
  | deleted
deriving DecidableEq

structure WorkspaceLifecycleResult where
  state : WorkspaceState
  accessAllowed : Bool
  failure : Option WorkspaceAccessFailure
  requiresRevocation : Bool

/-- `ExpiryPolicy.evaluate`. -/
def evaluate (state : WorkspaceState) (expiresAt now : Instant) : WorkspaceLifecycleResult :=
  match state with
  | .deleted => ⟨state, false, some .deleted, false⟩
  | .revoked => ⟨state, false, some .revoked, false⟩
  | .active =>
    if expiresAt ≤ now then ⟨.revoked, false, some .expired, true⟩
    else ⟨.active, true, none, false⟩

inductive QuotaResource where
  | retainedBytes
  | books
  | activeJobs
deriving DecidableEq

structure QuotaAmounts where
  retainedBytes : ℕ
  books : ℕ
  activeJobs : ℕ
deriving DecidableEq

def QuotaAmounts.plus (a b : QuotaAmounts) : QuotaAmounts :=
  ⟨a.retainedBytes+b.retainedBytes, a.books+b.books, a.activeJobs+b.activeJobs⟩

def QuotaAmounts.covers (a b : QuotaAmounts) : Prop :=
  b.retainedBytes ≤ a.retainedBytes ∧ b.books ≤ a.books ∧ b.activeJobs ≤ a.activeJobs

instance (a b : QuotaAmounts) : Decidable (a.covers b) :=
  inferInstanceAs (Decidable (_ ∧ _ ∧ _))

def QuotaAmounts.minus (a b : QuotaAmounts) : QuotaAmounts :=
  ⟨a.retainedBytes-b.retainedBytes, a.books-b.books, a.activeJobs-b.activeJobs⟩

inductive Refusal where
  | workspaceUnavailable
  | quotaExceeded (resource : QuotaResource) (current requested limit : ℕ)
  | quotaReleaseConflict
deriving DecidableEq

/-- `QuotaPolicy.reserve`: the first limit passed is the one named. -/
def QuotaAmounts.reserve (limits usage requested : QuotaAmounts) :
    Except Refusal QuotaAmounts := do
  let resulting := usage.plus requested
  demand (resulting.retainedBytes ≤ limits.retainedBytes) (.quotaExceeded .retainedBytes
    usage.retainedBytes requested.retainedBytes limits.retainedBytes)
  demand (resulting.books ≤ limits.books)
    (.quotaExceeded .books usage.books requested.books limits.books)
  demand (resulting.activeJobs ≤ limits.activeJobs)
    (.quotaExceeded .activeJobs usage.activeJobs requested.activeJobs limits.activeJobs)
  return resulting

structure Workspace where
  id : ℕ
  state : WorkspaceState
  expiresAt : Instant
  revokedAt : Option Instant
  deletedAt : Option Instant
  usage : QuotaAmounts
deriving DecidableEq

def Workspace.accessAllowed (w : Workspace) (now : Instant) : Prop :=
  (evaluate w.state w.expiresAt now).accessAllowed = true

instance (w : Workspace) (now : Instant) : Decidable (w.accessAllowed now) :=
  inferInstanceAs (Decidable (_ = true))

theorem accessAllowed_iff (w : Workspace) (now : Instant) :
    w.accessAllowed now ↔ w.state = .active ∧ now < w.expiresAt := by
  unfold Workspace.accessAllowed evaluate
  cases w.state with
  | active => by_cases h : w.expiresAt ≤ now <;> simp [h, not_lt.mpr, lt_of_not_ge]
  | revoked => simp
  | deleted => simp

/-- `WorkspaceLifecycleService.require_active`. The revocation of an expired
workspace is made in the transaction that the raise then rolls back. -/
def requireActive (w : Workspace) (now : Instant) : Except Refusal Unit :=
  demand (w.accessAllowed now) .workspaceUnavailable

def setUsage (id : ℕ) (usage : QuotaAmounts) (workspaces : List Workspace) : List Workspace :=
  revise Workspace.id id (fun w => { w with usage := usage }) workspaces

def reserve (limits : QuotaAmounts) (id : ℕ) (requested : QuotaAmounts) (clock : Instant)
    (workspaces : List Workspace) : Except Refusal (List Workspace) := do
  let w ← fetch .workspaceUnavailable (lookup Workspace.id workspaces id)
  requireActive w clock
  let resulting ← limits.reserve w.usage requested
  return setUsage id resulting workspaces

def release (id : ℕ) (released : QuotaAmounts) (clock : Instant) (workspaces : List Workspace) :
    Except Refusal (List Workspace) := do
  let w ← fetch .workspaceUnavailable (lookup Workspace.id workspaces id)
  requireActive w clock
  demand (w.usage.covers released) .quotaReleaseConflict
  return setUsage id (w.usage.minus released) workspaces

/-- When `WorkspaceQuotaService.release` goes through. -/
def Releasable (id : ℕ) (released : QuotaAmounts) (clock : Instant)
    (workspaces : List Workspace) : Prop :=
  ∃ w, lookup Workspace.id workspaces id = some w ∧ w.accessAllowed clock ∧
    w.usage.covers released

theorem release_ok {id : ℕ} {released : QuotaAmounts} {clock : Instant}
    {workspaces after : List Workspace} (h : release id released clock workspaces = .ok after) :
    Releasable id released clock workspaces ∧
      ∃ usage, after = setUsage id usage workspaces := by
  simp only [release, requireActive, bind_ok, fetch_ok, demand_ok] at h
  obtain ⟨w, hw, _, ha, _, hc, hr⟩ := h
  exact ⟨⟨w, hw, ha, hc⟩, _, (Except.ok.inj hr).symm⟩

theorem release_total {id : ℕ} {released : QuotaAmounts} {clock : Instant}
    {workspaces : List Workspace} (h : Releasable id released clock workspaces) :
    ∃ after, release id released clock workspaces = .ok after := by
  obtain ⟨w, hw, ha, hc⟩ := h
  simp [release, requireActive, demand, fetch, hw, ha, hc, pure, Except.pure]

theorem ids_setUsage (id : ℕ) (usage : QuotaAmounts) (workspaces : List Workspace) :
    (setUsage id usage workspaces).map Workspace.id = workspaces.map Workspace.id :=
  keys_revise (f := fun w => { w with usage := usage }) (fun _ => rfl) id workspaces

/-- `WorkspaceLifecycleService._revoke` on the row of the workspace. -/
def Workspace.revoke (final : WorkspaceState) (now : Instant) (w : Workspace) : Workspace :=
  match final with
  | .deleted =>
    { w with
      state := .deleted
      revokedAt := w.revokedAt.orElse fun _ => some now
      deletedAt := w.deletedAt.orElse fun _ => some now }
  | _ => if w.state = .active then { w with state := .revoked, revokedAt := some now } else w

@[simp] theorem Workspace.revoke_id (final : WorkspaceState) (now : Instant) (w : Workspace) :
    (w.revoke final now).id = w.id := by
  unfold Workspace.revoke
  split
  · rfl
  · split_ifs <;> rfl

end Workbench.Workspaces
