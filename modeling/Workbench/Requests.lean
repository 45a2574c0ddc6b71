import Workbench.Completions
import Workbench.ItemFates
import Workbench.CaseHealth

/-!
# Requested runs

A request freezes the manifest of a scope and enqueues its run in the same
transaction. The run of a manifest and the item of a run are both reused, in
whatever state they are.
-/

set_option autoImplicit false

namespace Workbench.Requests
open Workbench.Listing Workbench.Tables Workbench.Calendar Workbench.Workspaces Workbench.Jobs
open Workbench.Records Workbench.Json Workbench.Ingestion Workbench.JobRuns Workbench.Accounts
open Workbench.ItemFates
open Workbench.Runs Workbench.Publications Workbench.PublicationRuns
open Workbench.Raising (bind_ok ok_bind map_ok fetch demand_ok fetch_ok)

structure Settings where
  jobs : Jobs.Settings
  runMaxAttempts : ℕ

/-- The tables of the runs and of the jobs. The rows of a purged workspace stay
among the runs, where no request reads them. -/
structure State where
  audit : Store
  jobs : Database

def State.empty : State := ⟨Store.empty, Database.empty⟩

def State.sync (st : State) : State :=
  { st with audit := { st.audit with
      review := { st.audit.review with workspaces := st.jobs.workspaces } } }

inductive Failure where
  | run (failure : RunFailure)
  | job (failure : JobFailure)

structure FrozenRun where
  runId : ℕ
  manifest : Manifest
  inputCount : ℕ
  decisionCount : ℕ
  workItemId : ℕ

def itemOf (run : ℕ) (db : Database) : Option WorkItem :=
  db.items.find? (·.target = .reconciliationRun run)

/-- `create_run_manifest`, with its work item. -/
def createRunManifest (settings : Settings) (workspace scope : ℕ) (now clock : Instant)
    (st : State) : Except Failure (State × FrozenRun) := do
  let (audit, run) ← (Runs.createRunManifest workspace scope now st.audit).mapError .run
  let jobs ← (enqueue settings.jobs.limits workspace .reconciliationRun
    (.reconciliationRun run.id) settings.runMaxAttempts now clock st.jobs).mapError .job
  let item ← fetch (.job .doesNotExist) (itemOf run.id jobs)
  .ok (State.sync ⟨audit, jobs⟩, ⟨run.id, run.manifest, run.manifest.inputs.length,
    run.manifest.decisions.length, item.id⟩)

/-- One transaction. Runs are created, and their items enqueued, by requests
only; every other service may be called by any party at any time. -/
inductive Command where
  | request (workspace scope : ℕ) (now clock : Instant)
  | audit (c : PublicationRuns.Command)
      (other : ∀ workspace scope now, c ≠ .createRun workspace scope now)
  | jobs (c : Jobs.Command)
      (other : ∀ workspace kind run maxAttempts now clock,
        c ≠ .enqueue workspace kind (.reconciliationRun run) maxAttempts now clock)

def perform (sha : Sha256) (digest : Digest) (settings : Settings) (st : State) :
    Command → Except Failure State
  | .request workspace scope now clock =>
    (·.1) <$> createRunManifest settings workspace scope now clock st
  | .audit c _ => do
    let audit ← (PublicationRuns.perform sha digest st.audit c).mapError .run
    .ok (State.sync ⟨audit, st.jobs⟩)
  | .jobs c _ => do
    let jobs ← (Jobs.perform settings.jobs st.jobs c).mapError .job
    .ok (State.sync ⟨st.audit, jobs⟩)

def call (sha : Sha256) (digest : Digest) (settings : Settings) (st : State) (c : Command) :
    State :=
  settle st (perform sha digest settings st c)

def reached (sha : Sha256) (digest : Digest) (settings : Settings) (cs : List Command) : State :=
  cs.foldl (call sha digest settings) State.empty

theorem mapError_ok {ε ε' α : Type} {f : ε → ε'} {x : Except ε α} {a : α} :
    x.mapError f = .ok a ↔ x = .ok a := by
  cases x <;> simp [Except.mapError]

/-- The run that has the manifest a scope would freeze. -/
def asked (workspace scope : ℕ) (s : Store) : Except RunFailure (Option Run) := do
  let locked ← lockScope workspace scope s
  let manifest ← manifestOf workspace locked s
  .ok (s.runs.find? fun r => r.workspace = workspace && r.scope = scope && r.manifest = manifest)

section Requests
variable {workspace scope : ℕ} {now clock : Instant} {s t : Store} {r : Run}

theorem asked_mem (h : asked workspace scope s = .ok (some r)) :
    r ∈ s.runs ∧ r.workspace = workspace := by
  simp only [asked, bind_ok] at h
  obtain ⟨_, _, manifest, _, h⟩ := h
  have hfind := Except.ok.inj h
  have hp := List.find?_some hfind
  simp only [Bool.and_eq_true, decide_eq_true_eq] at hp
  exact ⟨List.mem_of_find?_eq_some hfind, hp.1.1⟩

theorem create_again (ha : requireActiveWorkspace workspace now s = .ok ())
    (h : asked workspace scope s = .ok (some r)) :
    Runs.createRunManifest workspace scope now s = .ok (s, r) := by
  simp only [asked, bind_ok] at h
  obtain ⟨locked, hl, manifest, hm, h⟩ := h
  simp only [Runs.createRunManifest, ha, hl, hm, ok_bind, Except.ok.inj h]

theorem create_ok (h : Runs.createRunManifest workspace scope now s = .ok (t, r)) :
    requireActiveWorkspace workspace now s = .ok () ∧
      (asked workspace scope s = .ok (some r) ∧ t = s ∨
        asked workspace scope s = .ok none ∧ t = { s with runs := s.runs ++ [r] } ∧
          r.id = s.runs.length ∧ r.workspace = workspace) := by
  simp only [Runs.createRunManifest, bind_ok] at h
  obtain ⟨_, ha, locked, hl, manifest, hm, h⟩ := h
  refine ⟨ha, ?_⟩
  have hasked : asked workspace scope s = .ok (s.runs.find? fun r =>
      r.workspace = workspace && r.scope = scope && r.manifest = manifest) := by
    simp only [asked, hl, hm, ok_bind]
  rw [hasked]
  split at h
  case h_1 existing he =>
    obtain ⟨rfl, rfl⟩ := Prod.mk.inj (Except.ok.inj h)
    exact .inl ⟨congrArg Except.ok he, rfl⟩
  case h_2 he =>
    simp only [bind_ok, demand_ok] at h
    obtain ⟨_, _, _, _, _, _, _, _, h⟩ := h
    obtain ⟨rfl, rfl⟩ := Prod.mk.inj (Except.ok.inj h)
    exact .inr ⟨congrArg Except.ok he, rfl, rfl, rfl⟩

theorem active_workspace (h : requireActiveWorkspace workspace now s = .ok ()) :
    ∃ w ∈ s.review.workspaces, w.id = workspace := by
  simp only [requireActiveWorkspace, bind_ok, fetch_ok] at h
  obtain ⟨w, hw, _⟩ := h
  exact ⟨w, mem_of_lookup hw, key_of_lookup hw⟩

end Requests

def OfRun (target : Target) : Prop := ∃ run, target = .reconciliationRun run

structure Linked (st : State) : Prop where
  valid : Valid st.jobs
  shared : st.audit.review.workspaces = st.jobs.workspaces
  known : ∀ w ∈ st.jobs.workspaces, w.id < st.jobs.serial
  runs : Numbered Run.id st.audit.runs
  drawn : ∀ r ∈ st.audit.runs, r.workspace < st.jobs.serial
  owned : ∀ i ∈ st.jobs.items, ∀ run, i.target = .reconciliationRun run →
    ∃ r ∈ st.audit.runs, r.id = run ∧ r.workspace = i.workspace
  single : ∀ i ∈ st.jobs.items, ∀ j ∈ st.jobs.items, ∀ run,
    i.target = .reconciliationRun run → j.target = .reconciliationRun run → i = j
  served : ∀ r ∈ st.audit.runs, (∃ w ∈ st.jobs.workspaces, w.id = r.workspace) →
    ∃ i ∈ st.jobs.items, i.target = .reconciliationRun r.id

theorem empty_linked : Linked State.empty where
  valid := empty_valid
  shared := rfl
  known := fun w hw => by cases hw
  runs := rfl
  drawn := fun r hr => by cases hr
  owned := fun i hi => by cases hi
  single := fun i hi => by cases hi
  served := fun r hr => by cases hr

structure Stepped (ends : ℕ → Prop) (st after : State) : Prop where
  linked : Linked after
  runs : st.audit.runs.length ≤ after.audit.runs.length
  items : ∀ j ∈ after.jobs.items, ∀ run, j.target = .reconciliationRun run →
    (∃ i ∈ st.jobs.items, i.target = .reconciliationRun run ∧
      (Waiting j ↔ Waiting i ∧ ¬ends run)) ∨ st.audit.runs.length ≤ run ∧ Waiting j

def owners (s : Store) : List (ℕ × ℕ) := s.runs.map fun r => (r.id, r.workspace)

section Every
variable {sha : Sha256} {digest : Digest} {settings : Settings} {st after : State} {s t : Store}

theorem Linked.run_eq (h : Linked st) {q r : Run} (hq : q ∈ st.audit.runs)
    (hr : r ∈ st.audit.runs) (he : q.id = r.id) : q = r :=
  eq_of_key_eq Run.id h.runs.nodup hq hr he

theorem revised_owners {run : ℕ} {f : Run → Run}
    (hf : ∀ r, (f r).id = r.id ∧ (f r).workspace = r.workspace)
    (h : t.runs = revise Run.id run f s.runs) : owners t = owners s := by
  unfold owners
  rw [h]
  unfold revise
  rw [List.map_map]
  apply List.map_congr_left
  intro r _
  by_cases hid : r.id = run
  · simp only [Function.comp, if_pos hid, hf]
  · simp only [Function.comp, if_neg hid]

theorem audit_owners {c : PublicationRuns.Command}
    (other : ∀ workspace scope now, c ≠ .createRun workspace scope now)
    (h : PublicationRuns.perform sha digest s c = .ok t) : owners t = owners s := by
  cases c with
  | review c => rw [← Except.ok.inj h]; rfl
  | inputs books datasets revisions policies => rw [← Except.ok.inj h]; rfl
  | createScope left right => rw [← Except.ok.inj h]; rfl
  | createRun workspace scope now => exact absurd rfl (other workspace scope now)
  | claim workspace run token =>
    simp only [PublicationRuns.perform, claimRun, bind_ok] at h
    obtain ⟨_, _, _, _, h⟩ := h
    obtain ⟨_, rfl⟩ := updateRun_ok h
    exact revised_owners (f := Run.claimed token) (fun _ => ⟨rfl, rfl⟩) rfl
  | fail workspace run token code =>
    simp only [PublicationRuns.perform, failRun] at h
    split at h
    case h_1 =>
      split at h
      case isTrue =>
        obtain ⟨_, rfl⟩ := updateRun_ok h
        exact revised_owners (f := Run.failedWith code) (fun _ => ⟨rfl, rfl⟩) rfl
      case isFalse => rw [← Except.ok.inj h]
    case h_2 => rw [← Except.ok.inj h]
  | publish workspace run p =>
    obtain ⟨r, locked, rows, snapshots, occurrences, _, _, _, hp⟩ := publishRun_ok h
    have hkept : ∀ q : Run, (Run.completedWith (isFresh locked r s) p.resultDigest p.result p.clock
        q).id = q.id ∧ (Run.completedWith (isFresh locked r s) p.resultDigest p.result p.clock
        q).workspace = q.workspace := fun _ => ⟨rfl, rfl⟩
    exact revised_owners hkept hp.runs

theorem mem_owners (h : owners t = owners s) {r : Run} (hr : r ∈ s.runs) :
    ∃ q ∈ t.runs, q.id = r.id ∧ q.workspace = r.workspace := by
  have hm : (r.id, r.workspace) ∈ owners s := List.mem_map_of_mem hr
  rw [← h] at hm
  obtain ⟨q, hq, he⟩ := List.mem_map.mp hm
  obtain ⟨hid, hw⟩ := Prod.mk.inj he
  exact ⟨q, hq, hid, hw⟩

theorem owners_length (h : owners t = owners s) : t.runs.length = s.runs.length := by
  have hl := congrArg List.length h
  unfold owners at hl
  rwa [List.length_map, List.length_map] at hl

theorem audit_stepped (h : Linked st) {audit : Store} (ho : owners audit = owners st.audit) :
    Stepped (fun _ => False) st (State.sync ⟨audit, st.jobs⟩) where
  linked := by
    have hids : audit.runs.map Run.id = st.audit.runs.map Run.id := by
      have hm := congrArg (List.map Prod.fst) ho
      unfold owners at hm
      rwa [List.map_map, List.map_map] at hm
    refine ⟨h.valid, rfl, h.known, ?_, ?_, ?_, h.single, ?_⟩
    · show audit.runs.map Run.id = List.range audit.runs.length
      rw [hids, owners_length ho]
      exact h.runs
    · intro r hr
      obtain ⟨q, hq, _, hw⟩ := mem_owners ho.symm hr
      exact hw ▸ h.drawn q hq
    · intro i hi run ht
      obtain ⟨r, hr, hid, hw⟩ := h.owned i hi run ht
      obtain ⟨q, hq, hqid, hqw⟩ := mem_owners ho hr
      exact ⟨q, hq, hqid.trans hid, hqw.trans hw⟩
    · intro r hr hw
      obtain ⟨q, hq, hid, hqw⟩ := mem_owners ho.symm hr
      rw [← hqw] at hw
      exact hid ▸ h.served q hq hw
  runs := Nat.le_of_eq (owners_length ho).symm
  items := fun j hj run ht => .inl ⟨j, hj, ht, by simp⟩

theorem same_stepped (h : Linked st) : Stepped (fun _ => False) st st where
  linked := h
  runs := Nat.le_refl _
  items := fun j hj run ht => .inl ⟨j, hj, ht, by simp⟩

/-- Whether a step ends the item of a run: a completion call that goes through
and names the item's current attempt. -/
def EndsWork (settings : Settings) (st : State) (c : Command) (run : ℕ) : Prop :=
  match c with
  | .jobs c _ => (∃ i ∈ st.jobs.items, i.target = .reconciliationRun run ∧ fate c i ≠ none) ∧
      ∃ after, Jobs.perform settings.jobs st.jobs c = .ok after
  | _ => False

theorem jobs_stepped (h : Linked st) {c : Jobs.Command}
    (other : ∀ workspace kind run maxAttempts now clock,
      c ≠ .enqueue workspace kind (.reconciliationRun run) maxAttempts now clock)
    {jobs : Database} (hp : Jobs.perform settings.jobs st.jobs c = .ok jobs) :
    Stepped (EndsWork settings st (.jobs c other)) st (State.sync ⟨st.audit, jobs⟩) := by
  have hother : ∀ workspace kind target maxAttempts now clock,
      c = .enqueue workspace kind target maxAttempts now clock → ¬OfRun target := by
    intro workspace kind target maxAttempts now clock he ht
    obtain ⟨run, rfl⟩ := ht
    exact other workspace kind run maxAttempts now clock he
  have hcleanup : ∀ id, ¬OfRun (.cleanupRequest id) := by
    intro id ht
    obtain ⟨run, ht⟩ := ht
    cases ht
  have hf : Followed OfRun (fate c) st.jobs jobs :=
    perform_followed h.valid hcleanup hother hp
  have hvalid : Valid jobs := moves_valid h.valid (perform_moves h.valid (allows_any _ c) hp)
  have hends : ∀ i ∈ st.jobs.items, ∀ run, i.target = .reconciliationRun run →
      (EndsWork settings st (.jobs c other) run ↔ fate c i ≠ none) := by
    intro i hi run ht
    constructor
    · intro he
      obtain ⟨⟨k, hk, hkt, hke⟩, _⟩ := he
      exact h.single k hk i hi run hkt ht ▸ hke
    · exact fun he => ⟨⟨i, hi, ht, he⟩, jobs, hp⟩
  refine ⟨⟨hvalid, rfl, ?_, h.runs, ?_, ?_, ?_, ?_⟩, Nat.le_refl _, ?_⟩
  · intro w hw
    rcases hf.workspaces w hw with ⟨v, hv, hid⟩ | ⟨_, hlt⟩
    · exact hid ▸ Nat.lt_of_lt_of_le (h.known v hv) hf.serial
    · exact hlt
  · exact fun r hr => Nat.lt_of_lt_of_le (h.drawn r hr) hf.serial
  · intro j hj run ht
    obtain ⟨i, hi, hc⟩ := hf.back j hj ⟨run, ht⟩
    exact hc.workspace ▸ h.owned i hi run (hc.target ▸ ht)
  · intro j hj j' hj' run ht ht'
    obtain ⟨i, hi, hc⟩ := hf.back j hj ⟨run, ht⟩
    obtain ⟨i', hi', hc'⟩ := hf.back j' hj' ⟨run, ht'⟩
    have he := h.single i hi i' hi' run (hc.target ▸ ht) (hc'.target ▸ ht')
    exact hvalid.item_eq hj hj' (by rw [hc.id, hc'.id, he])
  · intro r hr hw
    obtain ⟨w, hw, hid⟩ := hw
    have hold : ∃ v ∈ st.jobs.workspaces, v.id = r.workspace := by
      rcases hf.workspaces w hw with ⟨v, hv, hvid⟩ | ⟨hge, _⟩
      · exact ⟨v, hv, hvid.trans hid⟩
      · have := h.drawn r hr
        omega
    obtain ⟨i, hi, ht⟩ := h.served r hr hold
    obtain ⟨q, hq, hqid, hqw⟩ := h.owned i hi r.id ht
    obtain rfl := h.run_eq hq hr hqid
    obtain ⟨j, hj, htarget⟩ := hf.kept i hi ⟨w, hw, hid.trans hqw⟩
    exact ⟨j, hj, htarget.trans ht⟩
  · intro j hj run ht
    obtain ⟨i, hi, hc⟩ := hf.back j hj ⟨run, ht⟩
    refine .inl ⟨i, hi, hc.target ▸ ht, ?_⟩
    rw [hc.waiting, hends i hi run (hc.target ▸ ht), not_not]

inductive Requested (workspace scope : ℕ) (now : Instant) (st : State) : State → FrozenRun → Prop
  | again {r : Run} {frozen : FrozenRun} (asked : asked workspace scope st.audit = .ok (some r))
      (id : frozen.runId = r.id) : Requested workspace scope now st st frozen
  | created {r : Run} {after : State} {frozen : FrozenRun} (item : WorkItem)
      (fresh : asked workspace scope st.audit = .ok none) (id : frozen.runId = r.id)
      (number : r.id = st.audit.runs.length) (runs : after.audit.runs = st.audit.runs ++ [r])
      (items : after.jobs.items = st.jobs.items ++ [item]) (stepped : Stepped (fun _ => False) st after)
      (target : item.target = .reconciliationRun r.id) (ready : item.state = .ready) :
      Requested workspace scope now st after frozen

theorem Linked.item_of (h : Linked st) {r : Run} (hr : r ∈ st.audit.runs)
    (hw : ∃ w ∈ st.audit.review.workspaces, w.id = r.workspace) :
    ∃ i ∈ st.jobs.items, i.target = .reconciliationRun r.id ∧
      st.jobs.items.find? (·.target = .reconciliationRun r.id) = some i := by
  rw [h.shared] at hw
  obtain ⟨i, hi, ht⟩ := h.served r hr hw
  cases hfind : st.jobs.items.find? (·.target = .reconciliationRun r.id) with
  | none =>
    have := List.find?_eq_none.mp hfind i hi
    simp [ht] at this
  | some k =>
    have hk := List.find?_some hfind
    exact ⟨k, List.mem_of_find?_eq_some hfind, by simpa using hk, rfl⟩

theorem Linked.unserved (h : Linked st) :
    st.jobs.items.find? (·.target = .reconciliationRun st.audit.runs.length) = none := by
  apply List.find?_eq_none.mpr
  intro i hi ht
  obtain ⟨r, hr, hid, _⟩ := h.owned i hi _ (by simpa using ht)
  have := h.runs.lt hr
  omega

variable {workspace scope : ℕ} {now clock : Instant} {frozen : FrozenRun}

theorem created_stepped (h : Linked st) {r : Run} (hid : r.id = st.audit.runs.length)
    (hw : ∃ w ∈ st.jobs.workspaces, w.id = r.workspace) {item : WorkItem} {usage : QuotaAmounts}
    (ht : item.target = .reconciliationRun r.id)
    (hworkspace : item.workspace = r.workspace) (hready : item.state = .ready)
    (hvalid : Valid ⟨setUsage r.workspace usage st.jobs.workspaces, st.jobs.cleanups,
      st.jobs.items ++ [item], st.jobs.attempts, st.jobs.serial+1⟩) :
    Stepped (fun _ => False) st (State.sync ⟨{ st.audit with runs := st.audit.runs ++ [r] },
      ⟨setUsage r.workspace usage st.jobs.workspaces, st.jobs.cleanups,
        st.jobs.items ++ [item], st.jobs.attempts, st.jobs.serial+1⟩⟩) := by
  have hold : ∀ i ∈ st.jobs.items, i.target ≠ .reconciliationRun r.id := by
    intro i him htarget
    have := List.find?_eq_none.mp h.unserved i him
    rw [hid] at htarget
    simp [htarget] at this
  have hknown : ∀ w ∈ setUsage r.workspace usage st.jobs.workspaces,
      ∃ v ∈ st.jobs.workspaces, v.id = w.id := by
    intro w hm
    obtain ⟨v, hv, he, _⟩ := mem_setUsage hm
    exact ⟨v, hv, he.symm⟩
  obtain ⟨w, hw, hwid⟩ := hw
  refine ⟨⟨hvalid, rfl, ?_, h.runs.concat hid, ?_, ?_, ?_, ?_⟩, ?_, ?_⟩
  · intro y hy
    obtain ⟨v, hv, he⟩ := hknown y hy
    exact he ▸ Nat.lt_succ_of_lt (h.known v hv)
  · intro q hq
    rcases List.mem_append.mp hq with hq | hq
    · exact Nat.lt_succ_of_lt (h.drawn q hq)
    · rw [List.mem_singleton.mp hq, ← hwid]
      exact Nat.lt_succ_of_lt (h.known w hw)
  · intro i him run htarget
    rcases List.mem_append.mp him with him | him
    · obtain ⟨q, hq, he⟩ := h.owned i him run htarget
      exact ⟨q, List.mem_append_left _ hq, he⟩
    · rw [List.mem_singleton.mp him] at htarget ⊢
      refine ⟨r, List.mem_append_right _ (List.mem_singleton_self r), ?_, hworkspace.symm⟩
      rw [ht] at htarget
      cases htarget
      rfl
  · intro i him j hjm run hit hjt
    rcases List.mem_append.mp him with him | him <;> rcases List.mem_append.mp hjm with hjm | hjm
    · exact h.single i him j hjm run hit hjt
    · rw [List.mem_singleton.mp hjm, ht] at hjt
      exact absurd (hit.trans hjt.symm) (hold i him)
    · rw [List.mem_singleton.mp him, ht] at hit
      exact absurd (hjt.trans hit.symm) (hold j hjm)
    · rw [List.mem_singleton.mp him, List.mem_singleton.mp hjm]
  · intro q hq hqw
    obtain ⟨y, hy, hyid⟩ := hqw
    rcases List.mem_append.mp hq with hq | hq
    · obtain ⟨v, hv, he⟩ := hknown y hy
      obtain ⟨i, him, he⟩ := h.served q hq ⟨v, hv, he.trans hyid⟩
      exact ⟨i, List.mem_append_left _ him, he⟩
    · refine ⟨item, List.mem_append_right _ (List.mem_singleton_self item), ?_⟩
      rw [List.mem_singleton.mp hq, ht]
  · show st.audit.runs.length ≤ (st.audit.runs ++ [r]).length
    simp
  · intro j hj run htarget
    rcases List.mem_append.mp hj with hj | hj
    · exact .inl ⟨j, hj, htarget, by simp⟩
    · right
      rw [List.mem_singleton.mp hj] at htarget ⊢
      rw [ht] at htarget
      cases htarget
      exact ⟨Nat.le_of_eq hid.symm, .inl hready⟩

theorem request_ok (h : Linked st)
    (hr : createRunManifest settings workspace scope now clock st = .ok (after, frozen)) :
    requireActiveWorkspace workspace now st.audit = .ok () ∧
      Requested workspace scope now st after frozen := by
  simp only [createRunManifest, bind_ok, fetch_ok, mapError_ok] at hr
  obtain ⟨⟨audit, r⟩, hc, jobs, he, item, hitem, hr⟩ := hr
  obtain ⟨rfl, rfl⟩ := Prod.mk.inj (Except.ok.inj hr)
  obtain ⟨hactive, ⟨hasked, rfl⟩ | ⟨hasked, rfl, hid, hw⟩⟩ := create_ok hc
  · refine ⟨hactive, ?_⟩
    have hmem := asked_mem hasked
    obtain ⟨i, _, _, hfind⟩ := h.item_of hmem.1 (hmem.2 ▸ active_workspace hactive)
    simp only [enqueue, hfind] at he
    obtain rfl := Except.ok.inj he
    have hself : State.sync ⟨st.audit, st.jobs⟩ = st := by
      unfold State.sync
      rw [← h.shared]
    rw [hself]
    exact .again hasked rfl
  · refine ⟨hactive, ?_⟩
    have hunserved := h.unserved
    rw [← hid] at hunserved
    have hmoves : Moves (fun _ _ => True) (fun _ => True) (fun _ => True) st.jobs jobs :=
      enqueue_moves he
    simp only [enqueue, hunserved, bind_ok] at he
    obtain ⟨db₁, h₁, he⟩ := he
    obtain ⟨rows, hreserve, rfl⟩ := withWorkspaces_ok h₁
    obtain ⟨w, hwm, hwid, _, _, rfl⟩ := reserve_spec hreserve
    obtain ⟨_, rfl⟩ := addItem_ok he
    have hvalid := moves_valid h.valid hmoves
    subst hw
    exact .created _ hasked rfl hid rfl rfl
      (created_stepped h hid ⟨w, hwm, hwid⟩ rfl rfl rfl hvalid) rfl rfl

theorem call_stepped (h : Linked st) (c : Command) :
    Stepped (EndsWork settings st c) st (call sha digest settings st c) := by
  cases hp : perform sha digest settings st c with
  | error e =>
    have hsame : call sha digest settings st c = st := by
      unfold call
      rw [hp]
      rfl
    rw [hsame]
    refine ⟨h, Nat.le_refl _, fun j hj run ht => .inl ⟨j, hj, ht, ?_⟩⟩
    have hno : ¬EndsWork settings st c run := by
      cases c with
      | request workspace scope now clock => exact not_false
      | audit c other => exact not_false
      | jobs c other =>
        intro he
        obtain ⟨_, jobs, hj⟩ := he
        simp [perform, hj, Except.mapError] at hp
    simp [hno]
  | ok next =>
    have hnext : call sha digest settings st c = next := by
      unfold call
      rw [hp]
      rfl
    rw [hnext]
    cases c with
    | request workspace scope now clock =>
      obtain ⟨⟨_, frozen⟩, hr, rfl⟩ := map_ok.mp hp
      cases (request_ok h hr).2 with
      | again asked id => exact same_stepped h
      | created item fresh id number runs items stepped target ready => exact stepped
    | audit c other =>
      simp only [perform, bind_ok, mapError_ok] at hp
      obtain ⟨audit, ha, hp⟩ := hp
      rw [← Except.ok.inj hp]
      exact audit_stepped h (audit_owners other ha)
    | jobs c other =>
      simp only [perform, bind_ok, mapError_ok] at hp
      obtain ⟨jobs, hj, hp⟩ := hp
      rw [← Except.ok.inj hp]
      exact jobs_stepped h other hj

def Recorded (sha : Sha256) (digest : Digest) (settings : Settings) (cs : List Command) : Prop :=
  (∀ i ∈ (reached sha digest settings cs).jobs.items, ∀ run, i.target = .reconciliationRun run →
    (Waiting i ↔ Along (call sha digest settings) (fun st c => ¬EndsWork settings st c run)
      State.empty cs)) ∧
    ∀ run, (reached sha digest settings cs).audit.runs.length ≤ run →
      Along (call sha digest settings) (fun st c => ¬EndsWork settings st c run) State.empty cs

theorem unknown_continues (h : Linked st) {run : ℕ} (hr : st.audit.runs.length ≤ run)
    (c : Command) : ¬EndsWork settings st c run := by
  cases c with
  | request workspace scope now clock => exact not_false
  | audit c other => exact not_false
  | jobs c other =>
    intro he
    obtain ⟨⟨i, hi, ht, _⟩, _⟩ := he
    obtain ⟨r, hm, hid, _⟩ := h.owned i hi run ht
    have := h.runs.lt hm
    omega

theorem reached_recorded (cs : List Command) :
    Linked (reached sha digest settings cs) ∧ Recorded sha digest settings cs := by
  induction cs using List.reverseRecOn with
  | nil =>
    refine ⟨empty_linked, ⟨?_, fun _ _ => trivial⟩⟩
    intro i hi
    cases hi
  | append_singleton cs c ih =>
    obtain ⟨hlinked, hitems, hruns⟩ := ih
    have hstep : Stepped (EndsWork settings (reached sha digest settings cs) c)
        (reached sha digest settings cs) (reached sha digest settings (cs ++ [c])) := by
      have hnext : reached sha digest settings (cs ++ [c]) =
          call sha digest settings (reached sha digest settings cs) c := by
        unfold reached
        rw [List.foldl_append]
        rfl
      rw [hnext]
      exact call_stepped hlinked c
    have halong : ∀ run, Along (call sha digest settings)
        (fun st c => ¬EndsWork settings st c run) State.empty (cs ++ [c]) ↔
          Along (call sha digest settings) (fun st c => ¬EndsWork settings st c run)
            State.empty cs ∧ ¬EndsWork settings (reached sha digest settings cs) c run := by
      intro run
      rw [along_append]
      exact and_congr_right fun _ => and_iff_left trivial
    refine ⟨hstep.linked, ?_, ?_⟩
    · intro j hj run ht
      rw [halong run]
      rcases hstep.items j hj run ht with ⟨i, hi, hit, hw⟩ | ⟨hle, hw⟩
      · rw [hw, hitems i hi run hit]
      · exact iff_of_true hw ⟨hruns run hle, unknown_continues hlinked hle c⟩
    · intro run hle
      have hbefore := Nat.le_trans hstep.runs hle
      exact (halong run).mpr ⟨hruns run hbefore, unknown_continues hlinked hbefore c⟩

/-- Whether some worker can claim the item of a run, now or once its lease has
run out. -/
def HasWork (db : Database) (run : ℕ) : Prop :=
  ∃ i ∈ db.items, i.target = .reconciliationRun run ∧ Waiting i

/-- What a request promises: a run it returns is completed or has work. -/
def Serves (settings : Settings) (st : State) (workspace scope : ℕ) (now clock : Instant) : Prop :=
  ∀ after frozen, createRunManifest settings workspace scope now clock st = .ok (after, frozen) →
    ∀ r ∈ after.audit.runs, r.id = frozen.runId → r.lifecycle ≠ .completed →
      HasWork after.jobs r.id

end Every

/-- After any interleaving of requests, claims, executions, completions and
lifecycle services, a request leaves its run completed or with work to claim
exactly when no completion call has ended the item of the run it asks for again,
or that run is completed. -/
theorem request_serves_iff (sha : Sha256) (digest : Digest) (settings : Settings)
    (cs : List Command) (workspace scope : ℕ) (now clock : Instant) :
    Serves settings (reached sha digest settings cs) workspace scope now clock ↔
      ∀ r, requireActiveWorkspace workspace now (reached sha digest settings cs).audit = .ok () →
        asked workspace scope (reached sha digest settings cs).audit = .ok (some r) →
          r.lifecycle ≠ .completed → Along (call sha digest settings)
            (fun st c => ¬EndsWork settings st c r.id) State.empty cs := by
  obtain ⟨hlinked, hitems, _⟩ := @reached_recorded sha digest settings cs
  constructor
  · intro h r hactive hasked hopen
    have hmem := asked_mem hasked
    obtain ⟨i, hi, ht, hfind⟩ := hlinked.item_of hmem.1 (hmem.2 ▸ active_workspace hactive)
    have hcreate := create_again hactive hasked
    have henqueue : enqueue settings.jobs.limits workspace .reconciliationRun
        (.reconciliationRun r.id) settings.runMaxAttempts now clock
        (reached sha digest settings cs).jobs = .ok (reached sha digest settings cs).jobs := by
      simp only [enqueue, hfind]
    have hreq : createRunManifest settings workspace scope now clock
        (reached sha digest settings cs) = .ok (State.sync (reached sha digest settings cs),
          ⟨r.id, r.manifest, r.manifest.inputs.length, r.manifest.decisions.length, i.id⟩) := by
      simp only [createRunManifest, hcreate, henqueue, itemOf, hfind, fetch, Except.mapError,
        ok_bind]
    obtain ⟨j, hj, hjt, hw⟩ := h _ _ hreq r hmem.1 rfl hopen
    exact (hitems j hj r.id hjt).mp hw
  · intro h after frozen hreq r hr hid hopen
    obtain ⟨hactive, hreq⟩ := request_ok hlinked hreq
    cases hreq with
    | @again existing _ hasked hfrozen =>
      have hmem := asked_mem hasked
      obtain rfl := hlinked.run_eq hr hmem.1 (hid.trans hfrozen)
      obtain ⟨i, hi, ht, _⟩ := hlinked.item_of hmem.1 (hmem.2 ▸ active_workspace hactive)
      exact ⟨i, hi, ht, (hitems i hi r.id ht).mpr (h r hactive hasked hopen)⟩
    | created item fresh hfrozen number runs items stepped target ready =>
      refine ⟨item, items ▸ List.mem_append_right _ (List.mem_singleton_self item), ?_, .inl ready⟩
      rw [target, hid, hfrozen]

def sampleSettings : Settings := ⟨⟨⟨1000, 10, 10⟩, 3⟩, 3⟩

def failedRun : List Command :=
  [.jobs (.createWorkspace 1000) (by simp),
    .audit (.review (.elsewhere [] [⟨1, 0, 0⟩] [⟨0, 0, 1, true, 0⟩] [] [])) (by simp),
    .audit (.inputs [⟨1, 0⟩] [⟨0, 0, 1, some 0⟩, ⟨1, 0, 1, some 1⟩] [⟨0, 0, []⟩, ⟨1, 1, []⟩]
      [⟨0, 0, 1, 1, "p", "e", "s", .sharedMustAgree⟩]) (by simp),
    .audit (.createScope 0 1) (by simp),
    .request 0 0 10 10,
    .jobs (.claim (.one 1) 20 60 []) (by simp),
    .audit (.claim 0 0 (some 2)) (by simp),
    .audit (.fail 0 0 (some 2) "RunResultMismatch") (by simp),
    .jobs (.markFailed 2 .failed .permanent 30 30) (by simp)]

def afterFailure : State :=
  reached CaseHealth.constantSha Json.checksum sampleSettings failedRun

/-- Asking again returns the failed run with its failed item, which no claim takes. -/
theorem failed_run_unserved : ¬Serves sampleSettings afterFailure 0 0 40 40 := by
  have hrun : ((createRunManifest sampleSettings 0 0 40 40 afterFailure).toOption.map fun x =>
      (x.2.runId, x.1.audit.runs.map fun r => (r.id, r.lifecycle),
        x.1.jobs.items.map fun i => (i.target, i.state))) =
      some (0, [(0, .failed)], [(.reconciliationRun 0, .failed)]) := by decide +kernel
  intro h
  cases hreq : createRunManifest sampleSettings 0 0 40 40 afterFailure with
  | error e =>
    rw [hreq] at hrun
    cases hrun
  | ok x =>
    obtain ⟨after, frozen⟩ := x
    rw [hreq] at hrun
    simp only [Except.toOption, Option.map_some, Option.some.injEq, Prod.mk.injEq] at hrun
    obtain ⟨hid, hruns, hitems⟩ := hrun
    have hr : (0, RunLifecycle.failed) ∈ after.audit.runs.map fun r => (r.id, r.lifecycle) := by
      rw [hruns]
      exact List.mem_singleton_self _
    obtain ⟨r, hr, he⟩ := List.mem_map.mp hr
    obtain ⟨hrid, hfailed⟩ := Prod.mk.inj he
    obtain ⟨i, hi, ht, hw⟩ := h after frozen hreq r hr (hrid.trans hid.symm) (by simp [hfailed])
    have him := List.mem_map_of_mem (f := fun i : WorkItem => (i.target, i.state)) hi
    rw [hitems] at him
    obtain ⟨_, hstate⟩ := Prod.mk.inj (List.mem_singleton.mp him)
    rcases hw with hw | hw <;> rw [hw] at hstate <;> cases hstate

end Workbench.Requests
