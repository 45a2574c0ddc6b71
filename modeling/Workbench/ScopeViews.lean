import Workbench.DoubleRejection
import Workbench.PublicationRuns

/-!
# What a scope shows

The projections of a scope are those of the occurrences of its current run, and
its health rows those of the decisions frozen into that run. Only a publication
that is current replaces them, and only those of its own scope.
-/

set_option autoImplicit false

namespace Workbench.ScopeViews
open Workbench.Listing Workbench.Tables Workbench.Calendar Workbench.Records Workbench.Evidence
open Workbench.Json Workbench.Ingestion Workbench.Review Workbench.Upserts Workbench.Runs
open Workbench.Publications Workbench.PublicationFrames Workbench.PublicationRuns
open Workbench.Decisions (DecisionRevision)
open Workbench.Raising (bind_ok map_ok demand_ok fetch_ok)

def ProjectionsOf (s : Store) (scope : ℕ) (r : Run) : Prop :=
  ((s.projections.filter fun p => p.scope = scope).map
      fun p => (p.currentOccurrence, p.case, p.run)).Perm
    ((occurrencesOf s r.id).map fun o => (o.id, o.case, r.id))

def HealthOf (s : Store) (scope : ℕ) (r : Run) : Prop :=
  ((s.health.filter fun h => h.scope = scope).map
      fun h => (h.decision, h.decisionRevision, h.run)).Perm
    (r.manifest.decisions.map fun d => (d.decision, d.id, r.id))

def Shown (s : Store) (c : ScopeData) : Prop :=
  match c.currentRun with
  | none => (∀ p ∈ s.projections, p.scope ≠ c.id) ∧ ∀ h ∈ s.health, h.scope ≠ c.id
  | some run => ∃ r ∈ s.runs, r.id = run ∧ r.scope = c.id ∧ r.lifecycle = .completed ∧
      ProjectionsOf s c.id r ∧ HealthOf s c.id r

structure Frozen (r : Run) : Prop where
  shape : r.Shape
  logicals : (r.manifest.inputs.map fun i => i.logicalTransaction).Nodup
  observations : (r.manifest.inputs.map fun i => i.observation).Nodup
  decisions : (r.manifest.decisions.map (·.decision)).Nodup
  revisions : (r.manifest.decisions.map (·.id)).Nodup

structure Sound (digest : Digest) (s : Store) : Prop where
  consistent : DecisionStore.Consistent s.review
  runs : Numbered Run.id s.runs
  frozen : ∀ r ∈ s.runs, Frozen r
  scopes : Numbered ScopeData.id s.scopes
  runScopes : ∀ r ∈ s.runs, r.scope < s.scopes.length
  occurrences : Numbered CaseOccurrence.id s.occurrences
  occurrenceCases : ∀ run, ((occurrencesOf s run).map (·.case)).Nodup
  occurrenceRuns : ∀ o ∈ s.occurrences, ∃ r ∈ s.runs, r.id = o.run ∧ r.lifecycle = .completed
  snapshotRuns : ∀ h ∈ s.snapshots, ∃ r ∈ s.runs, r.id = h.run ∧ r.lifecycle = .completed
  snapshots : ∀ r ∈ s.runs, r.lifecycle = .completed → ∃ contract diagnostics,
    List.Forall₂ (SnapshotOf digest contract r diagnostics) r.manifest.decisions
      (snapshotsOf s r.id)
  projectionKeys : (s.projections.map CaseScopeProjection.key).Nodup
  healthKeys : (s.health.map CurrentDecisionHealth.key).Nodup
  projectionScopes : ∀ p ∈ s.projections, p.scope < s.scopes.length
  healthScopes : ∀ h ∈ s.health, h.scope < s.scopes.length
  shown : ∀ c ∈ s.scopes, Shown s c

variable {sha : Sha256} {digest : Digest} {s t : Store} {r : Run}

theorem empty_sound : Sound digest Store.empty where
  consistent := DecisionStore.empty_consistent
  runs := rfl
  frozen := by simp [Store.empty]
  scopes := rfl
  runScopes := by simp [Store.empty]
  occurrences := rfl
  occurrenceCases := by simp [occurrencesOf, Store.empty]
  occurrenceRuns := by simp [Store.empty]
  snapshotRuns := by simp [Store.empty]
  snapshots := by simp [Store.empty]
  projectionKeys := by simp [Store.empty]
  healthKeys := by simp [Store.empty]
  projectionScopes := by simp [Store.empty]
  healthScopes := by simp [Store.empty]
  shown := by simp [Store.empty]

theorem Sound.run_eq (h : Sound digest s) {x y : Run} (hx : x ∈ s.runs) (hy : y ∈ s.runs)
    (he : x.id = y.id) : x = y := eq_of_key_eq Run.id h.runs.nodup hx hy he

/-- The rows of runs after some of them changed: a completed run is kept, and
no other run completes. -/
structure Kept (old new : List Run) : Prop where
  kept : ∀ r ∈ old, r.lifecycle = .completed → r ∈ new
  from_old : ∀ r ∈ new, ∃ q ∈ old, q.id = r.id ∧ q.scope = r.scope ∧ q.manifest = r.manifest ∧
    (r.lifecycle = .completed → r = q)

theorem Shown.keep {c : ScopeData} {new : List Run} (hk : ∀ r ∈ s.runs, r.lifecycle = .completed →
    r ∈ new) (h : Shown s c) : Shown { s with runs := new } c := by
  unfold Shown at h ⊢
  cases hc : c.currentRun with
  | none =>
    rw [hc] at h
    exact h
  | some run =>
    rw [hc] at h
    obtain ⟨r, hr, hid, hscope, hdone, hp, hh⟩ := h
    exact ⟨r, hk r hr hdone, hid, hscope, hdone, hp, hh⟩

theorem Sound.keep {new : List Run} (h : Sound digest s) (hk : Kept s.runs new)
    (hn : Numbered Run.id new) (hs : ∀ r ∈ new, r.Shape) :
    Sound digest { s with runs := new } where
  consistent := h.consistent
  runs := hn
  frozen := by
    intro r hr
    obtain ⟨q, hq, _, _, hm, _⟩ := hk.from_old r hr
    have hf := h.frozen q hq
    exact ⟨hs r hr, hm ▸ hf.logicals, hm ▸ hf.observations, hm ▸ hf.decisions, hm ▸ hf.revisions⟩
  scopes := h.scopes
  runScopes := by
    intro r hr
    obtain ⟨q, hq, _, hscope, _, _⟩ := hk.from_old r hr
    exact hscope ▸ h.runScopes q hq
  occurrences := h.occurrences
  occurrenceCases := h.occurrenceCases
  occurrenceRuns := by
    intro o ho
    obtain ⟨r, hr, hid, hdone⟩ := h.occurrenceRuns o ho
    exact ⟨r, hk.kept r hr hdone, hid, hdone⟩
  snapshotRuns := by
    intro x hx
    obtain ⟨r, hr, hid, hdone⟩ := h.snapshotRuns x hx
    exact ⟨r, hk.kept r hr hdone, hid, hdone⟩
  snapshots := by
    intro r hr hdone
    obtain ⟨q, hq, _, _, _, he⟩ := hk.from_old r hr
    exact he hdone ▸ h.snapshots q hq (he hdone ▸ hdone)
  projectionKeys := h.projectionKeys
  healthKeys := h.healthKeys
  projectionScopes := h.projectionScopes
  healthScopes := h.healthScopes
  shown := fun c hc => (h.shown c hc).keep hk.kept

theorem claimed_shape {token : Option ℕ} (hd : r.lifecycle = .completed) (hs : r.Shape) :
    ¬(Run.claimed token r).Shape := by
  intro h
  unfold Run.Shape at hs h
  rw [hd] at hs
  simp only [Run.claimed] at h
  have hsome := hs.1.2.1
  rw [h.1.2.1] at hsome
  cases hsome

theorem Sound.revise (h : Sound digest s) {run : ℕ} {f : Run → Run}
    (hf : ∀ r, (f r).id = r.id ∧ (f r).scope = r.scope ∧ (f r).manifest = r.manifest ∧
      (f r).lifecycle ≠ .completed)
    (hdone : ∀ r ∈ s.runs, r.id = run → r.lifecycle = .completed → ¬(f r).Shape)
    (ht : updateRun run f s = .ok t) : Sound digest t := by
  obtain ⟨hshape, rfl⟩ := updateRun_ok ht
  apply h.keep _ (h.runs.revise (fun r => (hf r).1) run)
  · intro r hr
    by_cases hid : r.id = run
    · exact hshape r hr hid
    · obtain ⟨old, ho, rfl⟩ := mem_revise.mp hr
      by_cases hold : old.id = run
      · rw [if_pos hold] at hid
        exact absurd ((hf old).1.trans hold) hid
      · rw [if_neg hold]
        exact (h.frozen old ho).shape
  · constructor
    · intro r hr hd
      refine mem_revise.mpr ⟨r, hr, ?_⟩
      by_cases hid : r.id = run
      · have hmem : f r ∈ Tables.revise Run.id run f s.runs :=
          mem_revise.mpr ⟨r, hr, (if_pos hid).symm⟩
        exact absurd (hshape _ hmem ((hf r).1.trans hid)) (hdone r hr hid hd)
      · exact (if_neg hid).symm
    · intro r hr
      obtain ⟨old, ho, rfl⟩ := mem_revise.mp hr
      refine ⟨old, ho, ?_⟩
      by_cases hold : old.id = run
      · rw [if_pos hold]
        obtain ⟨h1, h2, h3, h4⟩ := hf old
        exact ⟨h1.symm, h2.symm, h3.symm, fun hd => absurd hd h4⟩
      · rw [if_neg hold]
        exact ⟨rfl, rfl, rfl, fun _ => rfl⟩

theorem claim_sound (h : Sound digest s) {workspace run : ℕ} {token : Option ℕ}
    (ht : claimRun workspace run token s = .ok t) : Sound digest t := by
  simp only [claimRun, bind_ok, demand_ok] at ht
  obtain ⟨_, _, _, _, ht⟩ := ht
  apply h.revise (f := Run.claimed token) (fun r => ⟨rfl, rfl, rfl, by simp [Run.claimed]⟩) _ ht
  exact fun r hr _ hd => claimed_shape hd (h.frozen r hr).shape

theorem fail_sound (h : Sound digest s) {workspace run : ℕ} {token : Option ℕ} {code : String}
    (ht : failRun workspace run token code s = .ok t) : Sound digest t := by
  unfold failRun at ht
  split at ht
  case h_1 r hr =>
    split at ht
    case isTrue hc =>
      apply h.revise (f := Run.failedWith code)
        (fun r => ⟨rfl, rfl, rfl, by simp [Run.failedWith]⟩) _ ht
      intro q hq hid hd
      obtain ⟨hmem, hrun, _⟩ := runOf_some hr
      have he := h.run_eq hq hmem (hid.trans hrun.symm)
      rw [he, hc.1] at hd
      cases hd
    case isFalse => exact Except.ok.inj ht ▸ h
  case h_2 => exact Except.ok.inj ht ▸ h

theorem Shown.extend {c : ScopeData} {news : List Run} (h : Shown s c) :
    Shown { s with runs := s.runs ++ news } c :=
  h.keep fun _ hr _ => List.mem_append_left _ hr

/-- A new run has neither facts nor views. -/
theorem Sound.addRun (h : Sound digest s) (hid : r.id = s.runs.length)
    (hfrozen : r.lifecycle = .frozen) (hf : Frozen r) (hscope : r.scope < s.scopes.length) :
    Sound digest { s with runs := s.runs ++ [r] } where
  consistent := h.consistent
  runs := h.runs.concat hid
  frozen := by
    intro q hq
    rcases List.mem_append.mp hq with hq | hq
    · exact h.frozen q hq
    · exact List.mem_singleton.mp hq ▸ hf
  scopes := h.scopes
  runScopes := by
    intro q hq
    rcases List.mem_append.mp hq with hq | hq
    · exact h.runScopes q hq
    · exact List.mem_singleton.mp hq ▸ hscope
  occurrences := h.occurrences
  occurrenceCases := h.occurrenceCases
  occurrenceRuns := by
    intro o ho
    obtain ⟨q, hq, hd⟩ := h.occurrenceRuns o ho
    exact ⟨q, List.mem_append_left _ hq, hd⟩
  snapshotRuns := by
    intro x hx
    obtain ⟨q, hq, hd⟩ := h.snapshotRuns x hx
    exact ⟨q, List.mem_append_left _ hq, hd⟩
  snapshots := by
    intro q hq hd
    rcases List.mem_append.mp hq with hq | hq
    · exact h.snapshots q hq hd
    · rw [List.mem_singleton.mp hq, hfrozen] at hd
      cases hd
  projectionKeys := h.projectionKeys
  healthKeys := h.healthKeys
  projectionScopes := h.projectionScopes
  healthScopes := h.healthScopes
  shown := fun c hc => (h.shown c hc).extend

theorem lockScope_ok {workspace scope : ℕ} {locked : LockedScope}
    (h : lockScope workspace scope s = .ok locked) :
    locked.scope.id = scope ∧ lookup ScopeData.id s.scopes scope = some locked.scopeData := by
  simp only [lockScope, bind_ok, fetch_ok] at h
  obtain ⟨row, hrow, data, hdata, _, _, _, _, he⟩ := h
  rw [← Except.ok.inj he]
  have hp := List.find?_some hrow
  simp only [Bool.and_eq_true, decide_eq_true_eq] at hp
  exact ⟨hp.1, hdata⟩

theorem create_runs {workspace scope : ℕ} {now : Instant}
    (ht : createRunManifest workspace scope now s = .ok (t, r)) :
    ∃ news, t = { s with runs := s.runs ++ news } := by
  simp only [createRunManifest, bind_ok] at ht
  obtain ⟨_, _, locked, _, m, _, ht⟩ := ht
  split at ht
  case h_1 =>
    rw [← (Prod.mk.inj (Except.ok.inj ht)).1]
    exact ⟨[], by rw [List.append_nil]⟩
  case h_2 =>
    simp only [bind_ok, demand_ok] at ht
    obtain ⟨_, _, _, _, _, _, _, _, he⟩ := ht
    exact ⟨_, (Prod.mk.inj (Except.ok.inj he)).1.symm⟩

theorem create_sound (h : Sound digest s) {workspace scope : ℕ} {now : Instant}
    (ht : createRunManifest workspace scope now s = .ok (t, r)) : Sound digest t := by
  simp only [createRunManifest, bind_ok] at ht
  obtain ⟨_, _, locked, hl, m, hm, ht⟩ := ht
  split at ht
  case h_1 => exact (Prod.mk.inj (Except.ok.inj ht)).1 ▸ h
  case h_2 =>
    simp only [bind_ok, demand_ok] at ht
    obtain ⟨_, _, _, hlogicals, _, hobservations, _, hrevisions, he⟩ := ht
    obtain ⟨rfl, rfl⟩ := Prod.mk.inj (Except.ok.inj he)
    have hscope := mem_of_lookup (lockScope_ok hl).2
    have hid := key_of_lookup (lockScope_ok hl).2
    apply h.addRun rfl rfl _ (hid ▸ h.scopes.lt hscope)
    refine ⟨⟨⟨rfl, rfl, rfl, rfl, rfl⟩, Or.inr rfl⟩, hlogicals, hobservations, ?_, hrevisions⟩
    simp only [manifestOf, bind_ok] at hm
    obtain ⟨_, _, _, _, _, _, he⟩ := hm
    rw [← Except.ok.inj he]
    exact DoubleRejection.activeDecisions_nodup h.consistent

theorem scope_sound (h : Sound digest s) (left right : ℕ) : Sound digest { s with
    scopes := s.scopes ++ [⟨s.scopes.length, left, right, none⟩] } where
  consistent := h.consistent
  runs := h.runs
  frozen := h.frozen
  scopes := h.scopes.concat rfl
  runScopes := fun q hq => (h.runScopes q hq).trans (by simp)
  occurrences := h.occurrences
  occurrenceCases := h.occurrenceCases
  occurrenceRuns := h.occurrenceRuns
  snapshotRuns := h.snapshotRuns
  snapshots := h.snapshots
  projectionKeys := h.projectionKeys
  healthKeys := h.healthKeys
  projectionScopes := fun p hp => (h.projectionScopes p hp).trans (by simp)
  healthScopes := fun x hx => (h.healthScopes x hx).trans (by simp)
  shown := by
    intro c hc
    rcases List.mem_append.mp hc with hc | hc
    · exact h.shown c hc
    · rw [List.mem_singleton.mp hc]
      exact ⟨fun p hp => (h.projectionScopes p hp).ne, fun x hx => (h.healthScopes x hx).ne⟩

section Publishing
variable {p : Publication} {fresh : Bool} {rows : List RunUnpaired}
variable {snapshots : List DecisionHealthSnapshot} {occurrences : List CaseOccurrence}

def publishedRun (p : Publication) (r : Run) (fresh : Bool) : Run :=
  Run.completedWith fresh p.resultDigest p.result p.clock r

theorem occurrences_unseen (h : Sound digest s) (hr : r ∈ s.runs) (hd : r.lifecycle = .running) :
    occurrencesOf s r.id = [] := by
  apply List.filter_eq_nil_iff.mpr
  intro o ho he
  obtain ⟨q, hq, hid, hdone⟩ := h.occurrenceRuns o ho
  rw [h.run_eq hq hr (hid.trans (of_decide_eq_true he)), hd] at hdone
  cases hdone

theorem snapshots_unseen (h : Sound digest s) (hr : r ∈ s.runs) (hd : r.lifecycle = .running) :
    snapshotsOf s r.id = [] := by
  apply List.filter_eq_nil_iff.mpr
  intro x hx he
  obtain ⟨q, hq, hid, hdone⟩ := h.snapshotRuns x hx
  rw [h.run_eq hq hr (hid.trans (of_decide_eq_true he)), hd] at hdone
  cases hdone

theorem snapshot_run {contract : ReferenceContract}
    {diagnostics : List DecisionHealthDiagnostic} {x : DecisionHealthSnapshot}
    {made : List DecisionRevision}
    (h : List.Forall₂ (SnapshotOf digest contract r diagnostics) made snapshots)
    (hx : x ∈ snapshots) : x.run = r.id := by
  obtain ⟨row, _, index, authority, _, rfl⟩ := forall₂_mem_right h hx
  rfl

theorem Published.snapshotsOf_run (hp : Published digest p s t r fresh rows snapshots occurrences)
    (h : Sound digest s) (hr : r ∈ s.runs) : snapshotsOf t r.id = snapshots := by
  obtain ⟨policy, _, hmade⟩ := hp.snapshotsMade
  have hold := snapshots_unseen h hr hp.running
  unfold snapshotsOf at hold ⊢
  rw [hp.snapshotRows, List.filter_append, hold, List.nil_append]
  exact List.filter_eq_self.mpr fun x hx => decide_eq_true (snapshot_run hmade hx)

theorem Published.snapshotsOf_other
    (hp : Published digest p s t r fresh rows snapshots occurrences) {run : ℕ}
    (hne : run ≠ r.id) : snapshotsOf t run = snapshotsOf s run := by
  obtain ⟨policy, _, hmade⟩ := hp.snapshotsMade
  unfold snapshotsOf
  rw [hp.snapshotRows, List.filter_append]
  have hnone : snapshots.filter (fun x => x.run = run) = [] :=
    List.filter_eq_nil_iff.mpr fun x hx he =>
      hne ((of_decide_eq_true he).symm.trans (snapshot_run hmade hx))
  rw [hnone, List.append_nil]

theorem Published.parts (hp : Published digest p s t r fresh rows snapshots occurrences) :
    t.occurrences = s.occurrences ++ occurrences ∧ (∀ o ∈ occurrences, o.run = r.id) ∧
      (occurrences.map (·.case)).Nodup ∧
      (Numbered CaseOccurrence.id s.occurrences → Numbered CaseOccurrence.id t.occurrences) := by
  obtain ⟨findings, hrec⟩ := hp.recorded
  exact ⟨hrec.occurrences, hrec.run, hrec.cases, hrec.numbered⟩

theorem Published.occurrencesOf_run
    (hp : Published digest p s t r fresh rows snapshots occurrences) (h : Sound digest s)
    (hr : r ∈ s.runs) : occurrencesOf t r.id = occurrences := by
  have hold := occurrences_unseen h hr hp.running
  unfold occurrencesOf at hold ⊢
  rw [(Published.parts hp).1, List.filter_append, hold, List.nil_append]
  exact List.filter_eq_self.mpr fun o ho => decide_eq_true ((Published.parts hp).2.1 o ho)

theorem Published.occurrencesOf_other
    (hp : Published digest p s t r fresh rows snapshots occurrences) {run : ℕ}
    (hne : run ≠ r.id) : occurrencesOf t run = occurrencesOf s run := by
  unfold occurrencesOf
  rw [(Published.parts hp).1, List.filter_append]
  have hnone : occurrences.filter (fun o => o.run = run) = [] :=
    List.filter_eq_nil_iff.mpr fun o ho he =>
      hne ((of_decide_eq_true he).symm.trans ((Published.parts hp).2.1 o ho))
  rw [hnone, List.append_nil]

theorem Published.mem_run (hp : Published digest p s t r fresh rows snapshots occurrences)
    (hr : r ∈ s.runs) : publishedRun p r fresh ∈ t.runs := by
  rw [hp.runs]
  exact mem_revise.mpr ⟨r, hr, (if_pos rfl).symm⟩

theorem Published.mem_other (hp : Published digest p s t r fresh rows snapshots occurrences)
    {q : Run} (hq : q ∈ s.runs) (hne : q.id ≠ r.id) : q ∈ t.runs := by
  rw [hp.runs]
  exact mem_revise.mpr ⟨q, hq, (if_neg hne).symm⟩

theorem Published.run_cases (hp : Published digest p s t r fresh rows snapshots occurrences)
    (h : Sound digest s) (hr : r ∈ s.runs) {q : Run} (hq : q ∈ t.runs) :
    q = publishedRun p r fresh ∨ q ∈ s.runs ∧ q.id ≠ r.id := by
  rw [hp.runs] at hq
  obtain ⟨old, ho, rfl⟩ := mem_revise.mp hq
  by_cases hid : old.id = r.id
  · rw [if_pos hid, h.run_eq ho hr hid]
    exact Or.inl rfl
  · rw [if_neg hid]
    exact Or.inr ⟨ho, hid⟩

theorem completed_ne (h : Sound digest s) (hr : r ∈ s.runs) (hd : r.lifecycle = .running) {q : Run}
    (hq : q ∈ s.runs) (hdone : q.lifecycle = .completed) : q.id ≠ r.id := by
  intro he
  rw [h.run_eq hq hr he, hd] at hdone
  cases hdone

theorem keys_nodup {α β κ : Type} {f : α → β} {key : β → ℕ × κ} (value : α → κ) {l : List α}
    {scope : ℕ} (hkey : ∀ a, key (f a) = (scope, value a)) (h : (l.map value).Nodup) :
    ((l.map f).map key).Nodup := by
  have he : (l.map f).map key = (l.map value).map fun v => (scope, v) := by
    rw [List.map_map, List.map_map]
    exact List.map_congr_left fun a _ => hkey a
  rw [he]
  exact h.map fun a b hab => (Prod.mk.inj hab).2

theorem projection_keys (hc : (occurrences.map (·.case)).Nodup)
    (read : List DecisionHealthSnapshot) :
    ((occurrences.map (projectionOf r t read)).map CaseScopeProjection.key).Nodup :=
  keys_nodup (·.case) (fun _ => rfl) hc

theorem snapshot_decisions {contract : ReferenceContract}
    {diagnostics : List DecisionHealthDiagnostic} {made : List DecisionRevision}
    (h : List.Forall₂ (SnapshotOf digest contract r diagnostics) made snapshots) :
    snapshots.map (fun x => (x.decision, x.decisionRevision)) =
      made.map fun d => (d.decision, d.id) := by
  apply (forall₂_map_eq h _).symm
  intro row x hx
  obtain ⟨index, authority, _, rfl⟩ := hx
  rfl

theorem health_keys {contract : ReferenceContract} {diagnostics : List DecisionHealthDiagnostic}
    (h : List.Forall₂ (SnapshotOf digest contract r diagnostics) r.manifest.decisions snapshots)
    (hd : (r.manifest.decisions.map (·.decision)).Nodup) :
    ((snapshots.map (currentHealth r)).map CurrentDecisionHealth.key).Nodup := by
  apply keys_nodup DecisionHealthSnapshot.decision
    (fun x => show CurrentDecisionHealth.key (currentHealth r x) = (r.scope, x.decision) from rfl)
  have he := congrArg (List.map Prod.fst) (snapshot_decisions h)
  rw [List.map_map, List.map_map] at he
  exact (show snapshots.map (·.decision) = _ from he) ▸ hd

theorem projection_group (a b : CaseScopeProjection)
    (h : CaseScopeProjection.key a = CaseScopeProjection.key b) : a.scope = b.scope :=
  (Prod.mk.inj h).1

theorem health_group (a b : CurrentDecisionHealth)
    (h : CurrentDecisionHealth.key a = CurrentDecisionHealth.key b) : a.scope = b.scope :=
  (Prod.mk.inj h).1

/-- What a publication leaves of the other scopes' views, and what the scope of
a current one shows. -/
structure Views (s t : Store) (q : Run) (fresh : Bool) : Prop where
  projectionKeys : (t.projections.map CaseScopeProjection.key).Nodup
  healthKeys : (t.health.map CurrentDecisionHealth.key).Nodup
  projectionMem : ∀ x, x.scope ≠ q.scope → (x ∈ t.projections ↔ x ∈ s.projections)
  healthMem : ∀ x, x.scope ≠ q.scope → (x ∈ t.health ↔ x ∈ s.health)
  projectionsOther : ∀ scope, scope ≠ q.scope →
    (t.projections.filter fun x => x.scope = scope).Perm
      (s.projections.filter fun x => x.scope = scope)
  healthOther : ∀ scope, scope ≠ q.scope →
    (t.health.filter fun x => x.scope = scope).Perm (s.health.filter fun x => x.scope = scope)
  stale : fresh = false → t.projections = s.projections ∧ t.health = s.health
  shown : fresh = true → ProjectionsOf t q.scope q ∧ HealthOf t q.scope q

theorem published_views (h : Sound digest s) (hr : r ∈ s.runs)
    (hp : Published digest p s t r fresh rows snapshots occurrences) :
    Views s t (publishedRun p r fresh) fresh := by
  have hocc := Published.occurrencesOf_run hp h hr
  have hsnap := Published.snapshotsOf_run hp h hr
  obtain ⟨policy, _, hmade⟩ := hp.snapshotsMade
  have hprojections := hp.projections
  have hhealth := hp.health
  cases fresh with
  | false =>
    have hpe : t.projections = s.projections := hprojections
    have hhe : t.health = s.health := hhealth
    refine ⟨hpe ▸ h.projectionKeys, hhe ▸ h.healthKeys, fun x _ => by rw [hpe],
      fun x _ => by rw [hhe], fun scope _ => by rw [hpe], fun scope _ => by rw [hhe],
      fun _ => ⟨hpe, hhe⟩, fun h => ?_⟩
    cases h
  | true =>
    rw [if_pos rfl, hocc] at hprojections
    rw [if_pos rfl, hsnap] at hhealth
    have hpk := projection_keys (r := r) (t := t) (Published.parts hp).2.2.1
      (p.arrange (snapshotsOf t r.id))
    have hhk := health_keys hmade (h.frozen r hr).decisions
    have hps : ∀ x ∈ occurrences.map (projectionOf r t (p.arrange (snapshotsOf t r.id))),
        x.scope = r.scope := by
      intro x hx
      obtain ⟨o, _, rfl⟩ := List.mem_map.mp hx
      rfl
    have hhs : ∀ x ∈ snapshots.map (currentHealth r), x.scope = r.scope := by
      intro x hx
      obtain ⟨o, _, rfl⟩ := List.mem_map.mp hx
      rfl
    refine ⟨?_, ?_, ?_, ?_, ?_, ?_, fun he => (by cases he), fun _ => ⟨?_, ?_⟩⟩
    · rw [hprojections]
      exact replaceGroup_nodup h.projectionKeys r.scope _
    · rw [hhealth]
      exact replaceGroup_nodup h.healthKeys r.scope _
    · intro x hx
      rw [hprojections, mem_replaceGroup hpk hps projection_group]
      exact ⟨fun hm => hm.elim (fun hn => absurd (hps x hn) hx) And.left, fun hm => Or.inr ⟨hm, hx⟩⟩
    · intro x hx
      rw [hhealth, mem_replaceGroup hhk hhs health_group]
      exact ⟨fun hm => hm.elim (fun hn => absurd (hhs x hn) hx) And.left, fun hm => Or.inr ⟨hm, hx⟩⟩
    · intro scope hne
      rw [hprojections]
      exact replaceGroup_other h.projectionKeys hpk hps projection_group hne
    · intro scope hne
      rw [hhealth]
      exact replaceGroup_other h.healthKeys hhk hhs health_group hne
    · unfold ProjectionsOf
      have hid : (publishedRun p r true).id = r.id := rfl
      rw [hid, hocc, hprojections]
      have hperm := (replaceGroup_perm h.projectionKeys hpk hps projection_group).map
        fun x => (x.currentOccurrence, x.case, x.run)
      rw [List.map_map] at hperm
      exact hperm
    · unfold HealthOf
      rw [hhealth]
      have hperm := (replaceGroup_perm h.healthKeys hhk hhs health_group).map
        fun x => (x.decision, x.decisionRevision, x.run)
      rw [List.map_map] at hperm
      have he := congrArg (List.map fun x => (x.1, x.2, r.id)) (snapshot_decisions hmade)
      rw [List.map_map, List.map_map] at he
      exact hperm.trans (List.Perm.of_eq he)

theorem Shown.other {c : ScopeData} (h : Sound digest s) (hr : r ∈ s.runs)
    (hp : Published digest p s t r fresh rows snapshots occurrences) (hc : Shown s c)
    (hother : fresh = true → c.id ≠ r.scope) : Shown t c := by
  have hv := published_views h hr hp
  have hpp : (t.projections.filter fun x => x.scope = c.id).Perm
      (s.projections.filter fun x => x.scope = c.id) := by
    cases fresh with
    | false => rw [(hv.stale rfl).1]
    | true => exact hv.projectionsOther c.id (hother rfl)
  have hhp : (t.health.filter fun x => x.scope = c.id).Perm
      (s.health.filter fun x => x.scope = c.id) := by
    cases fresh with
    | false => rw [(hv.stale rfl).2]
    | true => exact hv.healthOther c.id (hother rfl)
  unfold Shown at hc ⊢
  cases hrun : c.currentRun with
  | none =>
    rw [hrun] at hc
    constructor
    · intro x hx he
      have hm := hpp.mem_iff.mp (List.mem_filter.mpr ⟨hx, decide_eq_true he⟩)
      exact hc.1 x (List.mem_filter.mp hm).1 he
    · intro x hx he
      have hm := hhp.mem_iff.mp (List.mem_filter.mpr ⟨hx, decide_eq_true he⟩)
      exact hc.2 x (List.mem_filter.mp hm).1 he
  | some run =>
    rw [hrun] at hc
    obtain ⟨q, hq, hid, hscope, hdone, hproj, hhealth⟩ := hc
    have hne := completed_ne h hr hp.running hq hdone
    refine ⟨q, Published.mem_other hp hq hne, hid, hscope, hdone, ?_, ?_⟩
    · unfold ProjectionsOf at hproj ⊢
      rw [Published.occurrencesOf_other hp hne]
      exact (hpp.map _).trans hproj
    · exact (hhp.map _).trans hhealth

theorem published_sound (h : Sound digest s) (hr : r ∈ s.runs)
    (hp : Published digest p s t r fresh rows snapshots occurrences) : Sound digest t := by
  have hv := published_views h hr hp
  have hlen : t.scopes.length = s.scopes.length := by
    rw [hp.scopes]
    cases fresh with
    | false => rfl
    | true => simp [Tables.revise]
  have hscopes : Numbered ScopeData.id t.scopes := by
    rw [hp.scopes]
    cases fresh with
    | false => exact h.scopes
    | true =>
      apply h.scopes.revise
      intro _
      rfl
  have hdone : (publishedRun p r fresh).lifecycle = .completed := rfl
  constructor
  · rw [hp.review]
    cases fresh with
    | false => exact h.consistent
    | true =>
      rw [if_pos rfl]
      apply DecisionStore.consistent_congr _ _ _ _ h.consistent <;> rfl
  · rw [hp.runs]
    apply h.runs.revise
    intro _
    rfl
  · intro q hq
    rcases Published.run_cases hp h hr hq with rfl | ⟨hq, _⟩
    · have hf := h.frozen r hr
      exact ⟨hp.shape, hf.logicals, hf.observations, hf.decisions, hf.revisions⟩
    · exact h.frozen q hq
  · exact hscopes
  · intro q hq
    rw [hlen]
    rcases Published.run_cases hp h hr hq with rfl | ⟨hq, _⟩
    · exact h.runScopes r hr
    · exact h.runScopes q hq
  · exact (Published.parts hp).2.2.2 h.occurrences
  · intro run
    by_cases hne : run = r.id
    · rw [hne, Published.occurrencesOf_run hp h hr]
      exact (Published.parts hp).2.2.1
    · rw [Published.occurrencesOf_other hp hne]
      exact h.occurrenceCases run
  · intro o ho
    rw [(Published.parts hp).1] at ho
    rcases List.mem_append.mp ho with ho | ho
    · obtain ⟨q, hq, hid, hd⟩ := h.occurrenceRuns o ho
      exact ⟨q, Published.mem_other hp hq (completed_ne h hr hp.running hq hd), hid, hd⟩
    · exact ⟨_, Published.mem_run hp hr, ((Published.parts hp).2.1 o ho).symm, hdone⟩
  · intro x hx
    rw [hp.snapshotRows] at hx
    rcases List.mem_append.mp hx with hx | hx
    · obtain ⟨q, hq, hid, hd⟩ := h.snapshotRuns x hx
      exact ⟨q, Published.mem_other hp hq (completed_ne h hr hp.running hq hd), hid, hd⟩
    · obtain ⟨policy, _, hmade⟩ := hp.snapshotsMade
      exact ⟨_, Published.mem_run hp hr, (snapshot_run hmade hx).symm, hdone⟩
  · intro q hq hd
    rcases Published.run_cases hp h hr hq with rfl | ⟨hq, hne⟩
    · obtain ⟨policy, _, hmade⟩ := hp.snapshotsMade
      refine ⟨policy.referenceContract, p.result.diagnostics, ?_⟩
      have hsnap := Published.snapshotsOf_run hp h hr
      rw [show (publishedRun p r fresh).id = r.id from rfl, hsnap]
      exact hmade
    · rw [Published.snapshotsOf_other hp hne]
      exact h.snapshots q hq hd
  · exact hv.projectionKeys
  · exact hv.healthKeys
  · intro x hx
    rw [hlen]
    by_cases hs : x.scope = r.scope
    · exact hs ▸ h.runScopes r hr
    · exact h.projectionScopes x ((hv.projectionMem x hs).mp hx)
  · intro x hx
    rw [hlen]
    by_cases hs : x.scope = r.scope
    · exact hs ▸ h.runScopes r hr
    · exact h.healthScopes x ((hv.healthMem x hs).mp hx)
  · intro c hc
    rw [hp.scopes] at hc
    cases fresh with
    | false => exact Shown.other h hr hp (h.shown c hc) (fun he => (by cases he))
    | true =>
      obtain ⟨old, ho, rfl⟩ := mem_revise.mp hc
      by_cases hid : old.id = r.scope
      · rw [if_pos hid]
        exact ⟨_, Published.mem_run hp hr, rfl, hid.symm, rfl, hid ▸ hv.shown rfl⟩
      · rw [if_neg hid]
        exact Shown.other h hr hp (h.shown old ho) (fun _ => hid)

end Publishing

theorem call_sound (h : Sound digest s) (c : Command) : Sound digest (call sha digest s c) := by
  apply settle_keeps h
  intro t ht
  cases c with
  | review c =>
    rw [← Except.ok.inj ht]
    exact { h with consistent := DecisionStore.call_consistent h.consistent c }
  | inputs books datasets revisions policies =>
    rw [← Except.ok.inj ht]
    exact { h with }
  | createScope left right =>
    rw [← Except.ok.inj ht]
    exact scope_sound h left right
  | createRun workspace scope now =>
    obtain ⟨⟨u, r⟩, hu, rfl⟩ := map_ok.mp ht
    exact create_sound h hu
  | claim workspace run token => exact claim_sound h ht
  | fail workspace run token code => exact fail_sound h ht
  | publish workspace run p =>
    obtain ⟨r, locked, rows, snapshots, occurrences, hr, _, _, hp⟩ := publishRun_ok ht
    exact published_sound h (runOf_some hr).1 hp

theorem reached_sound (sha : Sha256) (digest : Digest) (cs : List Command) :
    Sound digest (reached sha digest cs) :=
  foldl_keeps (P := Sound digest) (fun _ c h _ => call_sound h c) empty_sound (along_true _ cs)

/-- The views of every scope are those of its current run. -/
def ViewsCurrent (s : Store) : Prop := ∀ c ∈ s.scopes, Shown s c

/-- A publication of a run changes the views of no other scope, and none at all
unless the run is current with it. -/
def ViewsIsolated (sha : Sha256) (digest : Digest) (s : Store) : Prop :=
  ∀ (workspace run : ℕ) (p : Publication),
    let t := call sha digest s (.publish workspace run p)
    (∀ r ∈ s.runs, r.id = run → (∀ x, x.scope ≠ r.scope → (x ∈ t.projections ↔ x ∈ s.projections)) ∧
      ∀ x, x.scope ≠ r.scope → (x ∈ t.health ↔ x ∈ s.health)) ∧
    ((∀ r ∈ t.runs, r.id = run → r.freshness ≠ .current) →
      t.projections = s.projections ∧ t.health = s.health)

theorem publish_isolated (h : Sound digest s) : ViewsIsolated sha digest s := by
  intro workspace run p
  unfold call
  cases ht : perform sha digest s (.publish workspace run p) with
  | error e => exact ⟨fun _ _ _ => ⟨fun _ _ => Iff.rfl, fun _ _ => Iff.rfl⟩, fun _ => ⟨rfl, rfl⟩⟩
  | ok t =>
    obtain ⟨r, locked, rows, snapshots, occurrences, hr, _, _, hp⟩ := publishRun_ok ht
    obtain ⟨hmem, hid, _⟩ := runOf_some hr
    have hv := published_views h hmem hp
    constructor
    · intro q hq hqid
      rw [h.run_eq hq hmem (hqid.trans hid.symm)]
      exact ⟨hv.projectionMem, hv.healthMem⟩
    · intro hfresh
      have hrow := hfresh _ (Published.mem_run hp hmem) hid
      apply hv.stale
      cases hf : isFresh locked r s with
      | false => rfl
      | true =>
        rw [hf] at hrow
        exact absurd rfl hrow

/-- After any sequence of publications the projections of a scope are one per
occurrence of its current run and its health rows one per decision frozen into
it, and each publication keeps to its own scope. -/
theorem scope_views_lawful (sha : Sha256) (digest : Digest) (cs : List Command) :
    ViewsCurrent (reached sha digest cs) ∧ ViewsIsolated sha digest (reached sha digest cs) :=
  ⟨(reached_sound sha digest cs).shown, publish_isolated (reached_sound sha digest cs)⟩

end Workbench.ScopeViews
