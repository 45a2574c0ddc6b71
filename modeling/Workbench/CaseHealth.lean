import Workbench.ScopeViews

/-!
# The health a case shows

The health of an unpaired record is that of the last snapshot read that names
the record. It is the health of the decision that holds the record, in every
order of reading, exactly when the snapshots that name the record agree.
-/

set_option autoImplicit false

namespace Workbench.CaseHealth
open Workbench.Listing Workbench.Tables Workbench.Calendar Workbench.Records Workbench.Evidence
open Workbench.Json Workbench.Ingestion Workbench.Review Workbench.Upserts Workbench.Runs
open Workbench.Publications Workbench.PublicationFrames Workbench.PublicationRuns
open Workbench.ScopeViews
open Workbench.Decisions (DecisionRevision DecisionAuthority Uuid)
open Workbench.Raising (bind_ok map_ok demand_ok fetch_ok)

def reading (p : Publication) (arrange : List DecisionHealthSnapshot → List DecisionHealthSnapshot)
    (h : ∀ l, (arrange l).Perm l) : Publication :=
  { p with
    arrange := arrange
    arrange_perm := h }

def reviewsOf (s : Store) : List ((ℕ × ℕ) × Option DecisionHealthProjection) :=
  s.projections.map fun x => (CaseScopeProjection.key x, x.review)

section Shown
variable (sha : Sha256) (digest : Digest) (workspace run : ℕ) (p : Publication) (s : Store)

/-- The cases show the same whatever order the snapshots of the run are read in. -/
def ReadOrderFree : Prop :=
  ∀ arrange arrange' h h' t t',
    publishRun sha digest workspace run (reading p arrange h) s = .ok t →
      publishRun sha digest workspace run (reading p arrange' h') s = .ok t' →
        reviewsOf t = reviewsOf t'

/-- The case of an unpaired record that a decision of the run holds shows the
health of that decision. -/
def HeldReviewed : Prop :=
  ∀ arrange h t, publishRun sha digest workspace run (reading p arrange h) s = .ok t →
    ∀ x ∈ t.projections, x.run = run → ∀ o ∈ t.occurrences, o.id = x.currentOccurrence →
      ∀ u ∈ t.unpaired, o.result = .unpaired u.id → ∀ r ∈ t.runs, r.id = run →
        ∀ d ∈ r.manifest.decisions, ∀ a, d.authority = some a → a.reservesEndpoints = true →
          u.logicalTransaction ∈ a.endpointIds → ∃ h ∈ snapshotsOf t run,
            h.decisionRevision = d.id ∧ x.review = some h.projection

end Shown

def recordedHealth (digest : Digest) (contract : ReferenceContract) (r : Run)
    (result : EngineResult) (d : DecisionRevision) (a : DecisionAuthority) :
    DecisionHealthProjection :=
  projectDecisionHealth
    (healthEvidence digest r.workspace contract r.manifest result.diagnostics d a)

def named (r : Run) (a : DecisionAuthority) : List String :=
  (heldInputs r.manifest a).map fun i => i.observation.text

/-- The decisions of a run that name one record it leaves unpaired are of one
health. -/
def Agreeing (digest : Digest) (contract : ReferenceContract) (r : Run) (result : EngineResult) :
    Prop :=
  ∀ u ∈ result.unpaired, ∀ d ∈ r.manifest.decisions, ∀ d' ∈ r.manifest.decisions, ∀ a a',
    d.authority = some a → d'.authority = some a' → u.recordId ∈ named r a →
      u.recordId ∈ named r a' →
        recordedHealth digest contract r result d a = recordedHealth digest contract r result d' a'

/-- The run is not current when its publication arrives, or its decisions agree. -/
def Undisputed (digest : Digest) (workspace run : ℕ) (result : EngineResult) (s : Store) : Prop :=
  ∀ r locked policy, runOf workspace run s = some r → lockScope workspace r.scope s = .ok locked →
    lookup PolicyRevision.id s.policies r.manifest.policyRevision = some policy →
      isFresh locked r s = true → Agreeing digest policy.referenceContract r result

section Reading
variable {α : Type} {p : α → Bool} {l m : List α}

theorem find_last {a : α} (ha : a ∈ l) (hp : p a = true) :
    ∃ read : List α, read.Perm l ∧ read.reverse.find? p = some a := by
  obtain ⟨before, after, rfl⟩ := List.append_of_mem ha
  refine ⟨before ++ after ++ [a], ?_, ?_⟩
  · rw [List.append_assoc]
    exact (List.perm_append_singleton a after).append_left before
  · rw [List.reverse_append, List.reverse_singleton, List.singleton_append, List.find?_cons_of_pos hp]

theorem find_agree {β : Type} {f : α → β} (hl : l.Perm m)
    (ha : ∀ a ∈ m, ∀ b ∈ m, p a = true → p b = true → f a = f b) {a : α} (hm : a ∈ m)
    (hp : p a = true) : (l.reverse.find? p).map f = some (f a) := by
  have hmem : a ∈ l.reverse := List.mem_reverse.mpr (hl.mem_iff.mpr hm)
  cases hf : l.reverse.find? p with
  | none => exact absurd hp (List.find?_eq_none.mp hf a hmem)
  | some b =>
    have hb : b ∈ m := hl.mem_iff.mp (List.mem_reverse.mp (List.mem_of_find?_eq_some hf))
    exact congrArg some (ha b hb a hm (List.find?_some hf) hp)

theorem find_perm {β : Type} {f : α → β} {l' : List α} (hl : l.Perm m) (hl' : l'.Perm m)
    (ha : ∀ a ∈ m, ∀ b ∈ m, p a = true → p b = true → f a = f b) :
    (l.reverse.find? p).map f = (l'.reverse.find? p).map f := by
  by_cases he : ∃ a ∈ m, p a = true
  · obtain ⟨a, hm, hp⟩ := he
    rw [find_agree hl ha hm hp, find_agree hl' ha hm hp]
  · have hnone : ∀ l'' : List α, l''.Perm m → l''.reverse.find? p = none := by
      intro l'' h
      apply List.find?_eq_none.mpr
      intro a hmem hp
      exact he ⟨a, h.mem_iff.mp (List.mem_reverse.mp hmem), hp⟩
    rw [hnone l hl, hnone l' hl']

end Reading

structure Attributed (s : Store) : Prop where
  numbered : Numbered RunUnpaired.id s.unpaired
  covered : ∀ u ∈ s.unpaired, ∃ o ∈ s.occurrences, o.run = u.run
  rows : ∀ u ∈ s.unpaired, ∃ r ∈ s.runs, r.id = u.run ∧ UnpairedRow r u.outcome u
  results : ∀ o ∈ s.occurrences, ∀ row, o.result = .unpaired row →
    ∃ u ∈ s.unpaired, u.id = row ∧ u.run = o.run

variable {sha : Sha256} {digest : Digest} {s t : Store} {r : Run}

theorem attributed_runs (h : Attributed s)
    (hk : ∀ r ∈ s.runs, ∃ q ∈ t.runs, q.id = r.id ∧ q.manifest = r.manifest)
    (hu : t.unpaired = s.unpaired) (ho : t.occurrences = s.occurrences) : Attributed t where
  numbered := hu ▸ h.numbered
  covered := by
    rw [hu, ho]
    exact h.covered
  rows := by
    intro u hmem
    rw [hu] at hmem
    obtain ⟨r, hr, hid, hrow⟩ := h.rows u hmem
    obtain ⟨q, hq, hqid, hqm⟩ := hk r hr
    refine ⟨q, hq, hqid.trans hid, ?_⟩
    unfold UnpairedRow at hrow ⊢
    rw [hqid, hqm]
    exact hrow
  results := by
    rw [hu, ho]
    exact h.results

theorem revised_runs (run : ℕ) {f : Run → Run}
    (hf : ∀ r, (f r).id = r.id ∧ (f r).manifest = r.manifest) {runs : List Run} :
    ∀ r ∈ runs, ∃ q ∈ revise Run.id run f runs, q.id = r.id ∧ q.manifest = r.manifest := by
  intro r hr
  refine ⟨_, mem_revise.mpr ⟨r, hr, rfl⟩, ?_⟩
  by_cases hid : r.id = run
  · rw [if_pos hid]
    exact hf r
  · rw [if_neg hid]
    exact ⟨rfl, rfl⟩

theorem updated_attributed (h : Attributed s) {run : ℕ} {f : Run → Run}
    (hf : ∀ r, (f r).id = r.id ∧ (f r).manifest = r.manifest) (ht : updateRun run f s = .ok t) :
    Attributed t := by
  obtain ⟨_, rfl⟩ := updateRun_ok ht
  exact attributed_runs h (revised_runs run hf) rfl rfl

theorem published_attributed {p : Publication} {fresh : Bool} {rows : List RunUnpaired}
    {snapshots : List DecisionHealthSnapshot} {occurrences : List CaseOccurrence}
    (h : Attributed s) (hr : r ∈ s.runs)
    (hp : Published digest p s t r fresh rows snapshots occurrences) : Attributed t where
  numbered := hp.unpairedNumbered h.numbered
  covered := by
    intro u hu
    by_cases hrun : u.run = r.id
    · obtain ⟨o, ho, horun, _⟩ := hp.covered u hu hrun
      exact ⟨o, ho, horun.trans hrun.symm⟩
    · rw [hp.unpaired] at hu
      rcases List.mem_append.mp hu with hu | hu
      · obtain ⟨o, ho, horun⟩ := h.covered u hu
        exact ⟨o, (Published.parts hp).1 ▸ List.mem_append_left _ ho, horun⟩
      · obtain ⟨_, _, hrow⟩ := forall₂_mem_right hp.unpairedRows hu
        exact absurd hrow.1 hrun
  rows := by
    intro u hu
    rw [hp.unpaired] at hu
    have hold : ∃ q ∈ s.runs, q.id = u.run ∧ UnpairedRow q u.outcome u := by
      rcases List.mem_append.mp hu with hu | hu
      · exact h.rows u hu
      · obtain ⟨outcome, _, hrow⟩ := forall₂_mem_right hp.unpairedRows hu
        exact ⟨r, hr, hrow.1.symm, hrow.2.1 ▸ hrow⟩
    obtain ⟨q, hq, hid, hrow⟩ := hold
    have hkept : ∀ q : Run, (Run.completedWith fresh p.resultDigest p.result p.clock q).id = q.id ∧
        (Run.completedWith fresh p.resultDigest p.result p.clock q).manifest = q.manifest :=
      fun _ => ⟨rfl, rfl⟩
    obtain ⟨q', hq', hid', hm'⟩ := revised_runs r.id hkept q hq
    refine ⟨q', hp.runs ▸ hq', hid'.trans hid, ?_⟩
    unfold UnpairedRow at hrow ⊢
    rw [hid', hm']
    exact hrow
  results := by
    intro o ho row hres
    rw [(Published.parts hp).1] at ho
    rcases List.mem_append.mp ho with ho | ho
    · obtain ⟨u, hu, hid⟩ := h.results o ho row hres
      exact ⟨u, hp.unpaired ▸ List.mem_append_left _ hu, hid⟩
    · obtain ⟨u, hu, hid, hrun⟩ := hp.results o ho row hres
      exact ⟨u, hu, hid, hrun.trans ((Published.parts hp).2.1 o ho).symm⟩

theorem call_attributed (h : Attributed s) (c : Command) : Attributed (call sha digest s c) := by
  apply settle_keeps h
  intro t ht
  cases c with
  | review c =>
    rw [← Except.ok.inj ht]
    exact ⟨h.numbered, h.covered, h.rows, h.results⟩
  | inputs books datasets revisions policies =>
    rw [← Except.ok.inj ht]
    exact ⟨h.numbered, h.covered, h.rows, h.results⟩
  | createScope left right =>
    rw [← Except.ok.inj ht]
    exact ⟨h.numbered, h.covered, h.rows, h.results⟩
  | createRun workspace scope now =>
    obtain ⟨⟨u, r⟩, hu, rfl⟩ := map_ok.mp ht
    obtain ⟨runs, rfl⟩ := create_runs hu
    exact attributed_runs h (fun r hr => ⟨r, List.mem_append_left _ hr, rfl, rfl⟩) rfl rfl
  | claim workspace run token =>
    simp only [perform, claimRun, bind_ok] at ht
    obtain ⟨_, _, _, _, ht⟩ := ht
    exact updated_attributed h (f := Run.claimed token) (fun _ => ⟨rfl, rfl⟩) ht
  | fail workspace run token code =>
    simp only [perform, failRun] at ht
    split at ht
    · split at ht
      · exact updated_attributed h (f := Run.failedWith code) (fun _ => ⟨rfl, rfl⟩) ht
      · exact Except.ok.inj ht ▸ h
    · exact Except.ok.inj ht ▸ h
  | publish workspace run p =>
    obtain ⟨r, locked, rows, snapshots, occurrences, hr, _, _, hp⟩ := publishRun_ok ht
    exact published_attributed h (runOf_some hr).1 hp

theorem reached_attributed (sha : Sha256) (digest : Digest) (cs : List Command) :
    Attributed (reached sha digest cs) :=
  foldl_keeps (P := Attributed) (fun _ c h _ => call_attributed h c)
    ⟨rfl, by simp [Store.empty], by simp [Store.empty], by simp [Store.empty]⟩ (along_true _ cs)

section Reading
variable {workspace run : ℕ} {p : Publication} {fresh : Bool}
  {arrange : List DecisionHealthSnapshot → List DecisionHealthSnapshot}

theorem materialize_reading {read : List DecisionHealthSnapshot}
    (h : materializeRunCases sha r read fresh s = .ok t) (read' : List DecisionHealthSnapshot) :
    ∃ projections, materializeRunCases sha r read' fresh s =
      .ok { t with projections := projections } := by
  cases fresh with
  | false => exact ⟨t.projections, h⟩
  | true =>
    obtain ⟨findings, u, rows, hfindings, hu, hlineage, rfl⟩ := materialize_current h
    refine ⟨replaceGroup (·.scope) CaseScopeProjection.key r.scope
      ((occurrencesOf u r.id).map (projectionOf r u read')) u.projections, ?_⟩
    simp only [materializeRunCases, bind_ok, fetch_ok, if_true, showCases]
    exact ⟨findings, hfindings, u, hu, _, hlineage, rfl⟩

theorem publish_reading (h : publishRun sha digest workspace run p s = .ok t)
    (harrange : ∀ l, (arrange l).Perm l) :
    ∃ projections, publishRun sha digest workspace run (reading p arrange harrange) s =
      .ok { t with projections := projections } := by
  simp only [publishRun, bind_ok, fetch_ok, demand_ok] at h
  obtain ⟨_, hactive, r, hr, locked, hl, _, hrunning, _, htoken, _, hvalid, policy, hpolicy, a, ha,
    b, hb, c, hc, d, hd, _, hinterrupted, he⟩ := h
  obtain ⟨projections, hc'⟩ := materialize_reading hc (arrange (snapshotsOf b r.id))
  obtain ⟨hshape, rfl⟩ := updateRun_ok hd
  refine ⟨projections, ?_⟩
  simp only [publishRun, bind_ok, fetch_ok, demand_ok]
  refine ⟨(), hactive, r, hr, locked, hl, (), hrunning, (), htoken, (), hvalid, policy, hpolicy,
    a, ha, b, hb, _, hc',
    { c with
      runs := Tables.revise Run.id r.id
        (Run.completedWith (isFresh locked r s) p.resultDigest p.result p.clock) c.runs
      projections := projections }, ?_, (), hinterrupted, ?_⟩
  · simp only [updateRun, bind_ok, demand_ok]
    exact ⟨(), hshape, rfl⟩
  · rw [← Except.ok.inj he]
    split_ifs <;> rfl

end Reading

/-! Agreement -/

/-- The projections of a publication that reads the snapshots in the order of
`read`. -/
def projectionsRead (r : Run) (read : List DecisionHealthSnapshot) (fresh : Bool) (s t : Store) :
    List CaseScopeProjection :=
  if fresh then
    replaceGroup (·.scope) CaseScopeProjection.key r.scope
      ((occurrencesOf t r.id).map (projectionOf r t read)) s.projections
  else s.projections

section Published
variable {p : Publication} {fresh : Bool} {rows : List RunUnpaired}
  {snapshots : List DecisionHealthSnapshot} {occurrences : List CaseOccurrence}

theorem snapshot_eq (h : Sound digest s) (hr : r ∈ s.runs)
    (hp : Published digest p s t r fresh rows snapshots occurrences)
    {x y : DecisionHealthSnapshot} (hx : x ∈ snapshotsOf t r.id) (hy : y ∈ snapshotsOf t r.id)
    (he : x.decisionRevision = y.decisionRevision) : x = y := by
  obtain ⟨policy, _, hmade⟩ := hp.snapshotsMade
  have hids : (snapshots.map (·.decisionRevision)).Nodup := by
    have hm := congrArg (List.map Prod.snd) (snapshot_decisions hmade)
    rw [List.map_map, List.map_map] at hm
    exact (show snapshots.map (·.decisionRevision) = _ from hm) ▸ (h.frozen r hr).revisions
  rw [Published.snapshotsOf_run hp h hr] at hx hy
  exact eq_of_key_eq (fun x : DecisionHealthSnapshot => x.decisionRevision) hids hx hy he

theorem review_unpaired (h : Attributed s) {u : RunUnpaired} (hu : u ∈ s.unpaired)
    {o : CaseOccurrence} (ho : o.result = .unpaired u.id) (read : List DecisionHealthSnapshot) :
    (projectionOf r s read o).review =
      (healthByObservation read u.outcome.recordId).map (·.projection) := by
  unfold projectionOf reviewHealth
  rw [ho]
  simp only [h.numbered.lookup hu, Option.bind_some]

theorem row_of_result (h : Sound digest s) (ha : Attributed s) (hr : r ∈ s.runs)
    (hp : Published digest p s t r fresh rows snapshots occurrences) {u : RunUnpaired}
    (hu : u ∈ t.unpaired) (hrun : u.run = r.id) :
    u.outcome ∈ p.result.unpaired ∧ UnpairedRow r u.outcome u := by
  rw [hp.unpaired] at hu
  rcases List.mem_append.mp hu with hu | hu
  · obtain ⟨o, ho, horun⟩ := ha.covered u hu
    have hmem : o ∈ occurrencesOf s r.id :=
      List.mem_filter.mpr ⟨ho, decide_eq_true (horun.trans hrun)⟩
    rw [occurrences_unseen h hr hp.running] at hmem
    cases hmem
  · obtain ⟨outcome, hmem, hrow⟩ := forall₂_mem_right hp.unpairedRows hu
    exact ⟨hrow.2.1 ▸ hmem, hrow.2.1 ▸ hrow⟩

theorem snapshot_made {policy : PolicyRevision}
    (hm : List.Forall₂ (SnapshotOf digest policy.referenceContract r p.result.diagnostics)
      r.manifest.decisions snapshots) {x : DecisionHealthSnapshot} (hx : x ∈ snapshots) :
    ∃ d ∈ r.manifest.decisions, ∃ a, d.authority = some a ∧ x.decisionRevision = d.id ∧
      (∀ text, text ∈ x.currentObservationIds ↔ text ∈ named r a) ∧
      x.projection = recordedHealth digest policy.referenceContract r p.result d a := by
  obtain ⟨d, hd, index, a, ha, rfl⟩ := forall₂_mem_right hm hx
  exact ⟨d, hd, a, ha, rfl, fun _ => mem_sortOn id _ _, rfl⟩

theorem made_snapshot {policy : PolicyRevision}
    (hm : List.Forall₂ (SnapshotOf digest policy.referenceContract r p.result.diagnostics)
      r.manifest.decisions snapshots) {d : DecisionRevision} (hd : d ∈ r.manifest.decisions)
    {a : DecisionAuthority} (ha : d.authority = some a) :
    ∃ x ∈ snapshots, x.decisionRevision = d.id ∧
      (∀ text, text ∈ x.currentObservationIds ↔ text ∈ named r a) ∧
      x.projection = recordedHealth digest policy.referenceContract r p.result d a := by
  obtain ⟨x, hx, index, authority, hauthority, rfl⟩ := forall₂_mem_left hm hd
  rw [ha, Option.some.injEq] at hauthority
  subst hauthority
  exact ⟨_, hx, rfl, fun _ => mem_sortOn id _ _, rfl⟩

def SnapshotsAgree (r : Run) (t : Store) : Prop :=
  ∀ u ∈ t.unpaired, u.run = r.id → ∀ x ∈ snapshotsOf t r.id, ∀ y ∈ snapshotsOf t r.id,
    u.outcome.recordId ∈ x.currentObservationIds → u.outcome.recordId ∈ y.currentObservationIds →
      x.projection = y.projection

theorem snapshots_agree_iff (h : Sound digest s) (ha : Attributed s) (hr : r ∈ s.runs)
    (hp : Published digest p s t r fresh rows snapshots occurrences) {policy : PolicyRevision}
    (hpolicy : lookup PolicyRevision.id s.policies r.manifest.policyRevision = some policy) :
    SnapshotsAgree r t ↔ Agreeing digest policy.referenceContract r p.result := by
  obtain ⟨policy', hpolicy', hmade⟩ := hp.snapshotsMade
  rw [hpolicy, Option.some.injEq] at hpolicy'
  subst hpolicy'
  unfold SnapshotsAgree
  rw [Published.snapshotsOf_run hp h hr]
  constructor
  · intro hagree outcome houtcome d hd d' hd' a a' hda hda' hn hn'
    obtain ⟨u, hu, hrow⟩ := forall₂_mem_left hp.unpairedRows houtcome
    obtain ⟨x, hx, _, hxn, hxe⟩ := made_snapshot hmade hd hda
    obtain ⟨y, hy, _, hyn, hye⟩ := made_snapshot hmade hd' hda'
    rw [← hxe, ← hye]
    apply hagree u (hp.unpaired ▸ List.mem_append_right _ hu) hrow.1 x hx y hy
    · rw [hrow.2.1]
      exact (hxn _).mpr hn
    · rw [hrow.2.1]
      exact (hyn _).mpr hn'
  · intro hagree u hu hrun x hx y hy hxu hyu
    obtain ⟨d, hd, a, hda, _, hxn, hxe⟩ := snapshot_made hmade hx
    obtain ⟨d', hd', a', hda', _, hyn, hye⟩ := snapshot_made hmade hy
    rw [hxe, hye]
    exact hagree u.outcome (row_of_result h ha hr hp hu hrun).1 d hd d' hd' a a' hda hda'
      ((hxn _).mp hxu) ((hyn _).mp hyu)

/-- What an occurrence shows does not depend on the order of reading. -/
theorem projection_eq (h : Sound digest s) (hr : r ∈ s.runs) (ht : Attributed t)
    (hp : Published digest p s t r fresh rows snapshots occurrences)
    (hagree : SnapshotsAgree r t) {o : CaseOccurrence} (ho : o ∈ occurrencesOf t r.id)
    {read read' : List DecisionHealthSnapshot} (hread : read.Perm (snapshotsOf t r.id))
    (hread' : read'.Perm (snapshotsOf t r.id)) :
    projectionOf r t read o = projectionOf r t read' o := by
  obtain ⟨hmem, hrun⟩ := List.mem_filter.mp ho
  suffices hreview : (reviewHealth t read o.result).map (·.projection) =
      (reviewHealth t read' o.result).map (·.projection) by
    unfold projectionOf
    rw [hreview]
  unfold reviewHealth
  cases hres : o.result with
  | pair row =>
    simp only
    cases lookup RunPair.id t.pairs row with
    | none => rfl
    | some q =>
      simp only [Option.bind_some]
      cases q.decisionRevision with
      | none => rfl
      | some d =>
        simp only [Option.bind_some]
        apply find_perm hread hread'
        intro x hx y hy hxd hyd
        rw [snapshot_eq h hr hp hx hy ((of_decide_eq_true hxd).trans (of_decide_eq_true hyd).symm)]
  | unpaired row =>
    obtain ⟨u, hu, rfl, hurun⟩ := ht.results o hmem row hres
    simp only [ht.numbered.lookup hu, Option.bind_some]
    apply find_perm hread hread'
    intro x hx y hy hxu hyu
    exact hagree u hu (hurun.trans (of_decide_eq_true hrun)) x hx y hy (of_decide_eq_true hxu)
      (of_decide_eq_true hyu)
  | component row => rfl

theorem review_held (ht : Attributed t) (hagree : SnapshotsAgree r t) {o : CaseOccurrence}
    {u : RunUnpaired} (hu : u ∈ t.unpaired) (hrun : u.run = r.id) (ho : o.result = .unpaired u.id)
    {read : List DecisionHealthSnapshot} (hread : read.Perm (snapshotsOf t r.id))
    {x : DecisionHealthSnapshot} (hx : x ∈ snapshotsOf t r.id)
    (hxu : u.outcome.recordId ∈ x.currentObservationIds) :
    (projectionOf r t read o).review = some x.projection := by
  rw [review_unpaired ht hu ho]
  apply find_agree hread _ hx (decide_eq_true hxu)
  intro y hy z hz hyu hzu
  exact hagree u hu hrun y hy z hz (of_decide_eq_true hyu) (of_decide_eq_true hzu)

theorem held_named (h : Sound digest s) (hr : r ∈ s.runs) {u : RunUnpaired}
    (hu : UnpairedRow r u.outcome u) {a : DecisionAuthority}
    (hmem : u.logicalTransaction ∈ a.endpointIds) : u.outcome.recordId ∈ named r a := by
  obtain ⟨_, _, i, hi, hlogical⟩ := hu
  refine List.mem_map.mpr ⟨i, List.mem_filterMap.mpr ⟨_, hmem, ?_⟩,
    key_of_lookup (g := fun i : RunInput => i.observation.text) hi⟩
  rw [hlogical]
  exact lookup_mem (h.frozen r hr).logicals (mem_of_lookup hi)

theorem mem_projectionsRead (hp : Published digest p s t r fresh rows snapshots occurrences)
    (h : Sound digest s) (hr : r ∈ s.runs) {read : List DecisionHealthSnapshot}
    {x : CaseScopeProjection} : x ∈ projectionsRead r read true s t ↔
      x ∈ (occurrencesOf t r.id).map (projectionOf r t read) ∨
        x ∈ s.projections ∧ x.scope ≠ r.scope := by
  apply mem_replaceGroup _ _ projection_group
  · rw [Published.occurrencesOf_run hp h hr]
    exact projection_keys (Published.parts hp).2.2.1 read
  · intro x hx
    obtain ⟨o, _, rfl⟩ := List.mem_map.mp hx
    rfl

end Published

theorem shown_completed (h : Sound digest s) {x : CaseScopeProjection} (hx : x ∈ s.projections) :
    ∃ r ∈ s.runs, r.id = x.run ∧ r.lifecycle = .completed := by
  have hscope : x.scope ∈ s.scopes.map ScopeData.id := by
    rw [h.scopes]
    exact List.mem_range.mpr (h.projectionScopes x hx)
  obtain ⟨c, hc, hid⟩ := List.mem_map.mp hscope
  have hshown := h.shown c hc
  unfold Shown at hshown
  cases hcurrent : c.currentRun with
  | none =>
    rw [hcurrent] at hshown
    exact absurd hid.symm (hshown.1 x hx)
  | some run =>
    rw [hcurrent] at hshown
    obtain ⟨r, hr, hrid, _, hdone, hprojections, _⟩ := hshown
    have hmem : x ∈ s.projections.filter fun p => p.scope = c.id :=
      List.mem_filter.mpr ⟨hx, decide_eq_true hid.symm⟩
    obtain ⟨o, _, he⟩ := List.mem_map.mp (hprojections.mem_iff.mp (List.mem_map_of_mem hmem))
    exact ⟨r, hr, (Prod.mk.inj (Prod.mk.inj he).2).2, hdone⟩

/-! Publications of a running run -/

section Reread
variable {workspace run : ℕ} {p : Publication}
  {arrange : List DecisionHealthSnapshot → List DecisionHealthSnapshot} {locked : LockedScope}

theorem reread (ht : publishRun sha digest workspace run p s = .ok t)
    (harrange : ∀ l, (arrange l).Perm l) (hr : runOf workspace run s = some r)
    (hl : lockScope workspace r.scope s = .ok locked) :
    publishRun sha digest workspace run (reading p arrange harrange) s =
      .ok { t with projections :=
        projectionsRead r (arrange (snapshotsOf t r.id)) (isFresh locked r s) s t } := by
  obtain ⟨projections, ht'⟩ := publish_reading ht harrange
  obtain ⟨r', locked', _, _, _, hr', hl', _, hp⟩ := publishRun_ok ht'
  rw [hr, Option.some.injEq] at hr'
  subst hr'
  rw [hl, Except.ok.injEq] at hl'
  subst hl'
  have hshown : projections =
      projectionsRead r (arrange (snapshotsOf t r.id)) (isFresh locked r s) s t := hp.projections
  rw [ht', hshown]

variable (h : Sound digest s) (ha : Attributed s)
  (ht : publishRun sha digest workspace run p s = .ok t)

include h ha ht

theorem undisputed_of_free (hfree : ReadOrderFree sha digest workspace run p s) :
    Undisputed digest workspace run p.result s := by
  intro r locked policy hr hl hpolicy hfresh
  obtain ⟨r', locked', rows, snapshots, occurrences, hr', hl', _, hp⟩ := publishRun_ok ht
  rw [hr, Option.some.injEq] at hr'
  subst hr'
  rw [hl, Except.ok.injEq] at hl'
  subst hl'
  have hmem := (runOf_some hr).1
  have hattributed := published_attributed ha hmem hp
  apply (snapshots_agree_iff h ha hmem hp hpolicy).mp
  intro u hu hrun x hx y hy hxu hyu
  obtain ⟨o, ho, horun, hres⟩ := hp.covered u hu hrun
  have hocc : o ∈ occurrencesOf t r.id := List.mem_filter.mpr ⟨ho, decide_eq_true horun⟩
  obtain ⟨read, hread, hfind⟩ := find_last
    (p := fun h : DecisionHealthSnapshot => u.outcome.recordId ∈ h.currentObservationIds) hx
    (decide_eq_true hxu)
  obtain ⟨read', hread', hfind'⟩ := find_last
    (p := fun h : DecisionHealthSnapshot => u.outcome.recordId ∈ h.currentObservationIds) hy
    (decide_eq_true hyu)
  -- The snapshots of this run, and no others, are read in the wanted order.
  have harrange : ∀ wanted : List DecisionHealthSnapshot, wanted.Perm (snapshotsOf t r.id) →
      ∀ l, (if l = snapshotsOf t r.id then wanted else l).Perm l := by
    intro wanted hwanted l
    split_ifs with hl
    · exact hl ▸ hwanted
    · exact List.Perm.refl l
  have hsame := hfree _ _ _ _ _ _ (reread ht (harrange read hread) hr hl)
    (reread ht (harrange read' hread') hr hl)
  simp only [reviewsOf, hfresh, if_true] at hsame
  have hshown : (CaseScopeProjection.key (projectionOf r t read o),
      (projectionOf r t read o).review) ∈ reviewsOf
        { t with projections := projectionsRead r read true s t } :=
    List.mem_map_of_mem ((mem_projectionsRead hp h hmem).mpr
      (Or.inl (List.mem_map_of_mem hocc)))
  unfold reviewsOf at hshown
  rw [hsame] at hshown
  obtain ⟨z, hz, he⟩ := List.mem_map.mp hshown
  have hother : projectionOf r t read' o ∈ projectionsRead r read' true s t :=
    (mem_projectionsRead hp h hmem).mpr (Or.inl (List.mem_map_of_mem hocc))
  have hkey := (Prod.mk.inj he).1
  have hreview := (Prod.mk.inj he).2
  have hz' := eq_of_key_eq CaseScopeProjection.key
    (replaceGroup_nodup h.projectionKeys r.scope _) hz hother hkey
  rw [hz', review_unpaired hattributed hu hres, review_unpaired hattributed hu hres] at hreview
  unfold healthByObservation at hreview
  rw [hfind, hfind'] at hreview
  exact (Option.some.inj hreview).symm

theorem free_of_undisputed (hund : Undisputed digest workspace run p.result s) :
    ReadOrderFree sha digest workspace run p s := by
  intro arrange arrange' harrange harrange' u v hu hv
  obtain ⟨r, locked, rows, snapshots, occurrences, hr, hl, _, hp⟩ := publishRun_ok ht
  have hmem := (runOf_some hr).1
  rw [reread ht harrange hr hl, Except.ok.injEq] at hu
  rw [reread ht harrange' hr hl, Except.ok.injEq] at hv
  rw [← hu, ← hv]
  cases hfresh : isFresh locked r s with
  | false => rfl
  | true =>
    obtain ⟨policy, hpolicy, _⟩ := hp.snapshotsMade
    have hagree := (snapshots_agree_iff h ha hmem hp hpolicy).mpr
      (hund r locked policy hr hl hpolicy hfresh)
    have hsame : (occurrencesOf t r.id).map (projectionOf r t (arrange (snapshotsOf t r.id))) =
        (occurrencesOf t r.id).map (projectionOf r t (arrange' (snapshotsOf t r.id))) := by
      apply List.map_congr_left
      intro o ho
      exact projection_eq h hmem (published_attributed ha hmem hp) hp hagree ho
        (harrange _) (harrange' _)
    unfold reviewsOf projectionsRead
    simp only [if_true, hsame]

theorem held_of_undisputed (hund : Undisputed digest workspace run p.result s) :
    HeldReviewed sha digest workspace run p s := by
  intro arrange harrange u hu x hx hxrun o ho hoid row hrow hres q hq hqid d hd a hauth _ hheld
  obtain ⟨r, locked, rows, snapshots, occurrences, hr, hl, _, hp⟩ := publishRun_ok ht
  obtain ⟨hmem, rfl, _⟩ := runOf_some hr
  rw [reread ht harrange hr hl, Except.ok.injEq] at hu
  subst hu
  have hnew : x ∉ s.projections := by
    intro hold
    obtain ⟨r', hr', hid', hdone⟩ := shown_completed h hold
    exact completed_ne h hmem hp.running hr' hdone (hid'.trans hxrun)
  cases hfresh : isFresh locked r s with
  | false =>
    rw [hfresh] at hx
    exact absurd hx hnew
  | true =>
    rw [hfresh] at hx hp
    obtain ⟨policy, hpolicy, hmade⟩ := hp.snapshotsMade
    have hagree := (snapshots_agree_iff h ha hmem hp hpolicy).mpr
      (hund r locked policy hr hl hpolicy hfresh)
    have hattributed := published_attributed ha hmem hp
    rcases (mem_projectionsRead hp h hmem).mp hx with hx | hx
    · obtain ⟨o', ho', rfl⟩ := List.mem_map.mp hx
      obtain ⟨homem, horun⟩ := List.mem_filter.mp ho'
      have hoo := eq_of_key_eq CaseOccurrence.id
        ((Published.parts hp).2.2.2 h.occurrences).nodup ho homem hoid
      subst hoo
      obtain ⟨v, hv, hvid, hvrun⟩ := hattributed.results o ho row.id hres
      have hvu := eq_of_key_eq RunUnpaired.id hattributed.numbered.nodup hv hrow hvid
      subst hvu
      have hrun := hvrun.trans (of_decide_eq_true horun)
      have hmanifest : q.manifest = r.manifest := by
        rcases Published.run_cases hp h hmem hq with rfl | ⟨_, hne⟩
        · rfl
        · exact absurd hqid hne
      rw [hmanifest] at hd
      obtain ⟨y, hy, hyrevision, hynamed, _⟩ := made_snapshot hmade hd hauth
      rw [← Published.snapshotsOf_run hp h hmem] at hy
      refine ⟨y, hy, hyrevision, ?_⟩
      exact review_held hattributed hagree hv hrun hres (harrange _) hy
        ((hynamed _).mpr (held_named h hmem (row_of_result h ha hmem hp hv hrun).2 hheld))
    · exact absurd hx.1 hnew

end Reread

/-- In every reachable state a publication that succeeds lets the cases show a
health that no order of reading changes, and an unpaired record that of the
decision that holds it, if and only if the run is not current when it is
published or the decisions that name one of its unpaired records agree. -/
theorem reviews_shown_iff (sha : Sha256) (digest : Digest) (cs : List Command)
    (workspace run : ℕ) (p : Publication) {t : Store}
    (ht : publishRun sha digest workspace run p (reached sha digest cs) = .ok t) :
    ReadOrderFree sha digest workspace run p (reached sha digest cs) ∧
        HeldReviewed sha digest workspace run p (reached sha digest cs) ↔
      Undisputed digest workspace run p.result (reached sha digest cs) := by
  have h := reached_sound sha digest cs
  have ha := reached_attributed sha digest cs
  constructor
  · intro hp
    exact undisputed_of_free h ha ht hp.1
  · intro hund
    exact ⟨free_of_undisputed h ha ht hund, held_of_undisputed h ha ht hund⟩

/-! Two decisions about one record -/

def constantSha : Sha256 := endingIn fun _ => 0

def acceptance : Decisions.DecisionCommand where
  request := .initial (.acceptUnmatched DoubleRejection.leftRecord .left)
  reason := "no partner"
  actor := "second reviewer"
  expectedResolutionGeneration := 0
  reviewedObservationIds := [DoubleRejection.leftSeen]
  reason_text := by decide
  actor_text := by decide
  reviewed_distinct := by decide
  reviewed_length := rfl
  conflicts_valid := trivial

def leftMember : Member := ⟨DoubleRejection.leftRecord, DoubleRejection.leftSeen, "f1", none, .none⟩

def rightMember : Member :=
  ⟨DoubleRejection.rightRecord, DoubleRejection.rightSeen, "f2", none, .none⟩

/-- A record that is accepted as unmatched and whose pair with another record
is rejected, in a book with one scope that holds the given records on the right. -/
def reviewedTwice (right : List Member) : List Command :=
  [.review (.elsewhere [⟨1, .active, 1000, none, none, ⟨0, 1, 0⟩⟩] [⟨1, 1, 0⟩] [⟨0, 1, 1, true, 0⟩]
      [⟨DoubleRejection.leftRecord, 1, 1, .left⟩, ⟨DoubleRejection.rightRecord, 1, 1, .right⟩]
      [⟨DoubleRejection.leftSeen, 1, DoubleRejection.leftRecord, "f1"⟩,
        ⟨DoubleRejection.rightSeen, 1, DoubleRejection.rightRecord, "f2"⟩]),
    .review (.initial 1 1 acceptance 5 ⟨"accepted", by decide, by decide⟩
      ⟨"accepted-1", by decide, by decide⟩),
    .review (.initial 1 1 (DoubleRejection.rejection 1) 6 ⟨"rejected", by decide, by decide⟩
      ⟨"rejected-1", by decide, by decide⟩),
    .createScope 0 1,
    .inputs [⟨1, 0⟩] [⟨0, 1, 1, some 0⟩, ⟨1, 1, 1, some 1⟩]
      [⟨0, 0, [leftMember]⟩, ⟨1, 1, right⟩] [⟨0, 1, 1, 1, "p", "e", "s", .sharedMustAgree⟩],
    .createRun 1 0 7, .claim 1 0 none]

def reviewed (right : List Member) : Store :=
  reached (endingIn List.sum) zeroDigest (reviewedTwice right)

/-- The publication of a run that leaves the accepted record and the given
records on the right unpaired. -/
def leaving (right : List Member) : Publication where
  result := {
    leftRevisionId := "0"
    rightRevisionId := "1"
    matchingPolicyVersion := "1"
    comparisonPolicyVersion := "1"
    engineVersion := "e"
    solverVersion := "s"
    inputLeftIds := [DoubleRejection.leftSeen.text]
    inputRightIds := right.map fun m => m.observation.text
    pairs := []
    unpaired := ⟨DoubleRejection.leftSeen.text, .left, .acceptedUnmatched, "accepted", []⟩ ::
      right.map fun m => ⟨m.observation.text, .right, .noCandidate, "", []⟩
    candidates := []
    components := []
    diagnostics := [] }
  resultDigest := "digest"
  attemptToken := none
  clock := 8
  arrange := fun l => l
  arrange_perm := fun _ => List.Perm.refl _
  interrupted := false

def publishing (right : List Member)
    (arrange : List DecisionHealthSnapshot → List DecisionHealthSnapshot)
    (h : ∀ l, (arrange l).Perm l) : Except RunFailure Store :=
  publishRun (endingIn List.sum) zeroDigest 1 0 (reading (leaving right) arrange h) (reviewed right)

/-- What the cases show after a publication. -/
def shownBy (right : List Member)
    (arrange : List DecisionHealthSnapshot → List DecisionHealthSnapshot)
    (h : ∀ l, (arrange l).Perm l) : Option (List ((ℕ × ℕ) × Option DecisionHealthProjection)) :=
  (publishing right arrange h).toOption.map reviewsOf

theorem published_of_shown {right : List Member}
    {arrange : List DecisionHealthSnapshot → List DecisionHealthSnapshot}
    {h : ∀ l, (arrange l).Perm l} (hs : (shownBy right arrange h).isSome = true) :
    ∃ t, publishing right arrange h = .ok t ∧ shownBy right arrange h = some (reviewsOf t) := by
  unfold shownBy at hs ⊢
  cases he : publishing right arrange h with
  | error e =>
    rw [he] at hs
    cases hs
  | ok t => exact ⟨t, rfl, rfl⟩

theorem reverse_arranges (l : List DecisionHealthSnapshot) : l.reverse.Perm l :=
  l.reverse_perm

/-- The health of the acceptance. -/
def unchanged : DecisionHealthProjection := ⟨.unchanged, []⟩

theorem agreed_undisputed :
    Undisputed zeroDigest 1 0 (leaving [rightMember]).result (reviewed [rightMember]) := by
  have hsteady : ∀ r ∈ (reviewed [rightMember]).runs, ∀ policy ∈ (reviewed [rightMember]).policies,
      ∀ d ∈ r.manifest.decisions, d.authority.map (recordedHealth zeroDigest
        policy.referenceContract r (leaving [rightMember]).result d) = some unchanged := by
    decide +kernel
  intro r locked policy hr _ hpolicy _ u _ d hd d' hd' a a' ha ha' _ _
  have hsame := hsteady r (runOf_some hr).1 policy (mem_of_lookup hpolicy)
  have hleft := hsame d hd
  have hright := hsame d' hd'
  rw [ha] at hleft
  rw [ha'] at hright
  exact (Option.some.inj hleft).trans (Option.some.inj hright).symm

/-- Either way the accepted record shows the health of the acceptance. -/
theorem reviews_shown_sample :
    shownBy [rightMember] (fun l => l) (fun _ => List.Perm.refl _) =
        some [((0, 0), some unchanged), ((0, 1), some unchanged)] ∧
      shownBy [rightMember] List.reverse reverse_arranges =
        some [((0, 0), some unchanged), ((0, 1), some unchanged)] ∧
      ReadOrderFree (endingIn List.sum) zeroDigest 1 0 (leaving [rightMember])
        (reviewed [rightMember]) ∧
      HeldReviewed (endingIn List.sum) zeroDigest 1 0 (leaving [rightMember])
        (reviewed [rightMember]) := by
  have hshown : shownBy [rightMember] (fun l => l) (fun _ => List.Perm.refl _) =
      some [((0, 0), some unchanged), ((0, 1), some unchanged)] := by decide +kernel
  obtain ⟨t, ht, _⟩ := published_of_shown (by rw [hshown]; rfl)
  refine ⟨hshown, by decide +kernel, ?_⟩
  exact (reviews_shown_iff (endingIn List.sum) zeroDigest (reviewedTwice [rightMember]) 1 0
    (leaving [rightMember]) ht).mpr agreed_undisputed

/-- Without the other record in the run, the accepted record shows the health of
whichever decision was read last. -/
theorem two_decisions_disagree :
    (∃ t, publishRun (endingIn List.sum) zeroDigest 1 0 (leaving []) (reviewed []) = .ok t) ∧
      ¬(ReadOrderFree (endingIn List.sum) zeroDigest 1 0 (leaving []) (reviewed []) ∧
        HeldReviewed (endingIn List.sum) zeroDigest 1 0 (leaving []) (reviewed [])) := by
  have hlast : shownBy [] (fun l => l) (fun _ => List.Perm.refl _) =
      some [((0, 0), some ⟨.partnerUnavailable, []⟩)] := by decide +kernel
  have hfirst : shownBy [] List.reverse reverse_arranges = some [((0, 0), some unchanged)] := by
    decide +kernel
  obtain ⟨t, ht, hshown⟩ := published_of_shown (by rw [hlast]; rfl)
  obtain ⟨t', ht', hshown'⟩ := published_of_shown (by rw [hfirst]; rfl)
  refine ⟨⟨t, ht⟩, ?_⟩
  intro h
  have hsame := h.1 _ _ _ _ t t' ht ht'
  rw [hlast, Option.some.injEq] at hshown
  rw [hfirst, Option.some.injEq] at hshown'
  rw [← hshown, ← hshown'] at hsame
  exact absurd hsame (by decide)

end Workbench.CaseHealth
