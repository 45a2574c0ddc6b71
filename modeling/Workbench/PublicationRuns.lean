import Workbench.DecisionStore
import Workbench.PublicationFrames

/-!
# Sequences of publications

Runs of a book's scopes are created, claimed, published and given up in any
order, while the other services change what they are computed from.
-/

set_option autoImplicit false

namespace Workbench.PublicationRuns
open Workbench.Listing Workbench.Tables Workbench.Calendar Workbench.Records Workbench.Evidence
open Workbench.Json Workbench.Ingestion Workbench.Review Workbench.Upserts Workbench.Runs
open Workbench.Publications Workbench.PublicationFrames
open Workbench.Decisions (DecisionRevision)
open Workbench.Raising (bind_ok demand_ok fetch_ok)

/-- One transaction. `review` stands for decision commands and for whatever is
done to the tables they use, `inputs` for activations and policy revisions. -/
inductive Command where
  | review (c : Decisions.Command)
  | inputs (books : List BookData) (datasets : List Dataset) (revisions : List DatasetRevision)
      (policies : List PolicyRevision)
  | createScope (leftDataset rightDataset : ℕ)
  | createRun (workspace scope : ℕ) (now : Instant)
  | claim (workspace run : ℕ) (token : Option ℕ)
  | fail (workspace run : ℕ) (token : Option ℕ) (code : String)
  | publish (workspace run : ℕ) (p : Publication)

def perform (sha : Sha256) (digest : Digest) (s : Store) : Command → Except RunFailure Store
  | .review c => .ok { s with review := Decisions.call digest s.review c }
  | .inputs books datasets revisions policies => .ok { s with
      books := books
      datasets := datasets
      revisions := revisions
      policies := policies }
  | .createScope leftDataset rightDataset => .ok { s with
      scopes := s.scopes ++ [⟨s.scopes.length, leftDataset, rightDataset, none⟩] }
  | .createRun workspace scope now => (·.1) <$> createRunManifest workspace scope now s
  | .claim workspace run token => claimRun workspace run token s
  | .fail workspace run token code => failRun workspace run token code s
  | .publish workspace run p => publishRun sha digest workspace run p s

def call (sha : Sha256) (digest : Digest) (s : Store) (c : Command) : Store :=
  settle s (perform sha digest s c)

def reached (sha : Sha256) (digest : Digest) (cs : List Command) : Store :=
  cs.foldl (call sha digest) Store.empty

variable {sha : Sha256} {digest : Digest} {s t : Store} {r : Run}

theorem runOf_some {workspace run : ℕ} (h : runOf workspace run s = some r) :
    r ∈ s.runs ∧ r.id = run ∧ r.workspace = workspace := by
  have hp := List.find?_some h
  simp only [Bool.and_eq_true, decide_eq_true_eq] at hp
  exact ⟨List.mem_of_find?_eq_some h, hp.1, hp.2⟩

theorem updateRun_ok {run : ℕ} {f : Run → Run} (h : updateRun run f s = .ok t) :
    (∀ r ∈ revise Run.id run f s.runs, r.id = run → r.Shape) ∧
      t = { s with runs := revise Run.id run f s.runs } := by
  simp only [updateRun, bind_ok, demand_ok] at h
  obtain ⟨_, hshape, he⟩ := h
  exact ⟨hshape, (Except.ok.inj he).symm⟩

structure Published (digest : Digest) (p : Publication) (s t : Store) (r : Run) (fresh : Bool)
    (rows : List RunUnpaired) (snapshots : List DecisionHealthSnapshot)
    (occurrences : List CaseOccurrence) : Prop where
  running : r.lifecycle = .running
  shape : (Run.completedWith fresh p.resultDigest p.result p.clock r).Shape
  review : t.review = if fresh then { s.review with
    scopes := revise Decisions.Scope.id r.scope (fun c => { c with isDirty := false })
      s.review.scopes } else s.review
  scopes : t.scopes = if fresh then
    revise ScopeData.id r.scope (fun c => { c with currentRun := some r.id }) s.scopes else s.scopes
  runs : t.runs = revise Run.id r.id
    (Run.completedWith fresh p.resultDigest p.result p.clock) s.runs
  unpaired : t.unpaired = s.unpaired ++ rows
  unpairedRows : List.Forall₂ (UnpairedRow r) p.result.unpaired rows
  unpairedNumbered : Numbered RunUnpaired.id s.unpaired → Numbered RunUnpaired.id t.unpaired
  snapshotRows : t.snapshots = s.snapshots ++ snapshots
  snapshotsMade : ∃ policy,
    lookup PolicyRevision.id s.policies r.manifest.policyRevision = some policy ∧
      List.Forall₂ (SnapshotOf digest policy.referenceContract r p.result.diagnostics)
        r.manifest.decisions snapshots
  recorded : ∃ findings, Recorded r findings s t occurrences
  results : ∀ o ∈ occurrences, ∀ row, o.result = .unpaired row →
    ∃ u ∈ t.unpaired, u.id = row ∧ u.run = r.id
  covered : ∀ u ∈ t.unpaired, u.run = r.id →
    ∃ o ∈ t.occurrences, o.run = r.id ∧ o.result = .unpaired u.id
  health : t.health = if fresh then replaceGroup (·.scope) CurrentDecisionHealth.key r.scope
    ((snapshotsOf t r.id).map (currentHealth r)) s.health else s.health
  projections : t.projections = if fresh then
    replaceGroup (·.scope) CaseScopeProjection.key r.scope ((occurrencesOf t r.id).map
      (projectionOf r t (p.arrange (snapshotsOf t r.id)))) s.projections else s.projections

theorem publishRun_ok {workspace run : ℕ} {p : Publication}
    (h : publishRun sha digest workspace run p s = .ok t) :
    ∃ r locked rows snapshots occurrences, runOf workspace run s = some r ∧
      lockScope workspace r.scope s = .ok locked ∧
      (∀ token ∈ p.attemptToken, r.currentAttemptToken = some token) ∧
      Published digest p s t r (isFresh locked r s) rows snapshots occurrences := by
  simp only [publishRun, bind_ok, fetch_ok, demand_ok] at h
  obtain ⟨_, _, r, hr, locked, hl, _, hrunning, _, htoken, _, _, policy, hpolicy, a, ha, b, hb, c, hc, d,
    hd, _, _, he⟩ := h
  refine ⟨r, locked, ?_⟩
  generalize isFresh locked r s = fresh at hb hc hd he ⊢
  have hfacts := (persistResult_frame ha).reviewed
  obtain ⟨rows, hrows, hmade, hnumbered⟩ := persistResult_unpaired ha
  obtain ⟨snapshots, hhealth⟩ := persistHealth_ok hb
  obtain ⟨occurrences, hcases⟩ := materialize_ok hc
  obtain ⟨hshapes, rfl⟩ := updateRun_ok hd
  have hreview := hcases.review.trans (hhealth.review.trans hfacts.review)
  have hscopes := hcases.scopes.trans (hhealth.scopes.trans hfacts.scopes)
  have hruns := hcases.runs.trans (hhealth.runs.trans hfacts.runs)
  have hshape := hshapes _ (mem_revise.mpr ⟨r, hruns ▸ (runOf_some hr).1, (if_pos rfl).symm⟩) rfl
  have hunpaired := hcases.unpaired.trans (hhealth.unpaired.trans hrows)
  have hsnap : c.snapshots = s.snapshots ++ snapshots := by
    rw [hcases.snapshots, hhealth.snapshots, hfacts.snapshots]
  have hocc := hhealth.occurrences.trans hfacts.occurrences
  have hread : snapshotsOf b r.id = snapshotsOf c r.id := by
    unfold snapshotsOf
    rw [hcases.snapshots]
  have hshown : c.health = if fresh then replaceGroup (·.scope) CurrentDecisionHealth.key r.scope
      ((snapshotsOf c r.id).map (currentHealth r)) s.health else s.health := by
    rw [hcases.health, hhealth.health, hread, hfacts.health]
  have hprojections : c.projections = if fresh then
      replaceGroup (·.scope) CaseScopeProjection.key r.scope ((occurrencesOf c r.id).map
        (projectionOf r c (p.arrange (snapshotsOf c r.id)))) s.projections else s.projections := by
    rw [hcases.projections, hhealth.projections, hfacts.projections, hread]
  obtain ⟨findings, hrecorded⟩ := hcases.recorded
  have hrec : Recorded r findings s c occurrences :=
    ⟨hrecorded.occurrences.trans (congrArg (· ++ occurrences) hocc), hrecorded.run,
      hrecorded.cases, fun hn => hrecorded.numbered (hocc ▸ hn), hrecorded.results⟩
  have hbu : b.unpaired = c.unpaired := hcases.unpaired.symm
  have hca : c.unpaired = a.unpaired := hcases.unpaired.trans hhealth.unpaired
  have hids : Numbered RunUnpaired.id s.unpaired → Numbered RunUnpaired.id c.unpaired :=
    fun hs => hca ▸ hnumbered hs
  have hresults := hcases.results
  have hcovered := hcases.covered
  rw [hbu] at hresults hcovered
  refine ⟨rows, snapshots, occurrences, hr, hl, htoken, ?_⟩
  cases fresh with
  | false =>
    rw [← Except.ok.inj he]
    exact ⟨hrunning, hshape, hreview, hscopes, congrArg _ hruns, hunpaired, hmade, hids,
      hsnap, ⟨policy, hpolicy, hhealth.made⟩, ⟨findings, hrec.occurrences, hrec.run, hrec.cases, hrec.numbered,
      hrec.results⟩, hresults, hcovered, hshown, hprojections⟩
  | true =>
    rw [← Except.ok.inj he]
    refine ⟨hrunning, hshape, ?_, ?_, congrArg _ hruns, hunpaired, hmade, hids, hsnap,
      ⟨policy, hpolicy, hhealth.made⟩, ⟨findings, hrec.occurrences, hrec.run, hrec.cases, hrec.numbered,
      hrec.results⟩, hresults, hcovered, hshown, hprojections⟩
    · simp only [pointScope, if_true]
      rw [hreview]
    · simp only [pointScope, if_true]
      rw [hscopes]

end Workbench.PublicationRuns
