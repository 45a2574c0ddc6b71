import Workbench.ScopeViews

/-!
# Completed runs

The facts of a run are written by the one publication that completes it. A run
that is completed stays as it is, and one that is not has no facts.
-/

set_option autoImplicit false

namespace Workbench.Completions
open Workbench.Listing Workbench.Tables Workbench.Calendar Workbench.Records Workbench.Evidence
open Workbench.Json Workbench.Ingestion Workbench.Review Workbench.Upserts Workbench.Runs
open Workbench.Publications Workbench.PublicationFrames Workbench.PublicationRuns
open Workbench.ScopeViews
open Workbench.Raising (bind_ok map_ok demand_ok fetch_ok)

/-- The rows that belong to a run. -/
structure Facts where
  pairs : List RunPair
  unpaired : List RunUnpaired
  components : List AssignmentComponent
  candidates : List (ℕ × CandidateEvidence)
  diagnostics : List (ℕ × DecisionHealthDiagnostic)
  snapshots : List DecisionHealthSnapshot
  occurrences : List CaseOccurrence

def Facts.none : Facts := ⟨[], [], [], [], [], [], []⟩

def factsOf (s : Store) (run : ℕ) : Facts where
  pairs := s.pairs.filter fun x => x.run = run
  unpaired := s.unpaired.filter fun x => x.run = run
  components := s.components.filter fun x => x.run = run
  candidates := s.candidates.filter fun x => x.1 = run
  diagnostics := s.diagnostics.filter fun x => x.1 = run
  snapshots := s.snapshots.filter fun x => x.run = run
  occurrences := s.occurrences.filter fun x => x.run = run

variable {sha : Sha256} {digest : Digest} {s t u : Store} {r : Run}

def Gains {α : Type} (key : α → ℕ) (run : ℕ) (old new : List α) : Prop :=
  ∃ rows, new = old ++ rows ∧ ∀ x ∈ rows, key x = run

section Gains
variable {α : Type} {key : α → ℕ} {run : ℕ} {old new : List α}

theorem Gains.refl (key : α → ℕ) (run : ℕ) (old : List α) : Gains key run old old :=
  ⟨[], (List.append_nil old).symm, by simp⟩

theorem Gains.concat (h : Gains key run old new) {x : α} (hx : key x = run) :
    Gains key run old (new ++ [x]) := by
  obtain ⟨rows, rfl, hrows⟩ := h
  refine ⟨rows ++ [x], by rw [List.append_assoc], ?_⟩
  intro y hy
  rcases List.mem_append.mp hy with hy | hy
  · exact hrows y hy
  · exact List.mem_singleton.mp hy ▸ hx

theorem Gains.filter_other (h : Gains key run old new) {k : ℕ} (hk : k ≠ run) :
    (new.filter fun x => key x = k) = old.filter fun x => key x = k := by
  obtain ⟨rows, rfl, hrows⟩ := h
  rw [List.filter_append]
  have hnil : (rows.filter fun x => key x = k) = [] := by
    rw [List.filter_eq_nil_iff]
    intro x hx
    simp [hrows x hx, hk.symm]
  rw [hnil, List.append_nil]

end Gains

structure Publishes (run : ℕ) (s t : Store) : Prop where
  pairs : Gains RunPair.run run s.pairs t.pairs
  unpaired : Gains RunUnpaired.run run s.unpaired t.unpaired
  components : Gains AssignmentComponent.run run s.components t.components
  candidates : Gains Prod.fst run s.candidates t.candidates
  diagnostics : Gains Prod.fst run s.diagnostics t.diagnostics
  snapshots : Gains DecisionHealthSnapshot.run run s.snapshots t.snapshots
  occurrences : Gains CaseOccurrence.run run s.occurrences t.occurrences

theorem Publishes.refl (run : ℕ) (s : Store) : Publishes run s s :=
  ⟨.refl .., .refl .., .refl .., .refl .., .refl .., .refl .., .refl ..⟩

theorem Publishes.factsOf_other {run k : ℕ} (h : Publishes run s t) (hk : k ≠ run) :
    factsOf t k = factsOf s k := by
  unfold factsOf
  rw [h.pairs.filter_other hk, h.unpaired.filter_other hk, h.components.filter_other hk,
    h.snapshots.filter_other hk, h.occurrences.filter_other hk]
  have hc := h.candidates.filter_other hk
  have hd := h.diagnostics.filter_other hk
  rw [hc, hd]

theorem persistResult_publishes {result : EngineResult} (h : persistResult r result s = .ok t) :
    Publishes r.id s t := by
  simp only [persistResult, bind_ok, demand_ok] at h
  obtain ⟨u, hu, _, _, v, hv, w, hw, he⟩ := h
  have hsu : Publishes r.id s u := by
    apply insertEach_keeps (P := Publishes r.id s) _ (.refl _ s) hu
    intro _ _ x y hx hy
    rw [insertComponent_ok hy]
    exact { hx with components := hx.components.concat rfl }
  have hsv : Publishes r.id s v := by
    apply insertEach_keeps (P := Publishes r.id s) _ _ hv
    · intro _ _ x y hx hy
      obtain ⟨row, _, hrun, rfl⟩ := insertPair_ok hy
      exact { hx with pairs := hx.pairs.concat hrun }
    · obtain ⟨rows, hrows, hall⟩ := hsu.candidates
      refine { hsu with candidates := ⟨rows ++ result.candidates.map ((r.id, ·)), ?_, ?_⟩ }
      · show u.candidates ++ _ = _
        rw [hrows, List.append_assoc]
      · intro x hx
        rcases List.mem_append.mp hx with hx | hx
        · exact hall x hx
        · obtain ⟨c, _, rfl⟩ := List.mem_map.mp hx
          rfl
  have hsw : Publishes r.id s w := by
    apply insertEach_keeps (P := Publishes r.id s) _ hsv hw
    intro _ _ x y hx hy
    obtain ⟨i, _, rfl⟩ := insertUnpaired_ok hy
    exact { hx with unpaired := hx.unpaired.concat rfl }
  rw [← Except.ok.inj he]
  obtain ⟨rows, hrows, hall⟩ := hsw.diagnostics
  refine { hsw with diagnostics := ⟨rows ++ result.diagnostics.map ((r.id, ·)), ?_, ?_⟩ }
  · show w.diagnostics ++ _ = _
    rw [hrows, List.append_assoc]
  · intro x hx
    rcases List.mem_append.mp hx with hx | hx
    · exact hall x hx
    · obtain ⟨c, _, rfl⟩ := List.mem_map.mp hx
      rfl

theorem persistHealth_publishes {contract : ReferenceContract} {fresh : Bool}
    {diagnostics : List DecisionHealthDiagnostic} (hs : Publishes r.id s t)
    (h : persistDecisionHealth digest contract r diagnostics fresh t = .ok u) :
    Publishes r.id s u := by
  simp only [persistDecisionHealth, bind_ok] at h
  obtain ⟨v, hv, he⟩ := h
  have hsv : Publishes r.id s v := by
    apply insertEach_keeps (P := Publishes r.id s) _ hs hv
    intro _ _ x y hx hy
    obtain ⟨_, _, _, rfl⟩ := insertSnapshot_ok hy
    exact { hx with snapshots := hx.snapshots.concat rfl }
  cases fresh with
  | false => exact Except.ok.inj he ▸ hsv
  | true =>
    rw [← Except.ok.inj he]
    exact { hsv with }

theorem materialize_publishes {read : List DecisionHealthSnapshot} {fresh : Bool}
    (hs : Publishes r.id s t) (h : materializeRunCases sha r read fresh t = .ok u) :
    Publishes r.id s u := by
  have hfound : ∀ {findings : List Finding} {v : Store},
      insertEach (recordFinding r) findings t = .ok v → Publishes r.id s v := by
    intro findings v hv
    apply insertEach_keeps (P := Publishes r.id s) _ hs hv
    intro _ _ x y hx hy
    rw [(recordFinding_ok hy).2]
    exact { hx with occurrences := hx.occurrences.concat rfl }
  cases fresh with
  | false =>
    obtain ⟨_, _, hf⟩ := materialize_stale h
    exact hfound hf
  | true =>
    obtain ⟨_, v, rows, _, hf, _, rfl⟩ := materialize_current h
    exact { hfound hf with }

theorem publishRun_publishes {workspace run : ℕ} {p : Publication}
    (h : publishRun sha digest workspace run p s = .ok t) : Publishes run s t := by
  simp only [publishRun, bind_ok, fetch_ok, demand_ok] at h
  obtain ⟨_, _, r, hr, locked, hl, _, _, _, _, _, _, policy, _, a, ha, b, hb, c, hc, d, hd, _, _,
    he⟩ := h
  rw [← (runOf_some hr).2.1]
  have hpub := materialize_publishes (persistHealth_publishes (persistResult_publishes ha) hb) hc
  obtain ⟨_, rfl⟩ := updateRun_ok hd
  rw [← Except.ok.inj he]
  split
  · exact { hpub with }
  · exact { hpub with }

/-- Only publications write facts. -/
theorem call_factsOf (c : Command) (k : ℕ) : factsOf (call sha digest s c) k = factsOf s k ∨
    ∃ workspace p, c = .publish workspace k p ∧
      publishRun sha digest workspace k p s = .ok (call sha digest s c) := by
  unfold call
  cases ht : perform sha digest s c with
  | error e => exact .inl rfl
  | ok t =>
    show factsOf t k = _ ∨ _
    cases c with
    | review c => exact .inl (Except.ok.inj ht ▸ rfl)
    | inputs books datasets revisions policies => exact .inl (Except.ok.inj ht ▸ rfl)
    | createScope left right => exact .inl (Except.ok.inj ht ▸ rfl)
    | createRun workspace scope now =>
      obtain ⟨⟨v, r⟩, hv, rfl⟩ := map_ok.mp ht
      obtain ⟨news, rfl⟩ := create_runs hv
      exact .inl rfl
    | claim workspace run token =>
      simp only [perform, claimRun, bind_ok] at ht
      obtain ⟨_, _, _, _, ht⟩ := ht
      obtain ⟨_, rfl⟩ := updateRun_ok ht
      exact .inl rfl
    | fail workspace run token code =>
      simp only [perform, failRun] at ht
      split at ht
      · split at ht
        · obtain ⟨_, rfl⟩ := updateRun_ok ht
          exact .inl rfl
        · exact .inl (Except.ok.inj ht ▸ rfl)
      · exact .inl (Except.ok.inj ht ▸ rfl)
    | publish workspace run p =>
      by_cases hk : k = run
      · exact .inr ⟨workspace, p, by rw [hk], by rw [hk]; exact ht⟩
      · exact .inl ((publishRun_publishes ht).factsOf_other hk)

theorem updateRun_keeps {run : ℕ} {f : Run → Run}
    (hf : ∀ r, (f r).id = r.id)
    (hdone : ∀ r ∈ s.runs, r.id = run → r.lifecycle = .completed → ¬(f r).Shape)
    (ht : updateRun run f s = .ok t) (hr : r ∈ s.runs) (hd : r.lifecycle = .completed) :
    r ∈ t.runs := by
  obtain ⟨hshape, rfl⟩ := updateRun_ok ht
  refine mem_revise.mpr ⟨r, hr, ?_⟩
  by_cases hid : r.id = run
  · have hmem : f r ∈ revise Run.id run f s.runs := mem_revise.mpr ⟨r, hr, (if_pos hid).symm⟩
    exact absurd (hshape _ hmem ((hf r).trans hid)) (hdone r hr hid hd)
  · exact (if_neg hid).symm

theorem call_keeps_completed (h : Sound digest s) (c : Command) (hr : r ∈ s.runs)
    (hd : r.lifecycle = .completed) : r ∈ (call sha digest s c).runs := by
  apply settle_keeps (P := fun t : Store => r ∈ t.runs) hr
  intro t ht
  cases c with
  | review c => exact Except.ok.inj ht ▸ hr
  | inputs books datasets revisions policies => exact Except.ok.inj ht ▸ hr
  | createScope left right => exact Except.ok.inj ht ▸ hr
  | createRun workspace scope now =>
    obtain ⟨⟨v, q⟩, hv, rfl⟩ := map_ok.mp ht
    obtain ⟨news, rfl⟩ := create_runs hv
    exact List.mem_append_left _ hr
  | claim workspace run token =>
    simp only [perform, claimRun, bind_ok] at ht
    obtain ⟨_, _, _, _, ht⟩ := ht
    exact updateRun_keeps (f := Run.claimed token) (fun _ => rfl)
      (fun q hq _ hd => claimed_shape hd (h.frozen q hq).shape) ht hr hd
  | fail workspace run token code =>
    simp only [perform, failRun] at ht
    split at ht
    case h_1 q hq =>
      split at ht
      case isTrue hc =>
        apply updateRun_keeps (f := Run.failedWith code) (fun _ => rfl) _ ht hr hd
        intro x hx hid hdone
        obtain ⟨hmem, hrun, _⟩ := runOf_some hq
        rw [h.run_eq hx hmem (hid.trans hrun.symm), hc.1] at hdone
        cases hdone
      case isFalse => exact Except.ok.inj ht ▸ hr
    case h_2 => exact Except.ok.inj ht ▸ hr
  | publish workspace run p =>
    obtain ⟨q, locked, rows, snapshots, occurrences, hq, _, _, hp⟩ := publishRun_ok ht
    exact Published.mem_other hp hr (completed_ne h (runOf_some hq).1 hp.running hr hd)

theorem published_completed {workspace run : ℕ} {p : Publication}
    (h : publishRun sha digest workspace run p s = .ok t) :
    ∃ r ∈ t.runs, r.id = run ∧ r.lifecycle = .completed := by
  obtain ⟨q, locked, rows, snapshots, occurrences, hq, _, _, hp⟩ := publishRun_ok h
  obtain ⟨hmem, hid, _⟩ := runOf_some hq
  exact ⟨_, Published.mem_run hp hmem, hid, rfl⟩

theorem completed_refuses (h : Sound digest s) (hr : r ∈ s.runs) (hd : r.lifecycle = .completed)
    (workspace : ℕ) (p : Publication) : publishRun sha digest workspace r.id p s ≠ .ok t := by
  intro ht
  obtain ⟨q, locked, rows, snapshots, occurrences, hq, _, _, hp⟩ := publishRun_ok ht
  obtain ⟨hmem, hid, _⟩ := runOf_some hq
  have hrun := hp.running
  rw [h.run_eq hmem hr hid, hd] at hrun
  cases hrun

/-- What a completed run is, with its facts. -/
def Settled (r : Run) (facts : Facts) (s : Store) : Prop :=
  (∀ q ∈ s.runs, q.id = r.id → q = r) ∧ r ∈ s.runs ∧ factsOf s r.id = facts

theorem call_settled (h : Sound digest s) (hd : r.lifecycle = .completed) {facts : Facts}
    (hs : Settled r facts s) (c : Command) : Settled r facts (call sha digest s c) := by
  obtain ⟨_, hr, hf⟩ := hs
  have hkept : r ∈ (call sha digest s c).runs := call_keeps_completed h c hr hd
  have hsound : Sound digest (call sha digest s c) := call_sound h c
  refine ⟨fun q hq hid => hsound.run_eq hq hkept hid, hkept, ?_⟩
  rcases @call_factsOf sha digest s c r.id with hsame | ⟨workspace, p, _, hp⟩
  · rw [hsame, hf]
  · exact absurd hp (completed_refuses h hr hd workspace p)

def Unfinished (s : Store) : Prop :=
  ∀ k, (∀ r ∈ s.runs, r.id = k → r.lifecycle ≠ .completed) → factsOf s k = Facts.none

theorem call_unfinished (h : Sound digest s) (hs : Unfinished s) (c : Command) :
    Unfinished (call sha digest s c) := by
  intro k hk
  rcases @call_factsOf sha digest s c k with hsame | ⟨workspace, p, _, hp⟩
  · rw [hsame]
    exact hs k fun r hr hid hd => hk r (call_keeps_completed h c hr hd) hid hd
  · obtain ⟨r, hr, hid, hd⟩ := published_completed hp
    exact absurd hd (hk r hr hid)

theorem reached_unfinished (cs : List Command) : Unfinished (reached sha digest cs) := by
  have hboth := foldl_keeps (P := fun s => Sound digest s ∧ Unfinished s)
    (fun _ c hs _ => ⟨call_sound hs.1 c, call_unfinished hs.1 hs.2 c⟩)
    ⟨empty_sound, fun _ _ => rfl⟩ (@along_true _ _ (call sha digest) Store.empty cs)
  exact hboth.2

theorem reached_settled {before : List Command} (hr : r ∈ (reached sha digest before).runs)
    (hd : r.lifecycle = .completed) (later : List Command) :
    Settled r (factsOf (reached sha digest before) r.id) (reached sha digest (before ++ later)) := by
  have hsound := reached_sound sha digest before
  unfold reached at hr hsound ⊢
  rw [List.foldl_append]
  have hboth := foldl_keeps (P := fun s => Sound digest s ∧ Settled r
      (factsOf (before.foldl (call sha digest) Store.empty) r.id) s)
    (fun _ c hs _ => ⟨call_sound hs.1 c, call_settled hs.1 hd hs.2 c⟩)
    ⟨hsound, fun q hq hid => hsound.run_eq hq hr hid, hr, rfl⟩
    (@along_true _ _ (call sha digest) (before.foldl (call sha digest) Store.empty) later)
  exact hboth.2

/-- A run is published once. In every interleaving of the transactions of any
attempts, a completed run and its facts stay as they are, a second publication
of a run is refused, a run that is not completed has no facts and is shown by no
scope, and a publication that fails changes nothing. -/
theorem published_once (sha : Sha256) (digest : Digest) (before : List Command) :
    (∀ r ∈ (reached sha digest before).runs, r.lifecycle = .completed → ∀ later,
      Settled r (factsOf (reached sha digest before) r.id) (reached sha digest (before ++ later))) ∧
    (∀ workspace run p t, publishRun sha digest workspace run p (reached sha digest before) = .ok t →
      ∀ later workspace' p' t', publishRun sha digest workspace' run p'
        (reached sha digest (before ++ .publish workspace run p :: later)) ≠ .ok t') ∧
    (∀ r ∈ (reached sha digest before).runs, r.lifecycle ≠ .completed →
      factsOf (reached sha digest before) r.id = Facts.none ∧
      ∀ c ∈ (reached sha digest before).scopes, c.currentRun ≠ some r.id) ∧
    ∀ workspace run p e, publishRun sha digest workspace run p (reached sha digest before) =
      .error e → reached sha digest (before ++ [.publish workspace run p]) =
        reached sha digest before := by
  have hsound := reached_sound sha digest before
  refine ⟨fun r hr hd later => reached_settled hr hd later, ?_, ?_, ?_⟩
  · intro workspace run p t ht later workspace' p' t'
    have hnext : reached sha digest (before ++ [.publish workspace run p]) = t := by
      unfold reached
      rw [List.foldl_append]
      show settle _ (publishRun sha digest workspace run p (reached sha digest before)) = t
      rw [ht]
      rfl
    obtain ⟨r, hr, rfl, hd⟩ := published_completed ht
    rw [← hnext] at hr
    have hs := reached_settled hr hd later
    rw [List.append_assoc, List.singleton_append] at hs
    exact completed_refuses (reached_sound sha digest _) hs.2.1 hd workspace' p'
  · intro r hr hd
    constructor
    · apply reached_unfinished
      intro q hq hid
      rw [hsound.run_eq hq hr hid]
      exact hd
    · intro c hc hcur
      have hshown := hsound.shown c hc
      unfold Shown at hshown
      rw [hcur] at hshown
      obtain ⟨q, hq, hid, _, hdone, _⟩ := hshown
      exact hd (hsound.run_eq hq hr hid ▸ hdone)
  · intro workspace run p e he
    unfold reached
    rw [List.foldl_append]
    show settle _ (publishRun sha digest workspace run p (reached sha digest before)) = _
    rw [he]
    rfl

end Workbench.Completions
