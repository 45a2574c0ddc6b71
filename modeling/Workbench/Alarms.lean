import Workbench.Sightings

/-!
# Alarms about unchanged evidence

A decision asks for attention because of the evidence when the observations it
was reviewed with are not those the run holds. That is an alarm about moved
evidence as long as no activation observes a record again under old evidence.
-/

set_option autoImplicit false

namespace Workbench.Alarms
open Workbench.Listing Workbench.Tables Workbench.Calendar Workbench.Records Workbench.Json
open Workbench.Ingestion Workbench.Interpretation Workbench.Evidence Workbench.Review
open Workbench.Upserts Workbench.Runs Workbench.Publications Workbench.PublicationFrames
open Workbench.PublicationRuns Workbench.ScopeViews Workbench.Sightings
open Workbench.Decisions (Uuid DecisionRevision DecisionAuthority reviewedEvidenceDigest)

section Held
variable {m : Manifest} {a : DecisionAuthority}

theorem mem_heldInputs {x : RunInput} (h : x ∈ heldInputs m a) :
    x ∈ m.inputs ∧ x.logicalTransaction ∈ a.endpointIds := by
  obtain ⟨id, hid, hx⟩ := List.mem_filterMap.mp h
  refine ⟨mem_of_lookup hx, ?_⟩
  rw [key_of_lookup (g := fun i : RunInput => i.logicalTransaction) hx]
  exact hid

theorem filterMap_full {α β : Type} {f : α → Option β} {l : List α}
    (h : (l.filterMap f).length = l.length) : ∀ x ∈ l, ∃ y ∈ l.filterMap f, f x = some y := by
  intro x hx
  cases hf : f x with
  | some y => exact ⟨y, List.mem_filterMap.mpr ⟨x, hx, hf⟩, rfl⟩
  | none =>
    have hlt : (l.filterMap f).length < l.length := by
      rw [List.length_filterMap_lt_length_iff_exists]
      exact ⟨x, hx, hf⟩
    omega

theorem available_held (h : endpointsAvailable m a = true) {id : Uuid} (hid : id ∈ a.endpointIds) :
    ∃ x ∈ heldInputs m a, x.logicalTransaction = id := by
  obtain ⟨x, hx, hf⟩ := filterMap_full (of_decide_eq_true h) id hid
  exact ⟨x, hx, key_of_lookup (g := fun i : RunInput => i.logicalTransaction) hf⟩

theorem available_ne_nil (h : endpointsAvailable m a = true) : heldInputs m a ≠ [] := by
  obtain ⟨id, hid⟩ := endpointIds_ne_nil a
  obtain ⟨x, hx, _⟩ := available_held h hid
  exact List.ne_nil_of_mem hx

theorem held_observations (ho : (m.inputs.map fun i => i.observation).Nodup) :
    ((heldInputs m a).map fun i => i.observation).Nodup := by
  have hids := Decisions.endpointIds_nodup a
  rw [List.Nodup, List.pairwise_map]
  refine List.pairwise_filterMap.mpr (hids.imp ?_)
  intro id id' hne x hx x' hx' he
  have hsame := eq_of_key_eq (fun i : RunInput => i.observation) ho (mem_of_lookup hx)
    (mem_of_lookup hx') he
  have hid := key_of_lookup (g := fun i : RunInput => i.logicalTransaction) hx
  have hid' := key_of_lookup (g := fun i : RunInput => i.logicalTransaction) hx'
  exact hne (hid.symm.trans ((congrArg (fun i : RunInput => i.logicalTransaction) hsame).trans hid'))

end Held

section Evidence
variable {digest : Digest} {reader : DatetimeReader} {n : Naming} {i : Activation.Store} {r : Run}
  {d : DecisionRevision}
  {a : DecisionAuthority} {rows : List Decisions.TransactionObservation}

def heldRows (r : Run) (a : DecisionAuthority) : List Decisions.TransactionObservation :=
  (heldInputs r.manifest a).map (RunInput.row r.workspace)

def InputsSeen (n : Naming) (i : Activation.Store) (r : Run) : Prop :=
  ∀ x ∈ r.manifest.inputs, Seen n i x.logicalTransaction x.observation x.fingerprint

theorem seen_eq (hs : ActivationLaws.Sound reader i) {record record' observation : Uuid}
    {fingerprint fingerprint' : String} (h : Seen n i record observation fingerprint)
    (h' : Seen n i record' observation fingerprint') :
    record = record' ∧ fingerprint = fingerprint' := by
  obtain ⟨o, ho, hid, hrecord, hf⟩ := h
  obtain ⟨o', ho', hid', hrecord', hf'⟩ := h'
  have hsame := eq_of_key_eq Activation.TransactionObservation.id hs.observations.nodup ho ho'
    (n.observation_injective (hid.symm.trans hid'))
  subst hsame
  exact ⟨hrecord.trans hrecord'.symm, hf.trans hf'.symm⟩

theorem sightings_nodup {xs : List Decisions.TransactionObservation}
    (h : (xs.map (·.id)).Nodup) : (xs.map sighting).Nodup := by
  have hmap : xs.map (·.id) = (xs.map sighting).map Prod.fst := by
    rw [List.map_map]
    rfl
  exact List.Nodup.of_map _ (hmap ▸ h)

/-- A run that holds what was reviewed holds no other evidence. -/
theorem held_text (hs : ActivationLaws.Sound reader i) (hf : Frozen r) (hx : InputsSeen n i r)
    (hc : Covers rows a) (hrows : ∀ row ∈ rows, RowSeen n i row)
    (hheld : ∀ row ∈ rows, ∃ x ∈ heldInputs r.manifest a, x.observation = row.id) :
    evidenceText (heldRows r a) = evidenceText rows := by
  have hids : ((heldRows r a).map (·.id)).Nodup := by
    unfold heldRows
    rw [List.map_map]
    exact held_observations hf.observations
  have hsame : ∀ x ∈ heldInputs r.manifest a, ∀ row ∈ rows, x.observation = row.id →
      sighting (RunInput.row r.workspace x) = sighting row := by
    intro x hxm row hrow he
    have hseen := hx x (mem_heldInputs hxm).1
    rw [he] at hseen
    obtain ⟨hrecord, hfingerprint⟩ := seen_eq hs hseen (hrows row hrow)
    show (x.observation, x.logicalTransaction, x.fingerprint) = _
    rw [he, hrecord, hfingerprint]
    rfl
  apply evidenceText_congr hids
  apply (List.perm_ext_iff_of_nodup (sightings_nodup hids) (sightings_nodup hc.ids)).mpr
  intro sight
  constructor
  · intro h
    obtain ⟨_, hrow, rfl⟩ := List.mem_map.mp h
    obtain ⟨x, hxm, rfl⟩ := List.mem_map.mp hrow
    -- the record is reviewed, and the run holds what was reviewed of it
    obtain ⟨hmem, hend⟩ := mem_heldInputs hxm
    obtain ⟨row, hrow, hrecord⟩ := hc.complete _ hend
    obtain ⟨y, hym, hy⟩ := hheld row hrow
    have hseen := hx y (mem_heldInputs hym).1
    rw [hy] at hseen
    have hlogical := (seen_eq hs hseen (hrows row hrow)).1
    have hxy := eq_of_key_eq (fun i : RunInput => i.logicalTransaction) hf.logicals
      (mem_heldInputs hym).1 hmem (hlogical.trans hrecord)
    rw [← hxy]
    exact List.mem_map.mpr ⟨row, hrow, (hsame y hym row hrow hy).symm⟩
  · intro h
    obtain ⟨row, hrow, rfl⟩ := List.mem_map.mp h
    obtain ⟨x, hxm, he⟩ := hheld row hrow
    rw [← hsame x hxm row hrow he]
    exact List.mem_map.mpr ⟨_, List.mem_map.mpr ⟨x, hxm, rfl⟩, rfl⟩

theorem currentDigest_held (h : endpointsAvailable r.manifest a = true) :
    currentDigest digest r.workspace (heldInputs r.manifest a) =
      some (reviewedEvidenceDigest digest (heldRows r a)) :=
  if_neg (available_ne_nil h)

theorem evidenceChanged_iff (hd : d.reviewedEvidenceDigest =
    some (reviewedEvidenceDigest digest rows)) :
    evidenceChanged digest r.workspace r.manifest d a = true ↔
      endpointsAvailable r.manifest a = true ∧
        reviewedEvidenceDigest digest (heldRows r a) ≠ reviewedEvidenceDigest digest rows := by
  unfold evidenceChanged
  rw [Bool.and_eq_true, decide_eq_true_eq]
  refine and_congr_right fun h => ?_
  rw [currentDigest_held h, hd, ne_eq, Option.some.injEq]

theorem changed_not_held (hs : ActivationLaws.Sound reader i) (hf : Frozen r)
    (hx : InputsSeen n i r) (hreview : ReviewOf digest (RowSeen n i) d) (ha : d.authority = some a)
    (h : evidenceChanged digest r.workspace r.manifest d a = true) :
    endpointsAvailable r.manifest a = true ∧ ¬HeldAsReviewed r.manifest d a := by
  obtain ⟨rows, hc, hrows, hids, hdigest⟩ := hreview a ha
  obtain ⟨hav, hne⟩ := (evidenceChanged_iff hdigest).mp h
  refine ⟨hav, fun hheld => hne ?_⟩
  rw [reviewedEvidenceDigest_eq, reviewedEvidenceDigest_eq]
  congr 1
  apply held_text hs hf hx hc hrows
  intro row hrow
  exact hheld row.id (hids ▸ List.mem_map.mpr ⟨row, hrow, rfl⟩)

/-- The digest of what the run holds is shared by no other observations. -/
def Apart (digest : Digest) (n : Naming) (i : Activation.Store) (r : Run)
    (a : DecisionAuthority) : Prop :=
  ∀ rows, (∀ row ∈ rows, RowSeen n i row) →
    reviewedEvidenceDigest digest (heldRows r a) = reviewedEvidenceDigest digest rows →
      evidenceText (heldRows r a) = evidenceText rows

theorem not_held_changed (hreview : ReviewOf digest (RowSeen n i) d) (ha : d.authority = some a)
    (hapart : Apart digest n i r a) (hav : endpointsAvailable r.manifest a = true)
    (h : ¬HeldAsReviewed r.manifest d a) :
    evidenceChanged digest r.workspace r.manifest d a = true := by
  obtain ⟨rows, hc, hrows, hids, hdigest⟩ := hreview a ha
  refine (evidenceChanged_iff hdigest).mpr ⟨hav, fun he => h ?_⟩
  intro id hid
  rw [hids] at hid
  have hmem := (evidenceText_ids (hapart rows hrows he) id).mpr hid
  obtain ⟨_, hrow, rfl⟩ := List.mem_map.mp hmem
  obtain ⟨x, hx, rfl⟩ := List.mem_map.mp hrow
  exact ⟨x, hx, rfl⟩

/-- Records observed under new evidence only have moved when the run does not
hold what was reviewed. -/
theorem moved_of_distinct (hx : InputsSeen n i r) (hreview : ReviewOf digest (RowSeen n i) d)
    (ha : d.authority = some a)
    (hdistinct : ∀ record, n.record record ∈ a.endpointIds → Distinct record i)
    (hav : endpointsAvailable r.manifest a = true) (h : ¬HeldAsReviewed r.manifest d a) :
    Moved n i r.manifest d a := by
  obtain ⟨rows, hc, hrows, hids, _⟩ := hreview a ha
  unfold HeldAsReviewed at h
  push Not at h
  obtain ⟨id, hid, hnone⟩ := h
  have hid' := hid
  rw [hids] at hid'
  obtain ⟨row, hrow, rfl⟩ := List.mem_map.mp hid'
  have hend := hc.named row hrow
  obtain ⟨o, ho, hobs, hrecord, _⟩ := hrows row hrow
  obtain ⟨x, hxm, hxr⟩ := available_held hav hend
  obtain ⟨o', ho', hobs', hrecord', hf'⟩ := hx x (mem_heldInputs hxm).1
  have hlogical : o'.logical = o.logical :=
    n.record_injective (hrecord'.symm.trans (hxr.trans hrecord))
  refine ⟨o, ho, hobs ▸ hid, x, hxm, hxr.trans hrecord, fun hsame => ?_⟩
  have hoo := hdistinct o.logical (hrecord ▸ hend) o ho o' ho' rfl hlogical
    (hsame.symm.trans hf')
  subst hoo
  exact hnone x hxm (hobs'.trans hobs.symm)

end Evidence

section Health
variable {sha : Sha256} {digest : Digest} {reader : DatetimeReader} {n : Naming}

theorem alarmed_iff (digest : Digest) (workspace : ℕ) (contract : ReferenceContract) (m : Manifest)
    (diagnostics : List DecisionHealthDiagnostic) (d : DecisionRevision) (a : DecisionAuthority) :
    Alarmed (projectDecisionHealth (healthEvidence digest workspace contract m diagnostics d a)) ↔
      evidenceChanged digest workspace m d a = true ∧ ¬HasCandidate m a diagnostics := by
  have hav : evidenceChanged digest workspace m d a = true → endpointsAvailable m a = true :=
    fun h => (Bool.and_eq_true _ _ ▸ h).1
  unfold Alarmed
  rw [mem_attention]
  cases a with
  | link pair =>
    by_cases h : evidenceChanged digest workspace m d (.link pair) = true
    · simp [projectDecisionHealth, healthEvidence, HasCandidate, h, hav h]
    · simp only [projectDecisionHealth, healthEvidence, HasCandidate, h]
      split <;> simp
  | acceptUnmatched record side =>
    by_cases h : evidenceChanged digest workspace m d (.acceptUnmatched record side) = true
    · simp [projectDecisionHealth, healthEvidence, HasCandidate, h, hav h]
    · simp only [projectDecisionHealth, healthEvidence, HasCandidate, h]
      split
      · simp
      · split <;> simp
  | rejectCandidate pair =>
    by_cases h : evidenceChanged digest workspace m d (.rejectCandidate pair) = true
    · simp [projectDecisionHealth, healthEvidence, HasCandidate, h, hav h]
    · simp only [projectDecisionHealth, healthEvidence, HasCandidate, h]
      split <;> simp

variable {s : State} {r : Run} {d : DecisionRevision} {a : DecisionAuthority}

theorem snapshot_made (h : ScopeViews.Sound digest s.audit) (hr : r ∈ s.audit.runs)
    (hd : d ∈ r.manifest.decisions) (ha : d.authority = some a) {x : DecisionHealthSnapshot}
    (hx : x ∈ s.audit.snapshots) (hrun : x.run = r.id) (hrev : x.decisionRevision = d.id) :
    ∃ contract diagnostics, x.projection = projectDecisionHealth
      (healthEvidence digest r.workspace contract r.manifest diagnostics d a) := by
  obtain ⟨q, hq, hqid, hdone⟩ := h.snapshotRuns x hx
  have hqr := h.run_eq hq hr (hqid.trans hrun)
  subst hqr
  obtain ⟨contract, diagnostics, hmade⟩ := h.snapshots q hq hdone
  have hmem : x ∈ snapshotsOf s.audit q.id := List.mem_filter.mpr ⟨hx, decide_eq_true hrun⟩
  obtain ⟨d', hd', index, authority, hauthority, rfl⟩ := forall₂_mem_right hmade hmem
  have hsame := eq_of_key_eq (fun d : DecisionRevision => d.id) (h.frozen q hq).revisions hd' hd hrev
  subst hsame
  rw [ha, Option.some.injEq] at hauthority
  subst hauthority
  exact ⟨contract, diagnostics, rfl⟩

theorem published_snapshot (h : ScopeViews.Sound digest s.audit) {p : Publication} {fresh : Bool}
    {t : Runs.Store} {rows : List RunUnpaired} {snapshots : List DecisionHealthSnapshot}
    {occurrences : List CaseOccurrence} (hr : r ∈ s.audit.runs)
    (hp : Published digest p s.audit t r fresh rows snapshots occurrences)
    (hd : d ∈ r.manifest.decisions) (ha : d.authority = some a) {x : DecisionHealthSnapshot}
    (hx : x ∈ snapshotsOf t r.id) (hrev : x.decisionRevision = d.id) :
    ∃ contract, x.projection = projectDecisionHealth
      (healthEvidence digest r.workspace contract r.manifest p.result.diagnostics d a) := by
  obtain ⟨hmem, hrun⟩ := List.mem_filter.mp hx
  rw [hp.snapshotRows] at hmem
  have hnew : x ∈ snapshots := by
    rcases List.mem_append.mp hmem with hold | hnew
    · obtain ⟨q, hq, hqid, hdone⟩ := h.snapshotRuns x hold
      rw [h.run_eq hq hr (hqid.trans (of_decide_eq_true hrun)), hp.running] at hdone
      cases hdone
    · exact hnew
  obtain ⟨policy, _, hmade⟩ := hp.snapshotsMade
  obtain ⟨d', hd', index, authority, hauthority, rfl⟩ := forall₂_mem_right hmade hnew
  have hsame := eq_of_key_eq (fun d : DecisionRevision => d.id) (h.frozen r hr).revisions hd' hd hrev
  subst hsame
  rw [ha, Option.some.injEq] at hauthority
  subst hauthority
  exact ⟨policy.referenceContract, rfl⟩

theorem alarm_reobserved_iff (h : Good sha digest reader n s) (hr : r ∈ s.audit.runs)
    (hd : d ∈ r.manifest.decisions) (ha : d.authority = some a)
    (hapart : Apart digest n s.ingestion r a) (contract : ReferenceContract)
    (diagnostics : List DecisionHealthDiagnostic) :
    Alarmed (projectDecisionHealth
        (healthEvidence digest r.workspace contract r.manifest diagnostics d a)) ↔
      Reobserved r.manifest diagnostics d a := by
  have hreview := h.traced.frozen r hr d hd
  rw [alarmed_iff]
  constructor
  · rintro ⟨hchanged, hcandidate⟩
    obtain ⟨hav, hheld⟩ := changed_not_held h.ingestion.sound (h.audit.frozen r hr)
      (h.traced.inputs r hr) hreview ha hchanged
    exact ⟨hav, hcandidate, hheld⟩
  · rintro ⟨hav, hcandidate, hheld⟩
    exact ⟨not_held_changed hreview ha hapart hav hheld, hcandidate⟩

/-- In every history whose activations renew the records of a decision, its
health asks for attention because of the evidence only when the evidence of one
of them moved. In every history a publication asks so exactly when the run holds
the records of the decision, one of them under another observation than the one
that was reviewed, whether or not its evidence moved. -/
theorem alarms_moved_iff (sha : Sha256) (digest : Digest) (reader : DatetimeReader) (n : Naming) :
    (∀ cs, ∀ r ∈ (run sha digest reader n cs).audit.runs, ∀ d ∈ r.manifest.decisions,
      ∀ a, d.authority = some a →
      (∀ record, n.record record ∈ a.endpointIds →
        Along (step sha digest reader n) (Renewing sha record) State.empty cs) →
      ∀ x ∈ (run sha digest reader n cs).audit.snapshots, x.run = r.id →
        x.decisionRevision = d.id → Alarmed x.projection →
          Moved n (run sha digest reader n cs).ingestion r.manifest d a) ∧
    ∀ cs workspace id p t,
      publishRun sha digest workspace id p (run sha digest reader n cs).audit = .ok t →
      ∀ r, runOf workspace id (run sha digest reader n cs).audit = some r →
      ∀ d ∈ r.manifest.decisions, ∀ a, d.authority = some a →
      Apart digest n (run sha digest reader n cs).ingestion r a →
      ∀ x ∈ snapshotsOf t id, x.decisionRevision = d.id →
        (Alarmed x.projection ↔ Reobserved r.manifest p.result.diagnostics d a) := by
  constructor
  · intro cs r hr d hd a ha hrenewing x hx hrun hrev halarm
    have h : Good sha digest reader n (run sha digest reader n cs) := run_good cs
    obtain ⟨contract, diagnostics, he⟩ := snapshot_made h.audit hr hd ha hx hrun hrev
    rw [he, alarmed_iff] at halarm
    have hreview := h.traced.frozen r hr d hd
    obtain ⟨hav, hheld⟩ := changed_not_held h.ingestion.sound (h.audit.frozen r hr)
      (h.traced.inputs r hr) hreview ha halarm.1
    exact moved_of_distinct (h.traced.inputs r hr) hreview ha
      (fun record hrecord => run_distinct (hrenewing record hrecord)) hav hheld
  · intro cs workspace id p t hpub r hrun d hd a ha hapart x hx hrev
    have h : Good sha digest reader n (run sha digest reader n cs) := run_good cs
    obtain ⟨q, locked, rows, snapshots, occurrences, hq, _, _, hp⟩ := publishRun_ok hpub
    rw [hrun, Option.some.injEq] at hq
    subst hq
    obtain ⟨hr, hid, _⟩ := runOf_some hrun
    subst hid
    obtain ⟨contract, he⟩ := published_snapshot h.audit hr hp hd ha hx hrev
    rw [he]
    exact alarm_reobserved_iff h hr hd ha hapart contract _

end Health

def lengthSha : Sha256 where
  hexdigest bytes := if bytes.head? = some 123 then String.ofList (List.replicate 64 '0') else
    String.ofList (List.replicate 62 '0' ++ [hexDigit (bytes.length/16), hexDigit bytes.length])
  hex_length bytes := by
    split
    · rw [String.toList_ofList, List.length_replicate]
    · rw [String.toList_ofList, List.length_append, List.length_replicate]
      rfl
  hex_digits bytes c hc := by
    have hzero : ∀ k, c ∈ List.replicate k '0' → c ∈ hexDigits := by
      intro k h
      rw [List.eq_of_mem_replicate h]
      decide
    split at hc
    · rw [String.toList_ofList] at hc
      exact hzero 64 hc
    · rw [String.toList_ofList, List.mem_append] at hc
      rcases hc with hc | hc
      · exact hzero 62 hc
      · rcases List.mem_cons.mp hc with rfl | hc
        · exact List.get_mem _ _
        · rw [List.mem_singleton.mp hc]
          exact List.get_mem _ _

def tally (c : Char) (k : ℕ) : String := String.ofList (List.replicate (k+1) c)

theorem tally_nonblank {c : Char} (hc : isSpace c = false) (k : ℕ) :
    nonblank (tally c k) = true := by
  simp [nonblank, tally, List.replicate_succ, hc]

theorem tally_plain {c : Char} (hc : c ≠ Char.ofNat 0) (k : ℕ) : NulFree (tally c k) := by
  unfold NulFree tally
  rw [String.toList_ofList]
  intro h
  exact hc (List.eq_of_mem_replicate h).symm

theorem tally_injective (c : Char) : Function.Injective (tally c) := by
  intro k k' h
  have hl := congrArg List.length (String.ofList_injective h)
  rw [List.length_replicate, List.length_replicate] at hl
  omega

def tallied : Naming where
  record k := ⟨tally 'r' (2*k), tally_nonblank (by decide) _, tally_plain (by decide) _⟩
  observation k := ⟨tally 'o' k, tally_nonblank (by decide) k, tally_plain (by decide) k⟩
  side source := if source = 0 then .left else .right
  record_injective k k' h := by
    have h2 : 2*k = 2*k' := tally_injective 'r' (congrArg Uuid.text h)
    omega
  observation_injective k k' h := tally_injective 'o' (congrArg Uuid.text h)

def keyedContract : SourceContract :=
  { Observations.sampleContract with
    identityNamespace := "keyed sample"
    bindings := fun field => some (if field = .sourceRecordKey then .column "record key" (by decide)
      else .constant (Observations.sampleConstant field))
    identityNamespace_text := by decide
    bound := fun _ _ => rfl
    reference_bound := fun _ => rfl }

def activation (dataset attempt : ℕ) (base : Option ℕ) (keys : List String) :
    List Activation.Command :=
  [.readHead dataset,
    .createShell 1 dataset base ⟨["record key"], keys.map fun key => [key]⟩
      ⟨dataset, keyedContract, "contract"⟩ 2,
    .readAttempt attempt, .complete 1 attempt .received 3, .activate 1 attempt none 4]

def sampleWorkspaces : List Workspaces.Workspace := [⟨1, .active, 1000, none, none, ⟨0, 1, 0⟩⟩]

def acceptance : Decisions.DecisionCommand where
  request := .initial (.acceptUnmatched (tallied.record 0) .left)
  reason := "nothing opposite"
  actor := "the reviewer"
  expectedResolutionGeneration := 0
  reviewedObservationIds := [tallied.observation 0]
  reason_text := by decide
  actor_text := by decide
  reviewed_distinct := by decide
  reviewed_length := rfl
  conflicts_valid := trivial

def firstFiles : List Activation.Command :=
  [.elsewhere sampleWorkspaces [⟨1, 1, 0⟩] [], .createDataset 1 ⟨0, 1, 0⟩,
    .createDataset 1 ⟨1, 1, 1⟩] ++
  activation 0 0 none ["a"] ++ activation 1 1 none ["c"]

def reviewOnce : List PublicationRuns.Command :=
  [.review (.elsewhere sampleWorkspaces [⟨1, 1, 0⟩] [⟨0, 1, 1, true, 0⟩] [] []),
    .review (.initial 1 1 acceptance 5 ⟨"acceptance", by decide, by decide⟩
      ⟨"acceptance-1", by decide, by decide⟩)]

def unmatchedResult : EngineResult where
  leftRevisionId := "2"
  rightRevisionId := "1"
  matchingPolicyVersion := "1"
  comparisonPolicyVersion := "1"
  engineVersion := "e"
  solverVersion := "s"
  inputLeftIds := [tally 'o' 2, tally 'o' 3]
  inputRightIds := [tally 'o' 1]
  pairs := []
  unpaired := [⟨tally 'o' 2, .left, .acceptedUnmatched, "accepted", []⟩,
    ⟨tally 'o' 3, .left, .noCandidate, "alone", []⟩,
    ⟨tally 'o' 1, .right, .noCandidate, "alone", []⟩]
  candidates := []
  components := []
  diagnostics := []

def auditOnce : List PublicationRuns.Command :=
  [.createScope 0 1, .inputs [⟨1, 0⟩] [] [] [⟨0, 1, 1, 1, "p", "e", "s", .sharedMustAgree⟩],
    .createRun 1 0 7, .claim 1 0 none,
    .publish 1 0 ⟨unmatchedResult, "digest", none, 8, fun l => l, fun _ => List.Perm.refl _, false⟩]

def secondFile : List Activation.Command := activation 0 2 (some 0) ["a", "b"]

def rowAgain : List Sightings.Command :=
  firstFiles.map .ingest ++ reviewOnce.map .audit ++ secondFile.map .ingest ++ auditOnce.map .audit

structure Filling where
  logicals : List Decisions.LogicalTransaction
  observations : List Decisions.TransactionObservation
  datasets : List (ℕ × ℕ × ℕ × Option ℕ)
  revisions : List (ℕ × ℕ × List Member)
deriving DecidableEq

def filling (n : Naming) (i : Activation.Store) : Filling where
  logicals := i.logicals.filterMap (n.logical i)
  observations := i.observations.filterMap (n.row i)
  datasets := i.datasets.map fun d => (d.id, d.workspace, d.bookSource.book, d.current)
  revisions := i.revisions.map fun r => (r.id, r.dataset,
    (i.memberships.filter fun m => m.revision = r.id).filterMap (n.member i))

def fill (f : Filling) (a : Runs.Store) : Runs.Store :=
  { a with
    review := { a.review with
      logicals := f.logicals
      observations := f.observations }
    datasets := f.datasets.map fun d => ⟨d.1, d.2.1, d.2.2.1, d.2.2.2⟩
    revisions := f.revisions.map fun r => ⟨r.1, r.2.1, r.2.2⟩ }

theorem load_eq_fill (n : Naming) (i : Activation.Store) (a : Runs.Store) :
    load n i a = fill (filling n i) a := by
  unfold load fill filling
  simp only [List.map_map]
  rfl

theorem ingest_all {sha : Sha256} {digest : Digest} {reader : DatetimeReader} {n : Naming}
    (cs : List Activation.Command) {s : State} (h : s.audit = load n s.ingestion s.audit) :
    (cs.map Command.ingest).foldl (step sha digest reader n) s =
      ⟨cs.foldl (Activation.step sha reader) s.ingestion,
        load n (cs.foldl (Activation.step sha reader) s.ingestion) s.audit⟩ := by
  induction cs generalizing s with
  | nil =>
    show s = ⟨s.ingestion, load n s.ingestion s.audit⟩
    rw [← h]
  | cons c cs ih =>
    rw [List.map_cons, List.foldl_cons, List.foldl_cons, ih rfl]
    rfl

theorem audit_all {sha : Sha256} {digest : Digest} {reader : DatetimeReader} {n : Naming}
    (cs : List PublicationRuns.Command) (s : State) :
    (cs.map Command.audit).foldl (step sha digest reader n) s =
      ⟨s.ingestion, cs.foldl (fun a c =>
        load n s.ingestion (PublicationRuns.call sha digest a c)) s.audit⟩ := by
  induction cs generalizing s with
  | nil => rfl
  | cons c cs ih =>
    rw [List.map_cons, List.foldl_cons, List.foldl_cons, ih]
    rfl

def audited (sha : Sha256) (digest : Digest) (f : Filling) (cs : List PublicationRuns.Command)
    (a : Runs.Store) : Runs.Store :=
  cs.foldl (fun a c => fill f (PublicationRuns.call sha digest a c)) (fill f a)

theorem run_two_files {sha : Sha256} {digest : Digest} {reader : DatetimeReader} {n : Naming}
    {first second : List Activation.Command} {f g : Filling}
    (hf : filling n (Activation.run sha reader first) = f)
    (hg : filling n (Activation.run sha reader (first ++ second)) = g)
    (cs ds : List PublicationRuns.Command) :
    run sha digest reader n (first.map .ingest ++ cs.map .audit ++ second.map .ingest ++
      ds.map .audit) = ⟨Activation.run sha reader (first ++ second),
        audited sha digest g ds (audited sha digest f cs Runs.Store.empty)⟩ := by
  have hempty : State.empty.audit = load n State.empty.ingestion State.empty.audit := rfl
  unfold run audited
  rw [List.foldl_append, List.foldl_append, List.foldl_append, ingest_all first hempty, audit_all,
    ingest_all second, audit_all]
  · unfold Activation.run at hf hg ⊢
    rw [List.foldl_append] at hg ⊢
    subst hf
    subst hg
    simp only [load_eq_fill]
    rfl
  · cases cs using List.reverseRecOn with
    | nil => rfl
    | append_singleton cs c =>
      rw [List.map_append, List.foldl_append]
      rfl

def sightOf (k record : ℕ) : Member :=
  ⟨tallied.record record, tallied.observation k, tally '0' 63, some "1", .none⟩

def rowOf (k record : ℕ) : Decisions.TransactionObservation :=
  ⟨tallied.observation k, 1, tallied.record record, tally '0' 63⟩

def firstFilling : Filling :=
  ⟨[⟨tallied.record 0, 1, 1, .left⟩, ⟨tallied.record 1, 1, 1, .right⟩], [rowOf 0 0, rowOf 1 1],
    [(0, 1, 1, some 0), (1, 1, 1, some 1)], [(0, 0, [sightOf 0 0]), (1, 1, [sightOf 1 1])]⟩

def secondFilling : Filling :=
  ⟨[⟨tallied.record 0, 1, 1, .left⟩, ⟨tallied.record 1, 1, 1, .right⟩,
      ⟨tallied.record 2, 1, 1, .left⟩], [rowOf 0 0, rowOf 1 1, rowOf 2 0, rowOf 3 2],
    [(0, 1, 1, some 2), (1, 1, 1, some 1)],
    [(0, 0, [sightOf 0 0]), (1, 1, [sightOf 1 1]), (2, 0, [sightOf 2 0, sightOf 3 2])]⟩

def ingested (cs : List Activation.Command) : Activation.Store :=
  Activation.run lengthSha Observations.sampleReader cs

set_option maxRecDepth 100000 in
theorem filling_first : filling tallied (ingested firstFiles) = firstFilling := by decide +kernel

set_option maxRecDepth 100000 in
theorem filling_second : filling tallied (ingested (firstFiles ++ secondFile)) = secondFilling := by
  decide +kernel

theorem moved_rows {n : Naming} {i : Activation.Store} {m : Manifest} {d : DecisionRevision}
    {a : DecisionAuthority} {reader : DatetimeReader} (hs : ActivationLaws.Sound reader i)
    (h : Moved n i m d a) : ∃ row ∈ (filling n i).observations, row.id ∈ d.reviewedObservationIds ∧
      ∃ x ∈ heldInputs m a, x.logicalTransaction = row.logicalTransaction ∧
        x.fingerprint ≠ row.fingerprint := by
  obtain ⟨o, ho, hid, x, hx, hrecord, hf⟩ := h
  obtain ⟨l, hl, hlid⟩ := hs.linked o ho
  have hrow : n.row i o = some ⟨n.observation o.id, l.workspace, n.record l.id, o.fingerprint⟩ := by
    unfold Naming.row
    rw [← hlid, hs.logicals.lookup hl]
    rfl
  exact ⟨_, List.mem_filterMap.mpr ⟨o, ho, hrow⟩, hid, x, hx, hlid.symm ▸ hrecord, hf⟩

def auditedAgain : Runs.Store := audited lengthSha Json.checksum secondFilling auditOnce
  (audited lengthSha Json.checksum firstFilling reviewOnce Runs.Store.empty)

/-- The record is as it was reviewed, and its decision asks for attention because
of the evidence: it was observed again. -/
theorem row_again_alarms :
    ¬∀ (sha : Sha256) (digest : Digest) (reader : DatetimeReader) (n : Naming)
      (cs : List Sightings.Command), ∀ r ∈ (run sha digest reader n cs).audit.runs,
      ∀ d ∈ r.manifest.decisions, ∀ a, d.authority = some a →
      ∀ x ∈ (run sha digest reader n cs).audit.snapshots, x.run = r.id →
        x.decisionRevision = d.id → Alarmed x.projection →
          Moved n (run sha digest reader n cs).ingestion r.manifest d a := by
  intro h
  have hcase := h lengthSha Json.checksum Observations.sampleReader tallied rowAgain
  have hrun : run lengthSha Json.checksum Observations.sampleReader tallied rowAgain =
      ⟨ingested (firstFiles ++ secondFile), auditedAgain⟩ :=
    run_two_files filling_first filling_second reviewOnce auditOnce
  rw [hrun] at hcase
  have halarm : ∃ r ∈ auditedAgain.runs, ∃ d ∈ r.manifest.decisions,
      d.authority = some (.acceptUnmatched (tallied.record 0) .left) ∧
        ∃ x ∈ auditedAgain.snapshots, x.run = r.id ∧ x.decisionRevision = d.id ∧
          Alarmed x.projection ∧
          ¬∃ row ∈ secondFilling.observations, row.id ∈ d.reviewedObservationIds ∧
            ∃ x ∈ heldInputs r.manifest (.acceptUnmatched (tallied.record 0) .left),
              x.logicalTransaction = row.logicalTransaction ∧ x.fingerprint ≠ row.fingerprint := by
    decide +kernel
  obtain ⟨r, hr, d, hd, ha, x, hx, hrun, hrev, hasks, hnone⟩ := halarm
  have hmoved : Moved tallied (ingested (firstFiles ++ secondFile)) r.manifest d
      (.acceptUnmatched (tallied.record 0) .left) := hcase r hr d hd _ ha x hx hrun hrev hasks
  have hg : ActivationLaws.Good Observations.sampleReader lengthSha
      (ingested (firstFiles ++ secondFile)) := ActivationLaws.run_good _
  have hrows := moved_rows hg.sound hmoved
  rw [filling_second] at hrows
  exact hnone hrows

end Workbench.Alarms
