import Workbench.ActivationLaws
import Workbench.ScopeViews

/-!
# Reviewed evidence and activations

Runs and decisions refer to the observations that activations make. Every row
of an activated file makes a new observation of its record, whether or not its
evidence is new, and the digest of reviewed evidence names the observations.
-/

set_option autoImplicit false

namespace Workbench.Sightings
open Workbench.Listing Workbench.Tables Workbench.Calendar Workbench.Records Workbench.Json
open Workbench.Ingestion Workbench.Interpretation Workbench.Evidence Workbench.Review
open Workbench.Upserts Workbench.Runs Workbench.Publications
open Workbench.PublicationFrames Workbench.PublicationRuns Workbench.ScopeViews
open Workbench.Decisions (Uuid DecisionRevision DecisionAuthority reviewedEvidenceDigest)
open Workbench.Raising (bind_ok map_ok mapM_ok fetch demand_ok fetch_ok)

/-- The identifiers drawn for records and for observations, no two alike, and
the sides of the sources of books. -/
structure Naming where
  record : ℕ → Uuid
  observation : ℕ → Uuid
  side : ℕ → RecordSide
  record_injective : Function.Injective record
  observation_injective : Function.Injective observation

structure State where
  ingestion : Activation.Store
  audit : Runs.Store

def State.empty : State := ⟨Activation.empty, Runs.Store.empty⟩

section Loading
variable (n : Naming) (i : Activation.Store)

def Naming.logical (l : Activation.LogicalTransaction) : Option Decisions.LogicalTransaction :=
  (i.datasets.find? fun d => d.bookSource.id = l.bookSource).map fun d =>
    ⟨n.record l.id, l.workspace, d.bookSource.book, n.side l.bookSource⟩

def Naming.row (o : Activation.TransactionObservation) : Option Decisions.TransactionObservation :=
  (lookup Activation.LogicalTransaction.id i.logicals o.logical).map fun l =>
    ⟨n.observation o.id, l.workspace, n.record l.id, o.fingerprint⟩

def Naming.member (m : Activation.DatasetMembership) : Option Member := do
  let o ← lookup Activation.TransactionObservation.id i.observations m.observation
  let a ← lookup Activation.Attempt.id i.attempts o.attempt
  some ⟨n.record m.logical, n.observation o.id, o.fingerprint, o.row.businessReference,
    a.contractRevision.contract.referenceSemantics⟩

def Naming.revision (r : Activation.DatasetRevision) : DatasetRevision :=
  ⟨r.id, r.dataset, (i.memberships.filter fun m => m.revision = r.id).filterMap (n.member i)⟩

def load (a : Runs.Store) : Runs.Store :=
  { a with
    review := { a.review with
      logicals := i.logicals.filterMap (n.logical i)
      observations := i.observations.filterMap (n.row i) }
    datasets := i.datasets.map fun d => ⟨d.id, d.workspace, d.bookSource.book, d.current⟩
    revisions := i.revisions.map (n.revision i) }

end Loading

/-- A command of an ingestion service, or a transaction of the other services;
only ingestion changes records, observations and datasets. -/
inductive Command where
  | ingest (c : Activation.Command)
  | audit (c : PublicationRuns.Command)

section Steps
variable (sha : Sha256) (digest : Digest) (reader : DatetimeReader) (n : Naming)

def step (s : State) : Command → State
  | .ingest c =>
    let i := Activation.step sha reader s.ingestion c
    ⟨i, load n i s.audit⟩
  | .audit c => ⟨s.ingestion, load n s.ingestion (PublicationRuns.call sha digest s.audit c)⟩

def run (cs : List Command) : State := cs.foldl (step sha digest reader n) State.empty

end Steps

/-- A health that asks for attention because of the evidence. -/
def Alarmed (p : DecisionHealthProjection) : Prop :=
  p.health = .evidenceChanged ∨ .comparisonChanged ∈ p.attention

/-- The evidence of a reviewed record differs from the one it was reviewed with. -/
def Moved (n : Naming) (i : Activation.Store) (m : Manifest) (d : DecisionRevision)
    (a : DecisionAuthority) : Prop :=
  ∃ o ∈ i.observations, n.observation o.id ∈ d.reviewedObservationIds ∧
    ∃ x ∈ heldInputs m a, x.logicalTransaction = n.record o.logical ∧ x.fingerprint ≠ o.fingerprint

instance alarmed_decidable (p : DecisionHealthProjection) : Decidable (Alarmed p) :=
  instDecidableOr

instance moved_decidable (n : Naming) (i : Activation.Store) (m : Manifest) (d : DecisionRevision)
    (a : DecisionAuthority) : Decidable (Moved n i m d a) :=
  inferInstanceAs (Decidable (∃ o ∈ i.observations, _ ∧ ∃ x ∈ heldInputs m a, _ ∧ _))

def HeldAsReviewed (m : Manifest) (d : DecisionRevision) (a : DecisionAuthority) : Prop :=
  ∀ id ∈ d.reviewedObservationIds, ∃ x ∈ heldInputs m a, x.observation = id

def HasCandidate (m : Manifest) (a : DecisionAuthority)
    (diagnostics : List DecisionHealthDiagnostic) : Prop :=
  match a with
  | .acceptUnmatched _ _ => ∃ d ∈ diagnosticsOf (heldInputs m a) diagnostics,
      d.kind = .acceptedUnmatchedCandidate
  | _ => False

/-- The run holds every record of the decision, one of them under another
observation than the one that was reviewed, and no candidate comes first. -/
def Reobserved (m : Manifest) (diagnostics : List DecisionHealthDiagnostic) (d : DecisionRevision)
    (a : DecisionAuthority) : Prop :=
  endpointsAvailable m a = true ∧ ¬HasCandidate m a diagnostics ∧ ¬HeldAsReviewed m d a

/-- The rows of an attempt about a record carry evidence that the record has not
been observed with. -/
def Renews (sha : Sha256) (i : Activation.Store) (attempt record : ℕ) : Prop :=
  ∀ a ∈ i.attempts, a.id = attempt → ∀ dataset ∈ i.datasets, dataset.id = a.dataset →
    ∀ evidence, Activation.gather sha i a = .ok evidence → ∀ o, .observed o ∈ evidence →
      ∀ l ∈ i.logicals, l.id = record → l.bookSource = dataset.bookSource.id →
        l.sourceRecordKey = o.key →
          ∀ old ∈ i.observations, old.logical = record → old.fingerprint ≠ o.fingerprint

/-- An activation that makes a revision renews the record. -/
def Renewing (sha : Sha256) (record : ℕ) (s : State) : Command → Prop
  | .ingest (.activate workspace attempt reason now) => ∀ t r,
      Activation.activate sha s.ingestion workspace attempt reason now = .ok (t, some r) →
        Renews sha s.ingestion attempt record
  | _ => True

section Digests
variable {digest : Digest} {xs ys : List Decisions.TransactionObservation}

def evidenceValue (o : Decisions.TransactionObservation) : Value := .object [
  ("fingerprint", .text o.fingerprint),
  ("logical_transaction_id", .text o.logicalTransaction.text),
  ("observation_id", .text o.id.text)]

def evidenceText (observations : List Decisions.TransactionObservation) : String :=
  dumps (.object [
    ("observations", .array ((sortOn (·.id.text) observations).map evidenceValue)),
    ("version", .text "reviewed-evidence-v1")])

theorem reviewedEvidenceDigest_eq : reviewedEvidenceDigest digest xs =
    digest.hexdigest (evidenceText xs) := rfl

def sighting (o : Decisions.TransactionObservation) : Uuid × Uuid × String :=
  (o.id, o.logicalTransaction, o.fingerprint)

def sightingValue (x : Uuid × Uuid × String) : Value := .object [
  ("fingerprint", .text x.2.2),
  ("logical_transaction_id", .text x.2.1.text),
  ("observation_id", .text x.1.text)]

theorem sorted_sightings (xs : List Decisions.TransactionObservation) :
    (sortOn (·.id.text) xs).map sighting = sortOn (·.1.text) (xs.map sighting) := by
  unfold sortOn
  exact List.map_insertionSort _ _ _ _ fun _ _ _ _ => Iff.rfl

theorem evidenceText_congr (hx : (xs.map (·.id)).Nodup)
    (h : (xs.map sighting).Perm (ys.map sighting)) : evidenceText xs = evidenceText ys := by
  have hkeys : ((xs.map sighting).map fun x => x.1.text).Nodup := by
    rw [List.map_map]
    have he : ((fun x : Uuid × Uuid × String => x.1.text) ∘ sighting) =
        Uuid.text ∘ fun o : Decisions.TransactionObservation => o.id := rfl
    rw [he, ← List.map_map]
    exact hx.map Decisions.Uuid.text_injective
  have hvalues : ∀ zs : List Decisions.TransactionObservation,
      (sortOn (·.id.text) zs).map evidenceValue =
        (sortOn (·.1.text) (zs.map sighting)).map sightingValue := by
    intro zs
    rw [← sorted_sightings, List.map_map]
    rfl
  unfold evidenceText
  rw [hvalues, hvalues, sortOn_eq_of_perm _ h hkeys]

theorem evidenceText_ids (h : evidenceText xs = evidenceText ys) (id : Uuid) :
    id ∈ xs.map (·.id) ↔ id ∈ ys.map (·.id) := by
  have hv := dumps_injective h
  simp only [Value.object.injEq, List.cons.injEq, Prod.mk.injEq, Value.array.injEq, true_and,
    and_true] at hv
  have hid : ∀ zs : List Decisions.TransactionObservation,
      id ∈ zs.map (·.id) ↔ ∃ v ∈ (sortOn (·.id.text) zs).map evidenceValue,
        ∃ f l, v = .object [("fingerprint", .text f), ("logical_transaction_id", .text l),
          ("observation_id", .text id.text)] := by
    intro zs
    constructor
    · intro hm
      obtain ⟨o, ho, rfl⟩ := List.mem_map.mp hm
      exact ⟨_, List.mem_map.mpr ⟨o, (mem_sortOn _ _ _).mpr ho, rfl⟩, _, _, rfl⟩
    · intro hm
      obtain ⟨v, hv, f, l, rfl⟩ := hm
      obtain ⟨o, ho, he⟩ := List.mem_map.mp hv
      simp only [evidenceValue, Value.object.injEq, List.cons.injEq, Prod.mk.injEq,
        Value.text.injEq, true_and, and_true] at he
      exact List.mem_map.mpr ⟨o, (mem_sortOn _ _ _).mp ho, Decisions.Uuid.text_injective he.2.2⟩
  rw [hid, hid, hv]

end Digests

section Ingestion
variable {sha : Sha256} {reader : DatetimeReader} {i j : Activation.Store} {n : Naming}

theorem created_committed {workspace attempt : ℕ} {reason : Option String} {now : Instant}
    {r : Activation.DatasetRevision}
    (h : Activation.activate sha i workspace attempt reason now = .ok (j, some r)) :
    ∃ a ∈ i.attempts, ∃ dataset ∈ i.datasets, ∃ p reason logicals observations, a.id = attempt ∧
      dataset.id = a.dataset ∧ Activation.gather sha i a = .ok p.evidence ∧
      ActivationLaws.Committed i dataset a reason p j r logicals observations := by
  simp only [Activation.activate, bind_ok, demand_ok, fetch_ok] at h
  obtain ⟨normalized, _, _, _, _, _, a, ha, _, _, _, _, dataset, hd, _, _, _, _, p, hp, h⟩ := h
  split at h
  · cases (Prod.mk.inj (Except.ok.inj h)).2
  · split at h
    · cases (Prod.mk.inj (Except.ok.inj h)).2
    · simp only [bind_ok] at h
      obtain ⟨created, hc, he⟩ := h
      obtain ⟨rfl, hr⟩ := Prod.mk.inj (Except.ok.inj he)
      obtain rfl := Option.some.inj hr
      obtain ⟨logicals, observations, hcommitted⟩ := ActivationLaws.commit_ok hc
      simp only [Activation.propose, bind_ok] at hp
      obtain ⟨evidence, hg, _, _, hp⟩ := hp
      obtain rfl := Except.ok.inj hp
      exact ⟨a, mem_of_lookup ha, dataset, mem_of_lookup hd, _, normalized, logicals, observations,
        key_of_lookup ha, key_of_lookup hd, hg, hcommitted⟩

/-- Only an activation with a revision adds observations. -/
theorem step_observations (c : Activation.Command) :
    (Activation.step sha reader i c).observations = i.observations ∨
      ∃ workspace attempt reason now t r, c = .activate workspace attempt reason now ∧
        Activation.activate sha i workspace attempt reason now = .ok (t, some r) ∧
        Activation.step sha reader i c = t := by
  cases c with
  | readHead => exact .inl rfl
  | readAttempt => exact .inl rfl
  | createDataset => exact .inl rfl
  | elsewhere => exact .inl rfl
  | createShell workspace dataset base artifact contract now =>
    refine .inl ?_
    simp only [Activation.step]
    cases h : Activation.createShell i workspace dataset base artifact contract now with
    | error e => rfl
    | ok t =>
      simp only [Activation.createShell, bind_ok] at h
      obtain ⟨_, _, _, _, _, _, _, _, _, _, _, _, _, _, he⟩ := h
      rw [← Except.ok.inj he]
      rfl
  | complete workspace attempt read now =>
    refine .inl ?_
    simp only [Activation.step]
    cases h : Activation.complete reader i workspace attempt read now with
    | error e => rfl
    | ok t =>
      simp only [Activation.complete, bind_ok] at h
      obtain ⟨_, _, _, _, _, _, _, _, _, _, _, _, _, _, _, _, he⟩ := h
      rw [← Except.ok.inj he]
      rfl
  | activate workspace attempt reason now =>
    simp only [Activation.step]
    cases h : Activation.activate sha i workspace attempt reason now with
    | error e => exact .inl rfl
    | ok x =>
      obtain ⟨t, result⟩ := x
      cases result with
      | some r => exact .inr ⟨workspace, attempt, reason, now, t, r, rfl, h, rfl⟩
      | none =>
        refine .inl ?_
        obtain ⟨a, _, dataset, _, p, _, _, _, _, _, hended⟩ := ActivationLaws.activate_ok h
        show t.observations = i.observations
        cases hended <;> rfl

theorem step_keeps_observations (c : Activation.Command) {o : Activation.TransactionObservation}
    (ho : o ∈ i.observations) : o ∈ (Activation.step sha reader i c).observations := by
  rcases @step_observations sha reader i c with h | h
  · exact h ▸ ho
  · obtain ⟨workspace, attempt, reason, now, t, r, _, hact, he⟩ := h
    obtain ⟨_, _, _, _, _, _, _, _, _, _, _, hc⟩ := created_committed hact
    rw [he, hc.newObservations]
    exact List.mem_append_left _ ho

def Distinct (record : ℕ) (i : Activation.Store) : Prop :=
  ∀ o ∈ i.observations, ∀ o' ∈ i.observations, o.logical = record → o'.logical = record →
    o.fingerprint = o'.fingerprint → o = o'

theorem gather_keys {a : Activation.Attempt} {evidence : List Activation.Evidence}
    (h : Activation.gather sha i a = .ok evidence) :
    (evidence.map Activation.Evidence.key).Nodup := by
  simp only [Activation.gather, bind_ok, demand_ok] at h
  obtain ⟨_, _, _, _, _, hkeys, he⟩ := h
  exact Except.ok.inj he ▸ hkeys

/-- An activation observes a record once, and a renewed one under new evidence. -/
theorem created_distinct (hs : ActivationLaws.Sound reader i) {record : ℕ}
    (hd : Distinct record i) {dataset : Activation.Dataset} (hdataset : dataset ∈ i.datasets)
    {a : Activation.Attempt} (ha : a ∈ i.attempts) (hid : dataset.id = a.dataset)
    {reason : Option String} {p : Activation.Proposal} {r : Activation.DatasetRevision}
    {logicals : List Activation.LogicalTransaction}
    {observations : List Activation.TransactionObservation}
    (hg : Activation.gather sha i a = .ok p.evidence)
    (hc : ActivationLaws.Committed i dataset a reason p j r logicals observations)
    (hrenews : Renews sha i a.id record) : Distinct record j := by
  have hmade := ActivationLaws.committed_made hc
  have hgrows := ActivationLaws.committed_grows hs hc
  have hnodup := hgrows.logicalIds.nodup
  have hkeys := ActivationLaws.observedOf_keys (gather_keys hg)
  have hnew : ∀ o ∈ observations, ∃ x, (x, o) ∈ (ActivationLaws.observedOf p.evidence).zip
      observations ∧ .observed x ∈ p.evidence ∧ o.fingerprint = x.fingerprint ∧
      ∃ l ∈ j.logicals, l.bookSource = dataset.bookSource.id ∧ l.sourceRecordKey = x.key ∧
        o.logical = l.id := by
    intro o ho
    obtain ⟨x, hx⟩ := ActivationLaws.exists_observed hmade ho
    obtain ⟨hobserved, _, hm⟩ := ActivationLaws.zip_made hmade hx
    obtain ⟨l, hl, hlogical⟩ := hm.logical
    obtain ⟨hlm, hsource, hkey⟩ := ActivationLaws.logicalOf_some hl
    exact ⟨x, hx, hobserved, hm.fingerprint, l, hc.newLogicals ▸ hlm, hsource, hkey, hlogical⟩
  have hmixed : ∀ o ∈ observations, ∀ old ∈ i.observations, o.logical = record →
      old.logical = record → old.fingerprint ≠ o.fingerprint := by
    intro o ho old hold hl hl'
    obtain ⟨x, _, hx, hf, l, hlm, hsource, hkey, hol⟩ := hnew o ho
    obtain ⟨l₀, hl₀, hid₀⟩ := hs.linked old hold
    have hsame : l₀ = l := eq_of_key_eq Activation.LogicalTransaction.id hnodup
      (hgrows.logicals l₀ hl₀) hlm (hid₀.trans (hl'.trans (hl.symm.trans hol)))
    subst hsame
    rw [hf]
    exact hrenews a ha rfl dataset hdataset hid _ hg x hx l₀ hl₀ (hol.symm.trans hl) hsource
      hkey old hold hl'
  intro o ho o' ho' hl hl' hf
  rw [hc.newObservations] at ho ho'
  rcases List.mem_append.mp ho with ho | ho <;> rcases List.mem_append.mp ho' with ho' | ho'
  · exact hd o ho o' ho' hl hl' hf
  · exact absurd hf (hmixed o' ho' o ho hl' hl)
  · exact absurd hf.symm (hmixed o ho o' ho' hl hl')
  · obtain ⟨x, hx, _, _, l, hlm, _, hkey, hol⟩ := hnew o ho
    obtain ⟨x', hx', _, _, l', hlm', _, hkey', hol'⟩ := hnew o' ho'
    have hsame : l = l' := eq_of_key_eq Activation.LogicalTransaction.id hnodup hlm hlm'
      (hol.symm.trans (hl.trans (hl'.symm.trans hol')))
    have hzip : (((ActivationLaws.observedOf p.evidence).zip observations).map
        fun q => q.1.key).Nodup := by
      have hfst := List.map_fst_zip hmade.length_eq.le
      rw [← hfst, List.map_map] at hkeys
      exact hkeys
    have hpair := eq_of_key_eq (fun q : Activation.Observed × Activation.TransactionObservation =>
      q.1.key) hzip hx hx' (hkey.symm.trans ((congrArg _ hsame).trans hkey'))
    exact congrArg Prod.snd hpair

end Ingestion

section Reviews
variable {digest : Digest} {workspace book : ℕ} {s t : Decisions.Store}
  {command : Decisions.DecisionCommand} {a : DecisionAuthority}
  {logicals : List Decisions.LogicalTransaction} {rows : List Decisions.TransactionObservation}

/-- The observations a decision was reviewed with: at least one of every record
it names, and of no other. -/
structure Covers (rows : List Decisions.TransactionObservation) (a : DecisionAuthority) : Prop where
  ids : (rows.map (·.id)).Nodup
  named : ∀ row ∈ rows, row.logicalTransaction ∈ a.endpointIds
  complete : ∀ id ∈ a.endpointIds, ∃ row ∈ rows, row.logicalTransaction = id

theorem resolveAuthority_ids (h : Decisions.resolveAuthority workspace book a s = .ok logicals) :
    logicals.map (·.id) = a.endpointIds := by
  simp only [Decisions.resolveAuthority, bind_ok, demand_ok] at h
  obtain ⟨ls, hls, _, _, _, _, he⟩ := h
  obtain rfl := Except.ok.inj he
  have hall := mapM_ok.mp hls
  have hfound : ∀ {ids : List Uuid} {found : List Decisions.LogicalTransaction},
      List.Forall₂ (fun id l => fetch Decisions.DecisionFailure.mutationUnavailable
        (Decisions.logicalOf workspace s id) = .ok l) ids found → found.map (·.id) = ids := by
    intro ids found h
    induction h with
    | nil => rfl
    | cons hab _ ih =>
      rw [fetch_ok] at hab
      have hp := List.find?_some hab
      simp only [Bool.and_eq_true, decide_eq_true_eq] at hp
      rw [List.map_cons, ih, hp.1]
  exact hfound hall

theorem resolveReviewed_covers (hn : (s.observations.map (·.id)).Nodup)
    (ha : Decisions.resolveAuthority workspace book a s = .ok logicals)
    (h : Decisions.resolveReviewed workspace command logicals s = .ok rows) :
    Covers rows a ∧ ∀ row ∈ rows, row ∈ s.observations := by
  have hids := resolveAuthority_ids ha
  simp only [Decisions.resolveReviewed, bind_ok, demand_ok] at h
  obtain ⟨_, _, _, hnamed, _, hall, he⟩ := h
  rw [← Except.ok.inj he]
  rw [hids] at hnamed
  refine ⟨⟨?_, ?_, ?_⟩, ?_⟩
  · rw [nodup_map_sortOn]
    exact hn.sublist (List.Sublist.map _ List.filter_sublist)
  · intro row hrow
    exact of_decide_eq_true (List.all_eq_true.mp hnamed row hrow)
  · intro id hid
    rw [← hids] at hid
    obtain ⟨l, hl, rfl⟩ := List.mem_map.mp hid
    obtain ⟨row, hrow, he⟩ := List.mem_map.mp (of_decide_eq_true (List.all_eq_true.mp hall l hl))
    exact ⟨row, hrow, he⟩
  · intro row hrow
    exact (List.mem_filter.mp ((mem_sortOn _ _ _).mp hrow)).1

theorem endpointIds_ne_nil (a : DecisionAuthority) : ∃ id, id ∈ a.endpointIds := by
  cases a with
  | link pair => exact ⟨_, List.mem_cons_self⟩
  | acceptUnmatched record side => exact ⟨_, List.mem_cons_self⟩
  | rejectCandidate pair => exact ⟨_, List.mem_cons_self⟩

theorem Covers.ne_nil (h : Covers rows a) : rows ≠ [] := by
  obtain ⟨id, hid⟩ := endpointIds_ne_nil a
  obtain ⟨row, hrow, _⟩ := h.complete id hid
  exact List.ne_nil_of_mem hrow

/-- A revision that carries an authority stores the observations it was reviewed
with and their digest. -/
def ReviewOf (digest : Digest) (from_rows : Decisions.TransactionObservation → Prop)
    (d : DecisionRevision) : Prop :=
  ∀ a, d.authority = some a → ∃ rows, Covers rows a ∧ (∀ row ∈ rows, from_rows row) ∧
    d.reviewedObservationIds = rows.map (·.id) ∧
    d.reviewedEvidenceDigest = some (reviewedEvidenceDigest digest rows)

theorem lifecycle_review {current : DecisionRevision} {now : Instant} {id : Uuid}
    (hc : Covers rows a) (hr : ∀ row ∈ rows, row ∈ s.observations) :
    ReviewOf digest (· ∈ s.observations)
      (Decisions.lifecycleRevision digest workspace current command (some a) rows now id) := by
  intro b hb
  obtain rfl := Option.some.inj hb
  exact ⟨rows, hc, hr, rfl, if_neg hc.ne_nil⟩

theorem commitInitial_reviews (hn : (s.observations.map (·.id)).Nodup) {now : Instant}
    {decisionId revisionId : Uuid}
    (h : Decisions.commitInitial digest workspace book command now decisionId revisionId s =
      .ok t) : ∃ d, t.revisions = s.revisions ++ [d] ∧ ReviewOf digest (· ∈ s.observations) d := by
  unfold Decisions.commitInitial at h
  split at h
  case h_2 => cases h
  case h_1 a hreq =>
    simp only [bind_ok, demand_ok] at h
    obtain ⟨_, _, b, _, _, _, logicals, hl, observations, ho, _, _, _, _, s1, h1, s2, h2, he⟩ := h
    obtain ⟨_, rfl⟩ := DecisionStore.addRevision_ok h1
    obtain ⟨_, rfl⟩ := DecisionStore.addClaims_ok h2
    obtain rfl := Except.ok.inj he
    obtain ⟨hcovers, hrows⟩ := resolveReviewed_covers hn hl ho
    refine ⟨_, rfl, ?_⟩
    intro b hb
    obtain rfl := Option.some.inj hb
    exact ⟨observations, hcovers, hrows, rfl, rfl⟩

theorem commitChange_reviews (hn : (s.observations.map (·.id)).Nodup) {now : Instant}
    {revisionId : Uuid}
    (h : Decisions.commitChange digest workspace book command now revisionId s = .ok t) :
    ∃ d, t.revisions = s.revisions ++ [d] ∧ ReviewOf digest (· ∈ s.observations) d := by
  simp only [Decisions.commitChange, bind_ok] at h
  obtain ⟨target, _, _, _, b, _, _, _, current, _, inherited, _, h⟩ := h
  split at h
  case h_1 => cases h
  case h_2 =>
    simp only [bind_ok] at h
    obtain ⟨logicals, hl, observations, ho, s1, h1, he⟩ := h
    obtain ⟨_, rfl⟩ := DecisionStore.addRevision_ok h1
    obtain rfl := Except.ok.inj he
    obtain ⟨hcovers, hrows⟩ := resolveReviewed_covers hn hl ho
    exact ⟨_, rfl, lifecycle_review hcovers hrows⟩
  case h_3 =>
    simp only [bind_ok] at h
    obtain ⟨s1, h1, he⟩ := h
    obtain ⟨_, rfl⟩ := DecisionStore.addRevision_ok h1
    obtain rfl := Except.ok.inj he
    exact ⟨_, rfl, fun a ha => by cases ha⟩
  case h_4 =>
    simp only [bind_ok, demand_ok, Decisions.supersede] at h
    obtain ⟨logicals, hl, observations, ho, _, _, s1, h1, s2, ⟨_, _, h2⟩, s3, h3, he⟩ := h
    obtain ⟨_, rfl⟩ := DecisionStore.addRevision_ok h1
    obtain rfl := Except.ok.inj h2
    obtain ⟨_, rfl⟩ := DecisionStore.addClaims_ok h3
    obtain rfl := Except.ok.inj he
    obtain ⟨hcovers, hrows⟩ := resolveReviewed_covers hn hl ho
    exact ⟨_, rfl, lifecycle_review hcovers hrows⟩

theorem decided_reviews (hn : (s.observations.map (·.id)).Nodup) (c : Decisions.Command) :
    ∀ d ∈ (Decisions.call digest s c).revisions,
      d ∈ s.revisions ∨ ReviewOf digest (· ∈ s.observations) d := by
  apply settle_keeps (P := fun t : Decisions.Store => ∀ d ∈ t.revisions,
    d ∈ s.revisions ∨ ReviewOf digest (· ∈ s.observations) d) fun d hd => .inl hd
  intro t ht
  have hnew : ∀ d, t.revisions = s.revisions ++ [d] → ReviewOf digest (· ∈ s.observations) d →
      ∀ x ∈ t.revisions, x ∈ s.revisions ∨ ReviewOf digest (· ∈ s.observations) x := by
    intro d ht hd x hx
    rw [ht] at hx
    rcases List.mem_append.mp hx with hx | hx
    · exact .inl hx
    · exact .inr (List.mem_singleton.mp hx ▸ hd)
  cases c with
  | initial workspace book command now decisionId revisionId =>
    obtain ⟨d, he, hd⟩ := commitInitial_reviews hn ht
    exact hnew d he hd
  | change workspace book command now revisionId =>
    obtain ⟨d, he, hd⟩ := commitChange_reviews hn ht
    exact hnew d he hd
  | elsewhere =>
    rw [← Except.ok.inj ht]
    exact fun d hd => .inl hd

end Reviews

section Traces
variable {sha : Sha256} {digest : Digest} {reader : DatetimeReader} {n : Naming}
  {i : Activation.Store} {s : State}

def Seen (n : Naming) (i : Activation.Store) (record observation : Uuid) (fingerprint : String) :
    Prop :=
  ∃ o ∈ i.observations, observation = n.observation o.id ∧ record = n.record o.logical ∧
    fingerprint = o.fingerprint

def RowSeen (n : Naming) (i : Activation.Store) (row : Decisions.TransactionObservation) : Prop :=
  Seen n i row.logicalTransaction row.id row.fingerprint

structure Traced (digest : Digest) (n : Naming) (s : State) : Prop where
  loaded : s.audit = load n s.ingestion s.audit
  inputs : ∀ r ∈ s.audit.runs, ∀ x ∈ r.manifest.inputs,
    Seen n s.ingestion x.logicalTransaction x.observation x.fingerprint
  frozen : ∀ r ∈ s.audit.runs, ∀ d ∈ r.manifest.decisions,
    ReviewOf digest (RowSeen n s.ingestion) d
  reviewed : ∀ d ∈ s.audit.review.revisions, ReviewOf digest (RowSeen n s.ingestion) d

theorem row_some {o : Activation.TransactionObservation} {row : Decisions.TransactionObservation}
    (h : n.row i o = some row) : row.id = n.observation o.id ∧
      row.logicalTransaction = n.record o.logical ∧ row.fingerprint = o.fingerprint := by
  obtain ⟨l, hl, rfl⟩ := Option.map_eq_some_iff.mp h
  exact ⟨rfl, congrArg n.record (key_of_lookup hl), rfl⟩

theorem loaded_seen {a : Runs.Store} {row : Decisions.TransactionObservation}
    (h : row ∈ (load n i a).review.observations) : RowSeen n i row := by
  obtain ⟨o, ho, hrow⟩ := List.mem_filterMap.mp h
  obtain ⟨hid, hlogical, hf⟩ := row_some hrow
  exact ⟨o, ho, hid, hlogical, hf⟩

theorem loaded_ids (hs : ActivationLaws.Sound reader i) (a : Runs.Store) :
    ((load n i a).review.observations.map (·.id)).Nodup := by
  have hids := hs.observations.nodup
  rw [List.Nodup, List.pairwise_map] at hids ⊢
  refine List.pairwise_filterMap.mpr (hids.imp ?_)
  intro o o' hne row hrow row' hrow' he
  rw [(row_some hrow).1, (row_some hrow').1] at he
  exact hne (n.observation_injective he)

theorem member_seen (hs : ActivationLaws.Sound reader i) {m : Activation.DatasetMembership}
    (hm : m ∈ i.memberships) {x : Member} (h : n.member i m = some x) :
    Seen n i x.logicalTransaction x.observation x.fingerprint := by
  simp only [Naming.member, Option.bind_eq_bind, Option.bind_eq_some_iff] at h
  obtain ⟨o, ho, _, _, he⟩ := h
  obtain rfl := Option.some.inj he
  obtain ⟨_, l, _, hl, o', ho', hid, hlogical⟩ := hs.memberships m hm
  have hsame : o' = o := eq_of_key_eq Activation.TransactionObservation.id hs.observations.nodup ho'
    (mem_of_lookup ho) (hid.trans (key_of_lookup ho).symm)
  subst hsame
  exact ⟨o', ho', rfl, congrArg n.record (hl.symm.trans hlogical.symm), rfl⟩

theorem members_seen (hs : ActivationLaws.Sound reader i) {a : Runs.Store} {revision : ℕ}
    {x : Member} (h : x ∈ membersOf revision (load n i a)) :
    Seen n i x.logicalTransaction x.observation x.fingerprint := by
  unfold membersOf at h
  cases hr : lookup DatasetRevision.id (load n i a).revisions revision with
  | none =>
    rw [hr] at h
    cases h
  | some r =>
    rw [hr, Option.map_some, Option.getD_some] at h
    obtain ⟨q, _, rfl⟩ := List.mem_map.mp (mem_of_lookup hr)
    obtain ⟨m, hm, hx⟩ := List.mem_filterMap.mp h
    exact member_seen hs (List.mem_filter.mp hm).1 hx

theorem inputs_seen (hs : ActivationLaws.Sound reader i) {a : Runs.Store} {left right : ℕ}
    {x : RunInput} (h : x ∈ inputsOf left right (load n i a)) :
    Seen n i x.logicalTransaction x.observation x.fingerprint := by
  rcases List.mem_append.mp h with h | h
  · obtain ⟨m, hm, rfl⟩ := List.mem_map.mp h
    exact members_seen hs hm
  · obtain ⟨m, hm, rfl⟩ := List.mem_map.mp h
    exact members_seen hs hm

/-- A run has the manifest of an old one, or one frozen now from stored revisions. -/
theorem call_manifests {a : Runs.Store} (hc : DecisionStore.Consistent a.review)
    (c : PublicationRuns.Command) : ∀ q ∈ (PublicationRuns.call sha digest a c).runs,
      (∃ r ∈ a.runs, r.manifest = q.manifest) ∨
        (∃ left right, q.manifest.inputs = inputsOf left right a) ∧
          ∀ d ∈ q.manifest.decisions, d ∈ a.review.revisions := by
  apply settle_keeps (P := fun t : Runs.Store => ∀ q ∈ t.runs,
    (∃ r ∈ a.runs, r.manifest = q.manifest) ∨
      (∃ left right, q.manifest.inputs = inputsOf left right a) ∧
        ∀ d ∈ q.manifest.decisions, d ∈ a.review.revisions) fun q hq => .inl ⟨q, hq, rfl⟩
  intro t ht q hq
  have hrevised : ∀ {run : ℕ} {f : Run → Run}, (∀ r, (f r).manifest = r.manifest) →
      q ∈ revise Run.id run f a.runs → ∃ r ∈ a.runs, r.manifest = q.manifest := by
    intro run f hf hq
    obtain ⟨r, hr, rfl⟩ := mem_revise.mp hq
    refine ⟨r, hr, ?_⟩
    by_cases hid : r.id = run
    · rw [if_pos hid, hf]
    · rw [if_neg hid]
  cases c with
  | review c =>
    obtain rfl := Except.ok.inj ht
    exact .inl ⟨q, hq, rfl⟩
  | inputs books datasets revisions policies =>
    obtain rfl := Except.ok.inj ht
    exact .inl ⟨q, hq, rfl⟩
  | createScope left right =>
    obtain rfl := Except.ok.inj ht
    exact .inl ⟨q, hq, rfl⟩
  | createRun workspace scope now =>
    obtain ⟨⟨u, r⟩, hu, rfl⟩ := map_ok.mp ht
    simp only [createRunManifest, bind_ok] at hu
    obtain ⟨_, _, locked, _, m, hm, hu⟩ := hu
    split at hu
    case h_1 =>
      obtain ⟨rfl, _⟩ := Prod.mk.inj (Except.ok.inj hu)
      exact .inl ⟨q, hq, rfl⟩
    case h_2 =>
      simp only [bind_ok] at hu
      obtain ⟨_, _, _, _, _, _, _, _, he⟩ := hu
      obtain ⟨rfl, _⟩ := Prod.mk.inj (Except.ok.inj he)
      rcases List.mem_append.mp hq with hq | hq
      · exact .inl ⟨q, hq, rfl⟩
      · rw [List.mem_singleton.mp hq]
        simp only [manifestOf, bind_ok] at hm
        obtain ⟨left, _, right, _, _, _, he⟩ := hm
        obtain rfl := Except.ok.inj he
        refine .inr ⟨⟨left, right, rfl⟩, fun d hd => ?_⟩
        obtain ⟨_, hactive, _⟩ := (DoubleRejection.mem_activeDecisions hc).mp hd
        exact hactive.2.1
  | claim workspace run token =>
    simp only [perform, claimRun, bind_ok] at ht
    obtain ⟨_, _, _, _, ht⟩ := ht
    obtain ⟨_, rfl⟩ := updateRun_ok ht
    exact .inl (hrevised (f := Run.claimed token) (fun _ => rfl) hq)
  | fail workspace run token code =>
    simp only [perform, failRun] at ht
    split at ht
    · split at ht
      · obtain ⟨_, rfl⟩ := updateRun_ok ht
        exact .inl (hrevised (f := Run.failedWith code) (fun _ => rfl) hq)
      · exact .inl ⟨q, Except.ok.inj ht ▸ hq, rfl⟩
    · exact .inl ⟨q, Except.ok.inj ht ▸ hq, rfl⟩
  | publish workspace run p =>
    obtain ⟨r, locked, rows, snapshots, occurrences, _, _, _, hp⟩ := publishRun_ok ht
    rw [hp.runs] at hq
    exact .inl (hrevised (f := Run.completedWith _ p.resultDigest p.result p.clock) (fun _ => rfl) hq)

/-- Decisions are revised by decision commands only. -/
theorem call_revisions (a : Runs.Store) (c : PublicationRuns.Command) :
    (PublicationRuns.call sha digest a c).review.revisions = a.review.revisions ∨
      ∃ command, c = .review command ∧ (PublicationRuns.call sha digest a c).review =
        Decisions.call digest a.review command := by
  cases c with
  | review command => exact .inr ⟨command, rfl, rfl⟩
  | inputs books datasets revisions policies => exact .inl rfl
  | createScope left right => exact .inl rfl
  | createRun workspace scope now =>
    refine .inl (settle_keeps (P := fun t : Runs.Store =>
      t.review.revisions = a.review.revisions) rfl ?_)
    intro t ht
    obtain ⟨⟨u, r⟩, hu, rfl⟩ := map_ok.mp ht
    obtain ⟨news, rfl⟩ := create_runs hu
    rfl
  | claim workspace run token =>
    refine .inl (settle_keeps (P := fun t : Runs.Store =>
      t.review.revisions = a.review.revisions) rfl ?_)
    intro t ht
    simp only [perform, claimRun, bind_ok] at ht
    obtain ⟨_, _, _, _, ht⟩ := ht
    obtain ⟨_, rfl⟩ := updateRun_ok ht
    rfl
  | fail workspace run token code =>
    refine .inl (settle_keeps (P := fun t : Runs.Store =>
      t.review.revisions = a.review.revisions) rfl ?_)
    intro t ht
    simp only [perform, failRun] at ht
    split at ht
    · split at ht
      · obtain ⟨_, rfl⟩ := updateRun_ok ht
        rfl
      · rw [← Except.ok.inj ht]
    · rw [← Except.ok.inj ht]
  | publish workspace run p =>
    refine .inl (settle_keeps (P := fun t : Runs.Store =>
      t.review.revisions = a.review.revisions) rfl ?_)
    intro t ht
    obtain ⟨r, locked, rows, snapshots, occurrences, _, _, _, hp⟩ := publishRun_ok ht
    rw [hp.review]
    split <;> rfl

theorem Seen.mono {i j : Activation.Store} (h : ∀ o ∈ i.observations, o ∈ j.observations)
    {record observation : Uuid} {fingerprint : String}
    (hs : Seen n i record observation fingerprint) : Seen n j record observation fingerprint := by
  obtain ⟨o, ho, hrest⟩ := hs
  exact ⟨o, h o ho, hrest⟩

theorem ReviewOf.mono {p q : Decisions.TransactionObservation → Prop} (h : ∀ row, p row → q row)
    {d : DecisionRevision} (hd : ReviewOf digest p d) : ReviewOf digest q d := by
  intro a ha
  obtain ⟨rows, hc, hrows, hrest⟩ := hd a ha
  exact ⟨rows, hc, fun row hrow => h row (hrows row hrow), hrest⟩

structure Good (sha : Sha256) (digest : Digest) (reader : DatetimeReader) (n : Naming)
    (s : State) : Prop where
  ingestion : ActivationLaws.Good reader sha s.ingestion
  audit : ScopeViews.Sound digest s.audit
  traced : Traced digest n s

theorem load_sound (sha : Sha256) {a : Runs.Store} (h : ScopeViews.Sound digest a) (i : Activation.Store) :
    ScopeViews.Sound digest (load n i a) := by
  have hreview := @call_sound sha digest _ h (.review (.elsewhere a.review.workspaces a.review.books
    a.review.scopes (i.logicals.filterMap (n.logical i)) (i.observations.filterMap (n.row i))))
  exact @call_sound sha digest _ hreview (.inputs a.books
    (i.datasets.map fun d => ⟨d.id, d.workspace, d.bookSource.book, d.current⟩)
    (i.revisions.map (n.revision i)) a.policies)

theorem ingested_good (h : Good sha digest reader n s) (c : Activation.Command) :
    Good sha digest reader n (step sha digest reader n s (.ingest c)) := by
  have hkept : ∀ o ∈ s.ingestion.observations,
      o ∈ (Activation.step sha reader s.ingestion c).observations :=
    fun o ho => step_keeps_observations c ho
  refine ⟨ActivationLaws.step_good h.ingestion c, load_sound sha h.audit _, ⟨rfl, ?_, ?_, ?_⟩⟩
  · exact fun r hr x hx => (h.traced.inputs r hr x hx).mono hkept
  · exact fun r hr d hd => (h.traced.frozen r hr d hd).mono fun _ => Seen.mono hkept
  · exact fun d hd => (h.traced.reviewed d hd).mono fun _ => Seen.mono hkept

theorem audited_good (h : Good sha digest reader n s) (c : PublicationRuns.Command) :
    Good sha digest reader n (step sha digest reader n s (.audit c)) := by
  have hs := h.ingestion.sound
  refine ⟨h.ingestion, load_sound sha (call_sound h.audit c) _, ⟨rfl, ?_, ?_, ?_⟩⟩
  · intro r hr x hx
    rcases call_manifests h.audit.consistent c r hr with hold | hnew
    · obtain ⟨q, hq, hm⟩ := hold
      exact h.traced.inputs q hq x (hm ▸ hx)
    · obtain ⟨⟨left, right, hi⟩, _⟩ := hnew
      rw [hi, h.traced.loaded] at hx
      exact inputs_seen hs hx
  · intro r hr d hd
    rcases call_manifests h.audit.consistent c r hr with hold | hnew
    · obtain ⟨q, hq, hm⟩ := hold
      exact h.traced.frozen q hq d (hm ▸ hd)
    · exact h.traced.reviewed d (hnew.2 d hd)
  · intro d hd
    have hd : d ∈ (PublicationRuns.call sha digest s.audit c).review.revisions := hd
    rcases @call_revisions sha digest s.audit c with hsame | ⟨command, _, hcall⟩
    · exact h.traced.reviewed d (hsame ▸ hd)
    · rw [hcall] at hd
      have hids : (s.audit.review.observations.map (·.id)).Nodup := by
        rw [h.traced.loaded]
        exact loaded_ids hs _
      rcases decided_reviews hids command d hd with hold | hnew
      · exact h.traced.reviewed d hold
      · refine hnew.mono fun row hrow => ?_
        rw [h.traced.loaded] at hrow
        exact loaded_seen hrow

theorem empty_good : Good sha digest reader n State.empty where
  ingestion := ActivationLaws.empty_good
  audit := empty_sound
  traced := ⟨rfl, by simp [State.empty, Runs.Store.empty], by simp [State.empty, Runs.Store.empty],
    by simp [State.empty, Runs.Store.empty, Decisions.Store.empty]⟩

theorem step_good (h : Good sha digest reader n s) (c : Command) :
    Good sha digest reader n (step sha digest reader n s c) := by
  cases c with
  | ingest c => exact ingested_good h c
  | audit c => exact audited_good h c

theorem run_good (cs : List Command) : Good sha digest reader n (run sha digest reader n cs) :=
  foldl_keeps (P := Good sha digest reader n) (fun _ c h _ => step_good h c) empty_good
    (along_true _ cs)

/-- A record that every activation renews is never observed twice with the same
evidence. -/
theorem run_distinct {record : ℕ} {cs : List Command}
    (h : Along (step sha digest reader n) (Renewing sha record) State.empty cs) :
    Distinct record (run sha digest reader n cs).ingestion := by
  have hboth := foldl_keeps (P := fun s => Good sha digest reader n s ∧ Distinct record s.ingestion)
    (C := Renewing sha record) ?_ ⟨empty_good, by simp [Distinct, State.empty, Activation.empty]⟩ h
  · exact hboth.2
  · intro s c hs hc
    refine ⟨step_good hs.1 c, ?_⟩
    cases c with
    | audit c => exact hs.2
    | ingest c =>
      rcases @step_observations sha reader s.ingestion c with hsame | hadded
      · show Distinct record (Activation.step sha reader s.ingestion c)
        unfold Distinct
        rw [hsame]
        exact hs.2
      · obtain ⟨workspace, attempt, reason, now, t, r, rfl, hact, he⟩ := hadded
        obtain ⟨a, ha, dataset, hd, p, _, _, _, rfl, hid, hg, hcommitted⟩ := created_committed hact
        show Distinct record (Activation.step sha reader s.ingestion _)
        rw [he]
        exact created_distinct hs.1.ingestion.sound hs.2 hd ha hid hg hcommitted (hc t r hact)

end Traces

end Workbench.Sightings
