import Workbench.ActivationLaws

/-!
# Identity namespaces

Preparing a source of a book makes its book source, a contract revision and a
dataset, or finds those that are there. A preview is made under a contract
revision of the source of its dataset. Which namespace the observations come
from, and which the book source has.
-/

set_option autoImplicit false

namespace Workbench.Namespaces
open Workbench.Listing Workbench.Tables Workbench.Calendar Workbench.Records Workbench.Ingestion
open Workbench.Interpretation Workbench.Observations Workbench.Activation
open Workbench.Raising (bind_ok map_ok demand fetch demand_ok fetch_ok)

structure SourceSystem where
  id : ℕ
  workspace : ℕ
  adapterKey : String

structure RoleSource where
  bookSource : BookSource
  workspace : ℕ
  role : RecordSide
  identityNamespace : String

def RoleSource.id (b : RoleSource) : ℕ := b.bookSource.id

structure MappingRevision where
  id : ℕ
  workspace : ℕ
  source : ℕ
  revision : ℕ
  bindings : CanonicalField → Option FieldBinding
  parserVersion : String
  digest : String

/-- A contract revision: the columns beside the payload, which stands for the
contract that is read from it. -/
structure StoredContract where
  id : ℕ
  workspace : ℕ
  revision : ℕ
  mapping : ℕ
  mode : DatasetMode
  timezoneName : Option String
  identityNamespace : String
  referenceSemantics : ReferenceSemantics
  stored : ContractRevision

structure State where
  sources : List SourceSystem
  bookSources : List RoleSource
  mappings : List MappingRevision
  contracts : List StoredContract
  ingestion : Activation.Store

def State.empty : State := ⟨[], [], [], [], Activation.empty⟩

/-- `source_contract_digest` and `mapping_revision_digest` of the payloads of a
contract. -/
structure PayloadDigests where
  contract : SourceContract → String
  bindings : (CanonicalField → Option FieldBinding) → String

inductive PreparationFailure where
  | unavailable
  | integrity
  | invalidSourceContract
  | activation (failure : ActivationFailure)

def bindingParts : FieldBinding → String ⊕ String
  | .column name _ => .inl name
  | .constant value => .inr value

theorem bindingParts_injective : Function.Injective bindingParts := by
  intro a b h
  cases a with
  | column name _ =>
    cases b with
    | column other _ =>
      obtain rfl := Sum.inl.inj h
      rfl
    | constant _ => cases h
  | constant value =>
    cases b with
    | column _ _ => cases h
    | constant other => exact congrArg FieldBinding.constant (Sum.inr.inj h)

instance fieldBinding_decidableEq : DecidableEq FieldBinding := fun _ _ =>
  decidable_of_iff _ bindingParts_injective.eq_iff

section Preparing
variable (digests : PayloadDigests) (workspace : ℕ)

def assignSource (book : ℕ) (role : RecordSide) (contract : SourceContract) (s : State) :
    Except PreparationFailure (State × RoleSource) :=
  match s.bookSources.find? fun b =>
      b.workspace = workspace && b.bookSource.book = book && b.role = role with
  | some existing => .ok (s, existing)
  | none => do
    demand (storedText 160 contract.identityNamespace = some contract.identityNamespace) .integrity
    let b : RoleSource := ⟨⟨s.bookSources.length, book, s.sources.length⟩, workspace, role,
      contract.identityNamespace⟩
    .ok ({ s with
      sources := s.sources ++ [⟨s.sources.length, workspace, contract.adapterKey⟩]
      bookSources := s.bookSources ++ [b] }, b)

def greatest (revisions : List ℕ) : ℕ := revisions.foldr max 0

/-- The latest contract revision of the source with the contract's digest, or a
new one with its mapping. -/
def reviseContract (source : ℕ) (contract : SourceContract) (s : State) :
    Except PreparationFailure (State × StoredContract) :=
  match (s.contracts.filter fun c => c.workspace = workspace && c.stored.source = source &&
      c.stored.digest = digests.contract contract).argmax StoredContract.revision with
  | some reusable => .ok (s, reusable)
  | none => do
    demand (storedText 40 contract.parserVersion = some contract.parserVersion) .integrity
    demand (∀ name ∈ contract.timezoneName, storedText 80 name = some name) .integrity
    demand (storedText 160 contract.identityNamespace = some contract.identityNamespace) .integrity
    let mappings := s.mappings.filter fun m => m.workspace = workspace && m.source = source
    let contracts := s.contracts.filter fun c => c.workspace = workspace && c.stored.source = source
    let mapping : MappingRevision := ⟨s.mappings.length, workspace, source,
      greatest (mappings.map (·.revision))+1, contract.bindings, contract.parserVersion,
      digests.bindings contract.bindings⟩
    let made : StoredContract := ⟨s.contracts.length, workspace,
      greatest (contracts.map (·.revision))+1, mapping.id, contract.mode, contract.timezoneName,
      contract.identityNamespace, contract.referenceSemantics,
      ⟨source, contract, digests.contract contract⟩⟩
    .ok ({ s with mappings := s.mappings ++ [mapping], contracts := s.contracts ++ [made] }, made)

def createDataset (b : RoleSource) (s : State) : State × Dataset :=
  match s.ingestion.datasets.find? fun d =>
      d.workspace = workspace && d.bookSource.id = b.bookSource.id with
  | some existing => (s, existing)
  | none =>
    let d : Dataset := ⟨s.ingestion.datasets.length, workspace, b.bookSource, none⟩
    ({ s with ingestion := { s.ingestion with datasets := s.ingestion.datasets ++ [d] } }, d)

structure PreparedSource where
  bookSource : RoleSource
  contractRevision : StoredContract
  dataset : Dataset

/-- `SourcePreparationService.prepare`; every dataset has the default coverage
key. -/
def prepare (book : ℕ) (role : RecordSide) (contract : SourceContract) (s : State) :
    Except PreparationFailure (State × PreparedSource) := do
  demand (∃ b ∈ s.ingestion.books, b.id = book ∧ b.workspace = workspace) .unavailable
  let assigned ← assignSource workspace book role contract s
  let source := assigned.2.bookSource.source
  demand (∃ x ∈ assigned.1.sources, x.id = source ∧ x.workspace = workspace) .unavailable
  let revised ← reviseContract digests workspace source contract assigned.1
  let made := createDataset workspace assigned.2 revised.1
  .ok (made.1, ⟨assigned.2, revised.2, made.2⟩)

/-- `_verify_revision_contract`. -/
def verifyRevisionContract (c : StoredContract) (s : State) : Prop :=
  c.stored.digest = digests.contract c.stored.contract ∧
    (∃ m ∈ s.mappings, m.id = c.mapping ∧ m.digest = digests.bindings m.bindings ∧
      ∀ field ∈ CanonicalField.all, m.bindings field = c.stored.contract.bindings field) ∧
    c.mode = c.stored.contract.mode ∧ c.timezoneName = c.stored.contract.timezoneName ∧
    c.identityNamespace = c.stored.contract.identityNamespace ∧
    c.referenceSemantics = c.stored.contract.referenceSemantics

end Preparing

instance verify_decidable (digests : PayloadDigests) (c : StoredContract) (s : State) :
    Decidable (verifyRevisionContract digests c s) := instDecidableAnd

/-- `create_shell` on a stored contract revision. -/
def previewShell (digests : PayloadDigests) (workspace dataset : ℕ) (base : Option ℕ)
    (artifact : FileArtifact) (contractRevision : ℕ) (now : Instant) (s : State) :
    Except PreparationFailure State := do
  let c ← fetch .unavailable
    (s.contracts.find? fun c => c.id = contractRevision && c.workspace = workspace)
  demand (verifyRevisionContract digests c s) .invalidSourceContract
  match createShell s.ingestion workspace dataset base artifact c.stored now with
  | .ok ingestion => .ok { s with ingestion := ingestion }
  | .error failure => .error (.activation failure)

def Serves : Activation.Command → Prop
  | .createShell .. => False
  | .createDataset .. => False
  | _ => True

inductive Command where
  | prepare (workspace book : ℕ) (role : RecordSide) (contract : SourceContract)
  | preview (workspace dataset : ℕ) (base : Option ℕ) (artifact : FileArtifact)
      (contractRevision : ℕ) (now : Instant)
  | ingest (c : Activation.Command) (serves : Serves c)

section Steps
variable (sha : Sha256) (reader : DatetimeReader) (digests : PayloadDigests)

def step (s : State) : Command → State
  | .prepare workspace book role contract =>
    settle s ((·.1) <$> prepare digests workspace book role contract s)
  | .preview workspace dataset base artifact contractRevision now =>
    settle s (previewShell digests workspace dataset base artifact contractRevision now s)
  | .ingest c _ => { s with ingestion := Activation.step sha reader s.ingestion c }

def run (cs : List Command) : State := cs.foldl (step sha reader digests) State.empty

end Steps

/-- A source is prepared again only with a contract of its namespace. -/
def KeepsNamespace (s : State) : Command → Prop
  | .prepare workspace book role contract => ∀ b ∈ s.bookSources, b.workspace = workspace →
      b.bookSource.book = book → b.role = role → contract.identityNamespace = b.identityNamespace
  | _ => True

def interpretedUnder (s : State) (observation : ℕ) : Option String := do
  let o ← lookup TransactionObservation.id s.ingestion.observations observation
  let a ← lookup Attempt.id s.ingestion.attempts o.attempt
  some a.contractRevision.contract.identityNamespace

def ownerNamespace (s : State) (revision : ℕ) : Option String := do
  let r ← lookup DatasetRevision.id s.ingestion.revisions revision
  let d ← lookup Dataset.id s.ingestion.datasets r.dataset
  let b ← lookup RoleSource.id s.bookSources d.bookSource.id
  some b.identityNamespace

/-- The observations of a dataset revision come from the namespace of its book
source, and those of a logical transaction from one namespace. -/
structure OneNamespace (s : State) : Prop where
  owned : ∀ m ∈ s.ingestion.memberships, ∃ name,
    interpretedUnder s m.observation = some name ∧ ownerNamespace s m.revision = some name
  shared : ∀ o ∈ s.ingestion.observations, ∀ o' ∈ s.ingestion.observations,
    o.logical = o'.logical → interpretedUnder s o.id = interpretedUnder s o'.id

/-- An observation is of a logical transaction of the book source that its
attempt was for, and a membership of one of the book source of its revision. -/
structure Placed (s : Activation.Store) : Prop where
  attempts : ∀ a ∈ s.attempts, ∃ d ∈ s.datasets, d.id = a.dataset
  observations : ∀ o ∈ s.observations, ∃ a ∈ s.attempts, a.id = o.attempt ∧
    ∃ d ∈ s.datasets, d.id = a.dataset ∧ ∃ l ∈ s.logicals, l.id = o.logical ∧
      l.bookSource = d.bookSource.id
  memberships : ∀ m ∈ s.memberships, ∃ r ∈ s.revisions, r.id = m.revision ∧
    ∃ d ∈ s.datasets, d.id = r.dataset ∧ ∃ l ∈ s.logicals, l.bookSource = d.bookSource.id ∧
      ∃ o ∈ s.observations, o.id = m.observation ∧ o.logical = l.id

def origin (a : Attempt) : ℕ × ℕ × ContractRevision := (a.id, a.dataset, a.contractRevision)

def place (d : Dataset) : ℕ × BookSource := (d.id, d.bookSource)

theorem mem_of_map_eq {α β : Type} {f : α → β} {l m : List α} (h : l.map f = m.map f) {a : α}
    (ha : a ∈ l) : ∃ b ∈ m, f b = f a := by
  have hmem := List.mem_map_of_mem (f := f) ha
  rw [h] at hmem
  exact List.mem_map.mp hmem

theorem map_revise {α β κ : Type} [DecidableEq κ] {g : α → κ} {f : α → α} {p : α → β} {k : κ}
    (hf : ∀ a, p (f a) = p a) (rows : List α) : (revise g k f rows).map p = rows.map p := by
  unfold revise
  rw [List.map_map]
  apply List.map_congr_left
  intro a _
  by_cases hk : g a = k <;> simp [hk, hf]

structure Extends (s t : Activation.Store) : Prop where
  attempts : ∀ a ∈ s.attempts, ∃ b ∈ t.attempts, origin b = origin a
  datasets : ∀ d ∈ s.datasets, ∃ e ∈ t.datasets, place e = place d
  logicals : ∀ l ∈ s.logicals, l ∈ t.logicals
  observations : ∀ o ∈ s.observations, o ∈ t.observations
  revisions : ∀ r ∈ s.revisions, r ∈ t.revisions

theorem Placed.observation {s t : Activation.Store} (hp : Placed s) (h : Extends s t)
    {o : TransactionObservation} (ho : o ∈ s.observations) : ∃ a ∈ t.attempts, a.id = o.attempt ∧
      ∃ d ∈ t.datasets, d.id = a.dataset ∧ ∃ l ∈ t.logicals, l.id = o.logical ∧
        l.bookSource = d.bookSource.id := by
  obtain ⟨a, ha, hao, d, hd, hda, l, hl, hlo, hld⟩ := hp.observations o ho
  obtain ⟨b, hb, hbo⟩ := h.attempts a ha
  obtain ⟨e, he, hep⟩ := h.datasets d hd
  simp only [origin, place, Prod.mk.injEq] at hbo hep
  exact ⟨b, hb, hbo.1.trans hao, e, he, hep.1.trans (hda.trans hbo.2.1.symm), l, h.logicals l hl,
    hlo, hep.2 ▸ hld⟩

theorem Placed.membership {s t : Activation.Store} (hp : Placed s) (h : Extends s t)
    {m : DatasetMembership} (hm : m ∈ s.memberships) : ∃ r ∈ t.revisions, r.id = m.revision ∧
      ∃ d ∈ t.datasets, d.id = r.dataset ∧ ∃ l ∈ t.logicals, l.bookSource = d.bookSource.id ∧
        ∃ o ∈ t.observations, o.id = m.observation ∧ o.logical = l.id := by
  obtain ⟨r, hr, hrm, d, hd, hdr, l, hl, hld, o, ho, hom, hol⟩ := hp.memberships m hm
  obtain ⟨e, he, hep⟩ := h.datasets d hd
  simp only [place, Prod.mk.injEq] at hep
  exact ⟨r, h.revisions r hr, hrm, e, he, hep.1.trans hdr, l, h.logicals l hl, hep.2 ▸ hld, o,
    h.observations o ho, hom, hol⟩

theorem Placed.extend {s t : Activation.Store} (hp : Placed s) (h : Extends s t)
    (ha : ∀ a ∈ t.attempts, ∃ d ∈ t.datasets, d.id = a.dataset)
    (ho : t.observations = s.observations) (hm : t.memberships = s.memberships) : Placed t where
  attempts := ha
  observations := fun _ hmem => hp.observation h (ho ▸ hmem)
  memberships := fun _ hmem => hp.membership h (hm ▸ hmem)

section Framed
variable {sha : Sha256} {reader : DatetimeReader} {s t : Activation.Store}

theorem framed_attempts (hp : Placed s) (ha : t.attempts.map origin = s.attempts.map origin)
    (hd : t.datasets.map place = s.datasets.map place) {a : Attempt} (hm : a ∈ t.attempts) :
    ∃ d ∈ t.datasets, d.id = a.dataset := by
  obtain ⟨b, hb, hbo⟩ := mem_of_map_eq ha hm
  obtain ⟨d, hdm, hdb⟩ := hp.attempts b hb
  obtain ⟨e, he, hep⟩ := mem_of_map_eq hd.symm hdm
  simp only [origin, place, Prod.mk.injEq] at hbo hep
  exact ⟨e, he, hep.1.trans (hdb.trans hbo.2.1)⟩

theorem framed_extends (ha : t.attempts.map origin = s.attempts.map origin)
    (hd : t.datasets.map place = s.datasets.map place) (hl : ∀ l ∈ s.logicals, l ∈ t.logicals)
    (ho : ∀ o ∈ s.observations, o ∈ t.observations) (hr : ∀ r ∈ s.revisions, r ∈ t.revisions) :
    Extends s t where
  attempts := fun _ hm => mem_of_map_eq ha.symm hm
  datasets := fun _ hm => mem_of_map_eq hd.symm hm
  logicals := hl
  observations := ho
  revisions := hr

/-- The revision of an activation has observations of the logical transactions
of its book source. -/
theorem commit_memberships {dataset : Dataset} {a : Attempt} {reason : Option String}
    {p : Proposal} {r : DatasetRevision} (h : commit s dataset a reason p = .ok (t, r))
    {m : DatasetMembership} (hm : m ∈ t.memberships) : m ∈ s.memberships ∨ m.revision = r.id ∧
      ∃ l ∈ t.logicals, l.bookSource = dataset.bookSource.id ∧
        ∃ o ∈ t.observations, o.id = m.observation ∧ o.logical = l.id := by
  simp only [commit, bind_ok] at h
  obtain ⟨logicals, _, observations, _, revision, _, memberships, hms, marked, hmark, he⟩ := h
  obtain ⟨rfl, rfl⟩ := Prod.mk.inj (Except.ok.inj he)
  simp only [markDatasetActivation, bind_ok, demand_ok] at hmark
  obtain ⟨_, _, hmark⟩ := hmark
  obtain rfl := Except.ok.inj hmark
  simp only [createMemberships, bind_ok, demand_ok] at hms
  obtain ⟨_, hstored, _, _, hms⟩ := hms
  obtain rfl := Except.ok.inj hms
  rcases List.mem_append.mp hm with hm | hm
  · exact .inl hm
  · obtain ⟨q, hq, rfl⟩ := List.mem_map.mp hm
    obtain ⟨l, hl, _, hsource, o, ho, hoq, hol⟩ := hstored q hq
    exact .inr ⟨rfl, l, hl, hsource, o, ho, hoq, hol⟩

theorem committed_frame {dataset : Dataset} {a : Attempt} {reason : Option String} {p : Proposal}
    {r : DatasetRevision} (hs : ActivationLaws.Sound reader s)
    (h : commit s dataset a reason p = .ok (t, r)) :
    t.attempts.map origin = s.attempts.map origin ∧ t.datasets.map place = s.datasets.map place ∧
      Extends s t := by
  obtain ⟨logicals, observations, hc⟩ := ActivationLaws.commit_ok h
  have ha : t.attempts.map origin = s.attempts.map origin := by
    rw [hc.attempts]
    exact map_revise (g := Attempt.id) (p := origin)
      (f := fun a => { a with state := .activated, activationReason := reason }) (fun _ => rfl) _
  have hd : t.datasets.map place = s.datasets.map place := by
    rw [hc.datasets]
    exact map_revise (g := Dataset.id) (p := place) (f := fun d => { d with current := some r.id })
      (fun _ => rfl) _
  refine ⟨ha, hd, framed_extends ha hd ?_ ?_ ?_⟩
  · intro l hl
    obtain ⟨news, hnews, _⟩ := ActivationLaws.materialize_ok hc.materialized hs.identities
    rw [hc.newLogicals, hnews]
    exact List.mem_append_left _ hl
  · intro o ho
    rw [hc.newObservations]
    exact List.mem_append_left _ ho
  · intro q hq
    rw [hc.revisions]
    exact List.mem_append_left _ hq

theorem committed_placed (hs : ActivationLaws.Sound reader s) (hp : Placed s) {dataset : Dataset}
    (hdataset : dataset ∈ s.datasets) {a : Attempt} (hattempt : a ∈ s.attempts)
    (hfor : a.dataset = dataset.id) {reason : Option String} {p : Proposal} {r : DatasetRevision}
    (h : commit s dataset a reason p = .ok (t, r)) : Placed t := by
  obtain ⟨ha, hd, hx⟩ := committed_frame hs h
  obtain ⟨logicals, observations, hc⟩ := ActivationLaws.commit_ok h
  obtain ⟨e, he, hep⟩ := hx.datasets dataset hdataset
  obtain ⟨b, hb, hbo⟩ := hx.attempts a hattempt
  simp only [origin, place, Prod.mk.injEq] at hep hbo
  refine ⟨fun _ hm => framed_attempts hp ha hd hm, ?_, ?_⟩
  · intro o ho
    rw [hc.newObservations] at ho
    rcases List.mem_append.mp ho with ho | ho
    · exact hp.observation hx ho
    · obtain ⟨observed, _, hmade⟩ := forall₂_mem_right (ActivationLaws.committed_made hc) ho
      obtain ⟨l, hl, hol⟩ := hmade.logical
      obtain ⟨hlm, hsource, _⟩ := ActivationLaws.logicalOf_some hl
      exact ⟨b, hb, hbo.1.trans hmade.attempt.symm, e, he,
        hep.1.trans (hfor.symm.trans hbo.2.1.symm), l, hc.newLogicals ▸ hlm, hol.symm,
        hsource.trans (by rw [hep.2])⟩
  · intro m hm
    rcases commit_memberships h hm with hm | ⟨hr, l, hl, hsource, ho⟩
    · exact hp.membership hx hm
    · refine ⟨r, ?_, hr.symm, e, he, ?_, l, hl, hsource.trans (by rw [hep.2]), ho⟩
      · rw [hc.revisions]
        simp
      · rw [hep.1, hc.revision]

theorem revised_placed (hp : Placed s) {k : ℕ} {f : Attempt → Attempt}
    (hf : ∀ a, origin (f a) = origin a) (rows : List RawRow) :
    (revise Attempt.id k f s.attempts).map origin = s.attempts.map origin ∧
      Placed { s with attempts := revise Attempt.id k f s.attempts, rawRows := rows } := by
  have ha := map_revise (g := Attempt.id) (k := k) hf s.attempts
  refine ⟨ha, hp.extend ?_ ?_ rfl rfl⟩
  · exact framed_extends ha rfl (fun _ h => h) (fun _ h => h) (fun _ h => h)
  · intro a hm
    exact framed_attempts (t := { s with attempts := revise Attempt.id k f s.attempts })
      hp ha rfl hm

structure Kept (s t : Activation.Store) : Prop where
  attempts : t.attempts.map origin = s.attempts.map origin
  datasets : t.datasets.map place = s.datasets.map place
  placed : Placed t

theorem serves_kept (hg : ActivationLaws.Good reader sha s) (hp : Placed s)
    {c : Activation.Command} (hc : Serves c) : Kept s (Activation.step sha reader s c) := by
  have hsame : Kept s s := ⟨rfl, rfl, hp⟩
  cases c with
  | readHead dataset => exact ⟨rfl, rfl, ⟨hp.attempts, hp.observations, hp.memberships⟩⟩
  | readAttempt attempt => exact ⟨rfl, rfl, ⟨hp.attempts, hp.observations, hp.memberships⟩⟩
  | elsewhere workspaces books scopes =>
    exact ⟨rfl, rfl, ⟨hp.attempts, hp.observations, hp.memberships⟩⟩
  | createShell => cases hc
  | createDataset => cases hc
  | complete workspace attempt read now =>
    apply settle_keeps (P := Kept s) hsame
    intro t ht
    simp only [complete, bind_ok, demand_ok, fetch_ok] at ht
    obtain ⟨a, _, _, _, _, _, interpreted, _, _, _, _, _, _, _, _, _, ht⟩ := ht
    rw [← Except.ok.inj ht]
    obtain ⟨ha, hplaced⟩ := revised_placed hp (k := a.id) (f := fun a => { a with
      state := if interpreted.errorCount = 0 then .ready else .rejected
      rowCount := interpreted.rows.length
      errorCount := interpreted.errorCount
      validation := interpreted.issues }) (fun _ => rfl)
      (s.rawRows ++ interpreted.rows.map fun r => ⟨a.id, r.rowNumber, r.preview, r.issues⟩)
    exact ⟨ha, rfl, hplaced⟩
  | activate workspace attempt reason now =>
    apply settle_keeps (P := Kept s) hsame
    intro t ht
    obtain ⟨⟨t, result⟩, ha, rfl⟩ := map_ok.mp ht
    obtain ⟨a, hattempt, dataset, hdataset, p, _, hfor, _, _, _, hended⟩ :=
      ActivationLaws.activate_ok ha
    cases hended with
    | noChange =>
      obtain ⟨ha, hplaced⟩ := revised_placed hp (k := a.id)
        (f := fun a => { a with state := .noChange }) (fun _ => rfl) s.rawRows
      exact ⟨ha, rfl, hplaced⟩
    | replayed =>
      obtain ⟨ha, hplaced⟩ := revised_placed hp (k := a.id)
        (f := fun a => { a with state := .replayed }) (fun _ => rfl) s.rawRows
      exact ⟨ha, rfl, hplaced⟩
    | created reason t r _ h =>
      obtain ⟨ha, hd, _⟩ := committed_frame hg.sound h
      exact ⟨ha, hd, committed_placed hg.sound hp hdataset hattempt hfor h⟩

end Framed

structure Named (sha : Sha256) (reader : DatetimeReader) (s : State) : Prop where
  bookSources : Numbered RoleSource.id s.bookSources
  known : ∀ b ∈ s.bookSources, b.bookSource.source < s.sources.length
  single : ∀ b ∈ s.bookSources, ∀ b' ∈ s.bookSources,
    b.bookSource.source = b'.bookSource.source → b = b'
  revised : ∀ c ∈ s.contracts, c.stored.source < s.sources.length
  contracts : ∀ c ∈ s.contracts, ∀ b ∈ s.bookSources, b.bookSource.source = c.stored.source →
    c.stored.contract.identityNamespace = b.identityNamespace
  datasets : ∀ d ∈ s.ingestion.datasets, ∃ b ∈ s.bookSources, b.bookSource = d.bookSource
  attempts : ∀ a ∈ s.ingestion.attempts, ∃ d ∈ s.ingestion.datasets, d.id = a.dataset ∧
    ∃ b ∈ s.bookSources, b.bookSource = d.bookSource ∧
      a.contractRevision.contract.identityNamespace = b.identityNamespace
  good : ActivationLaws.Good reader sha s.ingestion
  placed : Placed s.ingestion

section Invariant
variable {sha : Sha256} {reader : DatetimeReader} {digests : PayloadDigests} {s t : State}
  {workspace : ℕ}

theorem empty_named : Named sha reader State.empty where
  bookSources := rfl
  known := by simp [State.empty]
  single := by simp [State.empty]
  revised := by simp [State.empty]
  contracts := by simp [State.empty]
  datasets := by simp [State.empty, Activation.empty]
  attempts := by simp [State.empty, Activation.empty]
  good := ActivationLaws.empty_good
  placed := ⟨by simp [State.empty, Activation.empty], by simp [State.empty, Activation.empty],
    by simp [State.empty, Activation.empty]⟩

theorem Named.ingest (h : Named sha reader s) {c : Activation.Command} (hc : Serves c) :
    Named sha reader { s with ingestion := Activation.step sha reader s.ingestion c } := by
  have hk := serves_kept h.good h.placed hc
  refine ⟨h.bookSources, h.known, h.single, h.revised, h.contracts, ?_, ?_,
    ActivationLaws.step_good h.good c, hk.placed⟩
  · intro d hd
    obtain ⟨e, he, hep⟩ := mem_of_map_eq hk.datasets hd
    obtain ⟨b, hb, hbe⟩ := h.datasets e he
    simp only [place, Prod.mk.injEq] at hep
    exact ⟨b, hb, hbe.trans hep.2⟩
  · intro a ha
    obtain ⟨x, hx, hxo⟩ := mem_of_map_eq hk.attempts ha
    obtain ⟨d, hd, hdx, b, hb, hbd, hname⟩ := h.attempts x hx
    obtain ⟨e, he, hep⟩ := mem_of_map_eq hk.datasets.symm hd
    simp only [origin, place, Prod.mk.injEq] at hxo hep
    refine ⟨e, he, hep.1.trans (hdx.trans hxo.2.1), b, hb, hbd.trans hep.2.symm, ?_⟩
    rw [← hxo.2.2]
    exact hname

/-- A preview is made under the namespace of the source of its dataset. -/
theorem Named.preview (h : Named sha reader s) {dataset contractRevision : ℕ} {base : Option ℕ}
    {artifact : FileArtifact} {now : Instant}
    (ht : previewShell digests workspace dataset base artifact contractRevision now s = .ok t) :
    Named sha reader t := by
  simp only [previewShell, bind_ok, fetch_ok, demand_ok] at ht
  obtain ⟨c, hc, _, _, ht⟩ := ht
  have hcm := List.mem_of_find?_eq_some hc
  cases hshell : createShell s.ingestion workspace dataset base artifact c.stored now with
  | error e =>
    rw [hshell] at ht
    cases ht
  | ok i =>
    rw [hshell] at ht
    rw [← Except.ok.inj ht]
    have hgood := ActivationLaws.createShell_good h.good hshell
    simp only [createShell, bind_ok, demand_ok, fetch_ok] at hshell
    obtain ⟨_, _, _, _, d, hd, _, _, _, _, _, hsource, _, _, hi⟩ := hshell
    obtain rfl := Except.ok.inj hi
    have hdm := mem_of_lookup hd
    obtain ⟨b, hb, hbd⟩ := h.datasets d hdm
    refine ⟨h.bookSources, h.known, h.single, h.revised, h.contracts, h.datasets, ?_, hgood, ?_⟩
    · intro a ha
      rcases List.mem_append.mp ha with ha | ha
      · exact h.attempts a ha
      · rw [List.mem_singleton.mp ha]
        exact ⟨d, hdm, key_of_lookup hd, b, hb, hbd, h.contracts c hcm b hb (by rw [hbd, hsource])⟩
    · refine h.placed.extend ?_ ?_ ?_ ?_
      · exact ⟨fun a ha => ⟨a, List.mem_append_left _ ha, rfl⟩, fun d hd => ⟨d, hd, rfl⟩,
          fun _ h => h, fun _ h => h, fun _ h => h⟩
      · intro a ha
        rcases List.mem_append.mp ha with ha | ha
        · exact h.placed.attempts a ha
        · rw [List.mem_singleton.mp ha]
          exact ⟨d, hdm, key_of_lookup hd⟩
      · rfl
      · rfl

/-- The book source of a preparation has the namespace of the contract. -/
theorem Named.assign (h : Named sha reader s) {book : ℕ} {role : RecordSide}
    {contract : SourceContract} {b : RoleSource}
    (hkeep : KeepsNamespace s (.prepare workspace book role contract))
    (ht : assignSource workspace book role contract s = .ok (t, b)) :
    Named sha reader t ∧ b ∈ t.bookSources ∧
      contract.identityNamespace = b.identityNamespace := by
  unfold assignSource at ht
  split at ht
  · rename_i existing hf
    obtain ⟨rfl, rfl⟩ := Prod.mk.inj (Except.ok.inj ht)
    have hp := List.find?_some hf
    simp only [Bool.and_eq_true, decide_eq_true_eq] at hp
    have hb := List.mem_of_find?_eq_some hf
    exact ⟨h, hb, hkeep existing hb hp.1.1 hp.1.2 hp.2⟩
  · simp only [bind_ok, demand_ok] at ht
    obtain ⟨_, _, ht⟩ := ht
    obtain ⟨rfl, rfl⟩ := Prod.mk.inj (Except.ok.inj ht)
    have hold : ∀ x ∈ s.bookSources, x.bookSource.source ≠ s.sources.length :=
      fun x hx => (h.known x hx).ne
    refine ⟨⟨h.bookSources.concat rfl, ?_, ?_, ?_, ?_, ?_, ?_, h.good, h.placed⟩, by simp, rfl⟩
    · intro x hx
      show x.bookSource.source < (s.sources ++ [_]).length
      rw [List.length_append, List.length_singleton]
      rcases List.mem_append.mp hx with hx | hx
      · exact (h.known x hx).trans (Nat.lt_succ_self _)
      · rw [List.mem_singleton.mp hx]
        exact Nat.lt_succ_self _
    · intro x hx y hy he
      rcases List.mem_append.mp hx with hx | hx
      · rcases List.mem_append.mp hy with hy | hy
        · exact h.single x hx y hy he
        · rw [List.mem_singleton.mp hy] at he
          exact absurd he (hold x hx)
      · rcases List.mem_append.mp hy with hy | hy
        · rw [List.mem_singleton.mp hx] at he
          exact absurd he.symm (hold y hy)
        · rw [List.mem_singleton.mp hx, List.mem_singleton.mp hy]
    · intro c hc
      show c.stored.source < (s.sources ++ [_]).length
      rw [List.length_append, List.length_singleton]
      exact (h.revised c hc).trans (Nat.lt_succ_self _)
    · intro c hc x hx he
      rcases List.mem_append.mp hx with hx | hx
      · exact h.contracts c hc x hx he
      · rw [List.mem_singleton.mp hx] at he
        exact absurd he (h.revised c hc).ne'
    · intro d hd
      obtain ⟨x, hx, hxd⟩ := h.datasets d hd
      exact ⟨x, List.mem_append_left _ hx, hxd⟩
    · intro a ha
      obtain ⟨d, hd, hda, x, hx, hxd, hname⟩ := h.attempts a ha
      exact ⟨d, hd, hda, x, List.mem_append_left _ hx, hxd, hname⟩

theorem Named.revise (h : Named sha reader s) {b : RoleSource} (hb : b ∈ s.bookSources)
    {contract : SourceContract} (hname : contract.identityNamespace = b.identityNamespace)
    {c : StoredContract}
    (ht : reviseContract digests workspace b.bookSource.source contract s = .ok (t, c)) :
    Named sha reader t ∧ t.bookSources = s.bookSources := by
  unfold reviseContract at ht
  split at ht
  · obtain ⟨rfl, _⟩ := Prod.mk.inj (Except.ok.inj ht)
    exact ⟨h, rfl⟩
  · simp only [bind_ok, demand_ok] at ht
    obtain ⟨_, _, _, _, _, _, ht⟩ := ht
    obtain ⟨rfl, _⟩ := Prod.mk.inj (Except.ok.inj ht)
    refine ⟨⟨h.bookSources, h.known, h.single, ?_, ?_, h.datasets, h.attempts, h.good, h.placed⟩,
      rfl⟩
    · intro x hx
      rcases List.mem_append.mp hx with hx | hx
      · exact h.revised x hx
      · rw [List.mem_singleton.mp hx]
        exact h.known b hb
    · intro x hx y hy he
      rcases List.mem_append.mp hx with hx | hx
      · exact h.contracts x hx y hy he
      · rw [List.mem_singleton.mp hx] at he ⊢
        rw [h.single y hy b hb he]
        exact hname

theorem Named.dataset (h : Named sha reader s) {b : RoleSource} (hb : b ∈ s.bookSources) :
    Named sha reader (createDataset workspace b s).1 := by
  unfold createDataset
  split
  · exact h
  · refine ⟨h.bookSources, h.known, h.single, h.revised, h.contracts, ?_, ?_,
      ActivationLaws.createDataset_good h.good workspace b.bookSource, ?_⟩
    · intro d hd
      rcases List.mem_append.mp hd with hd | hd
      · exact h.datasets d hd
      · rw [List.mem_singleton.mp hd]
        exact ⟨b, hb, rfl⟩
    · intro a ha
      obtain ⟨d, hd, hrest⟩ := h.attempts a ha
      exact ⟨d, List.mem_append_left _ hd, hrest⟩
    · refine h.placed.extend ?_ ?_ ?_ ?_
      · exact ⟨fun a ha => ⟨a, ha, rfl⟩, fun d hd => ⟨d, List.mem_append_left _ hd, rfl⟩,
          fun _ h => h, fun _ h => h, fun _ h => h⟩
      · intro a ha
        obtain ⟨d, hd, hda⟩ := h.placed.attempts a ha
        exact ⟨d, List.mem_append_left _ hd, hda⟩
      · rfl
      · rfl

theorem Named.prepare (h : Named sha reader s) {book : ℕ} {role : RecordSide}
    {contract : SourceContract} {prepared : PreparedSource}
    (hkeep : KeepsNamespace s (.prepare workspace book role contract))
    (ht : prepare digests workspace book role contract s = .ok (t, prepared)) :
    Named sha reader t := by
  simp only [Namespaces.prepare, bind_ok, demand_ok] at ht
  obtain ⟨_, _, ⟨u, b⟩, hu, _, _, ⟨v, c⟩, hv, ht⟩ := ht
  obtain ⟨hnamed, hb, hname⟩ := h.assign hkeep hu
  obtain ⟨hrevised, hsame⟩ := hnamed.revise hb hname hv
  rw [← (Prod.mk.inj (Except.ok.inj ht)).1]
  exact hrevised.dataset (hsame ▸ hb)

theorem step_named (h : Named sha reader s) (c : Command) (hkeep : KeepsNamespace s c) :
    Named sha reader (step sha reader digests s c) := by
  cases c with
  | prepare workspace book role contract =>
    apply settle_keeps h
    intro t ht
    obtain ⟨⟨t, prepared⟩, hp, rfl⟩ := map_ok.mp ht
    exact h.prepare hkeep hp
  | preview workspace dataset base artifact contractRevision now =>
    exact settle_keeps h fun t ht => h.preview ht
  | ingest c hc => exact h.ingest hc

theorem lookup_numbered {α : Type} {id : α → ℕ} {rows : List α} (hn : Numbered id rows) {x : α}
    (hx : x ∈ rows) {k : ℕ} (hk : id x = k) : lookup id rows k = some x := by
  rw [← hk]
  exact hn.lookup hx

/-- An observation was interpreted under the namespace of the book source of
its logical transaction. -/
theorem Named.observed (h : Named sha reader s) {o : TransactionObservation}
    (ho : o ∈ s.ingestion.observations) : ∃ l ∈ s.ingestion.logicals, l.id = o.logical ∧
      ∃ b ∈ s.bookSources, b.id = l.bookSource ∧
        interpretedUnder s o.id = some b.identityNamespace := by
  obtain ⟨a, ha, hao, d, hd, hda, l, hl, hlo, hld⟩ := h.placed.observations o ho
  obtain ⟨d', hd', hda', b, hb, hbd, hname⟩ := h.attempts a ha
  have hdd := eq_of_key_eq Dataset.id h.good.sound.datasets.nodup hd hd' (hda.trans hda'.symm)
  refine ⟨l, hl, hlo, b, hb, ?_, ?_⟩
  · rw [hld, hdd, ← hbd]
    rfl
  · simp only [interpretedUnder, lookup_numbered h.good.sound.observations ho rfl,
      lookup_numbered h.good.sound.attempts ha hao, Option.bind_eq_bind, Option.bind_some, hname]

theorem Named.one (h : Named sha reader s) : OneNamespace s where
  owned := by
    intro m hm
    obtain ⟨r, hr, hrm, d, hd, hdr, l, hl, hld, o, ho, hom, hol⟩ := h.placed.memberships m hm
    obtain ⟨l', hl', hlo, b, hb, hbl, hunder⟩ := h.observed ho
    have hll := eq_of_key_eq LogicalTransaction.id h.good.sound.logicals.nodup hl hl'
      (hol.symm.trans hlo.symm)
    refine ⟨b.identityNamespace, hom ▸ hunder, ?_⟩
    have hbd : b.id = d.bookSource.id := by rw [hbl, ← hll, hld]
    simp only [ownerNamespace, lookup_numbered h.good.sound.revisions hr hrm,
      lookup_numbered h.good.sound.datasets hd hdr, lookup_numbered h.bookSources hb hbd,
      Option.bind_eq_bind, Option.bind_some]
  shared := by
    intro o ho o' ho' hlogical
    obtain ⟨l, hl, hlo, b, hb, hbl, hunder⟩ := h.observed ho
    obtain ⟨l', hl', hlo', b', hb', hbl', hunder'⟩ := h.observed ho'
    have hll := eq_of_key_eq LogicalTransaction.id h.good.sound.logicals.nodup hl hl'
      (hlo.trans (hlogical.trans hlo'.symm))
    have hbb := eq_of_key_eq RoleSource.id h.bookSources.nodup hb hb'
      (hbl.trans ((congrArg LogicalTransaction.bookSource hll).trans hbl'.symm))
    rw [hunder, hunder', hbb]

end Invariant

/-- When sources are prepared again only with contracts of their namespace, the
observations of every revision come from the namespace of its book source, in
every state of the run. -/
theorem namespaces_kept (sha : Sha256) (reader : DatetimeReader) (digests : PayloadDigests)
    (cs : List Command) (h : Along (step sha reader digests) KeepsNamespace State.empty cs) :
    Throughout (step sha reader digests) OneNamespace State.empty cs := by
  have hnamed := throughout_keeps (P := Named sha reader) (fun s c hs hc => step_named hs c hc)
    empty_named h
  exact hnamed.mono fun _ hs => hs.one

def sameSha : Sha256 where
  hexdigest _ := Json.checksum.hexdigest ""
  hex_length _ := Json.checksum.hex_length ""
  hex_digits _ := Json.checksum.hex_digits ""

def otherContract : SourceContract :=
  { sampleContract with
    identityNamespace := "another namespace"
    identityNamespace_text := by decide }

def payloadDigests : PayloadDigests where
  contract := fun contract => contract.identityNamespace
  bindings := fun _ => "bindings"

def openBook : Command :=
  .ingest (.elsewhere [⟨1, .active, 1000, none, none, ⟨0, 1, 0⟩⟩] [⟨1, 1, 0⟩] []) trivial

/-- A file of one line, previewed under a contract revision and activated. -/
def activateFile (contractRevision : ℕ) : List Command :=
  [.ingest (.readHead 0) trivial, .preview 1 0 none ⟨["quantity"], [["1"]]⟩ contractRevision 5,
    .ingest (.readAttempt 0) trivial, .ingest (.complete 1 0 .received 6) trivial,
    .ingest (.activate 1 0 none 7) trivial]

theorem namespaces_kept_sample : Throughout (step sameSha sampleReader payloadDigests) OneNamespace
    State.empty (openBook :: .prepare 1 1 .left sampleContract :: activateFile 0) := by
  apply namespaces_kept
  refine ⟨trivial, ?_, trivial, trivial, trivial, trivial, trivial, trivial⟩
  show ∀ b ∈ ([] : List RoleSource), _
  simp

def preparedTwice : State := run sameSha sampleReader payloadDigests
  (openBook :: .prepare 1 1 .left sampleContract :: .prepare 1 1 .left otherContract ::
    activateFile 1)

/-- A source that is prepared again with a contract of another namespace. -/
theorem second_namespace_activated : ¬ OneNamespace preparedTwice := by
  intro h
  have hmixed : (preparedTwice.ingestion.memberships.any fun m =>
      interpretedUnder preparedTwice m.observation ≠ ownerNamespace preparedTwice m.revision) =
        true := by decide +kernel
  obtain ⟨m, hm, hne⟩ := List.any_eq_true.mp hmixed
  obtain ⟨name, hunder, howner⟩ := h.owned m hm
  exact of_decide_eq_true hne (hunder.trans howner.symm)

end Workbench.Namespaces
