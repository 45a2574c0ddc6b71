import Workbench.Activation

/-!
# The states a dataset has had

Every revision has exactly the members its attempt declares: those observed
from its rows and, for a delta, those of its base that no row names. Its hash
is the hash of these members, its parent the head before it, and without a
reason for the activation no state comes back. Evidence is never overwritten
and members are never changed, so this holds in every state that concurrent
previews and activations reach.
-/

set_option autoImplicit false

namespace Workbench.ActivationLaws
open Workbench.Listing Workbench.Tables Workbench.Calendar Workbench.Dictionaries
open Workbench.Workspaces Workbench.Records Workbench.Ingestion Workbench.Interpretation
open Workbench.Observations Workbench.Fingerprints Workbench.Activation
open Workbench.Raising (bind_ok map_ok mapM_ok demand_ok fetch_ok)

def named (raw : RawRow) : Option (String × IngestionOperation) :=
  raw.preview.bind previewOperation

def ObservedFrom (sha : Sha256) (s : Store) (a : Attempt) (raw : RawRow) (m : Member) : Prop :=
  ∃ payload canonical obs, raw.preview = some (.complete payload) ∧
    payload.operation ≠ .retract ∧ canonicalFromPayload payload = some canonical ∧
    obs ∈ s.observations ∧ obs.attempt = a.id ∧ obs.rowNumber = raw.rowNumber ∧
    (∃ l ∈ s.logicals, l.id = obs.logical ∧ l.sourceRecordKey = canonical.sourceRecordKey) ∧
    storeRow canonical = some obs.row ∧
    observationFingerprint sha a.contractRevision.digest canonical = some obs.fingerprint ∧
    m = ⟨canonical.sourceRecordKey, some (obs.logical, obs.id), obs.fingerprint⟩

structure Declared (sha : Sha256) (s : Store) (r : DatasetRevision) (a : Attempt) : Prop where
  operations : ∀ raw ∈ rowsOf s a.id, ∃ n, named raw = some n ∧
    (a.contractRevision.contract.mode = .fullSnapshot ↔ n.2 = .snapshot)
  distinct : ((rowsOf s a.id).map fun raw => (named raw).map Prod.fst).Nodup
  observed : ∀ raw ∈ rowsOf s a.id, ∀ n ∈ named raw, n.2 ≠ .retract →
    ∃ m, ObservedFrom sha s a raw m ∧ m.key = n.1 ∧ m ∈ membersOf s r.id
  members : ∀ m, m ∈ membersOf s r.id ↔ (∃ raw ∈ rowsOf s a.id, ObservedFrom sha s a raw m) ∨
    m ∈ baseMembers s a ∧ ∀ raw ∈ rowsOf s a.id, ∀ n ∈ named raw, n.1 ≠ m.key
  keys : ((membersOf s r.id).map Member.key).Nodup

def history (s : Store) (dataset : ℕ) : List DatasetRevision :=
  s.revisions.filter fun r => r.dataset = dataset

def Linked : Option ℕ → List DatasetRevision → Option ℕ → Prop
  | parent, [], last => parent = last
  | parent, r::rs, last => r.parent = parent ∧ Linked (some r.id) rs last

theorem linked_snoc {parent last : Option ℕ} {rs : List DatasetRevision} {r : DatasetRevision} :
    Linked parent (rs ++ [r]) last ↔ Linked parent rs r.parent ∧ last = some r.id := by
  induction rs generalizing parent with
  | nil =>
    simp only [List.nil_append, Linked]
    exact and_congr eq_comm eq_comm
  | cons q rs ih =>
    rw [List.cons_append, Linked, Linked, ih, and_assoc]

structure Realized (sha : Sha256) (s : Store) (r : DatasetRevision) (a : Attempt) : Prop where
  attempt : a.id = r.attempt
  dataset : a.dataset = r.dataset
  parent : a.expectedBase = r.parent
  declared : Declared sha s r a
  stateHash : resolvedStateHash sha (hashed (membersOf s r.id)) = some r.stateHash
  fresh : a.activationReason = none → ∀ old ∈ s.revisions, old.dataset = r.dataset →
    old.id < r.id → old.stateHash ≠ r.stateHash

structure Lawful (sha : Sha256) (s : Store) : Prop where
  realized : ∀ r ∈ s.revisions, ∃ a ∈ s.attempts, Realized sha s r a
  linear : ∀ d ∈ s.datasets, Linked none (history s d.id) d.current

structure Read (sha : Sha256) (mode : DatasetMode) (digest : String) (raw : RawRow)
    (e : Evidence) : Prop where
  named : ∃ n, named raw = some n ∧ n.1 = e.key ∧ (mode = .fullSnapshot ↔ n.2 = .snapshot) ∧
    (n.2 = .retract ↔ e.observed? = none)
  observed : ∀ o, e = .observed o → o.rowNumber = raw.rowNumber ∧
    ∃ payload, raw.preview = some (.complete payload) ∧ payload.operation ≠ .retract ∧
      canonicalFromPayload payload = some o.canonical ∧
      observationFingerprint sha digest o.canonical = some o.fingerprint

theorem readEvidence_read {sha : Sha256} {mode : DatasetMode} {digest : String} {raw : RawRow}
    {e : Evidence} (h : readEvidence sha mode digest raw = .ok e) :
    Read sha mode digest raw e := by
  simp only [readEvidence, bind_ok, demand_ok, fetch_ok] at h
  obtain ⟨_, _, preview, hpreview, n, hn, _, _, _, _, _, hmode, h⟩ := h
  have hnamed : named raw = some n := by rw [named, hpreview, Option.bind_some, hn]
  cases preview with
  | complete payload =>
    have hkey : n = (payload.sourceRecordKey, payload.operation) := (Option.some.inj hn).symm
    simp only at h
    by_cases hop : payload.operation = .retract
    · rw [if_pos hop] at h
      obtain rfl := Except.ok.inj h
      refine ⟨⟨n, hnamed, rfl, hmode, ?_⟩, fun o ho => by cases ho⟩
      rw [hkey]
      exact ⟨fun _ => rfl, fun _ => hop⟩
    · rw [if_neg hop] at h
      simp only [bind_ok, fetch_ok] at h
      obtain ⟨canonical, hcanonical, fingerprint, hfingerprint, h⟩ := h
      obtain rfl := Except.ok.inj h
      obtain ⟨_, _, _, _, _, _, hfields⟩ := canonicalFromPayload_some hcanonical
      have hck : canonical.sourceRecordKey = payload.sourceRecordKey :=
        congrArg CanonicalFields.sourceRecordKey hfields
      refine ⟨⟨n, hnamed, ?_, hmode, ?_⟩, ?_⟩
      · rw [hkey]
        exact hck.symm
      · rw [hkey]
        exact ⟨fun h0 => absurd h0 hop, fun h0 => by cases h0⟩
      · intro o ho
        obtain rfl := Evidence.observed.inj ho
        exact ⟨rfl, payload, hpreview, hop, hcanonical, hfingerprint⟩
  | retraction _ key _ =>
    obtain rfl := Except.ok.inj h
    refine ⟨⟨n, hnamed, rfl, hmode, ?_⟩, fun o ho => by cases ho⟩
    rw [← Option.some.inj hn]
    exact ⟨fun _ => rfl, fun _ => rfl⟩
  | incomplete _ _ => cases hn

structure Made (logicals : List LogicalTransaction) (bookSource attempt : ℕ) (o : Observed)
    (obs : TransactionObservation) : Prop where
  logical : ∃ l, logicalOf logicals bookSource o.key = some l ∧ obs.logical = l.id
  attempt : obs.attempt = attempt
  rowNumber : obs.rowNumber = o.rowNumber
  row : storeRow o.canonical = some obs.row
  fingerprint : obs.fingerprint = o.fingerprint

theorem observe_made {logicals : List LogicalTransaction} {bookSource attempt id : ℕ}
    {o : Observed} {obs : TransactionObservation}
    (h : observe logicals bookSource attempt id o = .ok obs) :
    obs.id = id ∧ Made logicals bookSource attempt o obs := by
  simp only [observe, bind_ok, fetch_ok] at h
  obtain ⟨l, hl, row, hrow, he⟩ := h
  obtain rfl := Except.ok.inj he
  exact ⟨rfl, ⟨⟨l, hl, rfl⟩, rfl, rfl, hrow, rfl⟩⟩

theorem observations_made {logicals : List LogicalTransaction} {bookSource attempt base : ℕ}
    {observed : List Observed} {observations : List TransactionObservation}
    (h : (observed.zipIdx.mapM fun o => observe logicals bookSource attempt (base+o.2) o.1) =
      .ok observations) :
    observations.map TransactionObservation.id = List.range' base observations.length ∧
      List.Forall₂ (Made logicals bookSource attempt) observed observations := by
  have hall := mapM_ok.mp h
  have hlen : observed.length = observations.length := by
    rw [← hall.length_eq, List.length_zipIdx]
  constructor
  · have hids : observations.map TransactionObservation.id =
        observed.zipIdx.map fun o => base+o.2 := by
      clear hlen h
      generalize observed.zipIdx = zs at hall
      induction hall with
      | nil => rfl
      | cons hab _ ih =>
        rw [List.map_cons, List.map_cons, ih, (observe_made hab).1]
    rw [hids, ← hlen]
    have hmap : (observed.zipIdx.map fun o => base+o.2) =
        (observed.zipIdx.map Prod.snd).map (base + ·) := by rw [List.map_map]; rfl
    rw [hmap, List.zipIdx_map_snd, List.map_add_range', Nat.add_zero]
  · rw [← List.zipIdx_map_fst 0 observed, List.forall₂_map_left_iff]
    exact hall.imp fun _ _ h => (observe_made h).2

theorem logicalOf_some {logicals : List LogicalTransaction} {bookSource : ℕ} {key : String}
    {l : LogicalTransaction} (h : logicalOf logicals bookSource key = some l) :
    l ∈ logicals ∧ l.bookSource = bookSource ∧ l.sourceRecordKey = key := by
  unfold logicalOf at h
  have hp := List.find?_some h
  simp only [decide_eq_true_eq] at hp
  exact ⟨List.mem_of_find?_eq_some h, hp⟩

def identity (l : LogicalTransaction) : ℕ × String := (l.bookSource, l.sourceRecordKey)

theorem materialize_ok {workspace bookSource : ℕ} {old logicals : List LogicalTransaction}
    {keys : List String} (h : materialize workspace bookSource old keys = .ok logicals)
    (hold : (old.map identity).Nodup) : ∃ news, logicals = old ++ news ∧
      news.map LogicalTransaction.id = List.range' old.length news.length ∧
      (logicals.map identity).Nodup := by
  simp only [materialize, bind_ok, demand_ok] at h
  obtain ⟨_, _, he⟩ := h
  obtain rfl := Except.ok.inj he
  refine ⟨_, rfl, ?_, ?_⟩
  · rw [List.map_map, List.length_map, List.length_zipIdx]
    have hmap : (LogicalTransaction.id ∘ fun k : String × ℕ =>
        (⟨old.length+k.2, workspace, bookSource, k.1⟩ : LogicalTransaction)) =
        (old.length + ·) ∘ Prod.snd := rfl
    rw [hmap, ← List.map_map, List.zipIdx_map_snd, List.map_add_range', Nat.add_zero]
  · rw [List.map_append, List.map_map]
    have hmap : (identity ∘ fun k : String × ℕ =>
        (⟨old.length+k.2, workspace, bookSource, k.1⟩ : LogicalTransaction)) =
        (fun key => (bookSource, key)) ∘ Prod.fst := rfl
    rw [hmap, ← List.map_map, List.zipIdx_map_fst]
    apply List.Nodup.append hold
    · apply List.Nodup.map (fun _ _ h => (Prod.mk.inj h).2)
      exact (sortedSet_nodup keys).filter _
    · intro x hx hy
      obtain ⟨l, hl, rfl⟩ := List.mem_map.mp hx
      obtain ⟨key, hkey, he⟩ := List.mem_map.mp hy
      simp only [List.mem_filter, decide_eq_true_eq] at hkey
      have hnone := List.find?_eq_none.mp hkey.2 l hl
      simp only [identity, Prod.mk.injEq] at he
      simp [he.1, he.2] at hnone

def rawOf (s : Store) (attempt : ℕ) : List RawRow :=
  s.rawRows.filter fun r => r.attempt = attempt

def rowsFor (reader : DatetimeReader) (a : Attempt) : List RawRow :=
  match interpretCsv reader a.contractRevision.contract a.artifact.header a.artifact.lines with
  | .ok p => p.rows.map fun r => ⟨a.id, r.rowNumber, r.preview, r.issues⟩
  | .error _ => []

structure Sound (reader : DatetimeReader) (s : Store) : Prop where
  attempts : Numbered Attempt.id s.attempts
  datasets : Numbered Dataset.id s.datasets
  logicals : Numbered LogicalTransaction.id s.logicals
  observations : Numbered TransactionObservation.id s.observations
  revisions : Numbered DatasetRevision.id s.revisions
  identities : (s.logicals.map identity).Nodup
  memberships : ∀ m ∈ s.memberships, (∃ r ∈ s.revisions, r.id = m.revision) ∧
    ∃ l ∈ s.logicals, l.id = m.logical ∧ ∃ o ∈ s.observations, o.id = m.observation ∧
      o.logical = l.id
  owned : ∀ r ∈ s.revisions, ∃ d ∈ s.datasets, d.id = r.dataset
  activated : ∀ o ∈ s.observations, ∃ r ∈ s.revisions, r.attempt = o.attempt
  linked : ∀ o ∈ s.observations, ∃ l ∈ s.logicals, l.id = o.logical
  bases : ∀ a ∈ s.attempts, ∀ b ∈ a.expectedBase, ∃ r ∈ s.revisions, r.id = b ∧
    r.dataset = a.dataset
  orphans : ∀ raw ∈ s.rawRows, ∃ a ∈ s.attempts, a.id = raw.attempt
  evidence : ∀ a ∈ s.attempts, rawOf s a.id = rowsFor reader a ∨
    a.state = .received ∧ rawOf s a.id = []
  used : ∀ r ∈ s.revisions, ∀ a ∈ s.attempts, a.id = r.attempt → a.state ≠ .received

theorem memberOf_eq {s : Store} (hl : Numbered LogicalTransaction.id s.logicals)
    (ho : Numbered TransactionObservation.id s.observations) {l : LogicalTransaction}
    (hml : l ∈ s.logicals) {o : TransactionObservation} (hmo : o ∈ s.observations)
    {m : DatasetMembership} (h1 : l.id = m.logical) (h2 : o.id = m.observation) :
    memberOf s m = some ⟨l.sourceRecordKey, some (l.id, o.id), o.fingerprint⟩ := by
  unfold memberOf
  rw [← h1, ← h2, hl.lookup hml, ho.lookup hmo]
  rfl

section Growth
variable {reader : DatetimeReader} {s t : Store}

structure Grows (s t : Store) : Prop where
  logicals : ∀ l ∈ s.logicals, l ∈ t.logicals
  observations : ∀ o ∈ s.observations, o ∈ t.observations
  logicalIds : Numbered LogicalTransaction.id t.logicals
  observationIds : Numbered TransactionObservation.id t.observations

theorem memberOf_grows (hs : Sound reader s) (hg : Grows s t) {m : DatasetMembership}
    (hm : m ∈ s.memberships) : memberOf t m = memberOf s m := by
  obtain ⟨_, l, hl, h1, o, ho, h2, _⟩ := hs.memberships m hm
  rw [memberOf_eq hs.logicals hs.observations hl ho h1 h2,
    memberOf_eq hg.logicalIds hg.observationIds (hg.logicals l hl) (hg.observations o ho) h1 h2]

theorem membersOf_grows (hs : Sound reader s) (hg : Grows s t) {news : List DatasetMembership}
    (hm : t.memberships = s.memberships ++ news) {r : ℕ} (hr : ∀ m ∈ news, m.revision ≠ r) :
    membersOf t r = membersOf s r := by
  have hnone : (news.filter fun m => m.revision = r) = [] := by
    rw [List.filter_eq_nil_iff]
    intro m hmem
    simp [hr m hmem]
  unfold membersOf
  rw [hm, List.filter_append, hnone, List.append_nil]
  apply List.filterMap_congr
  intro m hmem
  exact memberOf_grows hs hg (List.mem_filter.mp hmem).1

theorem mem_membersOf (hs : Sound reader s) {r : ℕ} {m : Member} (h : m ∈ membersOf s r) :
    ∃ l ∈ s.logicals, ∃ o ∈ s.observations, o.logical = l.id ∧
      m = ⟨l.sourceRecordKey, some (l.id, o.id), o.fingerprint⟩ := by
  unfold membersOf at h
  obtain ⟨x, hx, he⟩ := List.mem_filterMap.mp h
  obtain ⟨_, l, hl, h1, o, ho, h2, h3⟩ := hs.memberships x (List.mem_filter.mp hx).1
  rw [memberOf_eq hs.logicals hs.observations hl ho h1 h2, Option.some.injEq] at he
  exact ⟨l, hl, o, ho, h3, he.symm⟩

end Growth

theorem read_back {s : Store} {r : ℕ} {members : List Member}
    (h : ∀ m ∈ members, ∃ p, m.stored = some p ∧ memberOf s ⟨r, p.1, p.2⟩ = some m) :
    ((members.filterMap Member.stored).map fun p => (⟨r, p.1, p.2⟩ : DatasetMembership)).filterMap
      (memberOf s) = members := by
  induction members with
  | nil => rfl
  | cons m members ih =>
    obtain ⟨p, hp, hm⟩ := h m (List.mem_cons_self ..)
    rw [List.filterMap_cons_some hp, List.map_cons, List.filterMap_cons_some hm,
      ih fun x hx => h x (List.mem_cons_of_mem _ hx)]

section Members
variable {logicals : List LogicalTransaction} {bookSource attempt : ℕ}
  {evidence : List Evidence} {observations : List TransactionObservation} {base : List Member}

def observedOf (evidence : List Evidence) : List Observed := evidence.filterMap Evidence.observed?

theorem mem_observedOf {o : Observed} : o ∈ observedOf evidence ↔ .observed o ∈ evidence := by
  unfold observedOf
  rw [List.mem_filterMap]
  constructor
  · intro h
    obtain ⟨e, he, ho⟩ := h
    cases e with
    | retracted key => cases ho
    | observed x =>
      rw [← Option.some.inj ho]
      exact he
  · intro h
    exact ⟨_, h, rfl⟩

theorem observedOf_keys (h : (evidence.map Evidence.key).Nodup) :
    ((observedOf evidence).map Observed.key).Nodup := by
  have hsub : ((observedOf evidence).map Observed.key).Sublist (evidence.map Evidence.key) := by
    induction evidence with
    | nil => exact List.Sublist.refl _
    | cons e evidence ih =>
      rw [List.map_cons, List.nodup_cons] at h
      cases e with
      | retracted key => exact (ih h.2).cons _
      | observed o => exact (ih h.2).cons_cons _
  exact h.sublist hsub

theorem zip_made (h : List.Forall₂ (Made logicals bookSource attempt) (observedOf evidence)
    observations) {p : Observed × TransactionObservation}
    (hp : p ∈ (observedOf evidence).zip observations) :
    .observed p.1 ∈ evidence ∧ p.2 ∈ observations ∧ Made logicals bookSource attempt p.1 p.2 :=
  ⟨mem_observedOf.mp (List.of_mem_zip hp).1, (List.of_mem_zip hp).2, List.forall₂_zip h hp⟩

theorem exists_made (h : List.Forall₂ (Made logicals bookSource attempt) (observedOf evidence)
    observations) {o : Observed} (ho : .observed o ∈ evidence) :
    ∃ obs, (o, obs) ∈ (observedOf evidence).zip observations := by
  have hm := mem_observedOf.mpr ho
  rw [← List.map_fst_zip h.length_eq.le] at hm
  obtain ⟨p, hp, he⟩ := List.mem_map.mp hm
  exact ⟨p.2, by rw [← he]; exact hp⟩

theorem exists_observed (h : List.Forall₂ (Made logicals bookSource attempt) (observedOf evidence)
    observations) {obs : TransactionObservation} (ho : obs ∈ observations) :
    ∃ o, (o, obs) ∈ (observedOf evidence).zip observations := by
  rw [← List.map_snd_zip h.length_eq.ge] at ho
  obtain ⟨p, hp, he⟩ := List.mem_map.mp ho
  exact ⟨p.1, by rw [← he]; exact hp⟩

def memberFor (p : Observed × TransactionObservation) : Member :=
  ⟨p.1.key, some (p.2.logical, p.2.id), p.2.fingerprint⟩

theorem newlyObserved_targets
    (h : List.Forall₂ (Made logicals bookSource attempt) (observedOf evidence) observations) :
    (newlyObserved (observedOf evidence) observations).map Update.target =
      (observedOf evidence).map Observed.key := by
  unfold newlyObserved
  rw [List.map_map]
  have hmap : (Update.target ∘ fun p : Observed × TransactionObservation =>
      (Update.set ⟨p.1.key, some (p.2.logical, p.2.id), p.2.fingerprint⟩ : Update Member.key)) =
      Observed.key ∘ Prod.fst := rfl
  rw [hmap, ← List.map_map, List.map_fst_zip h.length_eq.le]

theorem mem_newlyObserved {m : Member} :
    Update.set m ∈ newlyObserved (observedOf evidence) observations ↔
      ∃ p ∈ (observedOf evidence).zip observations, m = memberFor p := by
  unfold newlyObserved
  simp only [List.mem_map, Update.set.injEq]
  constructor
  · intro hm
    obtain ⟨p, hp, he⟩ := hm
    exact ⟨p, hp, he.symm⟩
  · intro hm
    obtain ⟨p, hp, he⟩ := hm
    exact ⟨p, hp, he.symm⟩

theorem update_targets : (evidence.map Evidence.update).map Update.target =
    evidence.map Evidence.key := by
  rw [List.map_map]
  apply List.map_congr_left
  intro e _
  cases e <;> rfl

theorem mem_resolve (hkeys : (evidence.map Evidence.key).Nodup) {m : Member} :
    m ∈ resolve base evidence ↔
      (∃ o, .observed o ∈ evidence ∧ m = ⟨o.key, none, o.fingerprint⟩) ∨
        m ∈ base ∧ m.key ∉ evidence.map Evidence.key := by
  unfold resolve
  rw [mem_applyAll (by rw [update_targets]; exact hkeys), update_targets]
  apply or_congr_left
  rw [List.mem_map]
  constructor
  · intro h
    obtain ⟨e, he, hu⟩ := h
    cases e with
    | retracted key => cases hu
    | observed o => exact ⟨o, he, (Update.set.inj hu).symm⟩
  · intro h
    obtain ⟨o, ho, rfl⟩ := h
    exact ⟨_, ho, rfl⟩

theorem mem_final (hkeys : (evidence.map Evidence.key).Nodup)
    (h : List.Forall₂ (Made logicals bookSource attempt) (observedOf evidence) observations)
    {m : Member} :
    m ∈ applyAll (resolve base evidence) (newlyObserved (observedOf evidence) observations) ↔
      (∃ p ∈ (observedOf evidence).zip observations, m = memberFor p) ∨
        m ∈ base ∧ m.key ∉ evidence.map Evidence.key := by
  rw [mem_applyAll (by rw [newlyObserved_targets h]; exact observedOf_keys hkeys),
    newlyObserved_targets h, mem_newlyObserved, mem_resolve hkeys]
  apply or_congr_right
  have hsub : ∀ {o}, .observed o ∈ evidence → o.key ∈ (observedOf evidence).map Observed.key :=
    fun ho => List.mem_map_of_mem (mem_observedOf.mpr ho)
  constructor
  · intro hm
    obtain ⟨⟨o, ho, rfl⟩ | hbase, hout⟩ := hm
    · exact absurd (hsub ho) hout
    · exact hbase
  · intro hm
    refine ⟨.inr hm, fun hk => hm.2 ?_⟩
    obtain ⟨o, ho, he⟩ := List.mem_map.mp hk
    rw [← he]
    exact List.mem_map_of_mem (f := Evidence.key) (mem_observedOf.mp ho)

theorem hashed_final (hkeys : (evidence.map Evidence.key).Nodup)
    (h : List.Forall₂ (Made logicals bookSource attempt) (observedOf evidence) observations) :
    hashed (applyAll (resolve base evidence)
      (newlyObserved (observedOf evidence) observations)) = hashed (resolve base evidence) := by
  apply map_applyAll
  intro u hu
  obtain ⟨p, hp, rfl⟩ := List.mem_map.mp hu
  obtain ⟨hev, _, hmade⟩ := zip_made h hp
  refine ⟨_, rfl, ?_, ?_⟩
  · exact List.mem_map.mpr ⟨_, (mem_resolve hkeys).mpr (.inl ⟨p.1, hev, rfl⟩), rfl⟩
  · intro b hb hk
    rcases (mem_resolve hkeys).mp hb with ⟨o, ho, rfl⟩ | ⟨_, hout⟩
    · have he := eq_of_key_eq Evidence.key hkeys ho hev hk
      rw [Evidence.observed.inj he, hmade.fingerprint]
    · exact absurd (hk ▸ List.mem_map_of_mem (f := Evidence.key) hev) hout

end Members

structure Committed (s : Store) (dataset : Dataset) (a : Attempt) (reason : Option String)
    (p : Proposal) (t : Store) (r : DatasetRevision) (logicals : List LogicalTransaction)
    (observations : List TransactionObservation) : Prop where
  materialized : materialize dataset.workspace dataset.bookSource.id s.logicals
    ((observedOf p.evidence).map Observed.key) = .ok logicals
  observed : ((observedOf p.evidence).zipIdx.mapM fun o =>
    observe logicals dataset.bookSource.id a.id (s.observations.length+o.2) o.1) = .ok observations
  newLogicals : t.logicals = logicals
  newObservations : t.observations = s.observations ++ observations
  revision : r = ⟨s.revisions.length, dataset.id, a.expectedBase, a.id, p.stateHash⟩
  revisions : t.revisions = s.revisions ++ [r]
  parent : ∀ b ∈ a.expectedBase, ∃ q ∈ s.revisions, q.id = b ∧ q.dataset = dataset.id
  once : ∀ q ∈ s.revisions, q.attempt ≠ a.id
  memberships : t.memberships = s.memberships ++
    ((applyAll p.members (newlyObserved (observedOf p.evidence) observations)).filterMap
      Member.stored).map fun q => (⟨r.id, q.1, q.2⟩ : DatasetMembership)
  stored : ∀ q ∈ (applyAll p.members (newlyObserved (observedOf p.evidence)
      observations)).filterMap Member.stored, ∃ l ∈ logicals, l.id = q.1 ∧
    ∃ o ∈ s.observations ++ observations, o.id = q.2 ∧ o.logical = l.id
  attempts : t.attempts = revise Attempt.id a.id
    (fun a => { a with state := .activated, activationReason := reason }) s.attempts
  datasets : t.datasets = revise Dataset.id dataset.id
    (fun d => { d with current := some r.id }) s.datasets
  rawRows : t.rawRows = s.rawRows

theorem createRevision_ok {s : Store} {dataset : Dataset} {a : Attempt} {stateHash : String}
    {r : DatasetRevision} (h : createRevision s dataset a stateHash = .ok r) :
    r = ⟨s.revisions.length, dataset.id, a.expectedBase, a.id, stateHash⟩ ∧
      (∀ b ∈ a.expectedBase, ∃ q ∈ s.revisions, q.id = b ∧ q.dataset = dataset.id) ∧
      ∀ q ∈ s.revisions, q.attempt ≠ a.id := by
  unfold createRevision at h
  cases hb : a.expectedBase with
  | none =>
    simp only [hb, bind_ok, demand_ok] at h
    obtain ⟨_, _, _, _, _, honce, he⟩ := h
    exact ⟨(Except.ok.inj he).symm, fun _ h => (Option.not_mem_none _ h).elim, honce⟩
  | some base =>
    simp only [hb, bind_ok, demand_ok, fetch_ok] at h
    obtain ⟨_, _, q, hq, _, hqd, _, honce, he⟩ := h
    refine ⟨(Except.ok.inj he).symm, ?_, honce⟩
    intro b hb
    rw [← Option.some.inj hb]
    exact ⟨q, mem_of_lookup hq, key_of_lookup hq, hqd⟩

theorem commit_ok {s : Store} {dataset : Dataset} {a : Attempt} {reason : Option String}
    {p : Proposal} {t : Store} {r : DatasetRevision}
    (h : commit s dataset a reason p = .ok (t, r)) :
    ∃ logicals observations, Committed s dataset a reason p t r logicals observations := by
  simp only [commit, bind_ok] at h
  obtain ⟨logicals, hl, observations, ho, revision, hr, memberships, hm, marked, hmark, he⟩ := h
  obtain ⟨rfl, rfl⟩ := Prod.mk.inj (Except.ok.inj he)
  obtain ⟨hrevision, hparent, honce⟩ := createRevision_ok hr
  simp only [markDatasetActivation, bind_ok, demand_ok] at hmark
  obtain ⟨_, _, hmark⟩ := hmark
  obtain rfl := Except.ok.inj hmark
  simp only [createMemberships, bind_ok, demand_ok] at hm
  obtain ⟨_, hstored, _, _, hm⟩ := hm
  obtain rfl := Except.ok.inj hm
  refine ⟨logicals, observations, hl, ho, rfl, rfl, hrevision, rfl, hparent, honce, rfl, ?_, rfl,
    rfl, rfl⟩
  intro q hq
  obtain ⟨l, hlm, hl1, _, hrest⟩ := hstored q hq
  exact ⟨l, hlm, hl1, hrest⟩

section Commits
variable {sha : Sha256} {reader : DatetimeReader} {s t : Store} {dataset : Dataset}
  {a : Attempt} {reason : Option String} {p : Proposal} {r : DatasetRevision}
  {logicals : List LogicalTransaction} {observations : List TransactionObservation}

theorem committed_made (h : Committed s dataset a reason p t r logicals observations) :
    List.Forall₂ (Made logicals dataset.bookSource.id a.id) (observedOf p.evidence)
      observations := (observations_made h.observed).2

theorem committed_grows (hs : Sound reader s)
    (h : Committed s dataset a reason p t r logicals observations) : Grows s t := by
  obtain ⟨news, hnews, hids, _⟩ := materialize_ok h.materialized hs.identities
  refine ⟨?_, ?_, ?_, ?_⟩
  · intro l hl
    rw [h.newLogicals, hnews]
    exact List.mem_append_left _ hl
  · intro o ho
    rw [h.newObservations]
    exact List.mem_append_left _ ho
  · rw [h.newLogicals, hnews]
    exact hs.logicals.append hids
  · rw [h.newObservations]
    exact hs.observations.append (observations_made h.observed).1

theorem committed_old (hs : Sound reader s)
    (h : Committed s dataset a reason p t r logicals observations) {q : DatasetRevision}
    (hq : q ∈ s.revisions) : membersOf t q.id = membersOf s q.id := by
  apply membersOf_grows hs (committed_grows hs h) h.memberships
  intro m hm he
  obtain ⟨x, _, rfl⟩ := List.mem_map.mp hm
  have hlt := hs.revisions.lt hq
  rw [h.revision] at he
  simp only at he
  omega

theorem baseMembers_stored (hs : Sound reader s) {m : Member} (hm : m ∈ baseMembers s a) :
    ∃ l ∈ s.logicals, ∃ o ∈ s.observations, o.logical = l.id ∧
      m = ⟨l.sourceRecordKey, some (l.id, o.id), o.fingerprint⟩ := by
  unfold baseMembers at hm
  split at hm
  · exact mem_membersOf hs ((mem_sortOn ..).mp hm)
  · cases hm

/-- The members of the new revision are the proposed ones with their stored
pairs. -/
theorem committed_members (hs : Sound reader s)
    (h : Committed s dataset a reason p t r logicals observations)
    (hp : p.members = resolve (baseMembers s a) p.evidence)
    (hkeys : (p.evidence.map Evidence.key).Nodup) :
    membersOf t r.id =
      applyAll p.members (newlyObserved (observedOf p.evidence) observations) := by
  have hgrows := committed_grows hs h
  have hmade := committed_made h
  have hold : (s.memberships.filter fun m => m.revision = r.id) = [] := by
    rw [List.filter_eq_nil_iff]
    intro m hm he
    obtain ⟨⟨q, hq, hqm⟩, _⟩ := hs.memberships m hm
    have hlt := hs.revisions.lt hq
    rw [h.revision] at he
    simp only [decide_eq_true_eq] at he
    omega
  have hnew : ∀ l : List (ℕ × ℕ), ((l.map fun q => (⟨r.id, q.1, q.2⟩ : DatasetMembership)).filter
      fun m => m.revision = r.id) = l.map fun q => (⟨r.id, q.1, q.2⟩ : DatasetMembership) := by
    intro l
    rw [List.filter_eq_self]
    intro m hm
    obtain ⟨q, _, rfl⟩ := List.mem_map.mp hm
    exact decide_eq_true rfl
  unfold membersOf
  rw [h.memberships, List.filter_append, hold, List.nil_append, hnew]
  apply read_back
  intro m hm
  rw [hp, mem_final hkeys hmade] at hm
  rcases hm with ⟨q, hq, rfl⟩ | ⟨hbase, _⟩
  · obtain ⟨_, hobs, hmadeq⟩ := zip_made hmade hq
    obtain ⟨l, hl, hlid⟩ := hmadeq.logical
    obtain ⟨hlm, _, hkey⟩ := logicalOf_some hl
    refine ⟨_, rfl, ?_⟩
    rw [memberOf_eq hgrows.logicalIds hgrows.observationIds (l := l) (o := q.2)
      (h.newLogicals ▸ hlm) (h.newObservations ▸ List.mem_append_right _ hobs) hlid.symm rfl]
    unfold memberFor
    rw [hkey, hlid]
  · obtain ⟨l, hl, o, ho, _, rfl⟩ := baseMembers_stored hs hbase
    exact ⟨_, rfl, memberOf_eq hgrows.logicalIds hgrows.observationIds (hgrows.logicals l hl)
      (hgrows.observations o ho) rfl rfl⟩

/-- What a proposal is made from. -/
structure Proposed (sha : Sha256) (s : Store) (a : Attempt) (p : Proposal) : Prop where
  rows : List.Forall₂ (Read sha a.contractRevision.contract.mode a.contractRevision.digest)
    (rowsOf s a.id) p.evidence
  keys : (p.evidence.map Evidence.key).Nodup
  members : p.members = resolve (baseMembers s a) p.evidence
  stateHash : resolvedStateHash sha (hashed p.members) = some p.stateHash

theorem propose_ok (h : propose sha s a = .ok p) : Proposed sha s a p := by
  simp only [propose, gather, bind_ok, demand_ok, fetch_ok] at h
  obtain ⟨evidence, ⟨_, _, rows, hrows, _, hkeys, he⟩, stateHash, hhash, hp⟩ := h
  obtain rfl := Except.ok.inj he
  obtain rfl := Except.ok.inj hp
  exact ⟨(mapM_ok.mp hrows).imp fun _ _ h => readEvidence_read h, hkeys, rfl, hhash⟩

theorem proposed_distinct (hp : Proposed sha s a p) :
    ((rowsOf s a.id).map fun raw => (named raw).map Prod.fst).Nodup := by
  have hmap : ((rowsOf s a.id).map fun raw => (named raw).map Prod.fst) =
      p.evidence.map fun e => some e.key := by
    apply forall₂_map_eq hp.rows
    intro raw e hread
    obtain ⟨n, hn, hk, _⟩ := hread.named
    rw [hn, Option.map_some, hk]
  rw [hmap, show (fun e => some (Evidence.key e)) = some ∘ Evidence.key from rfl, ← List.map_map]
  exact hp.keys.map (Option.some_injective _)

theorem committed_base (hs : Sound reader s)
    (h : Committed s dataset a reason p t r logicals observations) :
    baseMembers t { a with state := .activated, activationReason := reason } =
      baseMembers s a := by
  unfold baseMembers
  cases hm : a.contractRevision.contract.mode with
  | fullSnapshot => rfl
  | delta =>
    cases hb : a.expectedBase with
    | none => rfl
    | some base =>
      obtain ⟨q, hq, hqid, _⟩ := h.parent base hb
      simp only
      rw [← hqid, committed_old hs h hq]

theorem baseMembers_nodup (hl : Lawful sha s)
    (hb : ∀ b ∈ a.expectedBase, ∃ q ∈ s.revisions, q.id = b) :
    ((baseMembers s a).map Member.key).Nodup := by
  unfold baseMembers
  split
  · rename_i base _ he
    obtain ⟨q, hq, rfl⟩ := hb base he
    obtain ⟨x, _, hx⟩ := hl.realized q hq
    exact nodup_map_sortOn _ _ _ |>.mpr hx.declared.keys
  · exact List.nodup_nil

def activatedAttempt (a : Attempt) (reason : Option String) : Attempt :=
  { a with state := .activated, activationReason := reason }

theorem committed_observedFrom
    (h : Committed s dataset a reason p t r logicals observations)
    {q : Observed × TransactionObservation}
    (hq : q ∈ (observedOf p.evidence).zip observations) {raw : RawRow}
    (hr : Read sha a.contractRevision.contract.mode a.contractRevision.digest raw
      (.observed q.1)) :
    ObservedFrom sha t (activatedAttempt a reason) raw (memberFor q) := by
  obtain ⟨_, hobs, hmade⟩ := zip_made (committed_made h) hq
  obtain ⟨hnumber, payload, hpayload, hop, hcanonical, hfingerprint⟩ := hr.observed _ rfl
  obtain ⟨l, hl, hlid⟩ := hmade.logical
  obtain ⟨hlm, _, hkey⟩ := logicalOf_some hl
  refine ⟨payload, q.1.canonical, q.2, hpayload, hop, hcanonical, ?_, hmade.attempt,
    hmade.rowNumber.trans hnumber, ⟨l, ?_, hlid.symm, hkey⟩, hmade.row, ?_, rfl⟩
  · rw [h.newObservations]
    exact List.mem_append_right _ hobs
  · rw [h.newLogicals]
    exact hlm
  · rw [hmade.fingerprint]
    exact hfingerprint

/-- Whatever is observed from the rows of the attempt was made by this commit. -/
theorem observedFrom_made (hs : Sound reader s)
    (h : Committed s dataset a reason p t r logicals observations) (hp : Proposed sha s a p)
    {raw : RawRow} (hraw : raw ∈ rowsOf s a.id) {m : Member}
    (hm : ObservedFrom sha t (activatedAttempt a reason) raw m) :
    ∃ q ∈ (observedOf p.evidence).zip observations, m = memberFor q := by
  obtain ⟨payload, canonical, obs, hpayload, hop, hcanonical, hobs, hattempt, _,
    ⟨l, hl, hlid, hkey⟩, _, _, rfl⟩ := hm
  rw [h.newObservations, List.mem_append] at hobs
  rcases hobs with hobs | hobs
  · obtain ⟨x, hx, he⟩ := hs.activated obs hobs
    exact absurd (he.trans hattempt) (h.once x hx)
  · obtain ⟨o, ho⟩ := exists_observed (committed_made h) hobs
    obtain ⟨hev, _, hmade⟩ := zip_made (committed_made h) ho
    obtain ⟨l', hl', hlid'⟩ := hmade.logical
    obtain ⟨hlm', _, hkey'⟩ := logicalOf_some hl'
    have hsame : l = l' := eq_of_key_eq LogicalTransaction.id
      (committed_grows hs h).logicalIds.nodup hl (h.newLogicals ▸ hlm') (hlid.trans hlid')
    obtain ⟨e, he, hread⟩ := forall₂_mem_left hp.rows hraw
    obtain ⟨n, hn, hnk, _⟩ := hread.named
    have hn' : n = (payload.sourceRecordKey, payload.operation) := by
      rw [named, hpayload] at hn
      exact (Option.some.inj hn).symm
    obtain ⟨_, _, _, _, _, _, hfields⟩ := canonicalFromPayload_some hcanonical
    have hck : canonical.sourceRecordKey = payload.sourceRecordKey :=
      congrArg CanonicalFields.sourceRecordKey hfields
    have hek : e.key = Evidence.key (.observed o) := by
      rw [← hnk, hn']
      show payload.sourceRecordKey = o.key
      rw [← hck, ← hkey, hsame, hkey']
    have heo := eq_of_key_eq Evidence.key hp.keys he hev hek
    obtain ⟨_, payload', hpayload', _, hcanonical', _⟩ := hread.observed o heo
    rw [hpayload, Option.some.injEq, Preview.complete.injEq] at hpayload'
    subst hpayload'
    rw [hcanonical, Option.some.injEq] at hcanonical'
    refine ⟨_, ho, ?_⟩
    unfold memberFor
    rw [hcanonical']
    rfl

theorem committed_declared (hs : Sound reader s) (hl : Lawful sha s)
    (h : Committed s dataset a reason p t r logicals observations) (hp : Proposed sha s a p) :
    Declared sha t r (activatedAttempt a reason) := by
  have hrows : rowsOf t (activatedAttempt a reason).id = rowsOf s a.id := by
    unfold rowsOf
    rw [h.rawRows]
    rfl
  have hmembers := committed_members hs h hp.members hp.keys
  have hbase : baseMembers t (activatedAttempt a reason) = baseMembers s a := committed_base hs h
  have hmem : ∀ m, m ∈ membersOf t r.id ↔
      (∃ q ∈ (observedOf p.evidence).zip observations, m = memberFor q) ∨
        m ∈ baseMembers s a ∧ m.key ∉ p.evidence.map Evidence.key := by
    intro m
    rw [hmembers, hp.members, mem_final hp.keys (committed_made h)]
  have hread := fun raw hraw => forall₂_mem_left hp.rows (a := raw) hraw
  constructor
  · intro raw hraw
    rw [hrows] at hraw
    obtain ⟨e, _, he⟩ := hread raw hraw
    obtain ⟨n, hn, _, hmode, _⟩ := he.named
    exact ⟨n, hn, hmode⟩
  · rw [hrows]
    exact proposed_distinct hp
  · intro raw hraw n hn hop
    rw [hrows] at hraw
    obtain ⟨e, he, her⟩ := hread raw hraw
    obtain ⟨n', hn', hk, _, hretract⟩ := her.named
    rw [Option.mem_def.mp hn, Option.some.injEq] at hn'
    subst hn'
    cases e with
    | retracted key => exact absurd (hretract.mpr rfl) hop
    | observed o =>
      obtain ⟨obs, hobs⟩ := exists_made (committed_made h) he
      exact ⟨memberFor (o, obs), committed_observedFrom h hobs her, hk.symm,
        (hmem _).mpr (.inl ⟨_, hobs, rfl⟩)⟩
  · intro m
    rw [hmem, hrows, hbase]
    constructor
    · intro hm
      rcases hm with ⟨q, hq, rfl⟩ | ⟨hm, hout⟩
      · obtain ⟨raw, hraw, her⟩ := forall₂_mem_right hp.rows (zip_made (committed_made h) hq).1
        exact .inl ⟨raw, hraw, committed_observedFrom h hq her⟩
      · refine .inr ⟨hm, fun raw hraw n hn he => hout ?_⟩
        obtain ⟨e, hem, her⟩ := hread raw hraw
        obtain ⟨n', hn', hk, _⟩ := her.named
        rw [Option.mem_def.mp hn, Option.some.injEq] at hn'
        subst hn'
        rw [← he, hk]
        exact List.mem_map_of_mem hem
    · intro hm
      rcases hm with ⟨raw, hraw, hm⟩ | ⟨hm, hout⟩
      · exact .inl (observedFrom_made hs h hp hraw hm)
      · refine .inr ⟨hm, fun hk => ?_⟩
        obtain ⟨e, hem, he⟩ := List.mem_map.mp hk
        obtain ⟨raw, hraw, her⟩ := forall₂_mem_right hp.rows hem
        obtain ⟨n, hn, hnk, _⟩ := her.named
        exact hout raw hraw n hn (hnk.trans he)
  · rw [hmembers, hp.members]
    apply nodup_applyAll
    apply nodup_applyAll
    apply baseMembers_nodup hl
    intro b hb
    obtain ⟨q, hq, hqb, _⟩ := h.parent b hb
    exact ⟨q, hq, hqb⟩

end Commits

section Frames
variable {sha : Sha256} {reader : DatetimeReader} {s t : Store}

structure SameEvidence (a a' : Attempt) : Prop where
  id : a'.id = a.id
  dataset : a'.dataset = a.dataset
  contractRevision : a'.contractRevision = a.contractRevision
  artifact : a'.artifact = a.artifact
  expectedBase : a'.expectedBase = a.expectedBase
  activationReason : a'.activationReason = a.activationReason

theorem observedFrom_frame (hs : Sound reader s) (hg : Grows s t) {a a' : Attempt}
    (he : SameEvidence a a')
    (hobs : ∀ o ∈ t.observations, o ∈ s.observations ∨ o.attempt ≠ a.id) {raw : RawRow}
    {m : Member} : ObservedFrom sha t a' raw m ↔ ObservedFrom sha s a raw m := by
  unfold ObservedFrom
  rw [he.id, he.contractRevision]
  constructor
  · intro h
    obtain ⟨payload, canonical, obs, h1, h2, h3, ho, h4, h5, ⟨l, hl, hlid, hkey⟩, h6, h7, h8⟩ := h
    rcases hobs obs ho with hold | hne
    · obtain ⟨l', hl', hlid'⟩ := hs.linked obs hold
      have hsame : l = l' := eq_of_key_eq LogicalTransaction.id hg.logicalIds.nodup hl
        (hg.logicals l' hl') (hlid.trans hlid'.symm)
      exact ⟨payload, canonical, obs, h1, h2, h3, hold, h4, h5, ⟨l', hl', hlid', hsame ▸ hkey⟩,
        h6, h7, h8⟩
    · exact absurd h4 hne
  · intro h
    obtain ⟨payload, canonical, obs, h1, h2, h3, ho, h4, h5, ⟨l, hl, hlid, hkey⟩, h6, h7, h8⟩ := h
    exact ⟨payload, canonical, obs, h1, h2, h3, hg.observations obs ho, h4, h5,
      ⟨l, hg.logicals l hl, hlid, hkey⟩, h6, h7, h8⟩

/-- A revision stays what its attempt declares. -/
theorem realized_frame (hs : Sound reader s) (hg : Grows s t) {q : DatasetRevision}
    {a a' : Attempt} (hq : q ∈ s.revisions) (ha : a ∈ s.attempts) (h : Realized sha s q a)
    (he : SameEvidence a a') (hrows : rowsOf t a.id = rowsOf s a.id)
    (hmem : ∀ y ∈ s.revisions, membersOf t y.id = membersOf s y.id)
    (hobs : ∀ o ∈ t.observations, o ∈ s.observations ∨ o.attempt ≠ a.id)
    (hrev : ∀ y ∈ t.revisions, y ∈ s.revisions ∨ s.revisions.length ≤ y.id) :
    Realized sha t q a' := by
  have hframe : ∀ raw m, ObservedFrom sha t a' raw m ↔ ObservedFrom sha s a raw m :=
    fun raw m => observedFrom_frame hs hg he hobs
  have hbase : baseMembers t a' = baseMembers s a := by
    unfold baseMembers
    rw [he.contractRevision, he.expectedBase]
    cases a.contractRevision.contract.mode with
    | fullSnapshot => rfl
    | delta =>
      cases hb : a.expectedBase with
      | none => rfl
      | some base =>
        obtain ⟨y, hy, hyb, _⟩ := hs.bases a ha base hb
        simp only
        rw [← hyb, hmem y hy]
  have hd := h.declared
  constructor
  · exact he.id.trans h.attempt
  · exact he.dataset.trans h.dataset
  · exact he.expectedBase.trans h.parent
  · constructor
    · rw [he.id, hrows, he.contractRevision]
      exact hd.operations
    · rw [he.id, hrows]
      exact hd.distinct
    · rw [he.id, hrows, hmem q hq]
      intro raw hraw n hn hop
      obtain ⟨m, hm, hrest⟩ := hd.observed raw hraw n hn hop
      exact ⟨m, (hframe raw m).mpr hm, hrest⟩
    · intro m
      rw [he.id, hrows, hmem q hq, hbase, hd.members m]
      apply or_congr_left
      exact exists_congr fun raw => and_congr_right fun _ => (hframe raw m).symm
    · rw [hmem q hq]
      exact hd.keys
  · rw [hmem q hq]
    exact h.stateHash
  · intro hreason old hold hdataset hlt
    rw [he.activationReason] at hreason
    rcases hrev old hold with hs' | hge
    · exact h.fresh hreason old hs' hdataset hlt
    · have := hs.revisions.lt hq
      omega

structure Keeps (s t : Store) : Prop where
  logicals : t.logicals = s.logicals
  observations : t.observations = s.observations
  revisions : t.revisions = s.revisions
  memberships : t.memberships = s.memberships
  attempts : ∀ a ∈ s.attempts, ∃ a' ∈ t.attempts, SameEvidence a a'
  rows : ∀ r ∈ s.revisions, rowsOf t r.attempt = rowsOf s r.attempt

theorem keeps_realized (hs : Sound reader s) (hk : Keeps s t)
    (h : ∀ r ∈ s.revisions, ∃ a ∈ s.attempts, Realized sha s r a) :
    ∀ r ∈ t.revisions, ∃ a ∈ t.attempts, Realized sha t r a := by
  have hg : Grows s t := ⟨fun l hl => hk.logicals ▸ hl, fun o ho => hk.observations ▸ ho,
    hk.logicals ▸ hs.logicals, hk.observations ▸ hs.observations⟩
  have hmem : ∀ y, membersOf t y = membersOf s y := by
    intro y
    have hnone : ∀ m ∈ ([] : List DatasetMembership), m.revision ≠ y := fun _ hm => by cases hm
    exact membersOf_grows hs hg (by rw [hk.memberships, List.append_nil]) hnone
  intro r hr
  rw [hk.revisions] at hr
  obtain ⟨a, ha, hra⟩ := h r hr
  obtain ⟨a', ha', he⟩ := hk.attempts a ha
  refine ⟨a', ha', realized_frame hs hg hr ha hra he ?_ (fun y _ => hmem y.id) ?_ ?_⟩
  · rw [hra.attempt]
    exact hk.rows r hr
  · intro o ho
    exact .inl (hk.observations ▸ ho)
  · intro y hy
    exact .inl (hk.revisions ▸ hy)

theorem sameEvidence_refl (a : Attempt) : SameEvidence a a := ⟨rfl, rfl, rfl, rfl, rfl, rfl⟩

theorem revised_attempts {k : ℕ} {f : Attempt → Attempt} (hf : ∀ a, SameEvidence a (f a))
    {rows : List Attempt} {a : Attempt} (ha : a ∈ rows) :
    ∃ a' ∈ revise Attempt.id k f rows, SameEvidence a a' := by
  refine ⟨_, mem_revise.mpr ⟨a, ha, rfl⟩, ?_⟩
  by_cases hk : a.id = k
  · rw [if_pos hk]
    exact hf a
  · rw [if_neg hk]
    exact sameEvidence_refl a

theorem revised_from {k : ℕ} {f : Attempt → Attempt} (hf : ∀ a, SameEvidence a (f a))
    {rows : List Attempt} {a' : Attempt} (ha : a' ∈ revise Attempt.id k f rows) :
    ∃ a ∈ rows, SameEvidence a a' ∧ a' = if a.id = k then f a else a := by
  obtain ⟨a, hm, rfl⟩ := mem_revise.mp ha
  refine ⟨a, hm, ?_, rfl⟩
  by_cases hk : a.id = k
  · rw [if_pos hk]
    exact hf a
  · rw [if_neg hk]
    exact sameEvidence_refl a

theorem rowsFor_same {a a' : Attempt} (h : SameEvidence a a') :
    rowsFor reader a' = rowsFor reader a := by
  unfold rowsFor
  rw [h.contractRevision, h.artifact, h.id]

structure Good (reader : DatetimeReader) (sha : Sha256) (s : Store) : Prop where
  sound : Sound reader s
  lawful : Lawful sha s

theorem read_good (h : Good reader sha s) (reading : Option Reading) :
    Good reader sha (read s reading) := by
  obtain ⟨hs, hl⟩ := h
  have hk : Keeps s (read s reading) :=
    ⟨rfl, rfl, rfl, rfl, fun a ha => ⟨a, ha, sameEvidence_refl a⟩, fun _ _ => rfl⟩
  exact ⟨⟨hs.attempts, hs.datasets, hs.logicals, hs.observations, hs.revisions, hs.identities,
    hs.memberships, hs.owned, hs.activated, hs.linked, hs.bases, hs.orphans, hs.evidence,
    hs.used⟩, ⟨keeps_realized hs hk hl.realized, hl.linear⟩⟩

theorem elsewhere_good (h : Good reader sha s) (workspaces : List Workspace)
    (books : List Book) (scopes : List Scope) :
    Good reader sha { s with workspaces := workspaces, books := books, scopes := scopes } := by
  obtain ⟨hs, hl⟩ := h
  have hk : Keeps s { s with workspaces := workspaces, books := books, scopes := scopes } :=
    ⟨rfl, rfl, rfl, rfl, fun a ha => ⟨a, ha, sameEvidence_refl a⟩, fun _ _ => rfl⟩
  exact ⟨⟨hs.attempts, hs.datasets, hs.logicals, hs.observations, hs.revisions, hs.identities,
    hs.memberships, hs.owned, hs.activated, hs.linked, hs.bases, hs.orphans, hs.evidence,
    hs.used⟩, ⟨keeps_realized hs hk hl.realized, hl.linear⟩⟩

theorem createDataset_good (h : Good reader sha s) (workspace : ℕ) (bookSource : BookSource) :
    Good reader sha { s with
      datasets := s.datasets ++ [⟨s.datasets.length, workspace, bookSource, none⟩] } := by
  obtain ⟨hs, hl⟩ := h
  have hk : Keeps s { s with
      datasets := s.datasets ++ [⟨s.datasets.length, workspace, bookSource, none⟩] } :=
    ⟨rfl, rfl, rfl, rfl, fun a ha => ⟨a, ha, sameEvidence_refl a⟩, fun _ _ => rfl⟩
  refine ⟨⟨hs.attempts, hs.datasets.concat rfl, hs.logicals, hs.observations, hs.revisions,
    hs.identities, hs.memberships, ?_, hs.activated, hs.linked, hs.bases, hs.orphans, hs.evidence,
    hs.used⟩, ⟨keeps_realized hs hk hl.realized, ?_⟩⟩
  · intro r hr
    obtain ⟨d, hd, he⟩ := hs.owned r hr
    exact ⟨d, List.mem_append_left _ hd, he⟩
  · intro d hd
    rcases List.mem_append.mp hd with hd | hd
    · exact hl.linear d hd
    · rw [List.mem_singleton] at hd
      subst hd
      have hnone : history s s.datasets.length = [] := by
        unfold history
        rw [List.filter_eq_nil_iff]
        intro r hr he
        obtain ⟨d, hd, hid⟩ := hs.owned r hr
        have hlt := hs.datasets.lt hd
        simp only [decide_eq_true_eq] at he
        omega
      show Linked none (history s s.datasets.length) none
      rw [hnone]
      rfl

/-- A new attempt has no rows and no revision. -/
theorem createShell_good (h : Good reader sha s) {workspace dataset : ℕ} {base : Option ℕ}
    {artifact : FileArtifact} {contract : ContractRevision} {now : Instant}
    (hc : createShell s workspace dataset base artifact contract now = .ok t) :
    Good reader sha t := by
  obtain ⟨hs, hl⟩ := h
  simp only [createShell, bind_ok, demand_ok, fetch_ok] at hc
  obtain ⟨_, _, _, _, d, hd, _, _, _, _, _, _, _, hbase, ht⟩ := hc
  obtain rfl := Except.ok.inj ht
  have hused : ∀ r ∈ s.revisions, r.attempt < s.attempts.length := by
    intro r hr
    obtain ⟨a, ha, hra⟩ := hl.realized r hr
    rw [← hra.attempt]
    exact hs.attempts.lt ha
  refine ⟨⟨hs.attempts.concat rfl, hs.datasets, hs.logicals, hs.observations, hs.revisions,
    hs.identities, hs.memberships, hs.owned, hs.activated, hs.linked, ?_, ?_, ?_, ?_⟩,
    ⟨keeps_realized hs ⟨rfl, rfl, rfl, rfl, fun a ha => ⟨a, List.mem_append_left _ ha,
      sameEvidence_refl a⟩, fun _ _ => rfl⟩ hl.realized, hl.linear⟩⟩
  · intro a ha b hb
    rcases List.mem_append.mp ha with ha | ha
    · exact hs.bases a ha b hb
    · rw [List.mem_singleton] at ha
      subst ha
      exact hbase b hb
  · intro raw hraw
    obtain ⟨a, ha, he⟩ := hs.orphans raw hraw
    exact ⟨a, List.mem_append_left _ ha, he⟩
  · intro a ha
    rcases List.mem_append.mp ha with ha | ha
    · exact hs.evidence a ha
    · rw [List.mem_singleton] at ha
      subst ha
      refine .inr ⟨rfl, ?_⟩
      unfold rawOf
      rw [List.filter_eq_nil_iff]
      intro raw hraw he
      obtain ⟨x, hx, hxr⟩ := hs.orphans raw hraw
      have hlt := hs.attempts.lt hx
      simp only [decide_eq_true_eq] at he
      omega
  · intro r hr a ha he
    rcases List.mem_append.mp ha with ha | ha
    · exact hs.used r hr a ha he
    · rw [List.mem_singleton] at ha
      subst ha
      have hlt := hused r hr
      simp only at he
      omega

theorem finish_good (h : Good reader sha s) {k : ℕ} {state : AttemptState}
    (hold : ∀ a ∈ s.attempts, a.id = k → a.state ≠ .received) (hstate : state ≠ .received) :
    Good reader sha (finishWithoutRevision k state s) := by
  obtain ⟨hs, hl⟩ := h
  have hf : ∀ a : Attempt, SameEvidence a { a with state := state } :=
    fun _ => ⟨rfl, rfl, rfl, rfl, rfl, rfl⟩
  have hk : Keeps s (finishWithoutRevision k state s) :=
    ⟨rfl, rfl, rfl, rfl, fun a ha => revised_attempts hf ha, fun _ _ => rfl⟩
  have hids : Numbered Attempt.id
      (revise Attempt.id k (fun a : Attempt => { a with state := state }) s.attempts) :=
    Numbered.revise (f := fun a : Attempt => { a with state := state }) hs.attempts
      (fun _ => rfl) k
  refine ⟨⟨hids, hs.datasets, hs.logicals, hs.observations, hs.revisions, hs.identities,
    hs.memberships, hs.owned, hs.activated, hs.linked, ?_, ?_, ?_, ?_⟩,
    ⟨keeps_realized hs hk hl.realized, hl.linear⟩⟩
  · intro a' ha' b hb
    obtain ⟨a, ha, he, _⟩ := revised_from hf ha'
    rw [he.expectedBase] at hb
    rw [he.dataset]
    exact hs.bases a ha b hb
  · intro raw hraw
    obtain ⟨a, ha, hid⟩ := hs.orphans raw hraw
    obtain ⟨a', ha', he⟩ := revised_attempts (k := k) hf ha
    exact ⟨a', ha', he.id.trans hid⟩
  · intro a' ha'
    obtain ⟨a, ha, he, hrev⟩ := revised_from hf ha'
    rw [rowsFor_same he, he.id]
    rcases hs.evidence a ha with hrows | ⟨hreceived, hnone⟩
    · exact .inl hrows
    · by_cases hka : a.id = k
      · exact absurd hreceived (hold a ha hka)
      · rw [if_neg hka] at hrev
        rw [hrev]
        exact .inr ⟨hreceived, hnone⟩
  · intro r hr a' ha' hid
    obtain ⟨a, ha, he, hrev⟩ := revised_from hf ha'
    by_cases hka : a.id = k
    · rw [if_pos hka] at hrev
      rw [hrev]
      exact hstate
    · rw [if_neg hka] at hrev
      rw [hrev]
      exact hs.used r hr a ha (he.id ▸ hid)

theorem mem_rowsFor {a : Attempt} {raw : RawRow} (h : raw ∈ rowsFor reader a) :
    raw.attempt = a.id := by
  unfold rowsFor at h
  split at h
  · obtain ⟨r, _, rfl⟩ := List.mem_map.mp h
    rfl
  · cases h

theorem rowsOf_congr {k : ℕ} (h : rawOf t k = rawOf s k) : rowsOf t k = rowsOf s k :=
  congrArg (sortOn RawRow.rowNumber) h

/-- A completion stores the rows of its attempt, or finds them stored already and
is rolled back. -/
theorem complete_good (h : Good reader sha s) {workspace attempt : ℕ} {read : AttemptState}
    {now : Instant} (hc : complete reader s workspace attempt read now = .ok t) :
    Good reader sha t := by
  obtain ⟨hs, hl⟩ := h
  simp only [complete, bind_ok, demand_ok, fetch_ok] at hc
  obtain ⟨a, ha, _, _, _, _, interpreted, hcsv, _, _, _, _, _, _, _, hfree, ht⟩ := hc
  obtain rfl := Except.ok.inj ht
  have ham := mem_of_lookup ha
  have hrowsFor : rowsFor reader a =
      interpreted.rows.map fun r => ⟨a.id, r.rowNumber, r.preview, r.issues⟩ := by
    unfold rowsFor
    cases hi : interpretCsv reader a.contractRevision.contract a.artifact.header
      a.artifact.lines with
    | error e =>
      rw [hi] at hcsv
      cases hcsv
    | ok p =>
      rw [hi] at hcsv
      rw [Option.some.inj hcsv]
  rw [← hrowsFor] at hfree ⊢
  let f : Attempt → Attempt := fun a => { a with
    state := if interpreted.errorCount = 0 then .ready else .rejected
    rowCount := interpreted.rows.length
    errorCount := interpreted.errorCount
    validation := interpreted.issues }
  have hf : ∀ a : Attempt, SameEvidence a (f a) := fun _ => ⟨rfl, rfl, rfl, rfl, rfl, rfl⟩
  have hstate : ∀ a, (f a).state ≠ .received := by
    intro a
    show (if interpreted.errorCount = 0 then AttemptState.ready else .rejected) ≠ .received
    split <;> simp
  have hsame : ∀ {x : Attempt}, x ∈ s.attempts → x.id = a.id → x = a :=
    fun hx he => eq_of_key_eq Attempt.id hs.attempts.nodup hx ham he
  -- stored rows of the attempt leave no room for any others
  have hempty : rawOf s a.id = rowsFor reader a → rowsFor reader a = [] := by
    intro he
    apply List.eq_nil_iff_forall_not_mem.mpr
    intro raw hraw
    have hold : raw ∈ s.rawRows := by
      rw [← he] at hraw
      exact (List.mem_filter.mp hraw).1
    exact hfree raw hraw raw hold ⟨rfl, rfl⟩
  have hself : (rowsFor reader a).filter (fun r => r.attempt = a.id) = rowsFor reader a := by
    rw [List.filter_eq_self]
    exact fun raw hraw => decide_eq_true (mem_rowsFor hraw)
  have hother : ∀ k, k ≠ a.id → (rowsFor reader a).filter (fun r => r.attempt = k) = [] := by
    intro k hk
    rw [List.filter_eq_nil_iff]
    intro raw hraw he
    exact hk ((of_decide_eq_true he).symm.trans (mem_rowsFor hraw))
  have hused : ∀ r ∈ s.revisions, rawOf s r.attempt ++
      (rowsFor reader a).filter (fun x => x.attempt = r.attempt) = rawOf s r.attempt := by
    intro r hr
    by_cases hk : r.attempt = a.id
    · rw [hk, hself]
      rcases hs.evidence a ham with he | ⟨hreceived, _⟩
      · rw [hempty he, List.append_nil]
      · exact absurd hreceived (hs.used r hr a ham hk.symm)
    · rw [hother _ hk, List.append_nil]
  have hids : Numbered Attempt.id (revise Attempt.id a.id f s.attempts) :=
    Numbered.revise (f := f) hs.attempts (fun _ => rfl) a.id
  refine ⟨⟨hids, hs.datasets, hs.logicals, hs.observations, hs.revisions, hs.identities,
    hs.memberships, hs.owned, hs.activated, hs.linked, ?_, ?_, ?_, ?_⟩,
    ⟨keeps_realized hs ⟨rfl, rfl, rfl, rfl, fun x hx => revised_attempts hf hx, ?_⟩ hl.realized,
      hl.linear⟩⟩
  · intro a' ha' b hb
    obtain ⟨x, hx, he, _⟩ := revised_from hf ha'
    rw [he.expectedBase] at hb
    rw [he.dataset]
    exact hs.bases x hx b hb
  · intro raw hraw
    rcases List.mem_append.mp hraw with hraw | hraw
    · obtain ⟨x, hx, hid⟩ := hs.orphans raw hraw
      obtain ⟨x', hx', he⟩ := revised_attempts (k := a.id) hf hx
      exact ⟨x', hx', he.id.trans hid⟩
    · obtain ⟨x', hx', he⟩ := revised_attempts (k := a.id) hf ham
      exact ⟨x', hx', he.id.trans (mem_rowsFor hraw).symm⟩
  · intro a' ha'
    obtain ⟨x, hx, he, hrev⟩ := revised_from hf ha'
    unfold rawOf
    rw [rowsFor_same he, he.id, List.filter_append]
    by_cases hk : x.id = a.id
    · obtain rfl := hsame hx hk
      rw [hself]
      left
      show rawOf s x.id ++ rowsFor reader x = rowsFor reader x
      rcases hs.evidence x hx with heq | ⟨_, hnone⟩
      · rw [hempty heq, List.append_nil, heq, hempty heq]
      · rw [hnone, List.nil_append]
    · rw [hother _ hk, List.append_nil]
      rw [if_neg hk] at hrev
      rw [hrev]
      exact hs.evidence x hx
  · intro r hr a' ha' hid
    obtain ⟨x, hx, he, hrev⟩ := revised_from hf ha'
    by_cases hk : x.id = a.id
    · rw [if_pos hk] at hrev
      rw [hrev]
      exact hstate x
    · rw [if_neg hk] at hrev
      rw [hrev]
      exact hs.used r hr x hx (he.id ▸ hid)
  · intro r hr
    apply rowsOf_congr
    unfold rawOf
    rw [List.filter_append]
    exact hused r hr

section Commit
variable {dataset : Dataset} {a : Attempt} {reason : Option String} {p : Proposal}
  {r : DatasetRevision} {logicals : List LogicalTransaction}
  {observations : List TransactionObservation}

theorem committed_attempt (h : Committed s dataset a reason p t r logicals observations)
    {x' : Attempt} (hx : x' ∈ t.attempts) : ∃ x ∈ s.attempts,
      x' = if x.id = a.id then activatedAttempt x reason else x := by
  rw [h.attempts] at hx
  exact mem_revise.mp hx

theorem activatedAttempt_fields {x x' : Attempt} {k : ℕ}
    (h : x' = if x.id = k then activatedAttempt x reason else x) :
    x'.id = x.id ∧ x'.dataset = x.dataset ∧ x'.expectedBase = x.expectedBase ∧
      ∀ reader, rowsFor reader x' = rowsFor reader x := by
  subst h
  split
  · exact ⟨rfl, rfl, rfl, fun _ => rfl⟩
  · exact ⟨rfl, rfl, rfl, fun _ => rfl⟩

theorem committed_sound (hs : Sound reader s) (ha : a ∈ s.attempts) (hd : dataset ∈ s.datasets)
    (hstate : a.state ≠ .received)
    (h : Committed s dataset a reason p t r logicals observations) : Sound reader t := by
  have hg := committed_grows hs h
  have hmade := committed_made h
  obtain ⟨news, _, _, hidentities⟩ := materialize_ok h.materialized hs.identities
  have hrevisions : ∀ q ∈ s.revisions, q ∈ t.revisions := by
    intro q hq
    rw [h.revisions]
    exact List.mem_append_left _ hq
  have hr : r ∈ t.revisions := by
    rw [h.revisions]
    exact List.mem_append_right _ (List.mem_singleton_self _)
  have hattempts : ∀ x ∈ s.attempts, ∃ x' ∈ t.attempts, x'.id = x.id := by
    intro x hx
    rw [h.attempts]
    refine ⟨_, mem_revise.mpr ⟨x, hx, rfl⟩, ?_⟩
    split <;> rfl
  have hraw : ∀ k, rawOf t k = rawOf s k := by
    intro k
    unfold rawOf
    rw [h.rawRows]
  constructor
  · rw [h.attempts]
    exact Numbered.revise (f := fun a : Attempt =>
      { a with state := .activated, activationReason := reason }) hs.attempts (fun _ => rfl) a.id
  · rw [h.datasets]
    exact Numbered.revise (f := fun d : Dataset => { d with current := some r.id }) hs.datasets
      (fun _ => rfl) dataset.id
  · exact hg.logicalIds
  · exact hg.observationIds
  · rw [h.revisions]
    apply hs.revisions.concat
    rw [h.revision]
  · rw [h.newLogicals]
    exact hidentities
  · intro m hm
    rw [h.memberships, List.mem_append] at hm
    rcases hm with hm | hm
    · obtain ⟨⟨q, hq, hqm⟩, l, hl, h1, o, ho, h2, h3⟩ := hs.memberships m hm
      exact ⟨⟨q, hrevisions q hq, hqm⟩, l, hg.logicals l hl, h1, o, hg.observations o ho, h2, h3⟩
    · obtain ⟨q, hq, rfl⟩ := List.mem_map.mp hm
      obtain ⟨l, hl, h1, o, ho, h2, h3⟩ := h.stored q hq
      exact ⟨⟨r, hr, rfl⟩, l, h.newLogicals ▸ hl, h1, o, h.newObservations ▸ ho, h2, h3⟩
  · intro q hq
    have hdatasets : ∀ d ∈ s.datasets, ∃ d' ∈ t.datasets, d'.id = d.id := by
      intro d hd
      rw [h.datasets]
      refine ⟨_, mem_revise.mpr ⟨d, hd, rfl⟩, ?_⟩
      split <;> rfl
    rw [h.revisions, List.mem_append, List.mem_singleton] at hq
    rcases hq with hq | rfl
    · obtain ⟨d, hdm, he⟩ := hs.owned q hq
      obtain ⟨d', hd', he'⟩ := hdatasets d hdm
      exact ⟨d', hd', he'.trans he⟩
    · obtain ⟨d', hd', he'⟩ := hdatasets dataset hd
      refine ⟨d', hd', ?_⟩
      rw [he', h.revision]
  · intro o ho
    rw [h.newObservations, List.mem_append] at ho
    rcases ho with ho | ho
    · obtain ⟨q, hq, he⟩ := hs.activated o ho
      exact ⟨q, hrevisions q hq, he⟩
    · obtain ⟨x, hx⟩ := exists_observed hmade ho
      refine ⟨r, hr, ?_⟩
      rw [(zip_made hmade hx).2.2.attempt, h.revision]
  · intro o ho
    rw [h.newObservations, List.mem_append] at ho
    rcases ho with ho | ho
    · obtain ⟨l, hl, he⟩ := hs.linked o ho
      exact ⟨l, hg.logicals l hl, he⟩
    · obtain ⟨x, hx⟩ := exists_observed hmade ho
      obtain ⟨l, hl, he⟩ := (zip_made hmade hx).2.2.logical
      exact ⟨l, h.newLogicals ▸ (logicalOf_some hl).1, he.symm⟩
  · intro x' hx' b hb
    obtain ⟨x, hx, hrev⟩ := committed_attempt h hx'
    obtain ⟨_, hdataset, hbase, _⟩ := activatedAttempt_fields hrev
    rw [hbase] at hb
    rw [hdataset]
    obtain ⟨q, hq, hrest⟩ := hs.bases x hx b hb
    exact ⟨q, hrevisions q hq, hrest⟩
  · intro raw hmem
    rw [h.rawRows] at hmem
    obtain ⟨x, hx, he⟩ := hs.orphans raw hmem
    obtain ⟨x', hx', he'⟩ := hattempts x hx
    exact ⟨x', hx', he'.trans he⟩
  · intro x' hx'
    obtain ⟨x, hx, hrev⟩ := committed_attempt h hx'
    obtain ⟨hid, _, _, hrows⟩ := activatedAttempt_fields hrev
    rw [hraw, hid, hrows]
    rcases hs.evidence x hx with he | ⟨hreceived, hnone⟩
    · exact .inl he
    · by_cases hk : x.id = a.id
      · obtain rfl := eq_of_key_eq Attempt.id hs.attempts.nodup hx ha hk
        exact absurd hreceived hstate
      · rw [if_neg hk] at hrev
        rw [hrev]
        exact .inr ⟨hreceived, hnone⟩
  · intro q hq x' hx' he
    obtain ⟨x, hx, hrev⟩ := committed_attempt h hx'
    by_cases hk : x.id = a.id
    · rw [if_pos hk] at hrev
      rw [hrev]
      exact fun h0 => AttemptState.noConfusion h0
    · rw [if_neg hk] at hrev
      subst hrev
      rw [h.revisions, List.mem_append, List.mem_singleton] at hq
      rcases hq with hq | rfl
      · exact hs.used q hq x' hx he
      · rw [h.revision] at he
        exact absurd he hk

theorem committed_lawful (hs : Sound reader s) (hl : Lawful sha s) (ha : a ∈ s.attempts)
    (hd : dataset ∈ s.datasets) (hdataset : a.dataset = dataset.id)
    (hhead : dataset.current = a.expectedBase)
    (hfresh : reason = none → ∀ q ∈ s.revisions, q.dataset = dataset.id →
      q.stateHash ≠ p.stateHash)
    (hp : Proposed sha s a p)
    (h : Committed s dataset a reason p t r logicals observations) : Lawful sha t := by
  have hg := committed_grows hs h
  have hmade := committed_made h
  constructor
  · intro q hq
    rw [h.revisions, List.mem_append, List.mem_singleton] at hq
    rcases hq with hq | rfl
    · obtain ⟨x, hx, hrealized⟩ := hl.realized q hq
      have hne : x.id ≠ a.id := fun he => h.once q hq (hrealized.attempt ▸ he)
      refine ⟨x, ?_, realized_frame hs hg hq hx hrealized (sameEvidence_refl x) ?_
        (fun y hy => committed_old hs h hy) ?_ ?_⟩
      · rw [h.attempts]
        exact mem_revise.mpr ⟨x, hx, by rw [if_neg hne]⟩
      · unfold rowsOf
        rw [h.rawRows]
      · intro o ho
        rw [h.newObservations, List.mem_append] at ho
        rcases ho with ho | ho
        · exact .inl ho
        · obtain ⟨z, hz⟩ := exists_observed hmade ho
          rw [(zip_made hmade hz).2.2.attempt]
          exact .inr fun he => hne he.symm
      · intro y hy
        rw [h.revisions, List.mem_append, List.mem_singleton] at hy
        rcases hy with hy | rfl
        · exact .inl hy
        · rw [h.revision]
          exact .inr le_rfl
    · refine ⟨activatedAttempt a reason, ?_, ?_, ?_, ?_, committed_declared hs hl h hp, ?_, ?_⟩
      · rw [h.attempts]
        exact mem_revise.mpr ⟨a, ha, by rw [if_pos rfl]; rfl⟩
      · rw [h.revision]
        rfl
      · rw [h.revision]
        exact hdataset
      · rw [h.revision]
        rfl
      · rw [committed_members hs h hp.members hp.keys, hp.members,
          hashed_final hp.keys hmade, ← hp.members, hp.stateHash, h.revision]
      · intro hreason old hold hod hlt
        rw [h.revisions, List.mem_append, List.mem_singleton] at hold
        rcases hold with hold | rfl
        · rw [h.revision] at hod ⊢
          exact hfresh hreason old hold hod
        · exact absurd hlt (lt_irrefl _)
  · intro d' hd'
    rw [h.datasets] at hd'
    obtain ⟨d, hdm, rfl⟩ := mem_revise.mp hd'
    by_cases hk : d.id = dataset.id
    · obtain rfl := eq_of_key_eq Dataset.id hs.datasets.nodup hdm hd hk
      have hhistory : history t d.id = history s d.id ++ [r] := by
        unfold history
        rw [h.revisions, List.filter_append]
        congr 1
        rw [List.filter_eq_self]
        intro q hq
        rw [List.mem_singleton] at hq
        rw [hq, h.revision]
        exact decide_eq_true rfl
      rw [if_pos rfl]
      show Linked none (history t d.id) (some r.id)
      rw [hhistory, linked_snoc]
      refine ⟨?_, rfl⟩
      have hparent : r.parent = d.current := by
        rw [h.revision]
        exact hhead.symm
      rw [hparent]
      exact hl.linear d hdm
    · have hhistory : history t d.id = history s d.id := by
        unfold history
        rw [h.revisions, List.filter_append]
        have hnone : ([r].filter fun q => q.dataset = d.id) = [] := by
          rw [List.filter_eq_nil_iff]
          intro q hq he
          rw [List.mem_singleton] at hq
          rw [hq, h.revision] at he
          exact hk (of_decide_eq_true he).symm
        rw [hnone, List.append_nil]
      rw [if_neg hk, hhistory]
      exact hl.linear d hdm

end Commit

end Frames

section Runs
variable {sha : Sha256} {reader : DatetimeReader} {s t : Store} {workspace attempt : ℕ}
  {reason : Option String} {now : Instant}

/-- How an activation can end: as one of two states of the attempt, or with the
new revision. -/
inductive Ended (sha : Sha256) (s : Store) (a : Attempt) (dataset : Dataset) (p : Proposal) :
    Store → Option DatasetRevision → Prop
  | noChange (r : DatasetRevision) (hr : r ∈ s.revisions) (head : dataset.current = some r.id)
      (same : r.stateHash = p.stateHash) :
      Ended sha s a dataset p (finishWithoutRevision a.id .noChange s) none
  | replayed (r : DatasetRevision) (hr : r ∈ s.revisions) (dataset_eq : r.dataset = dataset.id)
      (same : r.stateHash = p.stateHash) :
      Ended sha s a dataset p (finishWithoutRevision a.id .replayed s) none
  | created (reason : Option String) (t : Store) (r : DatasetRevision)
      (fresh : reason = none → ∀ q ∈ s.revisions, q.dataset = dataset.id →
        q.stateHash ≠ p.stateHash)
      (h : commit s dataset a reason p = .ok (t, r)) : Ended sha s a dataset p t (some r)

theorem activate_ok {result : Option DatasetRevision}
    (h : activate sha s workspace attempt reason now = .ok (t, result)) :
    ∃ a ∈ s.attempts, ∃ dataset ∈ s.datasets, ∃ p, a.id = attempt ∧ a.dataset = dataset.id ∧
      a.state = .ready ∧ dataset.current = a.expectedBase ∧ Proposed sha s a p ∧
      Ended sha s a dataset p t result := by
  simp only [activate, bind_ok, demand_ok, fetch_ok] at h
  obtain ⟨normalized, _, _, _, _, _, a, ha, _, _, _, hready, dataset, hd, _, _, _, hhead, p, hp,
    h⟩ := h
  refine ⟨a, mem_of_lookup ha, dataset, mem_of_lookup hd, p, key_of_lookup ha,
    (key_of_lookup hd).symm, hready, hhead, propose_ok hp, ?_⟩
  split at h
  · rename_i hsame
    obtain ⟨rfl, rfl⟩ := Prod.mk.inj (Except.ok.inj h)
    obtain ⟨r, hr, hhash⟩ := Option.map_eq_some_iff.mp hsame
    obtain ⟨k, hk, hlookup⟩ := Option.bind_eq_some_iff.mp hr
    exact .noChange r (mem_of_lookup hlookup) (by rw [hk, key_of_lookup hlookup]) hhash
  · split at h
    · rename_i hreplay
      obtain ⟨rfl, rfl⟩ := Prod.mk.inj (Except.ok.inj h)
      obtain ⟨⟨r, hr, hdataset, hhash⟩, _⟩ := hreplay
      exact .replayed r hr hdataset hhash
    · rename_i hreplay
      simp only [bind_ok] at h
      obtain ⟨created, hc, he⟩ := h
      obtain ⟨rfl, rfl⟩ := Prod.mk.inj (Except.ok.inj he)
      refine .created normalized created.1 created.2 ?_ hc
      intro hnone q hq hdataset hhash
      exact hreplay ⟨⟨q, hq, hdataset, hhash⟩, hnone⟩

theorem activate_good (hg : Good reader sha s) {result : Option DatasetRevision}
    (h : activate sha s workspace attempt reason now = .ok (t, result)) : Good reader sha t := by
  obtain ⟨a, ha, dataset, hd, p, _, hdataset, hready, hhead, hp, hended⟩ := activate_ok h
  have hstate : a.state ≠ .received := fun h0 => by rw [hready] at h0; cases h0
  have hold : ∀ x ∈ s.attempts, x.id = a.id → x.state ≠ .received := by
    intro x hx he
    rw [eq_of_key_eq Attempt.id hg.sound.attempts.nodup hx ha he]
    exact hstate
  cases hended with
  | noChange _ _ _ _ => exact finish_good hg hold (fun h0 => by cases h0)
  | replayed _ _ _ _ => exact finish_good hg hold (fun h0 => by cases h0)
  | created reason t r hfresh hc =>
    obtain ⟨logicals, observations, hcommitted⟩ := commit_ok hc
    exact ⟨committed_sound hg.sound ha hd hstate hcommitted,
      committed_lawful hg.sound hg.lawful ha hd hdataset hhead hfresh hp hcommitted⟩

theorem step_good (hg : Good reader sha s) (c : Command) :
    Good reader sha (step sha reader s c) := by
  cases c with
  | readHead dataset => exact read_good hg _
  | readAttempt attempt => exact read_good hg _
  | createShell workspace dataset base artifact contract now =>
    exact settle_keeps hg fun t ht => createShell_good hg ht
  | complete workspace attempt read now => exact settle_keeps hg fun t ht => complete_good hg ht
  | activate workspace attempt reason now =>
    apply settle_keeps hg
    intro t ht
    obtain ⟨created, hc, rfl⟩ := map_ok.mp ht
    exact activate_good hg hc
  | createDataset workspace bookSource => exact createDataset_good hg workspace bookSource
  | elsewhere workspaces books scopes => exact elsewhere_good hg workspaces books scopes

theorem empty_good : Good reader sha empty := by
  have hnone : ∀ {α : Type} {P : α → Prop}, ∀ x ∈ ([] : List α), P x := fun _ hx => by cases hx
  exact ⟨⟨rfl, rfl, rfl, rfl, rfl, List.nodup_nil, hnone, hnone, hnone, hnone, hnone, hnone,
    hnone, hnone⟩, ⟨hnone, hnone⟩⟩

theorem run_good (cs : List Command) : Good reader sha (run sha reader cs) := by
  unfold run
  exact foldl_keeps (P := Good reader sha) (fun _ c h _ => step_good h c) empty_good
    (along_true _ cs)

/-- The tables of the history, the generations and the flags. -/
structure Untouched (s t : Store) : Prop where
  datasets : t.datasets = s.datasets
  revisions : t.revisions = s.revisions
  memberships : t.memberships = s.memberships
  logicals : t.logicals = s.logicals
  observations : t.observations = s.observations
  books : t.books = s.books
  scopes : t.scopes = s.scopes

/-- The new revision follows the head that its dataset had, and is the head it
has. -/
structure Advanced (s t : Store) (attempt : ℕ) (r : DatasetRevision) : Prop where
  revisions : t.revisions = s.revisions ++ [r]
  attempt : r.attempt = attempt
  parent : ∃ d ∈ s.datasets, d.id = r.dataset ∧ r.parent = d.current
  head : ∀ d ∈ t.datasets, d.id = r.dataset → d.current = some r.id

theorem created_advanced {a : Attempt} {dataset : Dataset} {p : Proposal} {r : DatasetRevision}
    (hd : dataset ∈ s.datasets) (hhead : dataset.current = a.expectedBase)
    (hc : commit s dataset a reason p = .ok (t, r)) : Advanced s t a.id r := by
  obtain ⟨logicals, observations, h⟩ := commit_ok hc
  constructor
  · exact h.revisions
  · rw [h.revision]
  · refine ⟨dataset, hd, ?_, ?_⟩
    · rw [h.revision]
    · rw [h.revision]
      exact hhead.symm
  · intro d hdm he
    rw [h.datasets] at hdm
    obtain ⟨old, _, rfl⟩ := mem_revise.mp hdm
    rw [h.revision] at he
    by_cases hk : old.id = dataset.id
    · rw [if_pos hk]
    · rw [if_neg hk] at he
      exact absurd he hk

/-- In every state that previews and activations reach, each revision has the
members its attempt declares and the hash of these, the revisions of a dataset
are one line up to its head, and none without an activation reason repeats a
hash. An activation adds one revision after the head, or leaves the history,
the generations and the flags as they were. -/
theorem activations_lawful (sha : Sha256) (reader : DatetimeReader) (cs : List Command)
    (workspace attempt : ℕ) (reason : Option String) (now : Instant) :
    Lawful sha (run sha reader cs) ∧
      match activate sha (run sha reader cs) workspace attempt reason now with
      | .error _ => step sha reader (run sha reader cs)
          (.activate workspace attempt reason now) = run sha reader cs
      | .ok (t, none) => Untouched (run sha reader cs) t ∧
          ∃ state ∈ [AttemptState.noChange, .replayed], ∀ a ∈ t.attempts, a.id = attempt →
            a.state = state
      | .ok (t, some r) => Advanced (run sha reader cs) t attempt r ∧ Lawful sha t := by
  have hg : Good reader sha (run sha reader cs) := run_good cs
  refine ⟨hg.lawful, ?_⟩
  split
  · rename_i e he
    show settle _ (Prod.fst <$> activate sha (run sha reader cs) workspace attempt reason now) = _
    rw [he]
    rfl
  · rename_i t he
    obtain ⟨a, _, dataset, _, p, hid, _, _, _, _, hended⟩ := activate_ok he
    have hset : ∀ state, ∀ x ∈ (finishWithoutRevision a.id state (run sha reader cs)).attempts,
        x.id = attempt → x.state = state := by
      intro state x hx hxid
      obtain ⟨y, _, rfl⟩ := mem_revise.mp hx
      by_cases hk : y.id = a.id
      · rw [if_pos hk]
      · rw [if_neg hk] at hxid
        exact absurd (hxid.trans hid.symm) hk
    cases hended with
    | noChange _ _ _ _ => exact ⟨⟨rfl, rfl, rfl, rfl, rfl, rfl, rfl⟩, .noChange, by simp, hset _⟩
    | replayed _ _ _ _ => exact ⟨⟨rfl, rfl, rfl, rfl, rfl, rfl, rfl⟩, .replayed, by simp, hset _⟩
  · rename_i t r he
    obtain ⟨a, _, dataset, hd, p, rfl, _, _, hhead, _, hended⟩ := activate_ok he
    cases hended with
    | created _ _ _ _ hc => exact ⟨created_advanced hd hhead hc, (activate_good hg he).lawful⟩

end Runs

end Workbench.ActivationLaws
