import Workbench.ActivationLaws
import Workbench.StateHashes

/-!
# What no change means

An activation without a revision has found its state hash on a revision of the
dataset. Unless digests collide, the members of that revision are the proposed
ones, and each pair of rows behind them agrees in every value. These are the
rows of the previews, whose amounts were rounded before: a correction that the
rounding removes is not seen here.
-/

set_option autoImplicit false

namespace Workbench.Replays
open Workbench.Listing Workbench.Tables Workbench.Calendar Workbench.Decimals
open Workbench.DecimalRounding Workbench.Records Workbench.Ingestion Workbench.Interpretation
open Workbench.Observations Workbench.Fingerprints Workbench.StateHashes Workbench.Activation
open Workbench.ActivationLaws

section Rows
variable {sha : Sha256} {reader : DatetimeReader} {s t : Store}

def Stored (s : Store) (a : Attempt) (c : CanonicalRow) : Prop :=
  ∃ raw ∈ rowsOf s a.id, ∃ payload, raw.preview = some (.complete payload) ∧
    canonicalFromPayload payload = some c

def Shows (sha : Sha256) (s : Store) (m : Member) (c : CanonicalRow) : Prop :=
  ∃ a ∈ s.attempts, Stored s a c ∧ m.key = c.sourceRecordKey ∧
    observationFingerprint sha a.contractRevision.digest c = some m.fingerprint

/-- No two of the fingerprints and states in play collide. -/
structure Distinguishes (sha : Sha256) (s : Store) (p : Proposal) : Prop where
  rows : ∀ a ∈ s.attempts, ∀ c, Stored s a c → ∀ a' ∈ s.attempts, ∀ c', Stored s a' c' →
    ∀ b ∈ fingerprintBytes a.contractRevision.digest c,
      ∀ b' ∈ fingerprintBytes a'.contractRevision.digest c', sha.Apart b b'
  states : ∀ r ∈ s.revisions, ∀ b ∈ stateBytes (hashed p.members),
    ∀ b' ∈ stateBytes (hashed (membersOf s r.id)), sha.Apart b b'

theorem payload_kept {d r : Decimal} {text : String} (h : Numeric d) (hr : Numeric r)
    (ht : canonicalDecimal d = some text) (hp : payloadDecimal text = some r) :
    kept r = value r := by
  obtain ⟨t, x, _, hx, hread, hv⟩ := canonicalDecimal_read h
  rw [ht, Option.some.injEq] at hx
  subst hx
  unfold payloadDecimal at hp
  rw [hread] at hp
  have hxr : x = r := Option.some.inj hp
  rw [hxr] at hv
  exact kept_reread h hr hv

theorem stored_payload (hs : Sound reader s) {a : Attempt} (ha : a ∈ s.attempts) {raw : RawRow}
    (hraw : raw ∈ rowsOf s a.id) {payload : CanonicalPayload}
    (hp : raw.preview = some (.complete payload)) :
    ∃ row, canonicalToPayload row = some payload := by
  have hmem : raw ∈ rawOf s a.id := (mem_sortOn ..).mp hraw
  rcases hs.evidence a ha with he | ⟨_, hnone⟩
  · rw [he] at hmem
    unfold rowsFor at hmem
    split at hmem
    · rename_i p hcsv
      obtain ⟨i, hi, rfl⟩ := List.mem_map.mp hmem
      obtain ⟨row, hrow⟩ := interpretCsv_complete hcsv hi ⟨payload, hp⟩
      have hpreview := interpretCsv_preview hcsv hi hrow
      rw [show i.preview = some (.complete payload) from hp] at hpreview
      obtain ⟨x, hx, he⟩ := Option.map_eq_some_iff.mp hpreview.symm
      exact ⟨row, hx.trans (congrArg some (Preview.complete.inj he))⟩
    · cases hmem
  · rw [hnone] at hmem
    cases hmem

theorem stored_kept (hs : Sound reader s) {a : Attempt} (ha : a ∈ s.attempts) {c : CanonicalRow}
    (hc : Stored s a c) : kept c.quantity = value c.quantity ∧
      kept c.unitPrice = value c.unitPrice ∧ kept c.grossAmount = value c.grossAmount := by
  obtain ⟨raw, hraw, payload, hp, hcanonical⟩ := hc
  obtain ⟨row, hrow⟩ := stored_payload hs ha hraw hp
  obtain ⟨q, u, g, hq, hu, hg, rfl⟩ := canonicalToPayload_some hrow
  obtain ⟨q', u', g', hq', hu', hg', hfields⟩ := canonicalFromPayload_some hcanonical
  have hcq : c.quantity = q' := congrArg CanonicalFields.quantity hfields
  have hcu : c.unitPrice = u' := congrArg CanonicalFields.unitPrice hfields
  have hcg : c.grossAmount = g' := congrArg CanonicalFields.grossAmount hfields
  rw [← hcq] at hq'
  rw [← hcu] at hu'
  rw [← hcg] at hg'
  exact ⟨payload_kept row.quantity_numeric c.quantity_numeric hq hq',
    payload_kept row.unitPrice_numeric c.unitPrice_numeric hu hu',
    payload_kept row.grossAmount_numeric c.grossAmount_numeric hg hg'⟩

theorem shown_same (hs : Sound reader s) {p : Proposal} (hd : Distinguishes sha s p)
    {m m' : Member} {c c' : CanonicalRow} (h : Shows sha s m c) (h' : Shows sha s m' c')
    (he : m.fingerprint = m'.fingerprint) : SameValues c c' := by
  obtain ⟨a, ha, hc, _, hf⟩ := h
  obtain ⟨a', ha', hc', _, hf'⟩ := h'
  obtain ⟨hquantity, hprice, hgross, hkey, href, htime, hinstrument, hside, hcurrency, hstate,
    hoperation⟩ := fingerprint_inj (hd.rows a ha c hc a' ha' c' hc') (by rw [hf, hf', he])
  obtain ⟨hq, hu, hg⟩ := stored_kept hs ha hc
  obtain ⟨hq', hu', hg'⟩ := stored_kept hs ha' hc'
  rw [canonicalDecimal_eq_iff c.quantity_numeric c'.quantity_numeric, hq, hq'] at hquantity
  rw [canonicalDecimal_eq_iff c.unitPrice_numeric c'.unitPrice_numeric, hu, hu'] at hprice
  rw [canonicalDecimal_eq_iff c.grossAmount_numeric c'.grossAmount_numeric, hg, hg'] at hgross
  exact ⟨hquantity, hprice, hgross, hkey, href, htime, hinstrument, hside, hcurrency, hstate,
    hoperation⟩

end Rows

section Members
variable {sha : Sha256} {reader : DatetimeReader} {s : Store}

theorem linked_lt {parent last : Option ℕ} {rs : List DatasetRevision} (h : Linked parent rs last)
    (hids : rs.Pairwise fun q r => q.id < r.id) (hp : ∀ b ∈ parent, ∀ r ∈ rs, b < r.id) :
    ∀ r ∈ rs, ∀ b ∈ r.parent, b < r.id := by
  induction rs generalizing parent with
  | nil => exact fun r hr => by cases hr
  | cons q rs ih =>
    rw [List.pairwise_cons] at hids
    intro r hr b hb
    rcases List.mem_cons.mp hr with rfl | hr
    · rw [h.1] at hb
      exact hp b hb r (List.mem_cons_self ..)
    · apply ih h.2 hids.2 _ r hr b hb
      intro k hk x hx
      rw [← Option.some.inj hk]
      exact hids.1 x hx

theorem parent_lt (hg : Good reader sha s) {r : DatasetRevision} (hr : r ∈ s.revisions) {b : ℕ}
    (hb : b ∈ r.parent) : b < r.id := by
  obtain ⟨d, hd, he⟩ := hg.sound.owned r hr
  have hsorted : s.revisions.Pairwise fun q r => q.id < r.id := by
    have hlt : (s.revisions.map DatasetRevision.id).Pairwise (· < ·) := by
      rw [hg.sound.revisions]
      exact List.pairwise_lt_range
    exact List.pairwise_map.mp hlt
  refine linked_lt (hg.lawful.linear d hd) (hsorted.sublist List.filter_sublist)
    (fun b hb => by cases hb) r ?_ b hb
  exact List.mem_filter.mpr ⟨hr, decide_eq_true he.symm⟩

theorem observedFrom_shows {a : Attempt} (ha : a ∈ s.attempts) {raw : RawRow}
    (hraw : raw ∈ rowsOf s a.id) {m : Member} (h : ObservedFrom sha s a raw m) :
    ∃ c, Shows sha s m c := by
  obtain ⟨payload, c, obs, hp, _, hc, _, _, _, _, _, hf, rfl⟩ := h
  exact ⟨c, a, ha, ⟨raw, hraw, payload, hp, hc⟩, rfl, hf⟩

theorem member_shows (hg : Good reader sha s) {r : DatasetRevision} (hr : r ∈ s.revisions)
    {m : Member} (hm : m ∈ membersOf s r.id) : ∃ c, Shows sha s m c := by
  induction hn : r.id using Nat.strong_induction_on generalizing r m with
  | _ n ih =>
    obtain ⟨a, ha, hrealized⟩ := hg.lawful.realized r hr
    rcases (hrealized.declared.members m).mp hm with ⟨raw, hraw, ho⟩ | ⟨hbase, _⟩
    · exact observedFrom_shows ha hraw ho
    · unfold baseMembers at hbase
      split at hbase
      · rename_i base _ he
        obtain ⟨q, hq, rfl, _⟩ := hg.sound.bases a ha base he
        have hlt : q.id < n := by
          rw [← hn]
          apply parent_lt hg hr
          rw [← hrealized.parent, he]
          rfl
        exact ih q.id hlt hq ((mem_sortOn ..).mp hbase) rfl
      · cases hbase

theorem proposed_shows (hg : Good reader sha s) {a : Attempt} (ha : a ∈ s.attempts)
    {p : Proposal} (hp : Proposed sha s a p) {m : Member} (hm : m ∈ p.members) :
    ∃ c, Shows sha s m c := by
  rw [hp.members] at hm
  rcases (mem_resolve hp.keys).mp hm with ⟨o, ho, rfl⟩ | ⟨hbase, _⟩
  · obtain ⟨raw, hraw, hread⟩ := forall₂_mem_right hp.rows ho
    obtain ⟨_, payload, hpayload, _, hc, hf⟩ := hread.observed o rfl
    exact ⟨o.canonical, a, ha, ⟨raw, hraw, payload, hpayload, hc⟩, rfl, hf⟩
  · unfold baseMembers at hbase
    split at hbase
    · rename_i base _ he
      obtain ⟨q, hq, rfl, _⟩ := hg.sound.bases a ha base he
      exact member_shows hg hq ((mem_sortOn ..).mp hbase)
    · cases hbase

end Members

section Files
variable {sha : Sha256} {reader : DatetimeReader} {s t : Store}

/-- The amounts have at most sixteen digits before the point. -/
def Small (row : CanonicalRow) : Prop :=
  size row.quantity < 10^16 ∧ size row.unitPrice < 10^16 ∧ size row.grossAmount < 10^16

def Accepted (reader : DatetimeReader) (s : Store) (a : Attempt) (row c : CanonicalRow) : Prop :=
  ∃ raw ∈ rowsOf s a.id, ∃ p i payload,
    interpretCsv reader a.contractRevision.contract a.artifact.header a.artifact.lines = .ok p ∧
    i ∈ p.rows ∧ i.canonical = some row ∧ i.preview = some (.complete payload) ∧
    raw.preview = i.preview ∧ canonicalFromPayload payload = some c

def Represents (sha : Sha256) (reader : DatetimeReader) (s : Store) (m : Member)
    (row : CanonicalRow) : Prop :=
  ∃ a ∈ s.attempts, ∃ c, Accepted reader s a row c ∧ m.key = c.sourceRecordKey ∧
    observationFingerprint sha a.contractRevision.digest c = some m.fingerprint

theorem shows_represents (hs : Sound reader s) {m : Member} {c : CanonicalRow}
    (h : Shows sha s m c) : ∃ row, Represents sha reader s m row := by
  obtain ⟨a, ha, ⟨raw, hraw, payload, hp, hc⟩, hk, hf⟩ := h
  have hmem : raw ∈ rawOf s a.id := (mem_sortOn ..).mp hraw
  rcases hs.evidence a ha with he | ⟨_, hnone⟩
  · rw [he] at hmem
    unfold rowsFor at hmem
    split at hmem
    · rename_i p hcsv
      obtain ⟨i, hi, rfl⟩ := List.mem_map.mp hmem
      obtain ⟨row, hrow⟩ := interpretCsv_complete hcsv hi ⟨payload, hp⟩
      exact ⟨row, a, ha, c, ⟨_, hraw, p, i, payload, hcsv, hi, hrow, hp, rfl, hc⟩, hk, hf⟩
    · cases hmem
  · rw [hnone] at hmem
    cases hmem

theorem represents_shows {m : Member} {row : CanonicalRow} (h : Represents sha reader s m row) :
    ∃ a c, Accepted reader s a row c ∧ Shows sha s m c := by
  obtain ⟨a, ha, c, hacc, hk, hf⟩ := h
  have hstored : Stored s a c := by
    obtain ⟨raw, hraw, _, i, payload, _, _, _, hp, he, hc⟩ := hacc
    exact ⟨raw, hraw, payload, he.trans hp, hc⟩
  exact ⟨a, c, hacc, a, ha, hstored, hk, hf⟩

theorem reread_value {d r : Decimal} {text : String} (h : Numeric d) (hr : Numeric r)
    (hsmall : size d < 10^16) (ht : canonicalDecimal d = some text)
    (hp : payloadDecimal text = some r) : value d = value r := by
  have hk := payload_kept h hr ht hp
  obtain ⟨t, x, _, hx, hread, hv⟩ := canonicalDecimal_read h
  rw [ht, Option.some.injEq] at hx
  subst hx
  unfold payloadDecimal at hp
  rw [hread] at hp
  have hxr : x = r := Option.some.inj hp
  apply (canonicalDecimal_determines_iff h).mpr hsmall r hr
  rw [canonicalDecimal_eq_iff h hr, hk, ← hxr, hv]

theorem accepted_same {a : Attempt} {row c : CanonicalRow} (h : Accepted reader s a row c)
    (hsmall : Small row) : SameValues row c := by
  obtain ⟨_, _, p, i, payload, hcsv, hi, hrow, hp, _, hc⟩ := h
  have hpreview := interpretCsv_preview hcsv hi hrow
  rw [hp] at hpreview
  obtain ⟨x, hx, he⟩ := Option.map_eq_some_iff.mp hpreview.symm
  rw [Preview.complete.inj he] at hx
  obtain ⟨q, u, g, hq, hu, hg, rfl⟩ := canonicalToPayload_some hx
  obtain ⟨q', u', g', hq', hu', hg', hfields⟩ := canonicalFromPayload_some hc
  have hcq : c.quantity = q' := congrArg CanonicalFields.quantity hfields
  have hcu : c.unitPrice = u' := congrArg CanonicalFields.unitPrice hfields
  have hcg : c.grossAmount = g' := congrArg CanonicalFields.grossAmount hfields
  rw [← hcq] at hq'
  rw [← hcu] at hu'
  rw [← hcg] at hg'
  obtain ⟨hsq, hsu, hsg⟩ := hsmall
  exact ⟨reread_value row.quantity_numeric c.quantity_numeric hsq hq hq',
    reread_value row.unitPrice_numeric c.unitPrice_numeric hsu hu hu',
    reread_value row.grossAmount_numeric c.grossAmount_numeric hsg hg hg',
    (congrArg CanonicalFields.sourceRecordKey hfields).symm,
    (congrArg CanonicalFields.businessReference hfields).symm,
    (congrArg CanonicalFields.executedAtUtc hfields).symm,
    (congrArg CanonicalFields.instrument hfields).symm,
    (congrArg CanonicalFields.side hfields).symm,
    (congrArg CanonicalFields.currency hfields).symm,
    (congrArg CanonicalFields.state hfields).symm,
    (congrArg CanonicalFields.operation hfields).symm⟩

theorem sameValues_symm {c c' : CanonicalRow} (h : SameValues c c') : SameValues c' c :=
  ⟨h.quantity.symm, h.unitPrice.symm, h.grossAmount.symm, h.sourceRecordKey.symm,
    h.businessReference.symm, h.executedAtUtc.symm, h.instrument.symm, h.side.symm,
    h.currency.symm, h.state.symm, h.operation.symm⟩

theorem sameValues_trans {c d e : CanonicalRow} (h : SameValues c d) (h' : SameValues d e) :
    SameValues c e :=
  ⟨h.quantity.trans h'.quantity, h.unitPrice.trans h'.unitPrice,
    h.grossAmount.trans h'.grossAmount, h.sourceRecordKey.trans h'.sourceRecordKey,
    h.businessReference.trans h'.businessReference, h.executedAtUtc.trans h'.executedAtUtc,
    h.instrument.trans h'.instrument, h.side.trans h'.side, h.currency.trans h'.currency,
    h.state.trans h'.state, h.operation.trans h'.operation⟩

/-- Two lists of members agree record by record: in the rows their previews keep,
and in the accepted rows where the amounts are small. -/
structure SameRecords (sha : Sha256) (reader : DatetimeReader) (s : Store)
    (ms ms' : List Member) : Prop where
  keys : (ms.map Member.key).Perm (ms'.map Member.key)
  represented : ∀ m ∈ ms ++ ms', ∃ row, Represents sha reader s m row
  previewed : ∀ m ∈ ms, ∀ m' ∈ ms', m.key = m'.key → ∀ c c', Shows sha s m c →
    Shows sha s m' c' → SameValues c c'
  accepted : ∀ m ∈ ms, ∀ m' ∈ ms', m.key = m'.key → ∀ row row', Represents sha reader s m row →
    Represents sha reader s m' row' → Small row → Small row' → SameValues row row'

theorem same_hash_records (hg : Good reader sha s) {a : Attempt} (ha : a ∈ s.attempts)
    {p : Proposal} (hp : Proposed sha s a p) (hd : Distinguishes sha s p) {r : DatasetRevision}
    (hr : r ∈ s.revisions) (he : r.stateHash = p.stateHash) :
    SameRecords sha reader s p.members (membersOf s r.id) := by
  obtain ⟨x, hx, hrealized⟩ := hg.lawful.realized r hr
  have hperm : (hashed p.members).Perm (hashed (membersOf s r.id)) :=
    state_inj (hd.states r hr) hp.stateHash (he ▸ hrealized.stateHash)
  have hkeys : ∀ ms : List Member, ms.map Member.key = (hashed ms).map Prod.fst := by
    intro ms
    unfold hashed
    rw [List.map_map]
    rfl
  have hpreviewed : ∀ m ∈ p.members, ∀ m' ∈ membersOf s r.id, m.key = m'.key → ∀ c c',
      Shows sha s m c → Shows sha s m' c' → SameValues c c' := by
    intro m hm m' hm' hk c c' hc hc'
    apply shown_same hg.sound hd hc hc'
    have hin : (m.key, m.fingerprint) ∈ hashed (membersOf s r.id) :=
      hperm.mem_iff.mp (List.mem_map.mpr ⟨m, hm, rfl⟩)
    obtain ⟨y, hy, hpair⟩ := List.mem_map.mp hin
    obtain ⟨hyk, hyf⟩ := Prod.mk.inj hpair
    rw [← eq_of_key_eq Member.key hrealized.declared.keys hy hm' (hyk.trans hk)]
    exact hyf.symm
  constructor
  · rw [hkeys, hkeys]
    exact hperm.map Prod.fst
  · intro m hm
    have hshows : ∃ c, Shows sha s m c := by
      rcases List.mem_append.mp hm with hm | hm
      · exact proposed_shows hg ha hp hm
      · exact member_shows hg hr hm
    obtain ⟨c, hc⟩ := hshows
    exact shows_represents hg.sound hc
  · exact hpreviewed
  · intro m hm m' hm' hk row row' h h' hsmall hsmall'
    obtain ⟨_, c, hacc, hc⟩ := represents_shows h
    obtain ⟨_, c', hacc', hc'⟩ := represents_shows h'
    exact sameValues_trans (accepted_same hacc hsmall)
      (sameValues_trans (hpreviewed m hm m' hm' hk c c' hc hc')
        (sameValues_symm (accepted_same hacc' hsmall')))

theorem unchanged_revision (hg : Good reader sha s) {workspace attempt : ℕ}
    {reason : Option String} {now : Instant}
    (h : activate sha s workspace attempt reason now = .ok (t, none)) :
    ∃ a ∈ s.attempts, ∃ p, ∃ r ∈ s.revisions, a.id = attempt ∧ Proposed sha s a p ∧
      r.dataset = a.dataset ∧ r.stateHash = p.stateHash := by
  obtain ⟨a, ha, dataset, _, p, hid, hdataset, _, hhead, hp, hended⟩ := activate_ok h
  cases hended with
  | noChange r hr head same =>
    obtain ⟨q, hq, hqid, hqd⟩ := hg.sound.bases a ha r.id (hhead ▸ head)
    rw [eq_of_key_eq DatasetRevision.id hg.sound.revisions.nodup hq hr hqid] at hqd
    exact ⟨a, ha, p, r, hr, hid, hp, hqd, same⟩
  | replayed r hr dataset_eq same =>
    exact ⟨a, ha, p, r, hr, hid, hp, dataset_eq.trans hdataset.symm, same⟩

/-- The fingerprint of a row determines its values exactly when its amounts are
small, and an activation without a revision then finds the proposed rows in the
revision whose hash it matched. -/
theorem corrections_told_apart_iff (sha : Sha256) (reader : DatetimeReader) :
    (∀ (contractDigest : String) (row : CanonicalRow),
      (∀ row' : CanonicalRow,
        (∀ b ∈ fingerprintBytes contractDigest row, ∀ b' ∈ fingerprintBytes contractDigest row',
          sha.Apart b b') →
        observationFingerprint sha contractDigest row =
          observationFingerprint sha contractDigest row' → SameValues row row') ↔ Small row) ∧
    ∀ (cs : List Command) (workspace attempt : ℕ) (reason : Option String) (now : Instant)
      (t : Store),
      activate sha (run sha reader cs) workspace attempt reason now = .ok (t, none) →
      ∃ a ∈ (run sha reader cs).attempts, ∃ p, ∃ r ∈ (run sha reader cs).revisions,
        a.id = attempt ∧ Proposed sha (run sha reader cs) a p ∧ r.dataset = a.dataset ∧
        r.stateHash = p.stateHash ∧ (Distinguishes sha (run sha reader cs) p →
          SameRecords sha reader (run sha reader cs) p.members
            (membersOf (run sha reader cs) r.id)) := by
  constructor
  · exact fun contractDigest row => fingerprint_determines_iff sha contractDigest row
  · intro cs workspace attempt reason now t h
    have hg : Good reader sha (run sha reader cs) := run_good cs
    obtain ⟨a, ha, p, r, hr, hid, hp, hdataset, he⟩ := unchanged_revision hg h
    exact ⟨a, ha, p, r, hr, hid, hp, hdataset, he, fun hd => same_hash_records hg ha hp hd hr he⟩

end Files

end Workbench.Replays
