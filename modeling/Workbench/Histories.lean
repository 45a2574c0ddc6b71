import Workbench.ActivationLaws
import Workbench.Ledgers

/-!
# A dataset is the replay of its imports

The members of every revision are what its imports, from the first one of the
dataset to the revision's own, said last of each key. Each member is observed
from the very row that said so.
-/

set_option autoImplicit false

namespace Workbench.Histories
open Workbench.Listing Workbench.Tables Workbench.Records Workbench.Ingestion
open Workbench.Interpretation Workbench.Observations Workbench.Fingerprints
open Workbench.Activation Workbench.ActivationLaws Workbench.Ledgers

def names (key : String) (raw : RawRow) : Bool := (named raw).map Prod.fst = some key

def said (raw : RawRow) : Option RawRow :=
  if (named raw).map Prod.snd = some .retract then none else some raw

def importBy (s : Store) (a : Attempt) : Import String RawRow :=
  ⟨a.contractRevision.contract.mode = .fullSnapshot,
    fun key => ((rowsOf s a.id).find? (names key)).map said⟩

def importOf (s : Store) (r : DatasetRevision) : Import String RawRow :=
  match lookup Attempt.id s.attempts r.attempt with
  | some a => importBy s a
  | none => ⟨false, fun _ => none⟩

def Shows (sha : Sha256) (s : Store) (raw : RawRow) (m : Member) : Prop :=
  ∃ a ∈ s.attempts, a.id = raw.attempt ∧ ObservedFrom sha s a raw m

structure Represents (sha : Sha256) (s : Store) (held : String → Option RawRow)
    (members : List Member) : Prop where
  complete : ∀ key raw, held key = some raw → ∃ m ∈ members, m.key = key ∧ Shows sha s raw m
  sound : ∀ m ∈ members, ∃ raw, held m.key = some raw ∧ Shows sha s raw m

section Imports
variable {sha : Sha256} {reader : DatetimeReader} {s : Store} {r : DatasetRevision} {a : Attempt}
  {raw : RawRow} {m : Member} {key : String}

theorem names_iff : names key raw = true ↔ (named raw).map Prod.fst = some key :=
  decide_eq_true_iff

theorem rowsOf_attempt (h : raw ∈ rowsOf s a.id) : raw.attempt = a.id := by
  have hmem := (mem_sortOn _ _ _).mp h
  exact of_decide_eq_true (List.mem_filter.mp hmem).2

theorem observedFrom_named (h : ObservedFrom sha s a raw m) :
    ∃ n, named raw = some n ∧ n.1 = m.key ∧ n.2 ≠ .retract := by
  obtain ⟨payload, canonical, obs, hpreview, hop, hcanonical, -, -, -, -, -, -, rfl⟩ := h
  obtain ⟨_, _, _, _, _, _, hfields⟩ := canonicalFromPayload_some hcanonical
  refine ⟨(payload.sourceRecordKey, payload.operation), ?_, ?_, hop⟩
  · rw [named, hpreview]
    rfl
  · exact (congrArg CanonicalFields.sourceRecordKey hfields).symm

theorem said_named {n : String × IngestionOperation} (hn : named raw = some n) :
    said raw = if n.2 = .retract then none else some raw := by
  simp [said, hn]

theorem mentions_row (hd : Declared sha s r a) (hraw : raw ∈ rowsOf s a.id)
    {n : String × IngestionOperation} (hn : named raw = some n) :
    (importBy s a).mentions n.1 = some (said raw) := by
  have hnames : names n.1 raw = true := by simp [names, hn]
  cases hfind : (rowsOf s a.id).find? (names n.1) with
  | none => exact absurd hnames (List.find?_eq_none.mp hfind raw hraw)
  | some other =>
    have hother := names_iff.mp (List.find?_some hfind)
    have hsame : other = raw := by
      refine List.inj_on_of_nodup_map hd.distinct (List.mem_of_find?_eq_some hfind) hraw ?_
      rw [hother, hn]
      rfl
    simp only [importBy, hfind, hsame, Option.map_some]

theorem mentions_none (h : (importBy s a).mentions key = none) :
    ∀ raw ∈ rowsOf s a.id, ∀ n ∈ named raw, n.1 ≠ key := by
  intro raw hraw n hn heq
  have hfind := List.find?_eq_none.mp (Option.map_eq_none_iff.mp h) raw hraw
  exact hfind (by simp [names, Option.mem_def.mp hn, heq])

theorem mentions_some {e : RawRow} (h : (importBy s a).mentions key = some (some e)) :
    e ∈ rowsOf s a.id ∧ ∀ n ∈ named e, n.2 ≠ .retract ∧ n.1 = key := by
  obtain ⟨raw, hfind, hsaid⟩ := Option.map_eq_some_iff.mp h
  have hkey := names_iff.mp (List.find?_some hfind)
  unfold said at hsaid
  split_ifs at hsaid with hretract
  obtain rfl := Option.some.inj hsaid
  refine ⟨List.mem_of_find?_eq_some hfind, fun n hn => ?_⟩
  rw [Option.mem_def.mp hn] at hkey hretract
  exact ⟨fun heq => hretract (congrArg some heq), Option.some.inj hkey⟩

theorem unmentioned (h : ∀ raw ∈ rowsOf s a.id, ∀ n ∈ named raw, n.1 ≠ key) :
    (importBy s a).mentions key = none := by
  refine Option.map_eq_none_iff.mpr (List.find?_eq_none.mpr fun raw hraw hnames => ?_)
  obtain ⟨n, hn, hkey⟩ := Option.map_eq_some_iff.mp (names_iff.mp hnames)
  exact h raw hraw n hn hkey

/-- One import: from what the base holds to what the revision holds. -/
theorem import_represents (ha : a ∈ s.attempts) (hd : Declared sha s r a)
    {held : String → Option RawRow}
    (hbase : a.contractRevision.contract.mode = .delta → Represents sha s held (baseMembers s a)) :
    Represents sha s ((importBy s a).apply held) (membersOf s r.id) := by
  constructor
  · intro key raw hheld
    rcases apply_some.mp hheld with hsaid | ⟨hnone, hdelta, hheld⟩
    · obtain ⟨hraw, hnamed⟩ := mentions_some hsaid
      obtain ⟨n, hn, -⟩ := hd.operations raw hraw
      obtain ⟨hop, rfl⟩ := hnamed n hn
      obtain ⟨m, hm, hkey, hmem⟩ := hd.observed raw hraw n hn hop
      exact ⟨m, hmem, hkey, a, ha, (rowsOf_attempt hraw).symm, hm⟩
    · have hmode : a.contractRevision.contract.mode = .delta := by
        cases hm : a.contractRevision.contract.mode with
        | delta => rfl
        | fullSnapshot => simp [importBy, hm] at hdelta
      obtain ⟨m, hm, rfl, hshows⟩ := (hbase hmode).complete key raw hheld
      exact ⟨m, (hd.members m).mpr (.inr ⟨hm, mentions_none hnone⟩), rfl, hshows⟩
  · intro m hm
    rcases (hd.members m).mp hm with ⟨raw, hraw, hobserved⟩ | ⟨hm, hunnamed⟩
    · obtain ⟨n, hn, hkey, hop⟩ := observedFrom_named hobserved
      refine ⟨raw, apply_some.mpr (.inl ?_), a, ha, (rowsOf_attempt hraw).symm, hobserved⟩
      rw [← hkey, mentions_row hd hraw hn, said_named hn, if_neg hop]
    · have hmode : a.contractRevision.contract.mode = .delta := by
        cases hmode : a.contractRevision.contract.mode with
        | delta => rfl
        | fullSnapshot => simp [baseMembers, hmode] at hm
      obtain ⟨raw, hheld, hshows⟩ := (hbase hmode).sound m hm
      refine ⟨raw, apply_some.mpr (.inr ⟨unmentioned hunnamed, ?_, hheld⟩), hshows⟩
      simp [importBy, hmode]

end Imports

section Histories
variable {sha : Sha256} {reader : DatetimeReader} {s : Store}

theorem linked_split {parent last : Option ℕ} {before after : List DatasetRevision}
    {r : DatasetRevision} : Linked parent (before ++ r :: after) last ↔
      Linked parent before r.parent ∧ Linked (some r.id) after last := by
  induction before generalizing parent with
  | nil => simp [Linked, eq_comm]
  | cons q before ih => rw [List.cons_append, Linked, Linked, ih, and_assoc]

/-- The revisions of a dataset against the replay of its imports: what they hold,
which row of which import it is, and which revision is the head. -/
structure Replays (sha : Sha256) (s : Store) (dataset : ℕ) : Prop where
  revisions : ∀ before r after, history s dataset = before ++ r :: after →
    Represents sha s (replay ((before ++ [r]).map (importOf s))) (membersOf s r.id) ∧
      ((membersOf s r.id).map Member.key).Nodup
  last : ∀ log key raw, replay (log.map (importOf s)) key = some raw ↔
    ∃ older q newer, log = older ++ q :: newer ∧ (importOf s q).mentions key = some (some raw) ∧
      ∀ later ∈ newer, (importOf s later).mentions key = none ∧ (importOf s later).full = false
  head : ∀ d ∈ s.datasets, d.id = dataset →
    d.current = (history s dataset).getLast?.map DatasetRevision.id

theorem represents_base {a : Attempt} {held : String → Option RawRow}
    (hmode : a.contractRevision.contract.mode = .delta) {base : ℕ}
    (hbase : a.expectedBase = some base) (h : Represents sha s held (membersOf s base)) :
    Represents sha s held (baseMembers s a) := by
  have hmem : ∀ m, m ∈ baseMembers s a ↔ m ∈ membersOf s base := by
    intro m
    simp only [baseMembers, hmode, hbase, mem_sortOn]
  refine ⟨fun key raw hheld => ?_, fun m hm => h.sound m ((hmem m).mp hm)⟩
  obtain ⟨m, hm, hrest⟩ := h.complete key raw hheld
  exact ⟨m, (hmem m).mpr hm, hrest⟩

theorem revision_made (hg : Good reader sha s) {dataset : ℕ}
    {before after : List DatasetRevision} {r : DatasetRevision}
    (h : history s dataset = before ++ r :: after) :
    ∃ a, importOf s r = importBy s a ∧ a ∈ s.attempts ∧ Realized sha s r a ∧
      r.parent = before.getLast?.map DatasetRevision.id := by
  have hmem : r ∈ history s dataset := by simp [h]
  obtain ⟨hr, hdataset⟩ := List.mem_filter.mp hmem
  obtain ⟨a, ha, hrealized⟩ := hg.lawful.realized r hr
  obtain ⟨d, hd, hid⟩ := hg.sound.owned r hr
  have hlookup : lookup Attempt.id s.attempts r.attempt = some a := by
    rw [← hrealized.attempt]
    exact lookup_mem hg.sound.attempts.nodup ha
  have hlinked := hg.lawful.linear d hd
  rw [hid, of_decide_eq_true hdataset, h, linked_split] at hlinked
  refine ⟨a, by rw [importOf, hlookup], ha, hrealized, ?_⟩
  rcases List.eq_nil_or_concat before with rfl | ⟨before, q, rfl⟩
  · exact hlinked.1.symm
  · rw [List.concat_eq_append] at hlinked ⊢
    rw [(linked_snoc.mp hlinked.1).2]
    simp

theorem revision_represents (hg : Good reader sha s) {dataset : ℕ}
    {before after : List DatasetRevision} {r : DatasetRevision}
    (h : history s dataset = before ++ r :: after) :
    Represents sha s (replay ((before ++ [r]).map (importOf s))) (membersOf s r.id) := by
  -- the base of a revision is the one before it, so the induction is from the last to the first
  induction before using List.reverseRecOn generalizing r after with
  | nil =>
    obtain ⟨a, hlookup, ha, hr, hparent⟩ := revision_made hg h
    rw [List.nil_append, List.map_singleton, ← List.nil_append [importOf s r], replay_snoc, hlookup]
    refine import_represents ha hr.declared fun hmode => ?_
    have hbase : baseMembers s a = [] := by
      simp [baseMembers, hmode, hr.parent, hparent]
    rw [hbase]
    exact ⟨nofun, nofun⟩
  | append_singleton before q ih =>
    obtain ⟨a, hlookup, ha, hr, hparent⟩ := revision_made hg h
    rw [List.map_append, List.map_singleton, replay_snoc, hlookup]
    refine import_represents ha hr.declared fun hmode => ?_
    refine represents_base hmode ?_ (ih (by rw [h, List.append_assoc, List.singleton_append]))
    rw [hr.parent, hparent]
    simp

theorem replay_rows {log : List DatasetRevision} {key : String} {raw : RawRow} :
    replay (log.map (importOf s)) key = some raw ↔
      ∃ older q newer, log = older ++ q :: newer ∧ (importOf s q).mentions key = some (some raw) ∧
        ∀ later ∈ newer,
          (importOf s later).mentions key = none ∧ (importOf s later).full = false := by
  rw [replay_last]
  constructor
  · rintro ⟨older, i, newer, hlog, hsaid, hnewer⟩
    obtain ⟨older, rest, rfl, rfl, hrest⟩ := List.map_eq_append_iff.mp hlog
    obtain ⟨q, newer, rfl, rfl, rfl⟩ := List.map_eq_cons_iff.mp hrest
    exact ⟨older, q, newer, rfl, hsaid, fun later hlater => hnewer _ (List.mem_map_of_mem hlater)⟩
  · rintro ⟨older, q, newer, rfl, hsaid, hnewer⟩
    exact ⟨_, _, _, by rw [List.map_append, List.map_cons], hsaid,
      List.forall_mem_map.mpr hnewer⟩

theorem head_last (hg : Good reader sha s) {d : Dataset} (hd : d ∈ s.datasets) :
    d.current = (history s d.id).getLast?.map DatasetRevision.id := by
  have hlinked := hg.lawful.linear d hd
  rcases List.eq_nil_or_concat (history s d.id) with hnil | ⟨before, r, hsnoc⟩
  · rw [hnil] at hlinked ⊢
    exact hlinked.symm
  · rw [hsnoc, List.concat_eq_append] at hlinked ⊢
    rw [(linked_snoc.mp hlinked).2]
    simp

end Histories

/-- In every state that concurrent previews and activations reach, the members
of each revision are exactly what replaying the imports up to it holds, one for
each key and each observed from the row that said so last; the head of a dataset
is its last revision. -/
theorem datasets_replay (sha : Sha256) (reader : DatetimeReader) (cs : List Command)
    (dataset : ℕ) : Replays sha (run sha reader cs) dataset := by
  have hg : Good reader sha (run sha reader cs) := run_good cs
  refine ⟨fun before r after h => ⟨revision_represents hg h, ?_⟩, fun _ _ _ => replay_rows, ?_⟩
  · obtain ⟨a, -, -, hr, -⟩ := revision_made hg h
    exact hr.declared.keys
  · rintro d hd rfl
    exact head_last hg hd

end Workbench.Histories
