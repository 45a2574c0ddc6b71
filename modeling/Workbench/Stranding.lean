import Workbench.Deliveries

/-!
# Bytes left behind

The purge commits before it unlinks. A delivery that is cut off in between leaves
the files of a workspace that no row names any more, and no later delivery finds
its way back to them.
-/

set_option autoImplicit false

namespace Workbench.Stranding
open Workbench.Listing Workbench.Tables Workbench.Calendar Workbench.Workspaces
open Workbench.Collector Workbench.Deliveries
open Workbench.Cleanup hiding step

/-- The delivery is cut off with files left to unlink after its commit. -/
def CutOff (s : System) : Event → Prop
  | .stop token => ∃ d ∈ s.deliveries, d.token = token ∧
      ∃ key rest, d.phase = .deleting (key :: rest)
  | _ => False

/-- The rows of the workspace are gone, no work on its cleanup can be claimed or
goes on, and the bytes of one of its artifacts are still stored. -/
structure Stranded (s : System) (workspace : ℕ) : Prop where
  absent : ¬Present s.store workspace
  rows : ∀ r ∈ s.store.rows, owner r ≠ some workspace
  unclaimable : ∀ r ∈ s.store.rows, Cleans workspace r → ¬Claimable r
  idle : ∀ d ∈ s.deliveries, d.workspace = workspace →
    ∀ key rest, d.phase ≠ .deleting (key :: rest)
  stored : ∃ key, (workspace, key) ∈ s.recorded ∧ key ∈ s.store.published

def Cleared (s : System) : Prop :=
  ∀ workspace key, (workspace, key) ∈ s.recorded → ¬Present s.store workspace →
    key ∈ s.store.published →
      ∃ d ∈ s.deliveries, d.workspace = workspace ∧ ∃ keys, d.phase = .deleting keys ∧ key ∈ keys

section Runs
variable {s : System}

theorem calm_cleared (h : Cleared s) {t : Store} (hc : Calm s.store t) :
    Cleared { s with store := t } := by
  intro workspace key hrec habsent hpub
  exact h workspace key hrec (fun hp => habsent ((hc.present _).mpr hp)) (hc.published ▸ hpub)

theorem enter_cleared (h : Cleared s) {token : String} {phase : Phase}
    (hd : ∀ d ∈ s.deliveries, d.token = token → ∀ key rest, d.phase ≠ .deleting (key :: rest)) :
    Cleared (s.enter token phase) := by
  intro workspace key hrec habsent hpub
  obtain ⟨d, hm, hw, keys, hp, hkey⟩ := h workspace key hrec habsent hpub
  have hne : d.token ≠ token := by
    intro ht
    cases keys with
    | nil => cases hkey
    | cons k rest => exact hd d hm ht k rest hp
  refine ⟨d, mem_revise.mpr ⟨d, hm, ?_⟩, hw, keys, hp, hkey⟩
  rw [if_neg hne]

theorem list_cleared (ha : Accounted s) (h : Cleared s) {d : Delivery} (hd : d ∈ s.deliveries)
    (hp : d.phase = .claimed) : Cleared (listKeys s d.token d.workspace) := by
  have hidle : ∀ e ∈ s.deliveries, e.token = d.token →
      ∀ key rest, e.phase ≠ .deleting (key :: rest) := by
    intro e he ht key rest hdel
    obtain rfl := eq_of_key_eq Delivery.token ha.tokens he hd ht
    rw [hp] at hdel
    cases hdel
  unfold listKeys
  split
  · exact enter_cleared h hidle
  · exact enter_cleared h hidle

theorem purge_cleared (ha : Accounted s) (h : Cleared s) {d : Delivery} (hd : d ∈ s.deliveries)
    {keys : List String} (hp : d.phase = .listed keys) :
    Cleared (purgeRows s d.token d.workspace keys) := by
  have hidle : ∀ e ∈ s.deliveries, e.token = d.token →
      ∀ key rest, e.phase ≠ .deleting (key :: rest) := by
    intro e he ht key rest hdel
    obtain rfl := eq_of_key_eq Delivery.token ha.tokens he hd ht
    rw [hp] at hdel
    cases hdel
  unfold purgeRows
  split
  · rename_i t ht
    obtain ⟨_, _, hpresent, _⟩ := purge_store ha ht
    intro workspace key hrec habsent hpub
    by_cases hw : Present s.store workspace
    · -- the workspace went with this purge, and its artifacts had been listed
      have he : workspace = d.workspace := by
        by_contra hne
        exact habsent ((hpresent _ hne).mpr hw)
      subst he
      have hkey := ha.listed d hd keys hp hw key ((ha.held _ key hw).mp hrec)
      refine ⟨_, mem_revise.mpr ⟨d, hd, rfl⟩, ?_⟩
      rw [if_pos rfl]
      exact ⟨rfl, keys, rfl, hkey⟩
    · exact enter_cleared h hidle workspace key hrec hw hpub
  · exact enter_cleared h hidle
  · exact enter_cleared h hidle

theorem unlink_cleared (ha : Accounted s) (h : Cleared s) {d : Delivery} (hd : d ∈ s.deliveries)
    {key : String} {rest : List String} (hp : d.phase = .deleting (key :: rest)) :
    Cleared (unlinkFile s d.token key rest) := by
  intro workspace x hrec habsent hpub
  obtain ⟨hpub, hne⟩ := List.mem_filter.mp hpub
  have hxk : x ≠ key := of_decide_eq_true hne
  obtain ⟨e, he, hw, keys, hek, hx⟩ := h workspace x hrec habsent hpub
  by_cases ht : e.token = d.token
  · obtain rfl := eq_of_key_eq Delivery.token ha.tokens he hd ht
    obtain rfl := Phase.deleting.inj (hp.symm.trans hek)
    refine ⟨_, mem_revise.mpr ⟨e, he, rfl⟩, ?_⟩
    rw [if_pos rfl]
    exact ⟨hw, rest, rfl, (List.mem_cons.mp hx).resolve_left hxk⟩
  · refine ⟨e, mem_revise.mpr ⟨e, he, ?_⟩, hw, keys, hek, hx⟩
    rw [if_neg ht]

theorem step_cleared (ha : Accounted s) (h : Cleared s) {e : Event} (hc : ¬CutOff s e) :
    Cleared (step s e) := by
  cases e with
  | createWorkspace id expiresAt =>
    simp only [step]
    split
    · exact h
    · intro workspace key hrec habsent hpub
      have hstored : (Cleanup.step s.store (.createWorkspace
          ⟨id, .active, expiresAt, none, none, ⟨0, 0, 0⟩⟩)).published = s.store.published := by
        simp only [Cleanup.step]
        split <;> rfl
      have hgrown : ∀ w ∈ s.store.workspaces, w ∈ (Cleanup.step s.store (.createWorkspace
          ⟨id, .active, expiresAt, none, none, ⟨0, 0, 0⟩⟩)).workspaces := by
        intro w hw
        simp only [Cleanup.step]
        split
        · exact hw
        · exact List.mem_append_left _ hw
      apply h workspace key hrec _ (hstored ▸ hpub)
      intro hw
      obtain ⟨w, hw, hid⟩ := hw
      exact habsent ⟨w, hgrown w hw, hid⟩
  | revoke workspace final now item =>
    exact calm_cleared h (revokeWorkspace_calm ha.sound workspace final now item)
  | intake id workspace key =>
    simp only [step]
    split
    · rename_i hi
      obtain ⟨⟨w, hw, hid, _⟩, hfresh, hinsert⟩ := hi
      intro other x hrec habsent hpub
      simp only [Cleanup.step, if_pos hinsert] at habsent hpub
      rcases List.mem_cons.mp hrec with he | hold
      · exact absurd ⟨w, hw, hid.trans (Prod.mk.inj he).1.symm⟩ habsent
      · apply h other x hold habsent
        rcases List.mem_append.mp hpub with hpub | hpub
        · exact hpub
        · have hx : x = key := List.mem_singleton.mp hpub
          have hdrawn : x ∈ s.recorded.map Prod.snd := List.mem_map.mpr ⟨_, hold, rfl⟩
          exact absurd (hx ▸ hdrawn) hfresh
    · exact h
  | statement c =>
    simp only [step]
    split
    · rename_i hord
      exact calm_cleared h (statement_calm ha.sound hord)
    · exact h
  | claim workspace token =>
    simp only [step]
    split
    · have hcalm := calm_cleared h (leaseItem_calm ha.sound workspace token)
      intro w key hrec habsent hpub
      obtain ⟨d, hd, hrest⟩ := hcalm w key hrec habsent hpub
      exact ⟨d, List.mem_cons_of_mem _ hd, hrest⟩
    · exact h
  | list token =>
    simp only [step]
    split
    · rename_i hd
      obtain ⟨hmem, rfl⟩ := lookup_delivery hd
      exact list_cleared ha h hmem rfl
    · exact h
  | purge token =>
    simp only [step]
    split
    · rename_i hd
      obtain ⟨hmem, rfl⟩ := lookup_delivery hd
      exact purge_cleared ha h hmem rfl
    · exact h
  | unlink token =>
    simp only [step]
    split
    · rename_i hd
      obtain ⟨hmem, rfl⟩ := lookup_delivery hd
      exact unlink_cleared ha h hmem rfl
    · exact h
  | stop token =>
    apply enter_cleared h
    intro d hd ht key rest hp
    exact hc ⟨d, hd, ht, key, rest, hp⟩

theorem stranded_iff (ha : Accounted s) {workspace : ℕ} : Stranded s workspace ↔
    ¬Present s.store workspace ∧
      (∀ d ∈ s.deliveries, d.workspace = workspace →
        ∀ key rest, d.phase ≠ .deleting (key :: rest)) ∧
      ∃ key, (workspace, key) ∈ s.recorded ∧ key ∈ s.store.published := by
  constructor
  · exact fun h => ⟨h.absent, h.idle, h.stored⟩
  · intro h
    obtain ⟨habsent, hidle, hstored⟩ := h
    refine ⟨habsent, ?_, fun r hr hc _ => habsent (ha.cleaned hr hc).1, hidle, hstored⟩
    intro r hr ho
    obtain ⟨w, hw, hwo⟩ := ha.sound.owned r hr
    exact habsent ⟨w, hw, Option.some.inj (hwo.symm.trans ho)⟩

theorem enter_idle {workspace : ℕ} {token : String} {phase : Phase}
    (h : ∀ d ∈ s.deliveries, d.workspace = workspace →
      ∀ key rest, d.phase ≠ .deleting (key :: rest))
    (hp : (∀ key rest, phase ≠ .deleting (key :: rest)) ∨
      ∀ d ∈ s.deliveries, d.token = token → d.workspace ≠ workspace) :
    ∀ d ∈ (s.enter token phase).deliveries, d.workspace = workspace →
      ∀ key rest, d.phase ≠ .deleting (key :: rest) := by
  intro d' hd' hw
  obtain ⟨d, hd, rfl⟩ := mem_revise.mp hd'
  by_cases ht : d.token = token
  · rw [if_pos ht] at hw ⊢
    rcases hp with hp | hp
    · exact hp
    · exact absurd hw (hp d hd ht)
  · rw [if_neg ht] at hw ⊢
    exact h d hd hw

theorem calm_stranded {workspace : ℕ} (ha : Accounted s) (h : Stranded s workspace) {t : Store}
    (hc : Calm s.store t) : Stranded { s with store := t } workspace := by
  apply (stranded_iff (calm_accounted ha hc)).mpr
  obtain ⟨key, hrec, hpub⟩ := h.stored
  exact ⟨fun hp => h.absent ((hc.present _).mp hp), h.idle, key, hrec, hc.published ▸ hpub⟩

/-- Nothing that happens later removes the bytes. -/
theorem step_stranded {workspace : ℕ} (ha : Accounted s) (h : Stranded s workspace) (e : Event) :
    Stranded (step s e) workspace := by
  obtain ⟨key, hrec, hpub⟩ := h.stored
  have hnext := step_accounted ha e
  cases e with
  | createWorkspace id expiresAt =>
    apply (stranded_iff hnext).mpr
    simp only [step]
    split
    · exact ⟨h.absent, h.idle, h.stored⟩
    · rename_i hid
      simp only [Cleanup.step]
      split
      · exact ⟨h.absent, h.idle, h.stored⟩
      · refine ⟨?_, h.idle, key, hrec, hpub⟩
        intro hp
        obtain ⟨w, hw, he⟩ := hp
        rcases List.mem_append.mp hw with hw | hw
        · exact h.absent ⟨w, hw, he⟩
        · rw [List.mem_singleton] at hw
          subst hw
          have he : id = workspace := he
          exact hid (he ▸ ha.recorded _ hrec)
  | revoke w final now item =>
    exact calm_stranded ha h (revokeWorkspace_calm ha.sound w final now item)
  | intake id w k =>
    apply (stranded_iff hnext).mpr
    simp only [step]
    split
    · rename_i hi
      simp only [Cleanup.step, if_pos hi.2.2]
      exact ⟨h.absent, h.idle, key, List.mem_cons_of_mem _ hrec, List.mem_append_left _ hpub⟩
    · exact ⟨h.absent, h.idle, h.stored⟩
  | statement c =>
    simp only [step]
    split
    · rename_i hc
      exact calm_stranded ha h (statement_calm ha.sound hc)
    · exact h
  | claim w token =>
    apply (stranded_iff hnext).mpr
    simp only [step]
    split
    · have hc := leaseItem_calm ha.sound w token
      refine ⟨fun hp => h.absent ((hc.present _).mp hp), ?_, key, hrec, hc.published ▸ hpub⟩
      intro d hd
      rcases List.mem_cons.mp hd with rfl | hd
      · exact fun _ _ _ hp => by cases hp
      · exact h.idle d hd
    · exact ⟨h.absent, h.idle, h.stored⟩
  | list token =>
    apply (stranded_iff hnext).mpr
    simp only [step]
    split
    · unfold listKeys
      split
      · exact ⟨h.absent, enter_idle h.idle (.inl fun _ _ hp => by cases hp), h.stored⟩
      · exact ⟨h.absent, enter_idle h.idle (.inl fun _ _ hp => by cases hp), h.stored⟩
    · exact ⟨h.absent, h.idle, h.stored⟩
  | purge token =>
    apply (stranded_iff hnext).mpr
    simp only [step]
    split
    · rename_i w keys hd
      obtain ⟨hmem, ht⟩ := lookup_delivery hd
      unfold purgeRows
      split
      · rename_i t hok
        obtain ⟨_, _, hpresent, _⟩ := purge_store ha hok
        have hne : w ≠ workspace := by
          rintro rfl
          cases hlookup : lookup Workspace.id s.store.workspaces w with
          | none =>
            unfold purgeWorkspace at hok
            rw [hlookup] at hok
            cases hok
          | some x => exact h.absent ⟨x, mem_of_lookup hlookup, key_of_lookup hlookup⟩
        refine ⟨fun hp => h.absent ((hpresent _ (Ne.symm hne)).mp hp), ?_, key, hrec, hpub⟩
        apply enter_idle h.idle
        right
        intro e he hte
        obtain rfl := eq_of_key_eq Delivery.token ha.tokens he hmem (hte.trans ht.symm)
        exact hne
      · exact ⟨h.absent, enter_idle h.idle (.inl fun _ _ hp => by cases hp), h.stored⟩
      · exact ⟨h.absent, enter_idle h.idle (.inl fun _ _ hp => by cases hp), h.stored⟩
    · exact ⟨h.absent, h.idle, h.stored⟩
  | unlink token =>
    apply (stranded_iff hnext).mpr
    simp only [step]
    split
    · rename_i w k rest hd
      obtain ⟨hmem, ht⟩ := lookup_delivery hd
      have hne : w ≠ workspace := fun hw => h.idle _ hmem hw k rest rfl
      refine ⟨h.absent, ?_, key, hrec, ?_⟩
      · apply enter_idle h.idle
        right
        intro e he hte
        obtain rfl := eq_of_key_eq Delivery.token ha.tokens he hmem (hte.trans ht.symm)
        exact hne
      · have hkept : key ≠ k := by
          rintro rfl
          exact hne (ha.owner_eq (ha.own _ hmem _ (.inr rfl) key (List.mem_cons_self ..)) hrec)
        exact List.mem_filter.mpr ⟨hpub, decide_eq_true hkept⟩
    · exact ⟨h.absent, h.idle, h.stored⟩
  | stop token =>
    apply (stranded_iff hnext).mpr
    exact ⟨h.absent, enter_idle h.idle (.inl fun _ _ hp => by cases hp), h.stored⟩

end Runs

/-- A cleanup that is never cut off between its commit and the last of its files
leaves no bytes behind, however often it is cut off before or delivered again. -/
theorem cleanup_strands_nothing (events : List Event)
    (h : Along step (fun s e => ¬CutOff s e) start events) (workspace : ℕ) :
    ¬Stranded (reached events) workspace := by
  intro hs
  have hcleared : Accounted (reached events) ∧ Cleared (reached events) := by
    unfold reached
    apply foldl_keeps (P := fun s => Accounted s ∧ Cleared s) _ _ h
    · exact fun s e hi hc => ⟨step_accounted hi.1 e, step_cleared hi.1 hi.2 hc⟩
    · exact ⟨start_accounted, fun _ _ hrec => by cases hrec⟩
  obtain ⟨key, hrec, hpub⟩ := hs.stored
  obtain ⟨d, hd, hw, keys, hp, hkey⟩ := hcleared.2 workspace key hrec hs.absent hpub
  cases keys with
  | nil => cases hkey
  | cons k rest => exact hs.idle d hd hw k rest hp

/-- A workspace with one uploaded file is deleted, and its cleanup is claimed. -/
def claimedCleanup : List Event :=
  [.createWorkspace 1 ⟨95, by decide⟩, .intake 4 1 "workspaces/1/d.csv",
    .revoke 1 .deleted ⟨94, by decide⟩ 8, .claim 1 "t1", .list "t1"]

/-- A delivery that was cut off before its commit, and one that went to its end. -/
theorem cleanup_strands_nothing_sample :
    ¬Stranded (reached (claimedCleanup ++ [.stop "t1", .claim 1 "t2", .list "t2", .purge "t2",
      .unlink "t2", .stop "t2"])) 1 := by
  apply cleanup_strands_nothing
  refine ⟨id, id, id, id, id, ?_, id, id, id, id, ?_, trivial⟩
  · intro h
    obtain ⟨d, hd, _, key, rest, hp⟩ := h
    have hone : (reached claimedCleanup).deliveries =
        [⟨"t1", 1, .listed ["workspaces/1/d.csv"]⟩] := by decide +kernel
    have hd := hone ▸ hd
    rw [List.mem_singleton.mp hd] at hp
    cases hp
  · intro h
    obtain ⟨d, hd, _, key, rest, hp⟩ := h
    have htwo : (reached (claimedCleanup ++ [.stop "t1", .claim 1 "t2", .list "t2", .purge "t2",
        .unlink "t2"])).deliveries = [⟨"t2", 1, .deleting []⟩, ⟨"t1", 1, .ended⟩] := by
      decide +kernel
    have hd := htwo ▸ hd
    rcases List.mem_cons.mp hd with rfl | hd
    · cases hp
    · rw [List.mem_singleton.mp hd] at hp
      cases hp

/-- The worker is cut off right after its commit: the rows and the work item are
gone, and nothing that happens later removes the file. -/
theorem cut_off_cleanup_strands :
    Stranded (reached (claimedCleanup ++ [.purge "t1", .stop "t1"])) 1 ∧ ∀ later : List Event,
      Stranded (reached (claimedCleanup ++ [.purge "t1", .stop "t1"] ++ later)) 1 := by
  have hstranded : Stranded (reached (claimedCleanup ++ [.purge "t1", .stop "t1"])) 1 := by
    have hone : (reached (claimedCleanup ++ [.purge "t1", .stop "t1"])).deliveries =
        [⟨"t1", 1, .ended⟩] := by decide +kernel
    apply (stranded_iff (reached_accounted _)).mpr
    refine ⟨by decide +kernel, ?_, "workspaces/1/d.csv", by decide +kernel, by decide +kernel⟩
    intro d hd _ key rest hp
    rw [hone] at hd
    rw [List.mem_singleton.mp hd] at hp
    cases hp
  refine ⟨hstranded, fun later => ?_⟩
  have hboth : Accounted (reached (claimedCleanup ++ [.purge "t1", .stop "t1"] ++ later)) ∧
      Stranded (reached (claimedCleanup ++ [.purge "t1", .stop "t1"] ++ later)) 1 := by
    unfold reached
    rw [List.foldl_append]
    apply foldl_keeps (P := fun s => Accounted s ∧ Stranded s 1) _
      ⟨reached_accounted _, hstranded⟩ (along_true _ later)
    exact fun s e hi _ => ⟨step_accounted hi.1 e, step_stranded hi.1 hi.2 e⟩
  exact hboth.2

end Workbench.Stranding
