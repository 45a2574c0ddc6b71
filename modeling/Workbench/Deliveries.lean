import Workbench.Purges

/-!
# Deliveries of a cleanup

A worker that claimed a cleanup lists the storage keys of the workspace, purges
its rows in one transaction and then unlinks the files one by one. It can be cut
off between any two of these steps, and the work can be delivered again.
-/

set_option autoImplicit false

namespace Workbench.Deliveries
open Workbench.Listing Workbench.Tables Workbench.Calendar Workbench.Workspaces
open Workbench.Collector Workbench.Cleanup
open Workbench.Purges (Sound purgeWorkspace_ok purge_sound step_sound empty_sound revised_row
  owner_refer storageKey_write owner_clear)

/-- How far a delivery is. A delivery of the deleting phase has committed its
transaction and has these files left. -/
inductive Phase where
  | claimed
  | listed (keys : List String)
  | deleting (keys : List String)
  | ended
deriving DecidableEq

structure Delivery where
  token : String
  workspace : ℕ
  phase : Phase
deriving DecidableEq

/-- The store with the workspaces ever created, the artifacts ever recorded and
the deliveries ever claimed. Identities, storage keys and tokens are drawn at
random from ranges too large to repeat. -/
structure System where
  store : Store
  known : List ℕ
  recorded : List (ℕ × String)
  deliveries : List Delivery

def start : System := ⟨⟨[], [], []⟩, [], [], []⟩

def artifactRow (id workspace : ℕ) (key : String) : Record :=
  ⟨.fileArtifact, id, [("workspace", workspace)], [("storage_key", key)]⟩

def requestRow (workspace : ℕ) : Record :=
  ⟨.cleanupRequest, workspace, [("workspace", workspace)], []⟩

def itemRow (id workspace : ℕ) : Record :=
  ⟨.workItem, id, [("workspace", workspace), ("cleanup_request", workspace)],
    [("state", "READY")]⟩

def Cleans (workspace : ℕ) (r : Record) : Prop :=
  r.table = .workItem ∧
    r.reference (cascade "cleanup_request" .cleanupRequest) = some (.cleanupRequest, workspace)

instance cleans_decidable (workspace : ℕ) (r : Record) : Decidable (Cleans workspace r) :=
  inferInstanceAs (Decidable (_ ∧ _))

/-- `_claimable`: a lease runs out at some time. -/
def Claimable (r : Record) : Prop :=
  text r "state" = some "READY" ∨ text r "state" = some "LEASED"

instance claimable_decidable (r : Record) : Decidable (Claimable r) :=
  inferInstanceAs (Decidable (_ ∨ _))

def Present (s : Store) (workspace : ℕ) : Prop := ∃ w ∈ s.workspaces, w.id = workspace

instance present_decidable (s : Store) (workspace : ℕ) : Decidable (Present s workspace) :=
  inferInstanceAs (Decidable (∃ w ∈ s.workspaces, _))

def Active (s : Store) (workspace : ℕ) : Prop :=
  ∃ w ∈ s.workspaces, w.id = workspace ∧ w.state = .active

instance active_decidable (s : Store) (workspace : ℕ) : Decidable (Active s workspace) :=
  inferInstanceAs (Decidable (∃ w ∈ s.workspaces, _))

/-- `_revoke`: the request and its work item are made unless they exist. -/
def revokeWorkspace (workspace : ℕ) (final : WorkspaceState) (now : Instant) (item : ℕ)
    (s : Store) : Store :=
  let revoked := Cleanup.step s (.revoke workspace final now)
  let requested := Cleanup.step revoked (.insert (requestRow workspace) false)
  if ∃ r ∈ requested.rows, Cleans workspace r then requested
  else Cleanup.step requested (.insert (itemRow item workspace) false)

/-- The other statements of the services: none records an artifact or requests a
cleanup, and rows of four tables are deleted. -/
def ordinary : Command → Bool
  | .createWorkspace _ => false
  | .revoke .. => false
  | .insert r _ => decide (r.table ≠ .fileArtifact ∧ r.table ≠ .cleanupRequest)
  | .refer .. => true
  | .write .. => true
  | .delete rows => decide (∀ k ∈ rows, k.1 = .caseScopeProjection ∨ k.1 = .currentDecisionHealth ∨
      k.1 = .activeDecisionClaim ∨ k.1 = .reconciliationBook)
  | .purge .. => false

inductive Event where
  | createWorkspace (id : ℕ) (expiresAt : Instant)
  | revoke (workspace : ℕ) (final : WorkspaceState) (now : Instant) (item : ℕ)
  | intake (id workspace : ℕ) (key : String)
  | statement (c : Command)
  | claim (workspace : ℕ) (token : String)
  | list (token : String)
  | purge (token : String)
  | unlink (token : String)
  | stop (token : String)

def Delivery.enter (phase : Phase) (d : Delivery) : Delivery := { d with phase := phase }

def System.enter (s : System) (token : String) (phase : Phase) : System :=
  { s with deliveries := revise Delivery.token token (Delivery.enter phase) s.deliveries }

/-- The first check of `purge_workspace`, and its list of storage keys. -/
def listKeys (s : System) (token : String) (workspace : ℕ) : System :=
  if Present s.store workspace then s.enter token (.listed (storageKeys s.store workspace))
  else s.enter token .ended

/-- The transaction of `purge_workspace`; the files are still stored after it. -/
def purgeRows (s : System) (token : String) (workspace : ℕ) (keys : List String) : System :=
  match purgeWorkspace s.store workspace (some token) with
  | .ok (t, true) =>
    ({ s with store := { t with published := s.store.published } }).enter token (.deleting keys)
  | .ok (_, false) => s.enter token .ended
  | .error _ => s.enter token .ended

/-- `delete_published`. -/
def unlinkFile (s : System) (token key : String) (rest : List String) : System :=
  ({ s with
    store := { s.store with published := s.store.published.filter fun x => x ≠ key } }).enter
      token (.deleting rest)

def leaseItem (workspace : ℕ) (token : String) (s : Store) : Store :=
  match s.rows.find? fun r => Cleans workspace r with
  | none => s
  | some r =>
    let leased := Cleanup.step s (.write r.key "state" "LEASED")
    Cleanup.step leased (.write r.key "current_token" token)

def step (s : System) : Event → System
  | .createWorkspace id expiresAt =>
    if id ∈ s.known then s
    else { s with
      store := Cleanup.step s.store
        (.createWorkspace ⟨id, .active, expiresAt, none, none, ⟨0, 0, 0⟩⟩)
      known := id :: s.known }
  | .revoke workspace final now item =>
    { s with store := revokeWorkspace workspace final now item s.store }
  | .intake id workspace key =>
    if Active s.store workspace ∧ key ∉ s.recorded.map Prod.snd ∧
        Insertable s.store (artifactRow id workspace key) then
      { s with
        store := Cleanup.step s.store (.insert (artifactRow id workspace key) true)
        recorded := (workspace, key) :: s.recorded }
    else s
  | .statement c => if ordinary c then { s with store := Cleanup.step s.store c } else s
  | .claim workspace token =>
    if (∃ r ∈ s.store.rows, Cleans workspace r ∧ Claimable r) ∧
        token ∉ s.deliveries.map Delivery.token then
      { s with
        store := leaseItem workspace token s.store
        deliveries := ⟨token, workspace, .claimed⟩ :: s.deliveries }
    else s
  | .list token =>
    match lookup Delivery.token s.deliveries token with
    | some ⟨_, workspace, .claimed⟩ => listKeys s token workspace
    | _ => s
  | .purge token =>
    match lookup Delivery.token s.deliveries token with
    | some ⟨_, workspace, .listed keys⟩ => purgeRows s token workspace keys
    | _ => s
  | .unlink token =>
    match lookup Delivery.token s.deliveries token with
    | some ⟨_, _, .deleting (key :: rest)⟩ => unlinkFile s token key rest
    | _ => s
  | .stop token => s.enter token .ended

def reached (events : List Event) : System := events.foldl step start

def Holds (s : Store) (workspace : ℕ) (key : String) : Prop :=
  ∃ r ∈ s.rows, owner r = some workspace ∧ storageKey r = some key

theorem mem_storageKeys {s : Store} {workspace : ℕ} {key : String} :
    key ∈ storageKeys s workspace ↔ Holds s workspace key := by
  unfold storageKeys Holds
  rw [List.mem_filterMap]
  constructor
  · intro h
    obtain ⟨r, hr, hk⟩ := h
    obtain ⟨hr, ho⟩ := List.mem_filter.mp hr
    exact ⟨r, hr, of_decide_eq_true ho, hk⟩
  · intro h
    obtain ⟨r, hr, ho, hk⟩ := h
    exact ⟨r, List.mem_filter.mpr ⟨hr, decide_eq_true ho⟩, hk⟩

/-- The step adds and removes no workspace and no artifact, and only a cleanup
of a workspace that is not active is requested. -/
structure Calm (s t : Store) : Prop where
  sound : Sound t
  present : ∀ w, Present t w ↔ Present s w
  active : ∀ w, Active t w → Active s w
  holds : ∀ w key, Holds t w key ↔ Holds s w key
  requests : ∀ r ∈ t.rows, r.table = .cleanupRequest →
    (∃ q ∈ s.rows, q.key = r.key ∧ owner q = owner r) ∨ owner r = some r.id ∧ ¬Active t r.id
  published : t.published = s.published

section Calmness
variable {s t u : Store}

theorem Calm.refl (h : Sound s) : Calm s s where
  sound := h
  present _ := Iff.rfl
  active _ hw := hw
  holds _ _ := Iff.rfl
  requests r hr _ := .inl ⟨r, hr, rfl, rfl⟩
  published := rfl

theorem Calm.trans (h : Calm s t) (h' : Calm t u) : Calm s u where
  sound := h'.sound
  present w := (h'.present w).trans (h.present w)
  active w hw := h.active w (h'.active w hw)
  holds w key := (h'.holds w key).trans (h.holds w key)
  requests := by
    intro r hr ht
    rcases h'.requests r hr ht with ⟨q, hq, hk, ho⟩ | hnew
    · have htable : q.table = .cleanupRequest := (congrArg Prod.fst hk).trans ht
      have hid : q.id = r.id := congrArg Prod.snd hk
      rcases h.requests q hq htable with ⟨p, hp, hpk, hpo⟩ | ⟨howner, hactive⟩
      · exact .inl ⟨p, hp, hpk.trans hk, hpo.trans ho⟩
      · right
        rw [← hid, ← ho]
        exact ⟨howner, fun ha => hactive (h'.active _ ha)⟩
    · exact .inr hnew
  published := h'.published.trans h.published

theorem holds_insert {r : Record} (hk : storageKey r = none) {published : List String}
    (w : ℕ) (key : String) :
    Holds { s with rows := s.rows ++ [r], published := published } w key ↔ Holds s w key := by
  unfold Holds
  constructor
  · intro h
    obtain ⟨x, hx, ho, hkey⟩ := h
    rcases List.mem_append.mp hx with hx | hx
    · exact ⟨x, hx, ho, hkey⟩
    · rw [List.mem_singleton.mp hx, hk] at hkey
      cases hkey
  · intro h
    obtain ⟨x, hx, hrest⟩ := h
    exact ⟨x, List.mem_append_left _ hx, hrest⟩

theorem insert_calm (hs : Sound s) {r : Record} (ht : r.table ≠ .fileArtifact)
    (hr : r.table = .cleanupRequest → owner r = some r.id ∧ ¬Active s r.id) (bytes : Bool) :
    Calm s (Cleanup.step s (.insert r bytes)) := by
  have hk : storageKey r = none := by
    unfold storageKey
    rw [if_neg ht]
  have hsound := step_sound hs (.insert r bytes)
  simp only [Cleanup.step] at hsound ⊢
  by_cases hi : Insertable s r
  · rw [if_pos hi] at hsound ⊢
    refine ⟨hsound, fun _ => Iff.rfl, fun _ h => h, holds_insert hk, ?_, ?_⟩
    · intro x hx hx'
      rcases List.mem_append.mp hx with hx | hx
      · exact .inl ⟨x, hx, rfl, rfl⟩
      · rw [List.mem_singleton] at hx
        subst hx
        exact .inr (hr hx')
    · show s.published ++ _ = s.published
      rw [hk]
      cases bytes <;> exact List.append_nil _
  · rw [if_neg hi]
    exact .refl hs

theorem revise_calm {k : Table × ℕ} {f : Record → Record} (hkey : ∀ r, (f r).key = r.key)
    (howner : ∀ r, owner (f r) = owner r) (hstorage : ∀ r, storageKey (f r) = storageKey r)
    (hs : Sound { s with rows := revise Row.key k f s.rows }) :
    Calm s { s with rows := revise Row.key k f s.rows } where
  sound := hs
  present _ := Iff.rfl
  active _ h := h
  holds w key := by
    constructor
    · intro h
      obtain ⟨r', hr', ho, hk⟩ := h
      obtain ⟨r, hr, ⟨_, rfl⟩ | rfl⟩ := revised_row hr'
      · exact ⟨r, hr, (howner r).symm.trans ho, (hstorage r).symm.trans hk⟩
      · exact ⟨r', hr, ho, hk⟩
    · intro h
      obtain ⟨r, hr, ho, hk⟩ := h
      refine ⟨_, mem_revise.mpr ⟨r, hr, rfl⟩, ?_⟩
      by_cases hrk : r.key = k
      · rw [if_pos hrk, howner, hstorage]
        exact ⟨ho, hk⟩
      · rw [if_neg hrk]
        exact ⟨ho, hk⟩
  requests := by
    intro r' hr' _
    left
    obtain ⟨r, hr, ⟨_, rfl⟩ | rfl⟩ := revised_row hr'
    · exact ⟨r, hr, (hkey r).symm, (howner r).symm⟩
    · exact ⟨r', hr, rfl, rfl⟩
  published := rfl

theorem refer_calm (hs : Sound s) (row : Table × ℕ) (column : String) (value : Option ℕ) :
    Calm s (Cleanup.step s (.refer row column value)) := by
  have hsound := step_sound hs (.refer row column value)
  simp only [Cleanup.step] at hsound ⊢
  by_cases hc : column ≠ "workspace" ∧
      ∀ r ∈ s.rows, r.key = row → Inside s.rows (Row.refer column value r)
  · rw [if_pos hc] at hsound ⊢
    exact revise_calm (fun _ => rfl) (owner_refer hc.1 value) (fun _ => rfl) hsound
  · rw [if_neg hc]
    exact .refl hs

theorem write_calm (hs : Sound s) (row : Table × ℕ) (column value : String) :
    Calm s (Cleanup.step s (.write row column value)) := by
  have hsound := step_sound hs (.write row column value)
  simp only [Cleanup.step] at hsound ⊢
  by_cases hc : column ≠ "storage_key"
  · rw [if_pos hc] at hsound ⊢
    exact revise_calm (fun _ => rfl) (fun _ => rfl) (storageKey_write hc) hsound
  · rw [if_neg hc]
    exact .refl hs

/-- Deletions of the services reach no artifact: one has no key of its own to
another row than its workspace. -/
theorem artifact_kept {rows : List Record} {start : List (Table × ℕ)}
    (hstart : ∀ k ∈ start, k.1 ≠ .fileArtifact ∧ k.1 ≠ .workspace)
    (htables : ∀ r ∈ rows, r.table ≠ .workspace) :
    ∀ k ∈ collect references rows start, k.1 ≠ .fileArtifact ∧ k.1 ≠ .workspace := by
  intro k hk
  apply mem_collect.mp hk (fun k => k.1 ≠ .fileArtifact ∧ k.1 ≠ .workspace) _ hstart
  intro r hr href
  obtain ⟨fk, hfk, _, x, hx, hx1, hx2⟩ := href
  have htarget : x.1 = fk.target := by
    obtain ⟨c, _, rfl⟩ := Option.map_eq_some_iff.mp hx
    rfl
  refine ⟨?_, htables r hr⟩
  intro hartifact
  have htable : r.table = .fileArtifact := hartifact
  rw [htable] at hfk
  rw [List.mem_singleton.mp hfk] at htarget
  exact hx2 htarget

theorem delete_calm (hs : Sound s) {rows : List (Table × ℕ)}
    (hrows : ∀ k ∈ rows, k.1 ≠ .fileArtifact ∧ k.1 ≠ .workspace) :
    Calm s (Cleanup.step s (.delete rows)) := by
  have hsound := step_sound hs (.delete rows)
  simp only [Cleanup.step] at hsound ⊢
  rw [if_pos fun k hk => (hrows k hk).2] at hsound ⊢
  cases hd : delete references s.rows rows with
  | error e => exact .refl hs
  | ok after =>
    rw [hd] at hsound
    obtain ⟨_, rfl⟩ := delete_ok.mp hd
    have hrow : ∀ {r'}, r' ∈ (s.rows.filter fun r => r.key ∉ collect references s.rows rows).map
        (Row.clear references (collect references s.rows rows)) → ∃ r ∈ s.rows,
          Row.clear references (collect references s.rows rows) r = r' := by
      intro r' hr'
      obtain ⟨r, hr, he⟩ := List.mem_map.mp hr'
      exact ⟨r, (List.mem_filter.mp hr).1, he⟩
    refine ⟨hsound, fun _ => Iff.rfl, fun _ h => h, ?_, ?_, rfl⟩
    · intro w key
      constructor
      · intro h
        obtain ⟨r', hr', ho, hk⟩ := h
        obtain ⟨r, hr, rfl⟩ := hrow hr'
        rw [owner_clear] at ho
        exact ⟨r, hr, ho, hk⟩
      · intro h
        obtain ⟨r, hr, ho, hk⟩ := h
        have htable : r.table = .fileArtifact := by
          unfold storageKey at hk
          by_contra hne
          rw [if_neg hne] at hk
          cases hk
        have hkept : r.key ∉ collect references s.rows rows :=
          fun hin => (artifact_kept hrows hs.tables _ hin).1 htable
        refine ⟨_, List.mem_map_of_mem (List.mem_filter.mpr ⟨hr, decide_eq_true hkept⟩), ?_, hk⟩
        rw [owner_clear]
        exact ho
    · intro r' hr' _
      obtain ⟨r, hr, rfl⟩ := hrow hr'
      exact .inl ⟨r, hr, rfl, (owner_clear _ r).symm⟩

theorem statement_calm (hs : Sound s) {c : Command} (hc : ordinary c = true) :
    Calm s (Cleanup.step s c) := by
  cases c with
  | createWorkspace w => cases hc
  | revoke workspace final now => cases hc
  | insert r bytes =>
    have htable := of_decide_eq_true hc
    exact insert_calm hs htable.1 (fun h => absurd h htable.2) bytes
  | refer row column value => exact refer_calm hs row column value
  | write row column value => exact write_calm hs row column value
  | delete rows =>
    apply delete_calm hs
    intro k hk
    rcases of_decide_eq_true hc k hk with h | h | h | h <;> rw [h] <;> decide
  | purge workspace attemptToken => cases hc

theorem revoke_not_active (final : WorkspaceState) (now : Instant) (w : Workspace) :
    (w.revoke final now).state ≠ .active := by
  unfold Workspace.revoke
  cases final with
  | deleted => simp
  | active | revoked =>
    by_cases h : w.state = .active
    · simp [h]
    · simp [h]

theorem revoked_calm (hs : Sound s) (workspace : ℕ) (final : WorkspaceState) (now : Instant) :
    Calm s (Cleanup.step s (.revoke workspace final now)) ∧
      ¬Active (Cleanup.step s (.revoke workspace final now)) workspace := by
  have hrow : ∀ {x}, x ∈ revise Workspace.id workspace (Workspace.revoke final now) s.workspaces →
      ∃ w ∈ s.workspaces, w.id = x.id ∧ (x.state = .active → w.id ≠ workspace ∧ w = x) := by
    intro x hx
    obtain ⟨w, hw, rfl⟩ := mem_revise.mp hx
    by_cases hid : w.id = workspace
    · rw [if_pos hid]
      exact ⟨w, hw, (Workspace.revoke_id final now w).symm,
        fun ha => absurd ha (revoke_not_active final now w)⟩
    · rw [if_neg hid]
      exact ⟨w, hw, rfl, fun _ => ⟨hid, rfl⟩⟩
  constructor
  · refine ⟨step_sound hs (.revoke workspace final now), ?_, ?_, fun _ _ => Iff.rfl, ?_, rfl⟩
    · intro w
      constructor
      · intro h
        obtain ⟨x, hx, hid⟩ := h
        obtain ⟨y, hy, hyx, _⟩ := hrow hx
        exact ⟨y, hy, hyx.trans hid⟩
      · intro h
        obtain ⟨x, hx, hid⟩ := h
        refine ⟨_, mem_revise.mpr ⟨x, hx, rfl⟩, ?_⟩
        split
        · rw [Workspace.revoke_id, hid]
        · exact hid
    · intro w h
      obtain ⟨x, hx, hid, ha⟩ := h
      obtain ⟨y, hy, _, hsame⟩ := hrow hx
      exact ⟨y, hy, (hsame ha).2 ▸ hid, (hsame ha).2 ▸ ha⟩
    · exact fun r hr _ => .inl ⟨r, hr, rfl, rfl⟩
  · intro h
    obtain ⟨x, hx, hid, ha⟩ := h
    obtain ⟨y, _, hyx, hsame⟩ := hrow hx
    exact (hsame ha).1 (hyx.trans hid)

theorem revokeWorkspace_calm (hs : Sound s) (workspace : ℕ) (final : WorkspaceState)
    (now : Instant) (item : ℕ) : Calm s (revokeWorkspace workspace final now item s) := by
  obtain ⟨hrevoked, hactive⟩ := revoked_calm hs workspace final now
  have hrequested := hrevoked.trans
    (insert_calm (r := requestRow workspace) hrevoked.sound (fun h => by cases h)
      (fun _ => ⟨rfl, hactive⟩) false)
  unfold revokeWorkspace
  simp only
  split
  · exact hrequested
  · apply hrequested.trans
    exact insert_calm hrequested.sound (fun h => by cases h) (fun h => by cases h) false

theorem leaseItem_calm (hs : Sound s) (workspace : ℕ) (token : String) :
    Calm s (leaseItem workspace token s) := by
  unfold leaseItem
  split
  · exact .refl hs
  · rename_i r _
    have hleased := write_calm hs r.key "state" "LEASED"
    exact hleased.trans (write_calm hleased.sound r.key "current_token" token)

end Calmness

def Delivery.Keeps (d : Delivery) (keys : List String) : Prop :=
  d.phase = .listed keys ∨ d.phase = .deleting keys

structure Accounted (s : System) : Prop where
  sound : Sound s.store
  known : ∀ w, Present s.store w → w ∈ s.known
  requests : ∀ r ∈ s.store.rows, r.table = .cleanupRequest →
    owner r = some r.id ∧ ¬Active s.store r.id
  drawn : (s.recorded.map Prod.snd).Nodup
  recorded : ∀ p ∈ s.recorded, p.1 ∈ s.known
  held : ∀ w key, Present s.store w → ((w, key) ∈ s.recorded ↔ Holds s.store w key)
  tokens : (s.deliveries.map Delivery.token).Nodup
  revoked : ∀ d ∈ s.deliveries, d.workspace ∈ s.known ∧ ¬Active s.store d.workspace
  own : ∀ d ∈ s.deliveries, ∀ keys, d.Keeps keys → ∀ key ∈ keys, (d.workspace, key) ∈ s.recorded
  listed : ∀ d ∈ s.deliveries, ∀ keys, d.phase = .listed keys → Present s.store d.workspace →
    ∀ key, Holds s.store d.workspace key → key ∈ keys

theorem start_accounted : Accounted start where
  sound := empty_sound
  known := fun w h => by obtain ⟨x, hx, _⟩ := h; cases hx
  requests := fun r hr => by cases hr
  drawn := List.nodup_nil
  recorded := fun p hp => by cases hp
  held := fun w key h => by obtain ⟨x, hx, _⟩ := h; cases hx
  tokens := List.nodup_nil
  revoked := fun d hd => by cases hd
  own := fun d hd => by cases hd
  listed := fun d hd => by cases hd

section Steps
variable {s : System}

theorem Accounted.owner_eq (h : Accounted s) {w w' : ℕ} {key : String}
    (hw : (w, key) ∈ s.recorded) (hw' : (w', key) ∈ s.recorded) : w = w' :=
  (Prod.mk.inj (eq_of_key_eq Prod.snd h.drawn hw hw' rfl)).1

theorem Accounted.cleaned (h : Accounted s) {workspace : ℕ} {r : Record} (hr : r ∈ s.store.rows)
    (hc : Cleans workspace r) : Present s.store workspace ∧ ¬Active s.store workspace := by
  obtain ⟨htable, href⟩ := hc
  have hfk : cascade "cleanup_request" .cleanupRequest ∈ ownReferences r.table := by
    rw [htable]
    exact List.mem_cons_of_mem _ (List.mem_cons_of_mem _ (List.mem_cons_self ..))
  obtain ⟨q, hq, hqk, hqo⟩ := h.sound.inside r hr _ hfk _ href
  obtain ⟨howner, hactive⟩ := h.requests q hq (congrArg Prod.fst hqk)
  have hid : q.id = workspace := congrArg Prod.snd hqk
  rw [hid] at howner hactive
  refine ⟨?_, hactive⟩
  obtain ⟨x, hx, ho⟩ := h.sound.owned q hq
  exact ⟨x, hx, Option.some.inj (ho.symm.trans howner)⟩

theorem calm_accounted (h : Accounted s) {t : Store} (hc : Calm s.store t) :
    Accounted { s with store := t } where
  sound := hc.sound
  known := fun w hw => h.known w ((hc.present w).mp hw)
  requests := by
    intro r hr htable
    rcases hc.requests r hr htable with ⟨q, hq, hk, ho⟩ | hnew
    · obtain ⟨howner, hactive⟩ := h.requests q hq ((congrArg Prod.fst hk).trans htable)
      have hid : q.id = r.id := congrArg Prod.snd hk
      rw [hid, ho] at howner
      rw [hid] at hactive
      exact ⟨howner, fun ha => hactive (hc.active _ ha)⟩
    · exact hnew
  drawn := h.drawn
  recorded := h.recorded
  held := fun w key hw => (h.held w key ((hc.present w).mp hw)).trans (hc.holds w key).symm
  tokens := h.tokens
  revoked := fun d hd => ⟨(h.revoked d hd).1, fun ha => (h.revoked d hd).2 (hc.active _ ha)⟩
  own := h.own
  listed := fun d hd keys hp hw key hk =>
    h.listed d hd keys hp ((hc.present _).mp hw) key ((hc.holds _ key).mp hk)

/-- A delivery may enter a phase whose keys it accounts for. -/
theorem enter_accounted (h : Accounted s) {token : String} {phase : Phase}
    (hown : ∀ d ∈ s.deliveries, d.token = token → ∀ keys,
      phase = .listed keys ∨ phase = .deleting keys →
        ∀ key ∈ keys, (d.workspace, key) ∈ s.recorded)
    (hlisted : ∀ d ∈ s.deliveries, d.token = token → ∀ keys, phase = .listed keys →
      Present s.store d.workspace → ∀ key, Holds s.store d.workspace key → key ∈ keys) :
    Accounted (s.enter token phase) := by
  have hrow : ∀ {d'}, d' ∈ (s.enter token phase).deliveries →
      ∃ d ∈ s.deliveries, d'.workspace = d.workspace ∧
        (d' = d ∨ d.token = token ∧ d'.phase = phase) := by
    intro d' hd'
    obtain ⟨d, hd, rfl⟩ := mem_revise.mp hd'
    by_cases hk : d.token = token
    · rw [if_pos hk]
      exact ⟨d, hd, rfl, .inr ⟨hk, rfl⟩⟩
    · rw [if_neg hk]
      exact ⟨d, hd, rfl, .inl rfl⟩
  refine ⟨h.sound, h.known, h.requests, h.drawn, h.recorded, h.held, ?_, ?_, ?_, ?_⟩
  · show ((revise _ token _ s.deliveries).map Delivery.token).Nodup
    rw [keys_revise (f := Delivery.enter phase) (fun _ => rfl)]
    exact h.tokens
  · intro d' hd'
    obtain ⟨d, hd, hw, _⟩ := hrow hd'
    rw [hw]
    exact h.revoked d hd
  · intro d' hd' keys hk
    obtain ⟨d, hd, hw, rfl | ⟨ht, hp⟩⟩ := hrow hd'
    · exact h.own d' hd keys hk
    · rw [hw]
      unfold Delivery.Keeps at hk
      rw [hp] at hk
      exact hown d hd ht keys hk
  · intro d' hd' keys hk
    obtain ⟨d, hd, hw, rfl | ⟨ht, hp⟩⟩ := hrow hd'
    · exact h.listed d' hd keys hk
    · rw [hw]
      exact hlisted d hd ht keys (hp.symm.trans hk)

theorem ended_accounted (h : Accounted s) (token : String) : Accounted (s.enter token .ended) := by
  apply enter_accounted h
  · intro d _ _ keys hk
    rcases hk with hk | hk <;> cases hk
  · intro d _ _ keys hk
    cases hk

theorem create_accounted (h : Accounted s) (id : ℕ) (expiresAt : Instant) :
    Accounted (step s (.createWorkspace id expiresAt)) := by
  have hsound := step_sound h.sound
    (.createWorkspace ⟨id, .active, expiresAt, none, none, ⟨0, 0, 0⟩⟩)
  simp only [step]
  split
  · exact h
  rename_i hid
  have hfresh : ∀ w ∈ s.store.workspaces, w.id ≠ id := fun w hw he => hid (h.known id ⟨w, hw, he⟩)
  have hnew : ¬id ∈ s.store.workspaces.map Workspace.id := by
    intro hm
    obtain ⟨w, hw, he⟩ := List.mem_map.mp hm
    exact hfresh w hw he
  simp only [Cleanup.step, if_neg hnew] at hsound ⊢
  have hpresent : ∀ {t : Store} {w : ℕ}, t.workspaces = s.store.workspaces ++
      [⟨id, .active, expiresAt, none, none, ⟨0, 0, 0⟩⟩] → w ≠ id →
        (Present t w → Present s.store w) ∧ (Active t w → Active s.store w) := by
    intro t w ht hw
    constructor
    · intro hp
      obtain ⟨x, hx, he⟩ := hp
      rw [ht] at hx
      rcases List.mem_append.mp hx with hx | hx
      · exact ⟨x, hx, he⟩
      · exact absurd (he.symm.trans (congrArg Workspace.id (List.mem_singleton.mp hx))) hw
    · intro hp
      obtain ⟨x, hx, he, ha⟩ := hp
      rw [ht] at hx
      rcases List.mem_append.mp hx with hx | hx
      · exact ⟨x, hx, he, ha⟩
      · exact absurd (he.symm.trans (congrArg Workspace.id (List.mem_singleton.mp hx))) hw
  have hother : ∀ {w : ℕ}, w ∈ s.known → w ≠ id := fun hw he => hid (he ▸ hw)
  have howned : ∀ {r : Record} {w : ℕ}, r ∈ s.store.rows → owner r = some w → w ≠ id := by
    intro r w hr ho he
    obtain ⟨x, hx, hxo⟩ := h.sound.owned r hr
    exact hfresh x hx ((Option.some.inj (hxo.symm.trans ho)).trans he)
  refine ⟨hsound, ?_, ?_, h.drawn, ?_, ?_, h.tokens, ?_, h.own, ?_⟩
  · intro w hw
    by_cases he : w = id
    · exact he ▸ List.mem_cons_self ..
    · exact List.mem_cons_of_mem _ (h.known w ((hpresent rfl he).1 hw))
  · intro r hr htable
    obtain ⟨howner, hactive⟩ := h.requests r hr htable
    exact ⟨howner, fun ha => hactive ((hpresent rfl (howned hr howner)).2 ha)⟩
  · exact fun p hp => List.mem_cons_of_mem _ (h.recorded p hp)
  · intro w key hw
    by_cases he : w = id
    · constructor
      · exact fun hp => absurd he (hother (h.recorded _ hp))
      · intro hk
        obtain ⟨r, hr, ho, _⟩ := hk
        exact absurd he (howned hr ho)
    · exact h.held w key ((hpresent rfl he).1 hw)
  · intro d hd
    obtain ⟨hk, hactive⟩ := h.revoked d hd
    exact ⟨List.mem_cons_of_mem _ hk,
      fun ha => hactive ((hpresent rfl (hother hk)).2 ha)⟩
  · intro d hd keys hp hw
    exact h.listed d hd keys hp ((hpresent rfl (hother (h.revoked d hd).1)).1 hw)

theorem intake_accounted (h : Accounted s) (id workspace : ℕ) (key : String) :
    Accounted (step s (.intake id workspace key)) := by
  simp only [step]
  split
  · rename_i hc
    obtain ⟨hactive, hfresh, hi⟩ := hc
    have hsound := step_sound h.sound (.insert (artifactRow id workspace key) true)
    simp only [Cleanup.step, if_pos hi] at hsound ⊢
    have hholds : ∀ {t : Store}, t.rows = s.store.rows ++ [artifactRow id workspace key] →
        ∀ w k, Holds t w k ↔ Holds s.store w k ∨ w = workspace ∧ k = key := by
      intro t ht w k
      unfold Holds
      rw [ht]
      constructor
      · intro hex
        obtain ⟨r, hr, ho, hk⟩ := hex
        rcases List.mem_append.mp hr with hr | hr
        · exact .inl ⟨r, hr, ho, hk⟩
        · rw [List.mem_singleton] at hr
          subst hr
          exact .inr ⟨(Option.some.inj ho).symm, (Option.some.inj hk).symm⟩
      · intro hex
        rcases hex with ⟨r, hr, hrest⟩ | ⟨rfl, rfl⟩
        · exact ⟨r, List.mem_append_left _ hr, hrest⟩
        · exact ⟨_, List.mem_append_right _ (List.mem_singleton_self _), rfl, rfl⟩
    refine ⟨hsound, h.known, ?_, ?_, ?_, ?_, h.tokens, h.revoked, ?_, ?_⟩
    · intro r hr htable
      rcases List.mem_append.mp hr with hr | hr
      · exact h.requests r hr htable
      · rw [List.mem_singleton] at hr
        subst hr
        cases htable
    · exact List.nodup_cons.mpr ⟨hfresh, h.drawn⟩
    · intro p hp
      rcases List.mem_cons.mp hp with rfl | hp
      · obtain ⟨x, hx, hid, _⟩ := hactive
        exact h.known workspace ⟨x, hx, hid⟩
      · exact h.recorded p hp
    · intro w k hw
      rw [hholds rfl, List.mem_cons, h.held w k hw, Prod.mk.injEq, or_comm]
    · exact fun d hd keys hk x hx => List.mem_cons_of_mem _ (h.own d hd keys hk x hx)
    · intro d hd keys hp hw k hk
      rcases (hholds rfl d.workspace k).mp hk with hk | ⟨he, _⟩
      · exact h.listed d hd keys hp hw k hk
      · exact absurd (he ▸ hactive) (h.revoked d hd).2
  · exact h

theorem claim_accounted (h : Accounted s) (workspace : ℕ) (token : String) :
    Accounted (step s (.claim workspace token)) := by
  simp only [step]
  split
  · rename_i hc
    obtain ⟨⟨r, hr, hclean, _⟩, hfresh⟩ := hc
    obtain ⟨hpresent, hactive⟩ := h.cleaned hr hclean
    have hcalm := leaseItem_calm h.sound workspace token
    have hnext := calm_accounted h hcalm
    refine ⟨hnext.sound, hnext.known, hnext.requests, hnext.drawn, hnext.recorded, hnext.held,
      ?_, ?_, ?_, ?_⟩
    · exact List.nodup_cons.mpr ⟨hfresh, h.tokens⟩
    · intro d hd
      rcases List.mem_cons.mp hd with rfl | hd
      · exact ⟨h.known _ hpresent, fun ha => hactive (hcalm.active _ ha)⟩
      · exact hnext.revoked d hd
    · intro d hd keys hk
      rcases List.mem_cons.mp hd with rfl | hd
      · rcases hk with hk | hk <;> cases hk
      · exact h.own d hd keys hk
    · intro d hd keys hp
      rcases List.mem_cons.mp hd with rfl | hd
      · cases hp
      · exact hnext.listed d hd keys hp
  · exact h

theorem list_accounted (h : Accounted s) {d : Delivery} (hd : d ∈ s.deliveries) :
    Accounted (listKeys s d.token d.workspace) := by
  unfold listKeys
  split
  · rename_i hw
    have hsame : ∀ e ∈ s.deliveries, e.token = d.token → e.workspace = d.workspace :=
      fun e he ht => congrArg _ (eq_of_key_eq Delivery.token h.tokens he hd ht)
    apply enter_accounted h
    · intro e he ht keys hk key hkey
      rcases hk with hk | hk
      · obtain rfl := Phase.listed.inj hk
        rw [hsame e he ht]
        exact (h.held _ key hw).mpr (mem_storageKeys.mp hkey)
      · cases hk
    · intro e he ht keys hk _ key hkey
      obtain rfl := Phase.listed.inj hk
      rw [hsame e he ht] at hkey
      exact mem_storageKeys.mpr hkey
  · exact ended_accounted h d.token

theorem unlink_accounted (h : Accounted s) {d : Delivery} (hd : d ∈ s.deliveries) {key : String}
    {rest : List String} (hp : d.phase = .deleting (key :: rest)) :
    Accounted (unlinkFile s d.token key rest) := by
  have hstore : Accounted { s with
      store := { s.store with published := s.store.published.filter fun x => x ≠ key } } :=
    ⟨⟨h.sound.workspaces, h.sound.tables, h.sound.keys, h.sound.columns, h.sound.owned,
      h.sound.inside, h.sound.storage⟩, h.known, h.requests, h.drawn, h.recorded, h.held, h.tokens,
      h.revoked, h.own, h.listed⟩
  apply enter_accounted hstore
  · intro e he ht keys hk x hx
    rcases hk with hk | hk
    · cases hk
    · obtain rfl := Phase.deleting.inj hk
      obtain rfl := eq_of_key_eq Delivery.token h.tokens he hd ht
      exact h.own e hd _ (.inr hp) x (List.mem_cons_of_mem _ hx)
  · intro e _ _ keys hk
    cases hk

/-- The rows of a workspace after its purge. -/
theorem purge_store (h : Accounted s) {workspace : ℕ} {token : String} {t : Store}
    (ht : purgeWorkspace s.store workspace (some token) = .ok (t, true)) :
    Sound t ∧ ¬Present t workspace ∧ (∀ w ≠ workspace, Present t w ↔ Present s.store w) ∧
      (∀ w, Active t w → Active s.store w) ∧
      (∀ w ≠ workspace, ∀ key, Holds t w key ↔ Holds s.store w key) ∧
      (∀ r ∈ t.rows, r ∈ s.store.rows ∧ owner r ≠ some workspace) := by
  refine ⟨purge_sound h.sound ht, ?_⟩
  obtain ⟨hworkspaces, hrows, _⟩ := Purges.purgeWorkspace_purged h.sound ht
  have hw : ∀ x, x ∈ t.workspaces ↔ x ∈ s.store.workspaces ∧ x.id ≠ workspace := by
    intro x
    rw [hworkspaces, List.mem_filter, decide_eq_true_iff]
  have hr : ∀ r, r ∈ t.rows ↔ r ∈ s.store.rows ∧ owner r ≠ some workspace := by
    intro r
    rw [hrows, List.mem_filter, decide_eq_true_iff]
  refine ⟨?_, ?_, ?_, ?_, fun r hm => (hr r).mp hm⟩
  · intro hp
    obtain ⟨x, hx, hid⟩ := hp
    exact ((hw x).mp hx).2 hid
  · intro w hne
    constructor
    · intro hp
      obtain ⟨x, hx, hid⟩ := hp
      exact ⟨x, ((hw x).mp hx).1, hid⟩
    · intro hp
      obtain ⟨x, hx, hid⟩ := hp
      exact ⟨x, (hw x).mpr ⟨hx, hid ▸ hne⟩, hid⟩
  · intro w hp
    obtain ⟨x, hx, hrest⟩ := hp
    exact ⟨x, ((hw x).mp hx).1, hrest⟩
  · intro w hne key
    constructor
    · intro hk
      obtain ⟨r, hm, hrest⟩ := hk
      exact ⟨r, ((hr r).mp hm).1, hrest⟩
    · intro hk
      obtain ⟨r, hm, ho, hrest⟩ := hk
      exact ⟨r, (hr r).mpr ⟨hm, fun he => hne (Option.some.inj (ho.symm.trans he))⟩, ho, hrest⟩

theorem purge_accounted (h : Accounted s) {d : Delivery} (hd : d ∈ s.deliveries)
    {keys : List String} (hp : d.phase = .listed keys) :
    Accounted (purgeRows s d.token d.workspace keys) := by
  unfold purgeRows
  split
  · rename_i t ht
    obtain ⟨hsound, habsent, hpresent, hactive, hholds, hrows⟩ := purge_store h ht
    have hpresent' : ∀ w, Present t w → w ≠ d.workspace ∧ Present s.store w := by
      intro w hw
      have hne : w ≠ d.workspace := fun he => habsent (he ▸ hw)
      exact ⟨hne, (hpresent w hne).mp hw⟩
    have hstore : Accounted { s with store := { t with published := s.store.published } } := by
      refine ⟨⟨hsound.workspaces, hsound.tables, hsound.keys, hsound.columns, hsound.owned,
        hsound.inside, hsound.storage⟩, ?_, ?_, h.drawn, h.recorded, ?_, h.tokens, ?_, h.own, ?_⟩
      · exact fun w hw => h.known w (hpresent' w hw).2
      · intro r hr htable
        obtain ⟨howner, hnot⟩ := h.requests r (hrows r hr).1 htable
        exact ⟨howner, fun ha => hnot (hactive _ ha)⟩
      · intro w key hw
        obtain ⟨hne, hold⟩ := hpresent' w hw
        exact (h.held w key hold).trans (hholds w hne key).symm
      · exact fun e he => ⟨(h.revoked e he).1, fun ha => (h.revoked e he).2 (hactive _ ha)⟩
      · intro e he ks hk hw key hkey
        obtain ⟨hne, hold⟩ := hpresent' _ hw
        exact h.listed e he ks hk hold key ((hholds _ hne key).mp hkey)
    apply enter_accounted hstore
    · intro e he hte ks hk key hkey
      rcases hk with hk | hk
      · cases hk
      · obtain rfl := Phase.deleting.inj hk
        obtain rfl := eq_of_key_eq Delivery.token h.tokens he hd hte
        exact h.own e hd _ (.inl hp) key hkey
    · intro e _ _ ks hk
      cases hk
  · exact ended_accounted h d.token
  · exact ended_accounted h d.token

theorem lookup_delivery {token : String} {d : Delivery}
    (hd : lookup Delivery.token s.deliveries token = some d) :
    d ∈ s.deliveries ∧ d.token = token := ⟨mem_of_lookup hd, key_of_lookup hd⟩

theorem step_accounted (h : Accounted s) (e : Event) : Accounted (step s e) := by
  cases e with
  | createWorkspace id expiresAt => exact create_accounted h id expiresAt
  | revoke workspace final now item =>
    exact calm_accounted h (revokeWorkspace_calm h.sound workspace final now item)
  | intake id workspace key => exact intake_accounted h id workspace key
  | statement c =>
    simp only [step]
    split
    · rename_i hc
      exact calm_accounted h (statement_calm h.sound hc)
    · exact h
  | claim workspace token => exact claim_accounted h workspace token
  | list token =>
    simp only [step]
    split
    · rename_i hd
      obtain ⟨hmem, rfl⟩ := lookup_delivery hd
      exact list_accounted h hmem
    · exact h
  | purge token =>
    simp only [step]
    split
    · rename_i hd
      obtain ⟨hmem, rfl⟩ := lookup_delivery hd
      exact purge_accounted h hmem rfl
    · exact h
  | unlink token =>
    simp only [step]
    split
    · rename_i hd
      obtain ⟨hmem, rfl⟩ := lookup_delivery hd
      exact unlink_accounted h hmem rfl
    · exact h
  | stop token => exact ended_accounted h token

theorem reached_accounted (events : List Event) : Accounted (reached events) := by
  unfold reached
  exact foldl_keeps (P := Accounted) (fun _ e h _ => step_accounted h e) start_accounted
    (along_true _ events)

end Steps

end Workbench.Deliveries
