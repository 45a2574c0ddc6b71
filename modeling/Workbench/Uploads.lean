import Workbench.Artifacts
import Workbench.Workspaces

/-!
# Uploads, artifacts and purges

After an upload is staged, a transaction reserves its bytes, moves the file under
its storage key and records the artifact; whatever fails there takes the file
with it. A purge lists the keys of a workspace, deletes its rows and then unlinks
the files one by one. Requests and workers take these steps in any order, and
rows, files and the counters of the quota agree after each of them.
-/

set_option autoImplicit false

namespace Workbench.Uploads
open Workbench.Listing Workbench.Tables Workbench.Calendar Workbench.Workspaces
open Workbench.Intake Workbench.Artifacts
open Workbench.Raising (bind_ok demand_ok fetch_ok)

structure FileArtifact where
  workspace : ℕ
  storageKey : StorageKey
  physicalHash : String
  originalFilename : String
  contentType : String
  byteSize : ℕ
  createdAt : Instant

/-- A request between staging and its transaction. -/
structure Upload where
  workspace : ℕ
  staged : StagedArtifact
  originalFilename : String
  contentType : String

def Upload.token (u : Upload) : ℕ := u.staged.token

/-- A delivery of a cleanup: the keys it has listed and not yet unlinked, and
whether its transaction is committed. -/
structure Purge where
  id : ℕ
  workspace : ℕ
  keys : List StorageKey
  purged : Bool

/-- Identities, tokens and keys are drawn at random from ranges too large to
repeat; here they are counted. -/
structure Site where
  workspaces : List Workspace
  artifacts : List FileArtifact
  files : Files
  uploads : List Upload
  purges : List Purge
  serial : ℕ

def empty : Site := ⟨[], [], fun _ => none, [], [], 0⟩

structure Settings where
  platform : Platform
  limits : IntakeLimits
  quota : QuotaAmounts

/-- Where the transaction of an upload fails for reasons outside of the model:
moving the file, inserting the row, or committing. -/
inductive Fault where
  | move
  | create
  | commit
deriving DecidableEq

inductive Command where
  | createWorkspace (expiresAt : Instant)
  | revoke (workspace : ℕ) (final : WorkspaceState) (now : Instant)
  | reserve (workspace books activeJobs : ℕ) (now : Instant)
  | release (workspace books activeJobs : ℕ) (now : Instant)
  | stage (workspace : ℕ) (originalFilename contentType delimiter : String)
      (chunks : List Chunk) (now : Instant)
  | store (token : ℕ) (now createdAt : Instant) (fault : Option Fault)
  | list (workspace : ℕ)
  | purge (delivery : ℕ) (refused : Bool)
  | unlink (delivery : ℕ)

def revokeWorkspace (workspace : ℕ) (final : WorkspaceState) (now : Instant) (s : Site) : Site :=
  { s with workspaces := revise Workspace.id workspace (Workspace.revoke final now) s.workspaces }

/-- `ArtifactIntakeService.ingest` up to its transaction. An expired workspace is
revoked before the request is refused. -/
def stageUpload (settings : Settings) (workspace : ℕ)
    (originalFilename contentType delimiter : String) (chunks : List Chunk) (now : Instant)
    (s : Site) : Site :=
  match lookup Workspace.id s.workspaces workspace with
  | none => s
  | some w =>
    let result := evaluate w.state w.expiresAt now
    let checked := if result.requiresRevocation then revokeWorkspace workspace .revoked now s else s
    if result.accessAllowed then
      match Artifacts.stage settings.platform settings.limits s.serial delimiter chunks s.files with
      | (.ok staged, files) =>
        { checked with
          files := files
          uploads := s.uploads ++ [⟨workspace, staged, originalFilename, contentType⟩]
          serial := s.serial+1 }
      | (.error _, files) => { checked with files := files, serial := s.serial+1 }
    else checked

/-- The transaction of `ingest`, and `discard_path` where it fails. -/
def storeUpload (settings : Settings) (u : Upload) (now createdAt : Instant)
    (fault : Option Fault) (s : Site) : Site :=
  let path := Path.quarantine u.token
  let ended := { s with uploads := s.uploads.filter (·.token ≠ u.token), serial := s.serial+1 }
  let requested : QuotaAmounts := ⟨u.staged.byteSize, 0, 0⟩
  match Workspaces.reserve settings.quota u.workspace requested now s.workspaces with
  | .error _ => { ended with files := s.files.unlink path }
  | .ok workspaces =>
    if fault = some .move then { ended with files := s.files.unlink path }
    else
      let key : StorageKey := ⟨u.workspace, s.serial⟩
      let files := s.files.move path (.published key)
      if fault.isSome then { ended with files := files.unlink (.published key) }
      else
        { ended with
          workspaces := workspaces
          files := files
          artifacts := s.artifacts ++ [⟨u.workspace, key, u.staged.physicalHash,
            safeUploadFilename settings.platform u.originalFilename,
            safeContentType settings.platform u.contentType, u.staged.byteSize, createdAt⟩] }

def keysOf (workspace : ℕ) (artifacts : List FileArtifact) : List StorageKey :=
  (artifacts.filter (·.workspace = workspace)).map (·.storageKey)

/-- The first reads of `purge_workspace`. The work item of a cleanup is there
only once the workspace is revoked. -/
def listKeys (workspace : ℕ) (s : Site) : Site :=
  match lookup Workspace.id s.workspaces workspace with
  | none => s
  | some w =>
    if w.state = .active then s
    else { s with
      purges := s.purges ++ [⟨s.serial, workspace, keysOf workspace s.artifacts, false⟩]
      serial := s.serial+1 }

def dropPurge (delivery : ℕ) (s : Site) : Site :=
  { s with purges := s.purges.filter (·.id ≠ delivery) }

/-- The transaction of `purge_workspace`, refused where the lease was lost or a
row is protected. -/
def purgeRows (p : Purge) (refused : Bool) (s : Site) : Site :=
  match lookup Workspace.id s.workspaces p.workspace with
  | none => dropPurge p.id s
  | some w =>
    if w.state = .active ∨ refused = true then dropPurge p.id s
    else { s with
      workspaces := s.workspaces.filter (·.id ≠ p.workspace)
      artifacts := s.artifacts.filter (·.workspace ≠ p.workspace)
      purges := revise Purge.id p.id (fun q => { q with purged := true }) s.purges }

/-- One round of the loop of `delete_published`. -/
def unlinkNext (p : Purge) (s : Site) : Site :=
  match p.keys with
  | [] => dropPurge p.id s
  | key :: keys => { s with
      files := s.files.unlink (.published key)
      purges := revise Purge.id p.id (fun q => { q with keys := keys }) s.purges }

def step (settings : Settings) (s : Site) : Command → Site
  | .createWorkspace expiresAt => { s with
      workspaces := s.workspaces ++ [⟨s.serial, .active, expiresAt, none, none, ⟨0, 0, 0⟩⟩]
      serial := s.serial+1 }
  | .revoke workspace final now => revokeWorkspace workspace final now s
  | .reserve workspace books activeJobs now => { s with
      workspaces := settle s.workspaces
        (Workspaces.reserve settings.quota workspace ⟨0, books, activeJobs⟩ now s.workspaces) }
  | .release workspace books activeJobs now => { s with
      workspaces := settle s.workspaces
        (Workspaces.release workspace ⟨0, books, activeJobs⟩ now s.workspaces) }
  | .stage workspace originalFilename contentType delimiter chunks now =>
    stageUpload settings workspace originalFilename contentType delimiter chunks now s
  | .store token now createdAt fault =>
    match lookup Upload.token s.uploads token with
    | none => s
    | some u => storeUpload settings u now createdAt fault s
  | .list workspace => listKeys workspace s
  | .purge delivery refused =>
    match lookup Purge.id s.purges delivery with
    | none => s
    | some p => if p.purged then s else purgeRows p refused s
  | .unlink delivery =>
    match lookup Purge.id s.purges delivery with
    | none => s
    | some p => if p.purged then unlinkNext p s else s

def run (settings : Settings) (cs : List Command) : Site := cs.foldl (step settings) empty

def retained (workspace : ℕ) (artifacts : List FileArtifact) : ℕ :=
  ((artifacts.filter (·.workspace = workspace)).map (·.byteSize)).sum

structure Holds (settings : Settings) (content : Bytes) (scan : CsvScan) (hash : String)
    (size : ℕ) : Prop where
  acceptable : Acceptable settings.platform settings.limits content scan
  hash : hash = settings.platform.sha256 content
  size : size = content.length

structure Drawn (s : Site) : Prop where
  workspaces : ∀ w ∈ s.workspaces, w.id < s.serial
  uploads : ∀ u ∈ s.uploads, u.token < s.serial
  purges : ∀ p ∈ s.purges, p.id < s.serial
  published : ∀ key, s.files (.published key) ≠ none → key.token < s.serial

structure Rows (settings : Settings) (workspaces : List Workspace)
    (artifacts : List FileArtifact) : Prop where
  ids : (workspaces.map Workspace.id).Nodup
  owned : ∀ a ∈ artifacts, a.storageKey.workspace = a.workspace ∧
    ∃ w ∈ workspaces, w.id = a.workspace
  keys : (artifacts.map (·.storageKey)).Nodup
  usage : ∀ w ∈ workspaces, w.usage.retainedBytes = retained w.id artifacts ∧
    w.usage.retainedBytes ≤ settings.quota.retainedBytes

structure Stored (settings : Settings) (s : Site) : Prop where
  tokens : (s.uploads.map Upload.token).Nodup
  staged : ∀ u ∈ s.uploads, ∃ content, s.files (.quarantine u.token) = some content ∧
    Holds settings content u.staged.scan u.staged.physicalHash u.staged.byteSize
  quarantine : ∀ token, s.files (.quarantine token) ≠ none → ∃ u ∈ s.uploads, u.token = token
  recorded : ∀ a ∈ s.artifacts, ∃ content scan, s.files (.published a.storageKey) = some content ∧
    Holds settings content scan a.physicalHash a.byteSize
  published : ∀ key, s.files (.published key) ≠ none →
    (∃ a ∈ s.artifacts, a.storageKey = key) ∨ ∃ p ∈ s.purges, p.purged = true ∧ key ∈ p.keys

structure Delivered (s : Site) : Prop where
  ids : (s.purges.map Purge.id).Nodup
  listed : ∀ p ∈ s.purges, p.workspace < s.serial ∧ ∀ key ∈ p.keys, key.workspace = p.workspace
  pending : ∀ p ∈ s.purges, p.purged = false → ∀ w ∈ s.workspaces, w.id = p.workspace →
    w.state ≠ .active ∧ p.keys = keysOf p.workspace s.artifacts
  gone : ∀ p ∈ s.purges, p.purged = true → ∀ w ∈ s.workspaces, w.id ≠ p.workspace

structure Exact (settings : Settings) (s : Site) : Prop where
  drawn : Drawn s
  rows : Rows settings s.workspaces s.artifacts
  stored : Stored settings s
  delivered : Delivered s

/-- The same workspaces with the same retained bytes, none of them active that
was not. -/
def Alike (before after : List Workspace) : Prop :=
  ∃ f : Workspace → Workspace, after = before.map f ∧ ∀ w ∈ before, (f w).id = w.id ∧
    (f w).usage.retainedBytes = w.usage.retainedBytes ∧ ((f w).state = .active → w.state = .active)

section Steps
variable {settings : Settings} {s : Site}

theorem Exact.remap (h : Exact settings s) {after : List Workspace}
    (ha : Alike s.workspaces after) : Exact settings { s with workspaces := after } := by
  obtain ⟨f, rfl, hf⟩ := ha
  have hids : (s.workspaces.map f).map Workspace.id = s.workspaces.map Workspace.id := by
    rw [List.map_map]
    exact List.map_congr_left fun w hw => (hf w hw).1
  have hback : ∀ w' ∈ s.workspaces.map f, ∃ w ∈ s.workspaces, f w = w' :=
    fun w' hw' => List.mem_map.mp hw'
  refine ⟨⟨?_, h.drawn.uploads, h.drawn.purges, h.drawn.published⟩, ⟨hids ▸ h.rows.ids, ?_,
    h.rows.keys, ?_⟩, ⟨h.stored.tokens, h.stored.staged, h.stored.quarantine, h.stored.recorded,
      h.stored.published⟩, ⟨h.delivered.ids, h.delivered.listed, ?_, ?_⟩⟩
  · intro w' hw'
    obtain ⟨w, hw, rfl⟩ := hback w' hw'
    exact (hf w hw).1 ▸ h.drawn.workspaces w hw
  · intro a ha
    obtain ⟨hkey, w, hw, hid⟩ := h.rows.owned a ha
    exact ⟨hkey, f w, List.mem_map_of_mem hw, (hf w hw).1.trans hid⟩
  · intro w' hw'
    obtain ⟨w, hw, rfl⟩ := hback w' hw'
    rw [(hf w hw).1, (hf w hw).2.1]
    exact h.rows.usage w hw
  · intro p hp hpurged w' hw' hid
    obtain ⟨w, hw, rfl⟩ := hback w' hw'
    obtain ⟨hstate, hkeys⟩ := h.delivered.pending p hp hpurged w hw ((hf w hw).1.symm.trans hid)
    exact ⟨mt (hf w hw).2.2 hstate, hkeys⟩
  · intro p hp hpurged w' hw'
    obtain ⟨w, hw, rfl⟩ := hback w' hw'
    exact (hf w hw).1 ▸ h.delivered.gone p hp hpurged w hw

theorem Alike.refl (workspaces : List Workspace) : Alike workspaces workspaces :=
  ⟨id, (List.map_id _).symm, fun _ _ => ⟨rfl, rfl, id⟩⟩

theorem revise_alike {k : ℕ} {f : Workspace → Workspace} {workspaces : List Workspace}
    (hf : ∀ w ∈ workspaces, w.id = k → (f w).id = w.id ∧
      (f w).usage.retainedBytes = w.usage.retainedBytes ∧
        ((f w).state = .active → w.state = .active)) :
    Alike workspaces (revise Workspace.id k f workspaces) := by
  refine ⟨fun w => if w.id = k then f w else w, rfl, fun w hw => ?_⟩
  by_cases hid : w.id = k
  · simp only [if_pos hid]
    exact hf w hw hid
  · simp [hid]

theorem revoke_alike (workspace : ℕ) (final : WorkspaceState) (now : Instant) :
    Alike s.workspaces
      (revise Workspace.id workspace (Workspace.revoke final now) s.workspaces) := by
  refine revise_alike fun w _ _ => ⟨Workspace.revoke_id final now w, ?_, ?_⟩
  · unfold Workspace.revoke
    split
    · rfl
    · split_ifs <;> rfl
  · unfold Workspace.revoke
    split
    · exact nofun
    · split_ifs with hactive
      · exact nofun
      · exact id

theorem reserve_spec {quota requested : QuotaAmounts} {workspace : ℕ} {now : Instant}
    {workspaces after : List Workspace}
    (h : Workspaces.reserve quota workspace requested now workspaces = .ok after) :
    ∃ w, lookup Workspace.id workspaces workspace = some w ∧ w.state = .active ∧
      after = setUsage workspace (w.usage.plus requested) workspaces ∧
      w.usage.retainedBytes+requested.retainedBytes ≤ quota.retainedBytes := by
  simp only [Workspaces.reserve, QuotaAmounts.reserve, requireActive, bind_ok, fetch_ok,
    demand_ok] at h
  obtain ⟨w, hw, _, hallowed, resulting, ⟨_, hbytes, _, -, _, -, hplus⟩, hafter⟩ := h
  obtain rfl := Except.ok.inj hplus
  exact ⟨w, hw, ((accessAllowed_iff w now).mp hallowed).1, (Except.ok.inj hafter).symm, hbytes⟩

theorem release_spec {released : QuotaAmounts} {workspace : ℕ} {now : Instant}
    {workspaces after : List Workspace}
    (h : Workspaces.release workspace released now workspaces = .ok after) :
    ∃ w, lookup Workspace.id workspaces workspace = some w ∧
      after = setUsage workspace (w.usage.minus released) workspaces := by
  simp only [Workspaces.release, bind_ok, fetch_ok] at h
  obtain ⟨w, hw, _, -, _, -, hafter⟩ := h
  exact ⟨w, hw, (Except.ok.inj hafter).symm⟩

theorem usage_alike {workspace : ℕ} {w : Workspace} {usage : QuotaAmounts}
    {workspaces : List Workspace} (hids : (workspaces.map Workspace.id).Nodup)
    (hw : lookup Workspace.id workspaces workspace = some w)
    (hbytes : usage.retainedBytes = w.usage.retainedBytes) :
    Alike workspaces (setUsage workspace usage workspaces) := by
  refine revise_alike fun x hx hid => ⟨rfl, ?_, id⟩
  obtain ⟨hwmem, hwid⟩ := lookup_some hw
  rw [List.inj_on_of_nodup_map hids hx hwmem (hid.trans hwid.symm)]
  exact hbytes

theorem empty_exact : Exact settings empty :=
  ⟨⟨nofun, nofun, nofun, fun _ h => absurd rfl h⟩, ⟨List.nodup_nil, nofun, List.nodup_nil, nofun⟩,
    ⟨List.nodup_nil, nofun, fun _ h => absurd rfl h, nofun, fun _ h => absurd rfl h⟩,
    ⟨List.nodup_nil, nofun, nofun, nofun⟩⟩

theorem Exact.advance (h : Exact settings s) :
    Exact settings { s with serial := s.serial+1 } :=
  ⟨⟨fun w hw => Nat.lt_succ_of_lt (h.drawn.workspaces w hw),
      fun u hu => Nat.lt_succ_of_lt (h.drawn.uploads u hu),
      fun p hp => Nat.lt_succ_of_lt (h.drawn.purges p hp),
      fun key hkey => Nat.lt_succ_of_lt (h.drawn.published key hkey)⟩,
    h.rows, ⟨h.stored.tokens, h.stored.staged, h.stored.quarantine, h.stored.recorded,
      h.stored.published⟩,
    ⟨h.delivered.ids,
      fun p hp => ⟨Nat.lt_succ_of_lt (h.delivered.listed p hp).1, (h.delivered.listed p hp).2⟩,
      h.delivered.pending, h.delivered.gone⟩⟩

theorem nodup_append_one {α : Type} {l : List α} {a : α} (h : l.Nodup) (ha : a ∉ l) :
    (l ++ [a]).Nodup := by
  rw [List.nodup_append]
  refine ⟨h, List.nodup_singleton a, fun x hx y hy => ?_⟩
  rw [List.mem_singleton.mp hy]
  exact fun heq => ha (heq ▸ hx)

/-- A new workspace owns nothing. -/
theorem Exact.createWorkspace (h : Exact settings s) (expiresAt : Instant) :
    Exact settings { s with
      workspaces := s.workspaces ++ [⟨s.serial, .active, expiresAt, none, none, ⟨0, 0, 0⟩⟩]
      serial := s.serial+1 } := by
  have hunowned : ∀ a ∈ s.artifacts, a.workspace ≠ s.serial := by
    intro a ha
    obtain ⟨-, w, hw, hid⟩ := h.rows.owned a ha
    exact hid ▸ (h.drawn.workspaces w hw).ne
  have hretained : retained s.serial s.artifacts = 0 := by
    rw [retained, List.filter_eq_nil_iff.mpr fun a ha => by simpa using hunowned a ha]
    rfl
  have hadvance := h.advance
  refine ⟨⟨?_, hadvance.drawn.uploads, hadvance.drawn.purges, hadvance.drawn.published⟩,
    ⟨?_, ?_, h.rows.keys, ?_⟩, ⟨h.stored.tokens, h.stored.staged, h.stored.quarantine,
      h.stored.recorded, h.stored.published⟩,
    ⟨h.delivered.ids, hadvance.delivered.listed, ?_, ?_⟩⟩
  · intro w hw
    rcases List.mem_append.mp hw with hw | hw
    · exact hadvance.drawn.workspaces w hw
    · rw [List.mem_singleton.mp hw]
      exact Nat.lt_succ_self _
  · rw [List.map_append]
    refine nodup_append_one h.rows.ids fun hmem => ?_
    obtain ⟨w, hw, hid⟩ := List.mem_map.mp hmem
    exact absurd hid (h.drawn.workspaces w hw).ne
  · intro a ha
    obtain ⟨hkey, w, hw, hid⟩ := h.rows.owned a ha
    exact ⟨hkey, w, List.mem_append_left _ hw, hid⟩
  · intro w hw
    rcases List.mem_append.mp hw with hw | hw
    · exact h.rows.usage w hw
    · rw [List.mem_singleton.mp hw, hretained]
      exact ⟨rfl, Nat.zero_le _⟩
  · intro p hp hpurged w hw hid
    rcases List.mem_append.mp hw with hw | hw
    · exact h.delivered.pending p hp hpurged w hw hid
    · rw [List.mem_singleton.mp hw] at hid
      exact absurd hid (h.delivered.listed p hp).1.ne'
  · intro p hp hpurged w hw
    rcases List.mem_append.mp hw with hw | hw
    · exact h.delivered.gone p hp hpurged w hw
    · rw [List.mem_singleton.mp hw]
      exact (h.delivered.listed p hp).1.ne'

/-- An acceptable file under a new token. -/
theorem Exact.stage (h : Exact settings s) {u : Upload} {content : Bytes}
    (htoken : u.token = s.serial)
    (hholds : Holds settings content u.staged.scan u.staged.physicalHash u.staged.byteSize) :
    Exact settings { s with
      files := s.files.write (.quarantine s.serial) content
      uploads := s.uploads ++ [u]
      serial := s.serial+1 } := by
  have hadvance := h.advance
  have hother : ∀ key, s.files.write (.quarantine s.serial) content (.published key) =
      s.files (.published key) := fun key => write_other nofun
  have hearlier : ∀ v ∈ s.uploads, s.files.write (.quarantine s.serial) content
      (.quarantine v.token) = s.files (.quarantine v.token) := by
    intro v hv
    refine write_other fun heq => (h.drawn.uploads v hv).ne ?_
    exact Path.quarantine.inj heq
  refine ⟨⟨hadvance.drawn.workspaces, ?_, hadvance.drawn.purges, ?_⟩, h.rows,
    ⟨?_, ?_, ?_, ?_, ?_⟩, hadvance.delivered.ids, hadvance.delivered.listed,
    hadvance.delivered.pending, hadvance.delivered.gone⟩
  · intro v hv
    rcases List.mem_append.mp hv with hv | hv
    · exact hadvance.drawn.uploads v hv
    · rw [List.mem_singleton.mp hv, htoken]
      exact Nat.lt_succ_self _
  · intro key hkey
    simp only [hother] at hkey
    exact hadvance.drawn.published key hkey
  · rw [List.map_append]
    refine nodup_append_one h.stored.tokens fun hmem => ?_
    obtain ⟨v, hv, hid⟩ := List.mem_map.mp hmem
    exact absurd (hid.trans htoken) (h.drawn.uploads v hv).ne
  · intro v hv
    rcases List.mem_append.mp hv with hv | hv
    · simpa only [hearlier v hv] using h.stored.staged v hv
    · rw [List.mem_singleton.mp hv, htoken]
      exact ⟨content, write_same, hholds⟩
  · intro token hfile
    by_cases heq : token = s.serial
    · exact ⟨u, List.mem_append_right _ List.mem_cons_self, htoken.trans heq.symm⟩
    · have hsame : s.files.write (.quarantine s.serial) content (.quarantine token) =
          s.files (.quarantine token) := write_other fun hpath => heq (Path.quarantine.inj hpath)
      simp only [hsame] at hfile
      obtain ⟨v, hv, hid⟩ := h.stored.quarantine token hfile
      exact ⟨v, List.mem_append_left _ hv, hid⟩
  · intro a ha
    simpa only [hother] using h.stored.recorded a ha
  · intro key hkey
    simp only [hother] at hkey
    exact h.stored.published key hkey

/-- An upload that ends takes its file with it. -/
theorem Exact.dropUpload (h : Exact settings s) (token : ℕ) :
    Exact settings { s with
      files := s.files.unlink (.quarantine token)
      uploads := s.uploads.filter (·.token ≠ token)
      serial := s.serial+1 } := by
  have hadvance := h.advance
  have hother : ∀ key, s.files.unlink (.quarantine token) (.published key) =
      s.files (.published key) := fun key => unlink_other nofun
  have hstill : ∀ t, t ≠ token → s.files.unlink (.quarantine token) (.quarantine t) =
      s.files (.quarantine t) := fun t ht => unlink_other fun heq => ht (Path.quarantine.inj heq)
  have hmem : ∀ u ∈ s.uploads.filter (·.token ≠ token), u ∈ s.uploads ∧ u.token ≠ token := by
    intro u hu
    obtain ⟨hu, hne⟩ := List.mem_filter.mp hu
    exact ⟨hu, of_decide_eq_true hne⟩
  refine ⟨⟨hadvance.drawn.workspaces, fun u hu => hadvance.drawn.uploads u (hmem u hu).1,
      hadvance.drawn.purges, ?_⟩, h.rows, ⟨?_, ?_, ?_, ?_, ?_⟩, hadvance.delivered.ids,
    hadvance.delivered.listed, hadvance.delivered.pending, hadvance.delivered.gone⟩
  · intro key hkey
    simp only [hother] at hkey
    exact hadvance.drawn.published key hkey
  · exact (List.filter_sublist.map Upload.token).nodup h.stored.tokens
  · intro u hu
    obtain ⟨hu, hne⟩ := hmem u hu
    simpa only [hstill _ hne] using h.stored.staged u hu
  · intro t hfile
    have hne : t ≠ token := by
      rintro rfl
      exact hfile unlink_same
    simp only [hstill t hne] at hfile
    obtain ⟨u, hu, rfl⟩ := h.stored.quarantine t hfile
    exact ⟨u, List.mem_filter.mpr ⟨hu, decide_eq_true hne⟩, rfl⟩
  · intro a ha
    simpa only [hother] using h.stored.recorded a ha
  · intro key hkey
    simp only [hother] at hkey
    exact h.stored.published key hkey

theorem retained_append (workspace : ℕ) (artifacts : List FileArtifact) (a : FileArtifact) :
    retained workspace (artifacts ++ [a]) =
      retained workspace artifacts + if a.workspace = workspace then a.byteSize else 0 := by
  unfold retained
  by_cases h : a.workspace = workspace <;> simp [h]

theorem keysOf_append {workspace : ℕ} {artifacts : List FileArtifact} {a : FileArtifact}
    (h : a.workspace ≠ workspace) :
    keysOf workspace (artifacts ++ [a]) = keysOf workspace artifacts := by
  simp [keysOf, h]

/-- An artifact is recorded with its bytes under a new key, within the quota of
an active workspace. -/
theorem Exact.publish (h : Exact settings s) {a : FileArtifact} {content : Bytes} {scan : CsvScan}
    {w : Workspace} {usage : QuotaAmounts} (hkey : a.storageKey.workspace = a.workspace)
    (hdrawn : a.storageKey.token < s.serial) (hnew : s.files (.published a.storageKey) = none)
    (hw : lookup Workspace.id s.workspaces a.workspace = some w) (hactive : w.state = .active)
    (hbytes : usage.retainedBytes = w.usage.retainedBytes+a.byteSize)
    (hquota : usage.retainedBytes ≤ settings.quota.retainedBytes)
    (hholds : Holds settings content scan a.physicalHash a.byteSize) :
    Exact settings { s with
      workspaces := setUsage a.workspace usage s.workspaces
      files := s.files.write (.published a.storageKey) content
      artifacts := s.artifacts ++ [a] } := by
  obtain ⟨hwmem, hwid⟩ := lookup_some hw
  have hother : ∀ token, s.files.write (.published a.storageKey) content (.quarantine token) =
      s.files (.quarantine token) := fun token => write_other nofun
  have hstill : ∀ key, key ≠ a.storageKey →
      s.files.write (.published a.storageKey) content (.published key) = s.files (.published key) :=
    fun key hne => write_other fun heq => hne (Path.published.inj heq)
  have hback : ∀ x' ∈ setUsage a.workspace usage s.workspaces, ∃ x ∈ s.workspaces,
      x' = if x.id = a.workspace then { x with usage := usage } else x :=
    fun x' hx' => mem_revise.mp hx'
  have hunrecorded : ∀ b ∈ s.artifacts, b.storageKey ≠ a.storageKey := by
    intro b hb heq
    obtain ⟨_, _, hfile, -⟩ := h.stored.recorded b hb
    rw [heq, hnew] at hfile
    cases hfile
  have hid : ∀ x : Workspace,
      (if x.id = a.workspace then { x with usage := usage } else x).id = x.id := by
    intro x
    split_ifs <;> rfl
  refine ⟨⟨?_, h.drawn.uploads, h.drawn.purges, ?_⟩, ⟨?_, ?_, ?_, ?_⟩,
    ⟨h.stored.tokens, ?_, ?_, ?_, ?_⟩, ⟨h.delivered.ids, h.delivered.listed, ?_, ?_⟩⟩
  · intro x' hx'
    obtain ⟨x, hx, rfl⟩ := hback x' hx'
    rw [hid]
    exact h.drawn.workspaces x hx
  · intro key hfile
    by_cases heq : key = a.storageKey
    · exact heq ▸ hdrawn
    · simp only [hstill key heq] at hfile
      exact h.drawn.published key hfile
  · rw [ids_setUsage]
    exact h.rows.ids
  · intro b hb
    rcases List.mem_append.mp hb with hb | hb
    · obtain ⟨hbkey, x, hx, hxid⟩ := h.rows.owned b hb
      exact ⟨hbkey, _, mem_revise.mpr ⟨x, hx, rfl⟩, (hid x).trans hxid⟩
    · rw [List.mem_singleton.mp hb]
      exact ⟨hkey, _, mem_revise.mpr ⟨w, hwmem, rfl⟩, (hid w).trans hwid⟩
  · rw [List.map_append]
    refine nodup_append_one h.rows.keys fun hmem => ?_
    obtain ⟨b, hb, heq⟩ := List.mem_map.mp hmem
    exact hunrecorded b hb heq
  · intro x' hx'
    obtain ⟨x, hx, rfl⟩ := hback x' hx'
    rw [hid, retained_append]
    by_cases heq : x.id = a.workspace
    · obtain rfl := List.inj_on_of_nodup_map h.rows.ids hx hwmem (heq.trans hwid.symm)
      rw [if_pos heq, if_pos heq.symm]
      exact ⟨by rw [hbytes, (h.rows.usage _ hx).1], hquota⟩
    · rw [if_neg heq, if_neg fun hrev => heq hrev.symm]
      exact h.rows.usage x hx
  · intro u hu
    simpa only [hother] using h.stored.staged u hu
  · intro token hfile
    simp only [hother] at hfile
    exact h.stored.quarantine token hfile
  · intro b hb
    rcases List.mem_append.mp hb with hb | hb
    · simpa only [hstill _ (hunrecorded b hb)] using h.stored.recorded b hb
    · rw [List.mem_singleton.mp hb]
      exact ⟨content, scan, write_same, hholds⟩
  · intro key hfile
    by_cases heq : key = a.storageKey
    · exact .inl ⟨a, List.mem_append_right _ List.mem_cons_self, heq.symm⟩
    · simp only [hstill key heq] at hfile
      refine (h.stored.published key hfile).imp_left ?_
      rintro ⟨b, hb, hbkey⟩
      exact ⟨b, List.mem_append_left _ hb, hbkey⟩
  · intro p hp hpurged x' hx' hxid
    obtain ⟨x, hx, rfl⟩ := hback x' hx'
    rw [hid] at hxid
    obtain ⟨hstate, hkeys⟩ := h.delivered.pending p hp hpurged x hx hxid
    -- a workspace whose keys are listed is no longer active
    have hne : x.id ≠ a.workspace := by
      intro heq
      obtain rfl := List.inj_on_of_nodup_map h.rows.ids hx hwmem (heq.trans hwid.symm)
      exact hstate hactive
    rw [if_neg hne]
    exact ⟨hstate, hkeys.trans (keysOf_append (fun heq => hne (hxid.trans heq.symm))).symm⟩
  · intro p hp hpurged x' hx'
    obtain ⟨x, hx, rfl⟩ := hback x' hx'
    rw [hid]
    exact h.delivered.gone p hp hpurged x hx

/-- A delivery lists the keys of a workspace that takes no more uploads. -/
theorem Exact.listed (h : Exact settings s) {w : Workspace} (hw : w ∈ s.workspaces)
    (hstate : w.state ≠ .active) :
    Exact settings { s with
      purges := s.purges ++ [⟨s.serial, w.id, keysOf w.id s.artifacts, false⟩]
      serial := s.serial+1 } := by
  have hadvance := h.advance
  refine ⟨⟨hadvance.drawn.workspaces, hadvance.drawn.uploads, ?_, hadvance.drawn.published⟩, h.rows,
    ⟨h.stored.tokens, h.stored.staged, h.stored.quarantine, h.stored.recorded, ?_⟩,
    ⟨?_, ?_, ?_, ?_⟩⟩
  · intro p hp
    rcases List.mem_append.mp hp with hp | hp
    · exact hadvance.drawn.purges p hp
    · rw [List.mem_singleton.mp hp]
      exact Nat.lt_succ_self _
  · intro key hfile
    refine (h.stored.published key hfile).imp_right ?_
    rintro ⟨p, hp, hpurged, hkey⟩
    exact ⟨p, List.mem_append_left _ hp, hpurged, hkey⟩
  · rw [List.map_append]
    refine nodup_append_one h.delivered.ids fun hmem => ?_
    obtain ⟨p, hp, hid⟩ := List.mem_map.mp hmem
    exact absurd hid (h.drawn.purges p hp).ne
  · intro p hp
    rcases List.mem_append.mp hp with hp | hp
    · exact hadvance.delivered.listed p hp
    · rw [List.mem_singleton.mp hp]
      refine ⟨Nat.lt_succ_of_lt (h.drawn.workspaces w hw), fun key hkey => ?_⟩
      obtain ⟨a, ha, rfl⟩ := List.mem_map.mp hkey
      obtain ⟨ha, hid⟩ := List.mem_filter.mp ha
      exact (h.rows.owned a ha).1.trans (of_decide_eq_true hid)
  · intro p hp hpurged x hx hid
    rcases List.mem_append.mp hp with hp | hp
    · exact h.delivered.pending p hp hpurged x hx hid
    · rw [List.mem_singleton.mp hp] at hid ⊢
      obtain rfl := List.inj_on_of_nodup_map h.rows.ids hx hw hid
      exact ⟨hstate, rfl⟩
  · intro p hp hpurged
    rcases List.mem_append.mp hp with hp | hp
    · exact h.delivered.gone p hp hpurged
    · rw [List.mem_singleton.mp hp] at hpurged
      cases hpurged

theorem Exact.dropPurge (h : Exact settings s) {p : Purge} (hp : p ∈ s.purges)
    (hdone : p.purged = true → p.keys = []) : Exact settings (dropPurge p.id s) := by
  have hmem : ∀ q ∈ s.purges.filter (·.id ≠ p.id), q ∈ s.purges :=
    fun q hq => (List.mem_filter.mp hq).1
  refine ⟨⟨h.drawn.workspaces, h.drawn.uploads, fun q hq => h.drawn.purges q (hmem q hq),
      h.drawn.published⟩, h.rows,
    ⟨h.stored.tokens, h.stored.staged, h.stored.quarantine, h.stored.recorded, ?_⟩,
    ⟨(List.filter_sublist.map Purge.id).nodup h.delivered.ids,
      fun q hq => h.delivered.listed q (hmem q hq), fun q hq => h.delivered.pending q (hmem q hq),
      fun q hq => h.delivered.gone q (hmem q hq)⟩⟩
  intro key hfile
  refine (h.stored.published key hfile).imp_right ?_
  rintro ⟨q, hq, hpurged, hkey⟩
  refine ⟨q, List.mem_filter.mpr ⟨hq, decide_eq_true fun hid => ?_⟩, hpurged, hkey⟩
  obtain rfl := List.inj_on_of_nodup_map h.delivered.ids hq hp hid
  rw [hdone hpurged] at hkey
  cases hkey

theorem retained_other {workspace other : ℕ} (h : other ≠ workspace)
    (artifacts : List FileArtifact) :
    retained other (artifacts.filter (·.workspace ≠ workspace)) = retained other artifacts := by
  unfold retained
  rw [List.filter_filter]
  congr 2
  refine List.filter_congr fun a _ => ?_
  by_cases ha : a.workspace = other
  · simp [ha, h]
  · simp [ha]

theorem keysOf_other {workspace other : ℕ} (h : other ≠ workspace)
    (artifacts : List FileArtifact) :
    keysOf other (artifacts.filter (·.workspace ≠ workspace)) = keysOf other artifacts := by
  unfold keysOf
  rw [List.filter_filter]
  congr 1
  refine List.filter_congr fun a _ => ?_
  by_cases ha : a.workspace = other
  · simp [ha, h]
  · simp [ha]

/-- The rows of a workspace go, and what is left of its files is what the
delivery has listed. -/
theorem Exact.purged (h : Exact settings s) {p : Purge} (hp : p ∈ s.purges)
    (hpending : p.purged = false) {w : Workspace} (hw : w ∈ s.workspaces)
    (hid : w.id = p.workspace) :
    Exact settings { s with
      workspaces := s.workspaces.filter (·.id ≠ p.workspace)
      artifacts := s.artifacts.filter (·.workspace ≠ p.workspace)
      purges := revise Purge.id p.id (fun q => { q with purged := true }) s.purges } := by
  obtain ⟨-, hkeys⟩ := h.delivered.pending p hp hpending w hw hid
  have hleft : ∀ x ∈ s.workspaces.filter (·.id ≠ p.workspace),
      x ∈ s.workspaces ∧ x.id ≠ p.workspace := by
    intro x hx
    obtain ⟨hx, hne⟩ := List.mem_filter.mp hx
    exact ⟨hx, of_decide_eq_true hne⟩
  have hkept : ∀ a ∈ s.artifacts.filter (·.workspace ≠ p.workspace),
      a ∈ s.artifacts ∧ a.workspace ≠ p.workspace := by
    intro a ha
    obtain ⟨ha, hne⟩ := List.mem_filter.mp ha
    exact ⟨ha, of_decide_eq_true hne⟩
  have hids : (revise Purge.id p.id (fun q => { q with purged := true }) s.purges).map Purge.id =
      s.purges.map Purge.id := by
    refine keys_revise ?_ p.id s.purges
    exact fun _ => rfl
  have hback : ∀ q' ∈ revise Purge.id p.id (fun q => { q with purged := true }) s.purges,
      ∃ q ∈ s.purges, q' = if q.id = p.id then { q with purged := true } else q :=
    fun q' hq' => mem_revise.mp hq'
  have hsame : ∀ q ∈ s.purges, q.id = p.id → q = p :=
    fun q hq heq => List.inj_on_of_nodup_map h.delivered.ids hq hp heq
  refine ⟨⟨fun x hx => h.drawn.workspaces x (hleft x hx).1, h.drawn.uploads, ?_,
      h.drawn.published⟩, ⟨(List.filter_sublist.map Workspace.id).nodup h.rows.ids, ?_,
      (List.filter_sublist.map _).nodup h.rows.keys, ?_⟩,
    ⟨h.stored.tokens, h.stored.staged, h.stored.quarantine,
      fun a ha => h.stored.recorded a (hkept a ha).1, ?_⟩, ⟨?_, ?_, ?_, ?_⟩⟩
  · intro q' hq'
    obtain ⟨q, hq, rfl⟩ := hback q' hq'
    split_ifs <;> exact h.drawn.purges q hq
  · intro a ha
    obtain ⟨ha, hne⟩ := hkept a ha
    obtain ⟨hkey, x, hx, hxid⟩ := h.rows.owned a ha
    exact ⟨hkey, x, List.mem_filter.mpr ⟨hx, decide_eq_true (hxid.trans_ne hne)⟩, hxid⟩
  · intro x hx
    obtain ⟨hx, hne⟩ := hleft x hx
    rw [retained_other hne]
    exact h.rows.usage x hx
  · intro key hfile
    rcases h.stored.published key hfile with ⟨a, ha, rfl⟩ | ⟨q, hq, hpurged, hkey⟩
    · by_cases hne : a.workspace = p.workspace
      · refine .inr ⟨_, mem_revise.mpr ⟨p, hp, rfl⟩, ?_⟩
        rw [if_pos rfl]
        refine ⟨rfl, ?_⟩
        rw [hkeys]
        exact List.mem_map_of_mem (List.mem_filter.mpr ⟨ha, decide_eq_true hne⟩)
      · exact .inl ⟨a, List.mem_filter.mpr ⟨ha, decide_eq_true hne⟩, rfl⟩
    · refine .inr ⟨_, mem_revise.mpr ⟨q, hq, rfl⟩, ?_⟩
      split_ifs <;> exact ⟨by first | rfl | exact hpurged, hkey⟩
  · exact hids ▸ h.delivered.ids
  · intro q' hq'
    obtain ⟨q, hq, rfl⟩ := hback q' hq'
    split_ifs <;> exact h.delivered.listed q hq
  · intro q' hq' hpurged x hx hxid
    obtain ⟨q, hq, rfl⟩ := hback q' hq'
    obtain ⟨hx, hne⟩ := hleft x hx
    split_ifs at hpurged hxid ⊢
    obtain ⟨hstate, hlisted⟩ := h.delivered.pending q hq hpurged x hx hxid
    exact ⟨hstate, hlisted.trans (keysOf_other (hxid ▸ hne) _).symm⟩
  · intro q' hq' hpurged x hx
    obtain ⟨q, hq, rfl⟩ := hback q' hq'
    obtain ⟨hx, hne⟩ := hleft x hx
    split_ifs at hpurged ⊢ with heq
    · rw [hsame q hq heq]
      exact hne
    · exact h.delivered.gone q hq hpurged x hx

/-- A delivery unlinks a file that no row names any more. -/
theorem Exact.unlinked (h : Exact settings s) {p : Purge} {key : StorageKey}
    {keys : List StorageKey} (hp : p ∈ s.purges) (hpurged : p.purged = true)
    (hkeys : p.keys = key :: keys) :
    Exact settings { s with
      files := s.files.unlink (.published key)
      purges := revise Purge.id p.id (fun q => { q with keys := keys }) s.purges } := by
  have howner : key.workspace = p.workspace :=
    (h.delivered.listed p hp).2 key (hkeys ▸ List.mem_cons_self)
  have hunnamed : ∀ a ∈ s.artifacts, a.storageKey ≠ key := by
    intro a ha heq
    obtain ⟨hkey, w, hw, hid⟩ := h.rows.owned a ha
    rw [heq, howner] at hkey
    exact h.delivered.gone p hp hpurged w hw (hid.trans hkey.symm)
  have hother : ∀ token, s.files.unlink (.published key) (.quarantine token) =
      s.files (.quarantine token) := fun token => unlink_other nofun
  have hstill : ∀ k, k ≠ key → s.files.unlink (.published key) (.published k) =
      s.files (.published k) := fun k hne => unlink_other fun heq => hne (Path.published.inj heq)
  have hremoved : ∀ k, s.files.unlink (.published key) (.published k) ≠ none →
      k ≠ key ∧ s.files (.published k) ≠ none := by
    intro k hfile
    have hne : k ≠ key := by
      rintro rfl
      exact hfile unlink_same
    exact ⟨hne, hstill k hne ▸ hfile⟩
  have hids : (revise Purge.id p.id (fun q => { q with keys := keys }) s.purges).map Purge.id =
      s.purges.map Purge.id := by
    refine keys_revise ?_ p.id s.purges
    exact fun _ => rfl
  have hback : ∀ q' ∈ revise Purge.id p.id (fun q => { q with keys := keys }) s.purges,
      ∃ q ∈ s.purges, q' = if q.id = p.id then { q with keys := keys } else q :=
    fun q' hq' => mem_revise.mp hq'
  have hsame : ∀ q ∈ s.purges, q.id = p.id → q = p :=
    fun q hq heq => List.inj_on_of_nodup_map h.delivered.ids hq hp heq
  refine ⟨⟨h.drawn.workspaces, h.drawn.uploads, ?_,
      fun k hfile => h.drawn.published k (hremoved k hfile).2⟩, h.rows,
    ⟨h.stored.tokens, ?_, ?_, ?_, ?_⟩, ⟨?_, ?_, ?_, ?_⟩⟩
  · intro q' hq'
    obtain ⟨q, hq, rfl⟩ := hback q' hq'
    split_ifs <;> exact h.drawn.purges q hq
  · intro u hu
    simpa only [hother] using h.stored.staged u hu
  · intro token hfile
    simp only [hother] at hfile
    exact h.stored.quarantine token hfile
  · intro a ha
    simpa only [hstill _ (hunnamed a ha)] using h.stored.recorded a ha
  · intro k hfile
    obtain ⟨hne, hfile⟩ := hremoved k hfile
    refine (h.stored.published k hfile).imp_right ?_
    rintro ⟨q, hq, hqpurged, hkey⟩
    refine ⟨_, mem_revise.mpr ⟨q, hq, rfl⟩, ?_⟩
    split_ifs with heq
    · rw [hsame q hq heq, hkeys] at hkey
      exact ⟨hqpurged, (List.mem_cons.mp hkey).resolve_left hne⟩
    · exact ⟨hqpurged, hkey⟩
  · exact hids ▸ h.delivered.ids
  · intro q' hq'
    obtain ⟨q, hq, rfl⟩ := hback q' hq'
    split_ifs with heq
    · have hlisted := h.delivered.listed q hq
      refine ⟨hlisted.1, fun k hk => hlisted.2 k ?_⟩
      rw [hsame q hq heq, hkeys]
      exact List.mem_cons_of_mem key hk
    · exact h.delivered.listed q hq
  · intro q' hq' hpending
    obtain ⟨q, hq, rfl⟩ := hback q' hq'
    split_ifs at hpending ⊢ with heq
    · rw [hsame q hq heq, hpurged] at hpending
      cases hpending
    · exact h.delivered.pending q hq hpending
  · intro q' hq' hqpurged
    obtain ⟨q, hq, rfl⟩ := hback q' hq'
    split_ifs at hqpurged ⊢ <;> exact h.delivered.gone q hq hqpurged

/-- The transaction of an upload, wherever it fails. -/
theorem Exact.store (h : Exact settings s) {u : Upload} (hu : u ∈ s.uploads)
    (now createdAt : Instant) (fault : Option Fault) :
    Exact settings (storeUpload settings u now createdAt fault s) := by
  have hdropped := h.dropUpload u.token
  obtain ⟨content, hcontent, hholds⟩ := h.stored.staged u hu
  -- a key drawn now names no file
  have hnew :
      (s.files.unlink (.quarantine u.token)) (.published ⟨u.workspace, s.serial⟩) = none := by
    have hother : (s.files.unlink (.quarantine u.token)) (.published ⟨u.workspace, s.serial⟩) =
        s.files (.published ⟨u.workspace, s.serial⟩) := unlink_other nofun
    rw [hother]
    by_contra hfile
    exact absurd (h.drawn.published _ hfile) (lt_irrefl _)
  have hmoved : s.files.move (.quarantine u.token) (.published ⟨u.workspace, s.serial⟩) =
      (s.files.unlink (.quarantine u.token)).write (.published ⟨u.workspace, s.serial⟩)
        content := by
    rw [Files.move, hcontent, Files.write]
  unfold storeUpload
  simp only
  cases hreserve : Workspaces.reserve settings.quota u.workspace ⟨u.staged.byteSize, 0, 0⟩ now
      s.workspaces with
  | error refusal => exact hdropped
  | ok workspaces =>
    obtain ⟨w, hw, hactive, rfl, hquota⟩ := reserve_spec hreserve
    simp only
    split_ifs with hmove hlater
    · exact hdropped
    · rw [hmoved, unlink_write, unlink_none hnew]
      exact hdropped
    · rw [hmoved]
      have hwithin : (w.usage.plus ⟨u.staged.byteSize, 0, 0⟩).retainedBytes ≤
          settings.quota.retainedBytes := hquota
      have hpublished := hdropped.publish
        (a := ⟨u.workspace, ⟨u.workspace, s.serial⟩, u.staged.physicalHash,
          safeUploadFilename settings.platform u.originalFilename,
          safeContentType settings.platform u.contentType, u.staged.byteSize, createdAt⟩)
        rfl (Nat.lt_succ_self _) hnew hw hactive rfl hwithin hholds
      exact hpublished

theorem allowed_keeps {state : WorkspaceState} {expiresAt now : Instant}
    (h : (evaluate state expiresAt now).accessAllowed = true) :
    (evaluate state expiresAt now).requiresRevocation = false := by
  unfold evaluate at h ⊢
  cases state with
  | active =>
    simp only at h ⊢
    split_ifs at h ⊢
    rfl
  | revoked => rfl
  | deleted => rfl

theorem stageUpload_exact (h : Exact settings s) (workspace : ℕ)
    (originalFilename contentType delimiter : String) (chunks : List Chunk) (now : Instant) :
    Exact settings (stageUpload settings workspace originalFilename contentType delimiter chunks
      now s) := by
  unfold stageUpload
  cases hw : lookup Workspace.id s.workspaces workspace with
  | none => exact h
  | some w =>
    simp only
    split_ifs with hallowed hrevoked hrevoked
    · rw [allowed_keeps hallowed] at hrevoked
      cases hrevoked
    · -- no upload has drawn this token
      have hfree : s.files (.quarantine s.serial) = none := by
        by_contra hfile
        obtain ⟨u, hu, hid⟩ := h.stored.quarantine _ hfile
        exact absurd hid (h.drawn.uploads u hu).ne
      cases hstage : Artifacts.stage settings.platform settings.limits s.serial delimiter chunks
          s.files with
      | mk result files =>
        cases result with
        | error error =>
          obtain rfl := stage_error hfree hstage
          exact h.advance
        | ok staged =>
          obtain ⟨htoken, content, hacceptable, hhash, hsize, rfl⟩ := stage_ok hstage
          exact h.stage htoken ⟨hacceptable, hhash, hsize⟩
    · exact h.remap (revoke_alike workspace .revoked now)
    · exact h

theorem purgeRows_exact (h : Exact settings s) {p : Purge} (hp : p ∈ s.purges)
    (hpending : p.purged = false) (refused : Bool) : Exact settings (purgeRows p refused s) := by
  have hdropped : Exact settings (dropPurge p.id s) :=
    h.dropPurge hp fun hpurged => absurd hpurged (by simp [hpending])
  unfold purgeRows
  cases hw : lookup Workspace.id s.workspaces p.workspace with
  | none => exact hdropped
  | some w =>
    obtain ⟨hmem, hid⟩ := lookup_some hw
    simp only
    split_ifs
    · exact hdropped
    · exact h.purged hp hpending hmem hid

theorem step_exact (h : Exact settings s) (c : Command) : Exact settings (step settings s c) := by
  cases c with
  | createWorkspace expiresAt => exact h.createWorkspace expiresAt
  | revoke workspace final now => exact h.remap (revoke_alike workspace final now)
  | reserve workspace books activeJobs now =>
    refine h.remap ?_
    cases hreserve : Workspaces.reserve settings.quota workspace ⟨0, books, activeJobs⟩ now
        s.workspaces with
    | error refusal => exact Alike.refl _
    | ok after =>
      obtain ⟨w, hw, -, rfl, -⟩ := reserve_spec hreserve
      exact usage_alike h.rows.ids hw (Nat.add_zero _)
  | release workspace books activeJobs now =>
    refine h.remap ?_
    cases hrelease : Workspaces.release workspace ⟨0, books, activeJobs⟩ now s.workspaces with
    | error refusal => exact Alike.refl _
    | ok after =>
      obtain ⟨w, hw, rfl⟩ := release_spec hrelease
      exact usage_alike h.rows.ids hw (Nat.sub_zero _)
  | stage workspace originalFilename contentType delimiter chunks now =>
    exact stageUpload_exact h workspace originalFilename contentType delimiter chunks now
  | store token now createdAt fault =>
    simp only [step]
    cases hu : lookup Upload.token s.uploads token with
    | none => exact h
    | some u => exact h.store (lookup_some hu).1 now createdAt fault
  | list workspace =>
    simp only [step, listKeys]
    cases hw : lookup Workspace.id s.workspaces workspace with
    | none => exact h
    | some w =>
      obtain ⟨hmem, rfl⟩ := lookup_some hw
      simp only
      split_ifs with hactive
      · exact h
      · exact h.listed hmem hactive
  | purge delivery refused =>
    simp only [step]
    cases hp : lookup Purge.id s.purges delivery with
    | none => exact h
    | some p =>
      have hmem := (lookup_some hp).1
      simp only
      split_ifs with hpurged
      · exact h
      · exact purgeRows_exact h hmem (eq_false_of_ne_true hpurged) refused
  | unlink delivery =>
    simp only [step]
    cases hp : lookup Purge.id s.purges delivery with
    | none => exact h
    | some p =>
      have hmem := (lookup_some hp).1
      simp only
      split_ifs with hpurged
      · unfold unlinkNext
        cases hkeys : p.keys with
        | nil => exact h.dropPurge hmem fun _ => hkeys
        | cons key keys => exact h.unlinked hmem hpurged hkeys
      · exact h

theorem run_exact (cs : List Command) : Exact settings (run settings cs) := by
  have hrun : ∀ s, Exact settings s → Exact settings (cs.foldl (step settings) s) := by
    induction cs with
    | nil => exact fun _ h => h
    | cons c cs ih => exact fun s h => ih _ (step_exact h c)
  exact hrun empty empty_exact

theorem Holds.readable {content : Bytes} {scan : CsvScan} {hash : String} {size : ℕ}
    (h : Holds settings content scan hash size) : ∃ delimiter rows,
      readBoundedCsv (settings.platform.openText content) delimiter settings.limits =
        .ok ⟨scan, rows⟩ := by
  obtain ⟨-, delimiter, c, hc, hscan⟩ := h.acceptable
  obtain ⟨first, rest, -, -, -, hread⟩ := read_scanned hc hscan
  exact ⟨delimiter, _, hread⟩

end Steps

/-- Whatever requests, failures and cleanups come in whatever order: a recorded
artifact has its bytes under its key, and they can be read; every file belongs to
an artifact, to an upload in flight or to a committed purge that has yet to
unlink it; and the retained bytes of a workspace are those of its artifacts,
within the quota. -/
theorem stored_exactly (settings : Settings) (cs : List Command) :
    (∀ a ∈ (run settings cs).artifacts, ∃ content,
      (run settings cs).files (.published a.storageKey) = some content ∧
      settings.platform.sha256 content = a.physicalHash ∧ content.length = a.byteSize ∧
      ∃ delimiter table, readBoundedCsv (settings.platform.openText content) delimiter
        settings.limits = .ok table) ∧
    (∀ path, (run settings cs).files path ≠ none →
      match path with
      | .published key => (∃ a ∈ (run settings cs).artifacts, a.storageKey = key) ∨
          ∃ p ∈ (run settings cs).purges, p.purged = true ∧ key ∈ p.keys
      | .quarantine token => ∃ u ∈ (run settings cs).uploads, u.token = token) ∧
    ((run settings cs).artifacts.map (·.storageKey)).Nodup ∧
    ∀ w ∈ (run settings cs).workspaces,
      w.usage.retainedBytes = retained w.id (run settings cs).artifacts ∧
        w.usage.retainedBytes ≤ settings.quota.retainedBytes := by
  have h : Exact settings (run settings cs) := run_exact cs
  refine ⟨fun a ha => ?_, fun path hfile => ?_, h.rows.keys, h.rows.usage⟩
  · obtain ⟨content, scan, hcontent, hholds⟩ := h.stored.recorded a ha
    obtain ⟨delimiter, rows, hread⟩ := hholds.readable
    exact ⟨content, hcontent, hholds.hash.symm, hholds.size.symm, delimiter, _, hread⟩
  · cases path with
    | published key => exact h.stored.published key hfile
    | quarantine token => exact h.stored.quarantine token hfile

end Workbench.Uploads
