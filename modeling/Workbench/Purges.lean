import Workbench.Cleanup

/-!
# When a purge succeeds

Rows refer to rows of their own workspace only, so the collector reaches exactly
the rows of the purged one. It is refused exactly when one of them has a
protecting key that is set.
-/

set_option autoImplicit false

namespace Workbench.Purges
open Workbench.Listing Workbench.Tables Workbench.Calendar Workbench.Workspaces
open Workbench.Collector Workbench.Cleanup
open Workbench.Raising (bind_ok map_ok demand_ok)

structure Sound (s : Store) : Prop where
  workspaces : (s.workspaces.map Workspace.id).Nodup
  tables : ∀ r ∈ s.rows, r.table ≠ .workspace
  keys : (s.rows.map Row.key).Nodup
  columns : ∀ r ∈ s.rows, (r.columns.map Prod.fst).Nodup
  owned : ∀ r ∈ s.rows, ∃ w ∈ s.workspaces, owner r = some w.id
  inside : ∀ r ∈ s.rows, Inside s.rows r
  storage : (s.rows.filterMap storageKey).Nodup

theorem workspace_reference (table : Table) : cascade "workspace" .workspace ∈ references table :=
  List.mem_cons_self ..

theorem mem_references {table : Table} {fk : ForeignKey Table} (h : fk ∈ references table) :
    fk = cascade "workspace" .workspace ∨ fk ∈ ownReferences table := List.mem_cons.mp h

theorem owner_reference {r : Record} {k : Table × ℕ} :
    k ∈ r.reference (cascade "workspace" .workspace) ↔
      ∃ w, owner r = some w ∧ k = (.workspace, w) := by
  unfold Row.reference owner cascade
  cases lookup Prod.fst r.columns "workspace" with
  | none => simp
  | some c => simp [eq_comm]

theorem owner_reference_own {r : Record} {fk : ForeignKey Table} (h : fk ∈ ownReferences r.table)
    {k : Table × ℕ} (hk : k ∈ r.reference fk) : k.1 ≠ .workspace := by
  unfold Row.reference at hk
  obtain ⟨c, _, rfl⟩ := Option.map_eq_some_iff.mp hk
  exact (ownReferences_target r.table fk h).1

section Purging
variable {s : Store} {workspace : ℕ}

/-- What the purge collects: the workspace and its rows. -/
theorem mem_purged (hs : Sound s) {k : Table × ℕ} :
    k ∈ collect references s.rows [(.workspace, workspace)] ↔
      k = (.workspace, workspace) ∨
        ∃ r ∈ s.rows, r.key = k ∧ owner r = some workspace := by
  constructor
  · intro hk
    apply mem_collect.mp hk (fun k => k = (.workspace, workspace) ∨
      ∃ r ∈ s.rows, r.key = k ∧ owner r = some workspace)
    · intro r hr href
      obtain ⟨fk, hfk, _, k, hkr, hP⟩ := href
      right
      refine ⟨r, hr, rfl, ?_⟩
      rcases mem_references hfk with rfl | hown
      · obtain ⟨w, hw, rfl⟩ := owner_reference.mp hkr
        rcases hP with he | ⟨x, hx, hxk, _⟩
        · rw [hw, (Prod.mk.inj he).2]
        · exact absurd (congrArg Prod.fst hxk) (hs.tables x hx)
      · obtain ⟨x, hx, hxk, hxo⟩ := hs.inside r hr fk hown k hkr
        rcases hP with rfl | ⟨y, hy, hyk, hyo⟩
        · exact absurd rfl (owner_reference_own hown hkr)
        · rw [← hxo, eq_of_key_eq Row.key hs.keys hx hy (hxk.trans hyk.symm), hyo]
    · intro x hx
      rw [List.mem_singleton] at hx
      exact .inl hx
  · intro hk
    rcases hk with rfl | ⟨r, hr, rfl, ho⟩
    · exact mem_collect.mpr fun P _ hstart => hstart _ (List.mem_singleton_self _)
    · apply collect_closed r hr
      refine ⟨_, workspace_reference r.table, rfl, _, owner_reference.mpr ⟨_, ho, rfl⟩, ?_⟩
      exact mem_collect.mpr fun P _ hstart => hstart _ (List.mem_singleton_self _)

theorem purged_row (hs : Sound s) {r : Record} (hr : r ∈ s.rows) :
    r.key ∈ collect references s.rows [(.workspace, workspace)] ↔ owner r = some workspace := by
  rw [mem_purged hs]
  constructor
  · intro h
    rcases h with he | ⟨x, hx, hxk, hxo⟩
    · exact absurd (congrArg Prod.fst he) (hs.tables r hr)
    · rw [← eq_of_key_eq Row.key hs.keys hx hr hxk]
      exact hxo
  · exact fun ho => .inr ⟨r, hr, rfl, ho⟩

/-- A row that has a protecting key set. -/
def Protecting (r : Record) : Prop :=
  ∃ fk ∈ references r.table, fk.onDelete = .protect ∧ r.reference fk ≠ none

theorem refers_purged (hs : Sound s) {r : Record} (hr : r ∈ s.rows) :
    Refers references .protect (collect references s.rows [(.workspace, workspace)]) r ↔
      owner r = some workspace ∧ Protecting r := by
  constructor
  · intro h
    obtain ⟨fk, hfk, hrule, k, hkr, hin⟩ := h
    refine ⟨?_, fk, hfk, hrule, fun hnone => by rw [hnone] at hkr; cases hkr⟩
    rcases mem_references hfk with rfl | hown
    · cases hrule
    · obtain ⟨x, hx, hxk, hxo⟩ := hs.inside r hr fk hown k hkr
      rw [← hxo]
      rw [← hxk, purged_row hs hx] at hin
      exact hin
  · intro h
    obtain ⟨ho, fk, hfk, hrule, hset⟩ := h
    obtain ⟨k, hk⟩ := Option.ne_none_iff_exists'.mp hset
    refine ⟨fk, hfk, hrule, k, hk, ?_⟩
    rcases mem_references hfk with rfl | hown
    · cases hrule
    · obtain ⟨x, hx, hxk, hxo⟩ := hs.inside r hr fk hown k hk
      rw [← hxk, purged_row hs hx, hxo]
      exact ho

/-- The rows of other workspaces stay as they are. -/
theorem purged_rest (hs : Sound s) :
    (s.rows.filter fun r =>
      r.key ∉ collect references s.rows [(.workspace, workspace)]).map
        (Row.clear references (collect references s.rows [(.workspace, workspace)])) =
      s.rows.filter fun r => owner r ≠ some workspace := by
  have hfilter : (s.rows.filter fun r =>
      r.key ∉ collect references s.rows [(.workspace, workspace)]) =
      s.rows.filter fun r => owner r ≠ some workspace := by
    apply List.filter_congr
    intro r hr
    simp only [purged_row hs hr, ne_eq]
  rw [hfilter]
  conv_rhs => rw [← List.map_id (s.rows.filter fun r => owner r ≠ some workspace)]
  apply List.map_congr_left
  intro r hr
  obtain ⟨hmem, ho⟩ := List.mem_filter.mp hr
  have hcolumns : (r.columns.filter fun c => ¬∃ fk ∈ references r.table, fk.column = c.1 ∧
      fk.onDelete = .setNull ∧
        (fk.target, c.2) ∈ collect references s.rows [(.workspace, workspace)]) = r.columns := by
    rw [List.filter_eq_self]
    intro c hc
    apply decide_eq_true
    intro hex
    obtain ⟨fk, hfk, hcol, hrule, hin⟩ := hex
    rcases mem_references hfk with rfl | hown
    · cases hrule
    · have href : (fk.target, c.2) ∈ r.reference fk := by
        unfold Row.reference
        rw [hcol, lookup_mem (hs.columns r hmem) hc]
        rfl
      obtain ⟨x, hx, hxk, hxo⟩ := hs.inside r hmem fk hown _ href
      rw [← hxk, purged_row hs hx, hxo] at hin
      exact of_decide_eq_true ho hin
  unfold Row.clear
  rw [hcolumns]
  rfl

end Purging

section Outcomes
variable {s t : Store} {workspace : ℕ} {attemptToken : Option String}

/-- Exactly the workspace, its rows and the bytes of its artifacts are gone. -/
structure Purged (s t : Store) (workspace : ℕ) : Prop where
  workspaces : t.workspaces = s.workspaces.filter fun w => w.id ≠ workspace
  rows : t.rows = s.rows.filter fun r => owner r ≠ some workspace
  published : t.published = s.published.filter fun key => key ∉ storageKeys s workspace
  others : ∀ r ∈ s.rows, owner r ≠ some workspace → ∀ key ∈ storageKey r,
    key ∈ s.published → key ∈ t.published

/-- The fence lets the purge through. -/
def Fenced (s : Store) (workspace : ℕ) (attemptToken : Option String) : Prop :=
  fence s workspace attemptToken = .ok ()

theorem eq_of_filterMap {α β : Type} {f : α → Option β} {l : List α} (h : (l.filterMap f).Nodup)
    {a b : α} (ha : a ∈ l) (hb : b ∈ l) {k : β} (hfa : f a = some k) (hfb : f b = some k) :
    a = b := by
  induction l with
  | nil => cases ha
  | cons x l ih =>
    have hin : ∀ {y}, y ∈ l → f y = some k → k ∈ l.filterMap f :=
      fun hy he => List.mem_filterMap.mpr ⟨_, hy, he⟩
    cases hx : f x with
    | none =>
      rw [List.filterMap_cons_none hx] at h
      have hne : ∀ {y}, f y = some k → y ≠ x := fun hy he => by rw [he, hx] at hy; cases hy
      exact ih h ((List.mem_cons.mp ha).resolve_left (hne hfa))
        ((List.mem_cons.mp hb).resolve_left (hne hfb))
    | some v =>
      rw [List.filterMap_cons_some hx, List.nodup_cons] at h
      rcases List.mem_cons.mp ha with rfl | ham
      · rcases List.mem_cons.mp hb with rfl | hbm
        · rfl
        · rw [hfa, Option.some.injEq] at hx
          exact absurd (hx ▸ hin hbm hfb) h.1
      · rcases List.mem_cons.mp hb with rfl | hbm
        · rw [hfb, Option.some.injEq] at hx
          exact absurd (hx ▸ hin ham hfa) h.1
        · exact ih h.2 ham hbm

theorem storageKeys_apart (hs : Sound s) {r : Record} (hr : r ∈ s.rows)
    (ho : owner r ≠ some workspace) {key : String} (hk : key ∈ storageKey r) :
    key ∉ storageKeys s workspace := by
  intro hin
  unfold storageKeys at hin
  obtain ⟨x, hx, hxk⟩ := List.mem_filterMap.mp hin
  obtain ⟨hxm, hxo⟩ := List.mem_filter.mp hx
  have hsame := eq_of_filterMap hs.storage hr hxm hk hxk
  exact ho (hsame ▸ of_decide_eq_true hxo)

theorem purgeWorkspace_ok (hs : Sound s) {w : Workspace}
    (hw : lookup Workspace.id s.workspaces workspace = some w) :
    purgeWorkspace s workspace attemptToken = .ok (t, true) ↔
      w.state ≠ .active ∧ Fenced s workspace attemptToken ∧
        (∀ r ∈ s.rows, ¬(owner r = some workspace ∧ Protecting r)) ∧
        t = ⟨s.workspaces.filter fun w => w.id ≠ workspace,
          s.rows.filter fun r => owner r ≠ some workspace,
          s.published.filter fun key => key ∉ storageKeys s workspace⟩ := by
  have hdelete : ∀ after, (delete references s.rows [(.workspace, workspace)]).mapError
      PurgeFailure.protectedError = .ok after ↔
        (∀ r ∈ s.rows, ¬(owner r = some workspace ∧ Protecting r)) ∧
          after = s.rows.filter fun r => owner r ≠ some workspace := by
    intro after
    have hok : delete references s.rows [(.workspace, workspace)] = .ok after ↔ _ := delete_ok
    rw [purged_rest hs] at hok
    have hsame : (∀ r ∈ s.rows, ¬Refers references .protect
        (collect references s.rows [(.workspace, workspace)]) r) ↔
        ∀ r ∈ s.rows, ¬(owner r = some workspace ∧ Protecting r) :=
      forall_congr' fun r => forall_congr' fun hr => not_congr (refers_purged hs hr)
    rw [hsame] at hok
    rw [← hok]
    cases delete references s.rows [(.workspace, workspace)] with
    | error e => simp [Except.mapError]
    | ok x => simp [Except.mapError]
  unfold purgeWorkspace Fenced
  rw [hw]
  simp only [bind_ok, demand_ok, hdelete, Except.ok.injEq, Prod.mk.injEq, and_true]
  constructor
  · intro h
    obtain ⟨_, hstate, _, hfence, _, ⟨hprotect, rfl⟩, rfl⟩ := h
    exact ⟨hstate, hfence, hprotect, rfl⟩
  · intro h
    obtain ⟨hstate, hfence, hprotect, rfl⟩ := h
    exact ⟨(), hstate, (), hfence, _, ⟨hprotect, rfl⟩, rfl⟩

theorem purgeWorkspace_purged (hs : Sound s)
    (h : purgeWorkspace s workspace attemptToken = .ok (t, true)) : Purged s t workspace := by
  cases hw : lookup Workspace.id s.workspaces workspace with
  | none =>
    unfold purgeWorkspace at h
    rw [hw] at h
    cases h
  | some w =>
    obtain ⟨_, _, _, rfl⟩ := (purgeWorkspace_ok hs hw).mp h
    refine ⟨rfl, rfl, rfl, ?_⟩
    intro r hr ho key hk hpub
    exact List.mem_filter.mpr ⟨hpub, decide_eq_true (storageKeys_apart hs hr ho hk)⟩

end Outcomes

section Runs
variable {s t : Store}

theorem owner_refer {column : String} (hc : column ≠ "workspace") (value : Option ℕ)
    (r : Record) : owner (Row.refer column value r) = owner r := by
  have hfind : ∀ cs : List (String × ℕ), lookup Prod.fst
      (cs.filter (fun c => c.1 ≠ column) ++ (value.map fun v => (column, v)).toList) "workspace" =
      lookup Prod.fst cs "workspace" := by
    intro cs
    unfold lookup
    rw [List.find?_append, List.find?_filter]
    have hlast : ((value.map fun v => (column, v)).toList.find?
        fun c => decide (c.1 = "workspace")) = none := by
      cases value with
      | none => rfl
      | some v => simp [hc]
    rw [hlast, Option.or_none]
    congr 1
    funext c
    by_cases he : c.1 = "workspace"
    · have hne : c.1 ≠ column := fun h => hc (h.symm.trans he)
      simp [he, he ▸ hne]
    · simp [he]
  unfold owner Row.refer
  rw [hfind]

theorem columns_refer {column : String} (value : Option ℕ) {r : Record}
    (h : (r.columns.map Prod.fst).Nodup) :
    ((Row.refer column value r).columns.map Prod.fst).Nodup := by
  unfold Row.refer
  rw [List.map_append]
  apply List.Nodup.append (h.sublist (List.Sublist.map _ List.filter_sublist))
  · cases value with
    | none => exact List.nodup_nil
    | some v => exact List.nodup_singleton _
  · intro x hx hy
    obtain ⟨c, hc, rfl⟩ := List.mem_map.mp hx
    have hne := of_decide_eq_true (List.mem_filter.mp hc).2
    cases value with
    | none => cases hy
    | some v =>
      simp only [Option.map_some, Option.toList_some, List.map_singleton,
        List.mem_singleton] at hy
      exact hne hy

/-- A revision of rows that keeps their keys, owners and bytes keeps what they
are referred to by. -/
theorem inside_revise {k : Table × ℕ} {f : Record → Record} (hkey : ∀ r, (f r).key = r.key)
    (howner : ∀ r, owner (f r) = owner r) {rows : List Record} {r : Record} (h : Inside rows r) :
    Inside (revise Row.key k f rows) r := by
  intro fk hfk x hx
  obtain ⟨y, hy, hyk, hyo⟩ := h fk hfk x hx
  refine ⟨_, mem_revise.mpr ⟨y, hy, rfl⟩, ?_, ?_⟩
  · split
    · rw [hkey, hyk]
    · exact hyk
  · split
    · rw [howner, hyo]
    · exact hyo

theorem storageKey_write {column value : String} (hc : column ≠ "storage_key") (r : Record) :
    storageKey (Row.write column value r) = storageKey r := by
  have hfind : ∀ ts : List (String × String), lookup Prod.fst
      ((column, value) :: ts.filter fun c => c.1 ≠ column) "storage_key" =
      lookup Prod.fst ts "storage_key" := by
    intro ts
    unfold lookup
    rw [List.find?_cons, List.find?_filter]
    simp only [hc, decide_false]
    congr 1
    funext c
    by_cases he : c.1 = "storage_key"
    · have hne : c.1 ≠ column := fun h => hc (h.symm.trans he)
      simp [he, he ▸ hne]
    · simp [he]
  unfold storageKey text Row.write
  rw [hfind]

theorem storage_revise {k : Table × ℕ} {f : Record → Record}
    (hf : ∀ r, storageKey (f r) = storageKey r) (rows : List Record) :
    (revise Row.key k f rows).filterMap storageKey = rows.filterMap storageKey := by
  unfold revise
  rw [List.filterMap_map]
  apply List.filterMap_congr
  intro r _
  show storageKey (if r.key = k then f r else r) = storageKey r
  split
  · exact hf r
  · rfl

theorem revised_row {k : Table × ℕ} {f : Record → Record} {rows : List Record} {r' : Record}
    (h : r' ∈ revise Row.key k f rows) : ∃ r ∈ rows, (r.key = k ∧ r' = f r) ∨ r' = r := by
  obtain ⟨r, hr, rfl⟩ := mem_revise.mp h
  by_cases hk : r.key = k
  · exact ⟨r, hr, .inl ⟨hk, by rw [if_pos hk]⟩⟩
  · exact ⟨r, hr, .inr (by rw [if_neg hk])⟩

theorem refer_sound (hs : Sound s) {row : Table × ℕ} {column : String} {value : Option ℕ}
    (hc : column ≠ "workspace")
    (h : ∀ r ∈ s.rows, r.key = row → Inside s.rows (Row.refer column value r)) :
    Sound { s with rows := revise Row.key row (Row.refer column value) s.rows } := by
  have hkey : ∀ r : Record, (Row.refer column value r).key = r.key := fun _ => rfl
  constructor
  · exact hs.workspaces
  · intro r' hr'
    obtain ⟨r, hr, ⟨_, rfl⟩ | rfl⟩ := revised_row hr'
    · exact hs.tables r hr
    · exact hs.tables r' hr
  · show ((revise Row.key row (Row.refer column value) s.rows).map Row.key).Nodup
    rw [keys_revise hkey]
    exact hs.keys
  · intro r' hr'
    obtain ⟨r, hr, ⟨_, rfl⟩ | rfl⟩ := revised_row hr'
    · exact columns_refer value (hs.columns r hr)
    · exact hs.columns r' hr
  · intro r' hr'
    obtain ⟨r, hr, ⟨_, rfl⟩ | rfl⟩ := revised_row hr'
    · rw [owner_refer hc]
      exact hs.owned r hr
    · exact hs.owned r' hr
  · intro r' hr'
    apply inside_revise hkey (owner_refer hc value)
    obtain ⟨r, hr, ⟨hk, rfl⟩ | rfl⟩ := revised_row hr'
    · exact h r hr hk
    · exact hs.inside r' hr
  · show ((revise Row.key row (Row.refer column value) s.rows).filterMap storageKey).Nodup
    have hstorage : ∀ r, storageKey (Row.refer column value r) = storageKey r := fun _ => rfl
    rw [storage_revise hstorage]
    exact hs.storage

theorem write_sound (hs : Sound s) {row : Table × ℕ} {column value : String}
    (hc : column ≠ "storage_key") :
    Sound { s with rows := revise Row.key row (Row.write column value) s.rows } := by
  have hkey : ∀ r : Record, (Row.write column value r).key = r.key := fun _ => rfl
  constructor
  · exact hs.workspaces
  · intro r' hr'
    obtain ⟨r, hr, ⟨_, rfl⟩ | rfl⟩ := revised_row hr'
    · exact hs.tables r hr
    · exact hs.tables r' hr
  · show ((revise Row.key row (Row.write column value) s.rows).map Row.key).Nodup
    rw [keys_revise hkey]
    exact hs.keys
  · intro r' hr'
    obtain ⟨r, hr, ⟨_, rfl⟩ | rfl⟩ := revised_row hr'
    · exact hs.columns r hr
    · exact hs.columns r' hr
  · intro r' hr'
    obtain ⟨r, hr, ⟨_, rfl⟩ | rfl⟩ := revised_row hr'
    · exact hs.owned r hr
    · exact hs.owned r' hr
  · intro r' hr'
    apply inside_revise hkey (fun _ => rfl)
    obtain ⟨r, hr, ⟨_, rfl⟩ | rfl⟩ := revised_row hr'
    · exact hs.inside r hr
    · exact hs.inside r' hr
  · show ((revise Row.key row (Row.write column value) s.rows).filterMap storageKey).Nodup
    rw [storage_revise (storageKey_write hc)]
    exact hs.storage

theorem insert_sound (hs : Sound s) {r : Record} {published : List String}
    (h : Insertable s r) : Sound { s with rows := s.rows ++ [r], published := published } := by
  have hmem : ∀ x, x ∈ s.rows ++ [r] ↔ x ∈ s.rows ∨ x = r := by simp
  have hinside : ∀ {x}, Inside s.rows x → Inside (s.rows ++ [r]) x := by
    intro x hx fk hfk k hk
    obtain ⟨y, hy, hrest⟩ := hx fk hfk k hk
    exact ⟨y, List.mem_append_left _ hy, hrest⟩
  constructor
  · exact hs.workspaces
  · intro x hx
    rcases (hmem x).mp hx with hx | rfl
    · exact hs.tables x hx
    · exact h.table
  · show ((s.rows ++ [r]).map Row.key).Nodup
    rw [List.map_append]
    apply List.Nodup.append hs.keys (List.nodup_singleton _)
    intro k hk hin
    rw [List.mem_singleton] at hin
    exact h.fresh (hin ▸ hk)
  · intro x hx
    rcases (hmem x).mp hx with hx | rfl
    · exact hs.columns x hx
    · exact h.columns
  · intro x hx
    rcases (hmem x).mp hx with hx | rfl
    · exact hs.owned x hx
    · exact h.owned
  · intro x hx
    rcases (hmem x).mp hx with hx | rfl
    · exact hinside (hs.inside x hx)
    · exact hinside h.inside
  · show ((s.rows ++ [r]).filterMap storageKey).Nodup
    rw [List.filterMap_append]
    apply List.Nodup.append hs.storage
    · cases hk : storageKey r with
      | none =>
        rw [List.filterMap_cons_none hk]
        exact List.nodup_nil
      | some key =>
        rw [List.filterMap_cons_some hk]
        exact List.nodup_singleton _
    · intro key hold hnew
      obtain ⟨x, hx, hk⟩ := List.mem_filterMap.mp hnew
      rw [List.mem_singleton.mp hx] at hk
      exact h.storage key hk hold

theorem setNull_column {table : Table} {fk : ForeignKey Table} (h : fk ∈ references table)
    (hrule : fk.onDelete = .setNull) : fk.column ≠ "workspace" := by
  rcases mem_references h with rfl | hown
  · cases hrule
  · exact (ownReferences_target table fk hown).2

theorem owner_clear (keys : List (Table × ℕ)) (r : Record) :
    owner (Row.clear references keys r) = owner r := by
  unfold owner Row.clear lookup
  rw [List.find?_filter]
  congr 2
  funext c
  by_cases hc : c.1 = "workspace"
  · have hkeep : ¬∃ fk ∈ references r.table, fk.column = c.1 ∧ fk.onDelete = .setNull ∧
        (fk.target, c.2) ∈ keys := by
      intro hex
      obtain ⟨fk, hfk, hcol, hrule, _⟩ := hex
      exact setNull_column hfk hrule (hcol.trans hc)
    simp only [hc] at hkeep ⊢
    simp [hkeep]
  · simp [hc]

theorem delete_sound (hs : Sound s) {start : List (Table × ℕ)} {after : List Record}
    (h : delete references s.rows start = .ok after) : Sound { s with rows := after } := by
  obtain ⟨_, rfl⟩ := delete_ok.mp h
  let keys := collect references s.rows start
  have hmem : ∀ r', r' ∈ (s.rows.filter fun r => r.key ∉ keys).map (Row.clear references keys) →
      ∃ r ∈ s.rows, r.key ∉ keys ∧ r' = Row.clear references keys r := by
    intro r' hr'
    obtain ⟨r, hr, rfl⟩ := List.mem_map.mp hr'
    obtain ⟨hr, hk⟩ := List.mem_filter.mp hr
    exact ⟨r, hr, of_decide_eq_true hk, rfl⟩
  constructor
  · exact hs.workspaces
  · intro r' hr'
    obtain ⟨r, hr, _, rfl⟩ := hmem r' hr'
    exact hs.tables r hr
  · show (((s.rows.filter fun r => r.key ∉ keys).map (Row.clear references keys)).map
      Row.key).Nodup
    rw [List.map_map]
    exact hs.keys.sublist (List.Sublist.map Row.key List.filter_sublist)
  · intro r' hr'
    obtain ⟨r, hr, _, rfl⟩ := hmem r' hr'
    exact (hs.columns r hr).sublist (List.Sublist.map _ List.filter_sublist)
  · intro r' hr'
    obtain ⟨r, hr, _, rfl⟩ := hmem r' hr'
    rw [owner_clear]
    exact hs.owned r hr
  · intro r' hr' fk hfk k hk
    obtain ⟨r, hr, hrk, rfl⟩ := hmem r' hr'
    obtain ⟨hold, hstays⟩ := reference_stays h hr hrk (hs.columns r hr)
      (List.mem_cons_of_mem _ hfk) hk
    obtain ⟨x, hx, hxk, hxo⟩ := hs.inside r hr fk hfk k hold
    refine ⟨Row.clear references keys x, ?_, hxk, ?_⟩
    · exact List.mem_map_of_mem (List.mem_filter.mpr ⟨hx, decide_eq_true (hxk ▸ hstays)⟩)
    · rw [owner_clear, owner_clear]
      exact hxo
  · show (((s.rows.filter fun r => r.key ∉ keys).map (Row.clear references keys)).filterMap
      storageKey).Nodup
    rw [List.filterMap_map]
    exact hs.storage.sublist (List.Sublist.filterMap storageKey List.filter_sublist)

theorem purge_sound (hs : Sound s) {workspace : ℕ} {attemptToken : Option String} {purged : Bool}
    (h : purgeWorkspace s workspace attemptToken = .ok (t, purged)) : Sound t := by
  cases hw : lookup Workspace.id s.workspaces workspace with
  | none =>
    unfold purgeWorkspace at h
    rw [hw] at h
    rw [← (Prod.mk.inj (Except.ok.inj h)).1]
    exact hs
  | some w =>
    have htrue : purged = true := by
      unfold purgeWorkspace at h
      rw [hw] at h
      simp only [bind_ok] at h
      obtain ⟨_, _, _, _, _, _, he⟩ := h
      exact (Prod.mk.inj (Except.ok.inj he)).2.symm
    subst htrue
    obtain ⟨_, _, _, rfl⟩ := (purgeWorkspace_ok hs hw).mp h
    have hmem : ∀ r ∈ s.rows.filter (fun r => owner r ≠ some workspace),
        r ∈ s.rows ∧ owner r ≠ some workspace :=
      fun r hr => ⟨(List.mem_filter.mp hr).1, of_decide_eq_true (List.mem_filter.mp hr).2⟩
    constructor
    · exact hs.workspaces.sublist (List.Sublist.map _ List.filter_sublist)
    · exact fun r hr => hs.tables r (hmem r hr).1
    · exact hs.keys.sublist (List.Sublist.map _ List.filter_sublist)
    · exact fun r hr => hs.columns r (hmem r hr).1
    · intro r hr
      obtain ⟨hr, ho⟩ := hmem r hr
      obtain ⟨x, hx, hxo⟩ := hs.owned r hr
      refine ⟨x, List.mem_filter.mpr ⟨hx, decide_eq_true fun he => ho ?_⟩, hxo⟩
      rw [hxo, he]
    · intro r hr fk hfk k hk
      obtain ⟨hr, ho⟩ := hmem r hr
      obtain ⟨x, hx, hxk, hxo⟩ := hs.inside r hr fk hfk k hk
      exact ⟨x, List.mem_filter.mpr ⟨hx, decide_eq_true (hxo ▸ ho)⟩, hxk, hxo⟩
    · exact hs.storage.sublist (List.Sublist.filterMap _ List.filter_sublist)

theorem workspaces_sound (hs : Sound s) {workspaces : List Workspace}
    (hids : (workspaces.map Workspace.id).Nodup)
    (hall : ∀ w ∈ s.workspaces, ∃ w' ∈ workspaces, w'.id = w.id) :
    Sound { s with workspaces := workspaces } := by
  refine ⟨hids, hs.tables, hs.keys, hs.columns, ?_, hs.inside, hs.storage⟩
  intro r hr
  obtain ⟨w, hw, ho⟩ := hs.owned r hr
  obtain ⟨w', hw', he⟩ := hall w hw
  exact ⟨w', hw', by rw [ho, he]⟩

theorem step_sound (hs : Sound s) (c : Command) : Sound (step s c) := by
  cases c with
  | createWorkspace w =>
    simp only [step]
    split
    · exact hs
    · rename_i hfresh
      apply workspaces_sound hs
      · rw [List.map_append]
        apply List.Nodup.append hs.workspaces (List.nodup_singleton _)
        intro x hx hin
        rw [List.mem_singleton] at hin
        exact hfresh (hin ▸ hx)
      · exact fun x hx => ⟨x, List.mem_append_left _ hx, rfl⟩
  | revoke workspace final now =>
    apply workspaces_sound hs
    · rw [keys_revise (Workspace.revoke_id final now)]
      exact hs.workspaces
    · intro w hw
      refine ⟨_, mem_revise.mpr ⟨w, hw, rfl⟩, ?_⟩
      split
      · exact Workspace.revoke_id final now w
      · rfl
  | insert r bytes =>
    simp only [step]
    split
    · rename_i h
      exact insert_sound hs h
    · exact hs
  | refer row column value =>
    simp only [step]
    split
    · rename_i h
      exact refer_sound hs h.1 h.2
    · exact hs
  | write row column value =>
    simp only [step]
    split
    · rename_i h
      exact write_sound hs h
    · exact hs
  | delete rows =>
    simp only [step]
    split
    · split
      · rename_i after h
        exact delete_sound hs h
      · exact hs
    · exact hs
  | purge workspace attemptToken =>
    apply settle_keeps hs
    intro t ht
    obtain ⟨p, hp, rfl⟩ := map_ok.mp ht
    exact purge_sound hs hp

theorem empty_sound : Sound ⟨[], [], []⟩ := by
  have hnone : ∀ {P : Record → Prop}, ∀ r ∈ ([] : List Record), P r := fun _ hr => by cases hr
  exact ⟨List.nodup_nil, hnone, List.nodup_nil, hnone, hnone, hnone, List.nodup_nil⟩

theorem run_sound (cs : List Command) : Sound (run cs) := by
  unfold run
  exact foldl_keeps (P := Sound) (fun _ c h _ => step_sound h c) empty_sound (along_true _ cs)

end Runs

/-- In every state the services reach, the purge of a revoked or deleted workspace
removes exactly its rows and bytes if and only if its fence holds and none of
its rows has a protecting key set. -/
theorem purge_succeeds_iff (cs : List Command) {workspace : ℕ} {w : Workspace}
    (hw : lookup Workspace.id (run cs).workspaces workspace = some w) (hstate : w.state ≠ .active)
    (attemptToken : Option String) :
    (∃ t, purgeWorkspace (run cs) workspace attemptToken = .ok (t, true) ∧
      Purged (run cs) t workspace) ↔
      Fenced (run cs) workspace attemptToken ∧
        ∀ r ∈ (run cs).rows, owner r = some workspace → ¬Protecting r := by
  have hs := run_sound cs
  constructor
  · intro h
    obtain ⟨t, ht, _⟩ := h
    obtain ⟨_, hfence, hnone, _⟩ := (purgeWorkspace_ok hs hw).mp ht
    exact ⟨hfence, fun r hr ho hp => hnone r hr ⟨ho, hp⟩⟩
  · intro h
    have ht := (purgeWorkspace_ok hs hw).mpr
      ⟨hstate, h.1, fun r hr hrp => h.2 r hr hrp.1 hrp.2, rfl⟩
    exact ⟨_, ht, purgeWorkspace_purged hs ht⟩

def sampleWorkspace : Workspace := ⟨1, .active, ⟨91, by decide⟩, none, none, ⟨0, 0, 0⟩⟩

def sampleBook : Record := ⟨.reconciliationBook, 1, [("workspace", 1)], []⟩

def sampleArtifact : Record :=
  ⟨.fileArtifact, 1, [("workspace", 1)], [("storage_key", "workspaces/1/a.csv")]⟩

/-- A workspace with a book and an uploaded file, then deleted. -/
def sampleCommands : List Command :=
  [.createWorkspace sampleWorkspace, .insert sampleBook true, .insert sampleArtifact true,
    .revoke 1 .deleted ⟨90, by decide⟩]

theorem purge_succeeds_sample : ∃ t,
    purgeWorkspace (run sampleCommands) 1 none = .ok (t, true) ∧
      Purged (run sampleCommands) t 1 := by
  have hw : lookup Workspace.id (run sampleCommands).workspaces 1 =
      some (sampleWorkspace.revoke .deleted ⟨90, by decide⟩) := by decide +kernel
  apply (purge_succeeds_iff sampleCommands hw (by decide) none).mpr
  refine ⟨rfl, ?_⟩
  have hrows : (run sampleCommands).rows = [sampleBook, sampleArtifact] := by decide +kernel
  rw [hrows]
  intro r hr _ hp
  obtain ⟨fk, hfk, hrule, _⟩ := hp
  rcases mem_references hfk with rfl | hown
  · cases hrule
  · rcases List.mem_cons.mp hr with rfl | hr
    · cases hown
    · rw [List.mem_singleton] at hr
      subst hr
      cases hown

def sampleSource : Record := ⟨.sourceSystem, 1, [("workspace", 1)], []⟩

def sampleBookSource : Record :=
  ⟨.bookSource, 1, [("workspace", 1), ("book", 1), ("source", 1)], []⟩

/-- A source that is attached to a book refuses the purge of their workspace. -/
theorem attached_source_refuses :
    (lookup Workspace.id (run [.createWorkspace sampleWorkspace, .insert sampleBook true,
      .insert sampleSource true, .insert sampleBookSource true,
      .revoke 1 .deleted ⟨90, by decide⟩]).workspaces 1).map Workspace.state = some .deleted ∧
    ¬∃ t, purgeWorkspace (run [.createWorkspace sampleWorkspace, .insert sampleBook true,
      .insert sampleSource true, .insert sampleBookSource true,
      .revoke 1 .deleted ⟨90, by decide⟩]) 1 none = .ok (t, true) := by
  constructor
  · decide +kernel
  · intro h
    obtain ⟨t, ht⟩ := h
    have herror : (purgeWorkspace (run [.createWorkspace sampleWorkspace, .insert sampleBook true,
        .insert sampleSource true, .insert sampleBookSource true,
        .revoke 1 .deleted ⟨90, by decide⟩]) 1 none).toOption.isNone = true := by decide +kernel
    rw [ht] at herror
    cases herror

end Workbench.Purges
