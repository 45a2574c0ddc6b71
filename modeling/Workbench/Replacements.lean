import Workbench.Freshness

/-!
# Replacements

A reviewer previews a replacement and sees the decisions that hold its records.
The command carries what the preview listed. In a state of the services the
preview and the command find the same claims, and once those are dropped the
records are free.
-/

set_option autoImplicit false

namespace Workbench.Replacements
open Workbench.Listing Workbench.Tables Workbench.Calendar Workbench.Workspaces Workbench.Json
open Workbench.Decisions Workbench.DecisionStore
open Workbench.Raising (bind_ok ok_bind map_ok demand fetch fetch_ok bind_eq_error)

/-- A preview lists each conflicting decision once and not its target. -/
structure ReplacementPreview where
  authority : DecisionAuthority
  target : ExpectedDecisionRevision
  conflicts : List DecisionConflict
  resolutionGeneration : ℕ
  conflicts_valid : Request.Conflicts (.replace target authority (conflicts.map (·.expected)))

/-- The request that approves what a preview lists. -/
def ReplacementPreview.request (p : ReplacementPreview) : Request :=
  .replace p.target p.authority (p.conflicts.map (·.expected))

def ReplacementPreview.superseded (p : ReplacementPreview) : List Uuid :=
  p.target.revisionId :: p.conflicts.map (·.revisionId)

inductive PreviewFailure where
  | refused (failure : DecisionFailure)
  | domainValidation
deriving DecidableEq

def refusing {α : Type} : Except DecisionFailure α → Except PreviewFailure α
  | .ok a => .ok a
  | .error failure => .error (.refused failure)

instance conflicts_decidable (target : ExpectedDecisionRevision) (authority : DecisionAuthority)
    (conflicts : List ExpectedDecisionRevision) :
    Decidable (Request.Conflicts (.replace target authority conflicts)) :=
  inferInstanceAs (Decidable (_ ∧ _))

/-- `preview_replacement`. -/
def previewReplacement (workspace book : ℕ) (target : ExpectedDecisionRevision)
    (authority : DecisionAuthority) (now : Instant) (s : Store) :
    Except PreviewFailure ReplacementPreview := do
  refusing (requireActiveWorkspace workspace now s)
  let b ← refusing (lockedBook workspace book s)
  let current ← refusing (currentRevision workspace book target s)
  let _ ← refusing (resolveAuthority workspace book authority s)
  let conflicts := claimConflicts workspace book authority (some current.decision) s
  if h : Request.Conflicts (.replace target authority (conflicts.map (·.expected))) then
    .ok ⟨authority, target, conflicts, b.resolutionGeneration, h⟩
  else .error .domainValidation

/-- A replacement supersedes the target and what the preview listed, and leaves
the other active decisions and their claims as they were. -/
structure Replaces (workspace book : ℕ) (p : ReplacementPreview) (revision : Uuid) (now : Instant)
    (s t : Store) : Prop where
  supersessions : t.supersessions =
    s.supersessions ++ p.superseded.map fun id => ⟨workspace, revision, id, now⟩
  inForce : ∀ id ∈ p.superseded, ∃ d r, ActiveAs s d r ∧ d.book = book ∧ r.id = id
  ended : ∀ d r, ActiveAs t d r → r.id ∉ p.superseded
  target : ∃ d r, ActiveAs t d r ∧ d.id = p.target.decisionId ∧ r.id = revision ∧
    r.authority = some p.authority
  others : ∀ d r, ActiveAs s d r → r.id ∉ p.superseded → ActiveAs t d r ∧
    ∀ c : ActiveDecisionClaim, c.decisionRevision = r.id → (c ∈ t.claims ↔ c ∈ s.claims)

def Housed (s : Store) : Prop :=
  ∀ d ∈ s.decisions, ∃ b ∈ s.books, b.id = d.book ∧ b.workspace = d.workspace

section Conflicts
variable {s : Store} {workspace book : ℕ} {a : DecisionAuthority} {excluding : Uuid}

structure Overlaps (s : Store) (workspace book : ℕ) (a : DecisionAuthority) (excluding : Uuid)
    (c : ActiveDecisionClaim) (r : DecisionRevision) : Prop where
  claim : c ∈ s.claims
  workspace : c.workspace = workspace
  book : c.book = book
  endpoint : c.logicalTransaction ∈ a.endpointIds
  revision : r ∈ s.revisions
  held : c.decisionRevision = r.id
  other : r.decision ≠ excluding

theorem revisionOf_mem (hs : Consistent s) {r : DecisionRevision} {id : Uuid} :
    revisionOf s id = some r ↔ r ∈ s.revisions ∧ r.id = id := by
  constructor
  · exact fun h => ⟨mem_of_lookup h, key_of_lookup h⟩
  · rintro ⟨hr, rfl⟩
    exact lookup_mem hs.chained.revisionIds hr

theorem mem_claimConflicts (hs : Consistent s) (hreserves : a.reservesEndpoints = true)
    {x : DecisionConflict} (h : x ∈ claimConflicts workspace book a (some excluding) s) :
    ∃ c r, Overlaps s workspace book a excluding c r ∧ x.decisionId = r.decision ∧
      x.revisionId = r.id := by
  rw [claimConflicts, if_pos hreserves] at h
  obtain ⟨r, hr, rfl⟩ := List.mem_map.mp ((mem_sortOn _ _ _).mp h)
  obtain ⟨hr, hother⟩ := List.mem_filter.mp hr
  obtain ⟨id, hid, hlook⟩ := List.mem_filterMap.mp hr
  obtain ⟨c, hc, rfl⟩ := List.mem_map.mp (List.mem_dedup.mp hid)
  obtain ⟨hc, hend⟩ := List.mem_filter.mp hc
  obtain ⟨hc, hown⟩ := List.mem_filter.mp hc
  obtain ⟨hmem, hrev⟩ := (revisionOf_mem hs).mp hlook
  simp only [Bool.and_eq_true, decide_eq_true_eq] at hown hend
  refine ⟨c, r, ⟨hc, hown.1, hown.2, hend, hmem, hrev.symm, ?_⟩, rfl, rfl⟩
  intro he
  simp [he] at hother

theorem overlap_listed (hs : Consistent s) (hreserves : a.reservesEndpoints = true)
    {c : ActiveDecisionClaim} {r : DecisionRevision}
    (h : Overlaps s workspace book a excluding c r) :
    r.id ∈ (claimConflicts workspace book a (some excluding) s).map (·.revisionId) := by
  rw [claimConflicts, if_pos hreserves]
  refine List.mem_map.mpr ⟨_, (mem_sortOn _ _ _).mpr (List.mem_map.mpr ⟨r, List.mem_filter.mpr ⟨?_, ?_⟩,
    rfl⟩), rfl⟩
  · refine List.mem_filterMap.mpr ⟨r.id, List.mem_dedup.mpr (List.mem_map.mpr ⟨c, ?_, h.held⟩),
      (revisionOf_mem hs).mpr ⟨h.revision, rfl⟩⟩
    exact List.mem_filter.mpr ⟨List.mem_filter.mpr ⟨h.claim, by simp [h.workspace, h.book]⟩,
      by simpa using h.endpoint⟩
  · simpa using fun he => h.other he.symm

theorem filterMap_ids (s : Store) (ids : List Uuid) :
    ((ids.filterMap (revisionOf s)).map (·.id)).Sublist ids := by
  induction ids with
  | nil => exact List.Sublist.slnil
  | cons id ids ih =>
    cases h : revisionOf s id with
    | none =>
      rw [List.filterMap_cons_none h]
      exact ih.cons id
    | some r =>
      rw [List.filterMap_cons_some h, List.map_cons, key_of_lookup h]
      exact ih.cons_cons id

theorem claimConflicts_nodup (s : Store) (workspace book : ℕ) (a : DecisionAuthority)
    (excluding : Uuid) :
    ((claimConflicts workspace book a (some excluding) s).map (·.revisionId)).Nodup := by
  unfold claimConflicts
  split_ifs
  · refine ((sortOn_perm _ _).map _).nodup_iff.mpr ?_
    rw [List.map_map]
    refine List.Nodup.sublist ((List.filter_sublist.map _).trans (filterMap_ids s _)) ?_
    exact List.nodup_dedup _
  · exact List.nodup_nil

theorem overlap_active (hs : Consistent s) {c : ActiveDecisionClaim} {r : DecisionRevision}
    (h : Overlaps s workspace book a excluding c r) :
    ∃ d, ActiveAs s d r ∧ d.id = r.decision ∧ d.workspace = workspace ∧ d.book = book := by
  obtain ⟨d, r', b, hd, _, hmem⟩ := (hs.claimed c).mp h.claim
  obtain ⟨hw, hb, hrev, _⟩ := mem_claimsOf hmem
  obtain rfl := hs.chained.revision_eq hd.2.1 h.revision (hrev.symm.trans h.held)
  exact ⟨d, hd, (hs.chained.current hd.1 hd.2.1 hd.2.2.1).symm, hw.symm.trans h.workspace,
    hb.symm.trans h.book⟩

theorem active_unique (hs : Consistent s) {d d' : Decision} {r r' : DecisionRevision}
    (h : ActiveAs s d r) (h' : ActiveAs s d' r') (he : d.id = d'.id) : r = r' := by
  obtain rfl := hs.chained.decision_eq h.1 h'.1 he
  exact hs.chained.revision_eq h.2.1 h'.2.1 (h.2.2.1.symm.trans h'.2.2.1)

/-- Once the target and its conflicts have dropped their claims, the records
are free. -/
theorem free_after_drop (hs : Consistent s) (hh : Housed s)
    (hids : (s.books.map (·.id)).Nodup) {b : Book} (hb : b ∈ s.books) (hid : b.id = book)
    (hw : b.workspace = workspace) {d : Decision} {current : DecisionRevision}
    (hd : ActiveAs s d current) (new : Uuid) :
    Free (dropClaims workspace book (current.id ::
      (claimConflicts workspace book a (some d.id) s).map (·.revisionId)) s)
      (claimsOf workspace book a new) := by
  intro c hc old hold ⟨hbook, hlogical⟩
  obtain ⟨_, hcb, _, hend⟩ := mem_claimsOf hc
  have hreserves : a.reservesEndpoints = true := by
    by_contra hno
    rw [claimsOf, if_neg hno] at hc
    cases hc
  obtain ⟨hmem, hkept⟩ := List.mem_filter.mp hold
  obtain ⟨e, r, _, he, _, hclaim⟩ := (hs.claimed old).mp hmem
  obtain ⟨how, hob, hrev, _⟩ := mem_claimsOf hclaim
  -- The book of a claim is of the workspace of its decision.
  obtain ⟨b', hb', hbid, hbw⟩ := hh e he.1
  have hsame : b' = b := eq_of_key_eq Book.id hids hb' hb
    (hbid.trans (hob.symm.trans (hbook.trans (hcb.trans hid.symm))))
  subst hsame
  have hworkspace : old.workspace = workspace := how.trans (hbw.symm.trans hw)
  have hgone : old.decisionRevision ∈ current.id ::
      (claimConflicts workspace book a (some d.id) s).map (·.revisionId) := by
    rw [hrev]
    by_cases hdec : r.decision = d.id
    · have hcurrent := hs.chained.current he.1 he.2.1 he.2.2.1
      rw [active_unique hs he hd (hcurrent.symm.trans hdec)]
      exact List.mem_cons_self
    · exact List.mem_cons_of_mem _ (overlap_listed hs hreserves
        ⟨hmem, hworkspace, hbook.trans hcb, hlogical ▸ hend, he.2.1, hrev, hdec⟩)
  simp [hworkspace, hbook.trans hcb] at hkept
  simp only [List.mem_cons, List.mem_map] at hgone
  rcases hgone with hgone | ⟨x, hx, hxr⟩
  · exact hkept.1 hgone
  · exact hkept.2 x hx hxr

end Conflicts

section Next
variable {s : Store} {d : Decision} {current : DecisionRevision}

theorem chain_follows {p : Option Uuid} {n : ℕ} {l : List DecisionRevision} (h : Chain p n l) :
    ∀ r ∈ l, r.revision < n+l.length ∧
      ∀ q, r.predecessor = some q → p = some q ∨ q ∈ l.dropLast.map (·.id) := by
  induction l generalizing p n with
  | nil => exact fun r hr => by cases hr
  | cons x l ih =>
    obtain ⟨hp, hn, hrest⟩ := h
    intro r hr
    rcases List.mem_cons.mp hr with rfl | hr
    · refine ⟨?_, fun q hq => .inl (hp.symm.trans hq)⟩
      rw [List.length_cons]
      omega
    · obtain ⟨hlt, hq⟩ := ih hrest r hr
      refine ⟨?_, fun q hq' => .inr ?_⟩
      · rw [List.length_cons]
        omega
      · have hne : l ≠ [] := List.ne_nil_of_mem hr
        rw [List.dropLast_cons_of_ne_nil hne, List.map_cons]
        rcases hq q hq' with hx | hx
        · rw [Option.some.inj hx]
          exact List.mem_cons_self
        · exact List.mem_cons_of_mem _ hx

theorem chain_last {p : Option Uuid} {n : ℕ} {earlier : List DecisionRevision}
    {last : DecisionRevision} (h : Chain p n (earlier ++ [last])) :
    last.revision = n+earlier.length := by
  induction earlier generalizing p n with
  | nil => exact h.2.1
  | cons x earlier ih =>
    rw [ih h.2.2, List.length_cons]
    omega

/-- A revision after the current one is inserted. -/
theorem addRevision_next (hs : Consistent s) (hd : ActiveAs s d current) {r : DecisionRevision}
    (hfresh : r.id ∉ s.revisions.map (·.id)) (hdec : r.decision = d.id)
    (hp : r.predecessor = some current.id) (hn : r.revision = current.revision+1) :
    addRevision r s = .ok (withRevision s r) := by
  obtain ⟨hchain, earlier, last, hhistory, hlast⟩ := hs.chained.chains d hd.1
  have hmem : last ∈ history s.revisions d.id := hhistory ▸ List.mem_append_right _ (by simp)
  obtain rfl := hs.chained.revision_eq (List.mem_filter.mp hmem).1 hd.2.1
    (hlast.symm.trans hd.2.2.1)
  rw [hhistory] at hchain
  have hnumber : ∀ old ∈ s.revisions, old.decision = r.decision → old.revision ≠ r.revision := by
    intro old hold hod
    have hin : old ∈ earlier ++ [last] := by
      rw [← hhistory]
      exact List.mem_filter.mpr ⟨hold, by simpa using hod.trans hdec⟩
    have hlt := (chain_follows hchain old hin).1
    rw [hn, chain_last hchain]
    rw [List.length_append, List.length_singleton] at hlt
    omega
  have hpredecessor : r.predecessor ∉ s.revisions.map (·.predecessor) := by
    rw [hp]
    intro hin
    obtain ⟨old, hold, hpre⟩ := List.mem_map.mp hin
    obtain ⟨e, he, hedec⟩ := hs.chained.owned old hold
    obtain ⟨hchain', earlier', last', hhistory', _⟩ := hs.chained.chains e he
    have hin : old ∈ earlier' ++ [last'] := by
      rw [← hhistory']
      exact List.mem_filter.mpr ⟨hold, by simpa using hedec.symm⟩
    rw [hhistory'] at hchain'
    rcases (chain_follows hchain' old hin).2 _ hpre with hnone | hin'
    · cases hnone
    · rw [List.dropLast_concat] at hin'
      obtain ⟨x, hx, hxid⟩ := List.mem_map.mp hin'
      -- The chain of one decision only has its own revisions, and its last is the current one.
      have hxh : x ∈ history s.revisions e.id := hhistory' ▸ List.mem_append_left _ hx
      have hxs := List.mem_filter.mp hxh
      obtain rfl := hs.chained.revision_eq hxs.1 hd.2.1 hxid
      have hed : e = d := hs.chained.decision_eq he hd.1 (by
        have hx' : x.decision = e.id := by simpa using hxs.2
        have hx'' : x.decision = d.id := by simpa using (List.mem_filter.mp hmem).2
        exact hx'.symm.trans hx'')
      subst hed
      have hsame : earlier' ++ [last'] = earlier ++ [x] := hhistory'.symm.trans hhistory
      obtain ⟨rfl, _⟩ := List.append_inj' hsame rfl
      have hnodup : ((earlier' ++ [x]).map (·.id)).Nodup := by
        rw [← hhistory]
        exact hs.chained.revisionIds.sublist (List.filter_sublist.map _)
      rw [List.map_append, List.nodup_append] at hnodup
      exact hnodup.2.2 x.id (List.mem_map_of_mem hx) x.id (by simp) rfl
  unfold addRevision
  simp only [demand, if_pos hfresh, if_pos hnumber, hpredecessor, not_false_eq_true, or_true,
    if_true, ok_bind]
  rfl

end Next

section Commit
variable {digest : Digest} {s : Store} {workspace book : ℕ} {target : ExpectedDecisionRevision}
  {authority : DecisionAuthority} {now later : Instant} {p : ReplacementPreview}
  {command : DecisionCommand} {revisionId : Uuid}

theorem refusing_ok {α : Type} {x : Except DecisionFailure α} {a : α} :
    refusing x = .ok a ↔ x = .ok a := by
  cases x <;> simp [refusing]

structure Previewed (workspace book : ℕ) (s : Store) (p : ReplacementPreview) (b : Book)
    (d : Decision) (current : DecisionRevision) (logicals : List LogicalTransaction) : Prop where
  locked : lockedBook workspace book s = .ok b
  found : currentRevision workspace book p.target s = .ok current
  active : ActiveAs s d current
  workspace_eq : d.workspace = workspace
  book_eq : d.book = book
  target : p.target = ⟨d.id, current.id⟩
  decision : current.decision = d.id
  logicals : resolveAuthority workspace book p.authority s = .ok logicals
  conflicts : p.conflicts = claimConflicts workspace book p.authority (some d.id) s
  generation : p.resolutionGeneration = b.resolutionGeneration

theorem preview_ok (hs : Consistent s)
    (h : previewReplacement workspace book target authority now s = .ok p) :
    ∃ b d current logicals, Previewed workspace book s p b d current logicals := by
  simp only [previewReplacement, bind_ok, refusing_ok] at h
  obtain ⟨_, _, b, hb, current, hcurrent, logicals, hlogicals, h⟩ := h
  split_ifs at h
  obtain rfl := Except.ok.inj h
  obtain ⟨d, hd, hw, hbook, htarget⟩ := currentRevision_ok hcurrent
  have hdecision := hs.chained.current hd.1 hd.2.1 hd.2.2.1
  exact ⟨b, d, current, logicals, hb, hcurrent, hd, hw, hbook, htarget, hdecision, hlogicals,
    congrArg (fun id => claimConflicts workspace book authority (some id) s) hdecision, rfl⟩

theorem conflicts_sorted (a : DecisionAuthority) (excluding : Option Uuid) :
    ((claimConflicts workspace book a excluding s).map (·.expected)) =
      sortOn (·.order) ((claimConflicts workspace book a excluding s).map (·.expected)) := by
  refine (sortOn_eq_self _ (List.pairwise_map.mpr ?_)).symm
  unfold claimConflicts
  split_ifs
  · exact sortOn_pairwise _ _
  · exact List.Pairwise.nil

theorem requireActiveWorkspace_error {e : DecisionFailure}
    (h : requireActiveWorkspace workspace now s = .error e) : e = .mutationUnavailable := by
  unfold requireActiveWorkspace at h
  cases hw : lookup Workspace.id s.workspaces workspace with
  | none =>
    rw [hw] at h
    exact (Except.error.inj h).symm
  | some w =>
    rw [hw] at h
    change demand _ _ = _ at h
    unfold demand at h
    split_ifs at h
    exact (Except.error.inj h).symm

theorem resolveReviewed_error {logicals : List LogicalTransaction} {e : DecisionFailure}
    (h : resolveReviewed workspace command logicals s = .error e) : e = .mutationUnavailable := by
  simp only [resolveReviewed, bind_eq_error, demand] at h
  split_ifs at h <;> simp_all

theorem addRevision_error {r : DecisionRevision} {e : DecisionFailure}
    (h : addRevision r s = .error e) : e = .integrity := by
  simp only [addRevision, bind_eq_error, demand] at h
  split_ifs at h <;> simp_all

theorem superseded_eq {b : Book} {d : Decision} {current : DecisionRevision}
    {logicals : List LogicalTransaction} (hp : Previewed workspace book s p b d current logicals) :
    p.superseded = current.id :: (claimConflicts workspace book p.authority (some d.id) s).map
      (·.revisionId) := by
  rw [ReplacementPreview.superseded, hp.target, hp.conflicts]

theorem superseded_active (hs : Consistent s) {b : Book} {d : Decision}
    {current : DecisionRevision} {logicals : List LogicalTransaction}
    (hp : Previewed workspace book s p b d current logicals) {id : Uuid} (h : id ∈ p.superseded) :
    ∃ e r, ActiveAs s e r ∧ e.workspace = workspace ∧ e.book = book ∧ r.id = id ∧
      (id = current.id ∨ p.authority.reservesEndpoints = true ∧ ∃ c ∈ s.claims,
        c.workspace = workspace ∧ c.book = book ∧ c.decisionRevision = id) := by
  rw [superseded_eq hp] at h
  rcases List.mem_cons.mp h with rfl | h
  · exact ⟨d, current, hp.active, hp.workspace_eq, hp.book_eq, rfl, .inl rfl⟩
  · obtain ⟨x, hx, rfl⟩ := List.mem_map.mp h
    have hreserves := (claimConflicts_claimed hx).1
    obtain ⟨c, r, hr, _, hid⟩ := mem_claimConflicts hs hreserves hx
    obtain ⟨e, he, _, hw, hbook⟩ := overlap_active hs hr
    exact ⟨e, r, he, hw, hbook, hid.symm, .inr ⟨hreserves, c, hr.claim, hr.workspace, hr.book,
      hr.held.trans hid.symm⟩⟩

theorem superseded_nodup (hs : Consistent s) {b : Book} {d : Decision}
    {current : DecisionRevision} {logicals : List LogicalTransaction}
    (hp : Previewed workspace book s p b d current logicals) : p.superseded.Nodup := by
  rw [superseded_eq hp, List.nodup_cons]
  refine ⟨fun hmem => ?_, claimConflicts_nodup s workspace book _ _⟩
  obtain ⟨x, hx, hxr⟩ := List.mem_map.mp hmem
  have hreserves := (claimConflicts_claimed hx).1
  obtain ⟨_, r, hr, _, hxid⟩ := mem_claimConflicts hs hreserves hx
  obtain rfl := hs.chained.revision_eq hr.revision hp.active.2.1 (hxid.symm.trans hxr)
  exact hr.other hp.decision

theorem addClaims_free {a : DecisionAuthority}
    (h : Free s (claimsOf workspace book a revisionId)) :
    addClaims workspace book a revisionId s =
      .ok { s with claims := s.claims ++ claimsOf workspace book a revisionId } := by
  unfold Free at h
  unfold addClaims
  simp only [demand]
  rw [if_pos h]
  rfl

/-- The command of a preview checks the workspace and the reviewed observations
and inserts its revision; the rest succeeds. -/
theorem commit_previewed (hs : Consistent s) (hh : Housed s)
    (hids : (s.books.map (·.id)).Nodup) {b : Book} {d : Decision} {current : DecisionRevision}
    {logicals : List LogicalTransaction} (hp : Previewed workspace book s p b d current logicals)
    (hrequest : command.request = p.request)
    (hgeneration : command.expectedResolutionGeneration = p.resolutionGeneration) :
    commitChange digest workspace book command later revisionId s = (do
      requireActiveWorkspace workspace later s
      let observations ← resolveReviewed workspace command logicals s
      let made := lifecycleRevision digest workspace current command (some p.authority)
        observations later revisionId
      let _ ← addRevision made s
      .ok (bump workspace book (replaced s d made p.authority p.superseded later))) := by
  obtain ⟨inherited, hinherited⟩ := hs.chained.authority current hp.active.2.1
    (live_iff.mp hp.active.2.2.2).1
  have hlocked := hp.locked
  rw [lockedBook, fetch_ok] at hlocked
  have hkeys := List.find?_some hlocked
  simp only [Bool.and_eq_true, decide_eq_true_eq] at hkeys
  have hfree := @free_after_drop s workspace book p.authority hs hh hids b
    (List.mem_of_find?_eq_some hlocked) hkeys.1 hkeys.2 d current hp.active revisionId
  rw [← superseded_eq hp] at hfree
  have hactual : p.conflicts.map (·.expected) =
      sortOn (·.order) (p.conflicts.map (·.expected)) := by
    rw [hp.conflicts]
    exact conflicts_sorted _ _
  have hgone : current.id :: p.conflicts.map (·.revisionId) = p.superseded := by
    rw [superseded_eq hp, hp.conflicts]
  unfold commitChange
  rw [hrequest]
  simp only [ReplacementPreview.request, fetch, ok_bind, hp.locked, requireGeneration, demand,
    hgeneration, hp.generation, if_true, hp.found, hinherited, hp.logicals, hp.decision,
    ← hp.conflicts, hgone]
  cases requireActiveWorkspace workspace later s with
  | error e => rfl
  | ok _ =>
    simp only [ok_bind]
    cases resolveReviewed workspace command logicals s with
    | error e => rfl
    | ok observations =>
      simp only [ok_bind]
      rw [if_pos hactual, ok_bind]
      cases hadd : addRevision (lifecycleRevision digest workspace current command
          (some p.authority) observations later revisionId) s with
      | error e => rfl
      | ok t =>
        obtain ⟨hf, rfl⟩ := addRevision_ok hadd
        have hfresh : revisionId ∉ p.superseded := by
          intro hmem
          obtain ⟨_, r, hr, _, _, hid, _⟩ := superseded_active hs hp hmem
          exact hf (List.mem_map.mpr ⟨r, hr.2.1, hid⟩)
        obtain rfl := hp.workspace_eq
        obtain rfl := hp.book_eq
        simp only [ok_bind, supersede, demand]
        rw [if_pos ⟨superseded_nodup hs hp, hfresh⟩]
        simp only [ok_bind]
        rw [addClaims_free]
        · rfl
        · exact hfree

/-- What the command writes is the replacement. -/
theorem replaced_replaces (hs : Consistent s) {b : Book} {d : Decision}
    {current r : DecisionRevision} {logicals : List LogicalTransaction}
    (hp : Previewed workspace book s p b d current logicals)
    (new : NewRevision s r d.id (some current.id) (current.revision+1) .replace
      (some p.authority)) :
    Replaces workspace book p r.id later s
      (bump workspace book (replaced s d r p.authority p.superseded later)) := by
  have hadvances := replaced_advances hs p.authority later hp.active new fun id hid hne => by
    obtain ⟨_, _, _, _, _, _, hcase⟩ := superseded_active hs hp hid
    rw [hp.workspace_eq, hp.book_eq]
    exact (hcase.resolve_left hne).2
  have hgone : current.id ∈ p.superseded := by
    rw [superseded_eq hp]
    exact List.mem_cons_self
  have hactive : ∀ x y, ActiveAs (bump workspace book (replaced s d r p.authority p.superseded
      later)) x y ↔ (x = { d with currentRevision := r.id } ∧ y = r ∧ r.action ≠ .revoke) ∨
        (x.id ≠ d.id ∧ ActiveAs s x y ∧ y.id ∉ p.superseded) := fun x y =>
    (activeAs_congr rfl rfl rfl).trans (hadvances.activeAs hs)
  have hreplace : r.action ≠ .revoke := by
    rw [new.action]
    decide
  constructor
  · show s.supersessions ++ _ = _
    rw [hp.workspace_eq]
  · intro id hid
    obtain ⟨e, y, he, _, hbook, hy, _⟩ := superseded_active hs hp hid
    exact ⟨e, y, he, hbook, hy⟩
  · intro x y hxy
    rcases (hactive x y).mp hxy with ⟨_, rfl, _⟩ | ⟨_, _, hnot⟩
    · exact hadvances.notGone
    · exact hnot
  · refine ⟨{ d with currentRevision := r.id }, r, (hactive _ _).mpr (.inl ⟨rfl, rfl, hreplace⟩),
      ?_, rfl, new.authority⟩
    rw [hp.target]
  · intro x y hxy hnot
    have hne : x.id ≠ d.id := by
      intro he
      exact hnot (active_unique hs hxy hp.active he ▸ hgone)
    refine ⟨(hactive x y).mpr (.inr ⟨hne, hxy, hnot⟩), fun c hc => ?_⟩
    show c ∈ (dropClaims _ _ _ s).claims ++ claimsOf _ _ _ _ ↔ _
    rw [List.mem_append]
    constructor
    · rintro (hkept | hclaim)
      · exact (List.mem_filter.mp hkept).1
      · exact absurd (hc.symm.trans (mem_claimsOf hclaim).2.2.1) (stored_ne new.fresh hxy.2.1)
    · intro hmem
      refine .inl (List.mem_filter.mpr ⟨hmem, ?_⟩)
      simp [hc, hnot]

end Commit

section Books
variable {sha : Ingestion.Sha256} {digest : Digest} {s t : Runs.Store}

theorem housed_kept (h : Housed s.review) (hd : t.review.decisions = s.review.decisions)
    (hb : s.review.books ⊆ t.review.books) : Housed t.review := by
  intro d hmem
  obtain ⟨b, hbook, hrest⟩ := h d (hd ▸ hmem)
  exact ⟨b, hb hbook, hrest⟩

/-- A command gives a new decision the book it locked. -/
theorem housed_decided {a : Store} (hs : Consistent s.review) (h : Housed s.review) {c : Command}
    {workspace book : ℕ} {command : DecisionCommand}
    (hc : decisionOf c = some (workspace, book, command))
    (ha : perform digest s.review c = .ok a) : Housed a := by
  obtain ⟨⟨owner, howner, hid, hw, _⟩, b, hb, rfl⟩ := perform_decision hs hc ha
  have hbooks := DecisionLaws.written_books hb
  have hkept : ∀ e ∈ s.review.books, ∃ y ∈ (bump workspace book b).books,
      y.id = e.id ∧ y.workspace = e.workspace := by
    intro e he
    refine ⟨_, mem_revise.mpr ⟨e, hbooks ▸ he, rfl⟩, ?_⟩
    split <;> exact ⟨rfl, rfl⟩
  have hplaced : ∀ d ∈ s.review.decisions, ∃ y ∈ (bump workspace book b).books,
      y.id = d.book ∧ y.workspace = d.workspace := by
    intro d hd
    obtain ⟨e, he, heid, hew⟩ := h d hd
    obtain ⟨y, hy, hyid, hyw⟩ := hkept e he
    exact ⟨y, hy, hyid.trans heid, hyw.trans hew⟩
  have hadvanced : ∀ {d : Decision} {r : DecisionRevision},
      ∀ x ∈ advanced d r s.review.decisions, ∃ y ∈ (bump workspace book b).books,
        y.id = x.book ∧ y.workspace = x.workspace := by
    intro d r x hx
    obtain ⟨old, hold, rfl⟩ := mem_advanced.mp hx
    split <;> exact hplaced old hold
  generalize command.request = request at hb
  cases hb with
  | committed fresh current new free =>
    intro x hx
    rcases List.mem_append.mp hx with hx | hx
    · exact hplaced x hx
    · obtain ⟨y, hy, hyid, hyw⟩ := hkept owner howner
      rw [List.mem_singleton.mp hx]
      exact ⟨y, hy, hyid.trans hid, hyw.trans hw⟩
  | reaffirmed active new => exact fun x hx => hadvanced x hx
  | revoked active new => exact fun x hx => hadvanced x hx
  | replaced active new target conflicts free => exact fun x hx => hadvanced x hx

theorem step_housed (hs : Invalidation.Coherent s) (h : Housed s.review)
    (hstep : Invalidation.Step sha digest s t) : Housed t.review := by
  cases hstep with
  | bookCreated => exact housed_kept h rfl (List.subset_append_left _ _)
  | datasetCreated ht =>
    simp only [Invalidation.createDataset, bind_ok, Except.ok.injEq] at ht
    obtain ⟨_, _, rfl⟩ := ht
    exact h
  | scopeCreated ht =>
    simp only [Invalidation.createScope, bind_ok, Except.ok.injEq] at ht
    obtain ⟨_, _, _, _, _, _, _, _, rfl⟩ := ht
    exact h
  | activated ht =>
    simp only [Invalidation.activate, Invalidation.markDatasetActivation, bind_ok,
      Except.ok.injEq] at ht
    obtain ⟨_, _, _, _, rfl⟩ := ht
    exact h
  | requested ht =>
    obtain ⟨_, ⟨rfl, _⟩ | ⟨_, _, rfl⟩⟩ := Policies.createRevision_ok ht
    · exact h
    · exact h
  | prepared ht =>
    rcases Policies.ensurePolicy_ok ht with rfl | ⟨_, _, rfl⟩
    · exact h
    · exact h
  | decided hc ha => exact housed_decided hs.consistent h hc ha
  | created ht =>
    obtain ⟨_, _, _, rfl | ⟨rfl, _⟩⟩ := Freshness.createRunManifest_made ht
    · exact h
    · exact h
  | claimed ht => exact Policies.claimRun_ok ht ▸ h
  | failed ht =>
    rcases Policies.failRun_ok ht with rfl | rfl
    · exact h
    · exact h
  | published ht =>
    obtain ⟨_, _, _, _, _, _, _, _, hp⟩ := PublicationRuns.publishRun_ok ht
    obtain ⟨_, hreview⟩ :=
      (Freshness.published_steady (Policies.publishRun_inputs ht) hp).review
    rw [hreview]
    exact h
  | other => exact h

theorem reached_housed (h : Invalidation.Reached sha digest s) : Housed s.review := by
  induction h with
  | refl => exact fun d hd => by cases hd
  | tail hreached hstep ih => exact step_housed (Freshness.reached_coherent hreached) ih hstep

/-- In every state that the services reach, the command of a preview fails at
most for its workspace, its reviewed observations or a taken id, never for its
conflicts or a claim, and what it writes is the replacement that was previewed. -/
theorem replacement_as_previewed (h : Invalidation.Reached sha digest s) {workspace book : ℕ}
    {target : ExpectedDecisionRevision} {authority : DecisionAuthority} {now : Instant}
    {p : ReplacementPreview}
    (hp : previewReplacement workspace book target authority now s.review = .ok p)
    {command : DecisionCommand} (hrequest : command.request = p.request)
    (hgeneration : command.expectedResolutionGeneration = p.resolutionGeneration)
    (later : Instant) (revisionId : Uuid) :
    (∀ e, commitChange digest workspace book command later revisionId s.review = .error e →
      e = .mutationUnavailable ∨ e = .integrity) ∧
    (∀ logicals observations, requireActiveWorkspace workspace later s.review = .ok () →
      resolveAuthority workspace book authority s.review = .ok logicals →
      resolveReviewed workspace command logicals s.review = .ok observations →
      revisionId ∉ s.review.revisions.map (·.id) →
      ∃ t, commitChange digest workspace book command later revisionId s.review = .ok t) ∧
    ∀ t, commitChange digest workspace book command later revisionId s.review = .ok t →
      Replaces workspace book p revisionId later s.review t := by
  have hcoherent := Freshness.reached_coherent h
  have hs := hcoherent.consistent
  obtain ⟨b, d, current, logicals, hprevious⟩ := preview_ok hs hp
  have hauthority : p.authority = authority := by
    simp only [previewReplacement, bind_ok, refusing_ok] at hp
    obtain ⟨_, _, _, _, _, _, _, _, hp⟩ := hp
    split_ifs at hp
    exact Except.ok.inj hp ▸ rfl
  have hcommit := @commit_previewed digest s.review workspace book later p command revisionId hs
    (reached_housed h) hcoherent.books.nodup b d current logicals hprevious hrequest hgeneration
  have hnew : ∀ observations, revisionId ∉ s.review.revisions.map (·.id) →
      NewRevision s.review (lifecycleRevision digest workspace current command (some p.authority)
        observations later revisionId) d.id (some current.id) (current.revision+1) .replace
        (some p.authority) := by
    intro observations hfresh
    refine ⟨hprevious.decision, rfl, rfl, ?_, rfl, hfresh⟩
    show command.request.action = _
    rw [hrequest]
    rfl
  rw [hcommit]
  refine ⟨fun e he => ?_, fun logicals' observations hactive hlogicals hreviewed hfresh => ?_,
    fun t ht => ?_⟩
  · simp only [bind_eq_error] at he
    rcases he with he | ⟨_, _, he | ⟨_, _, he | ⟨_, _, he⟩⟩⟩
    · exact .inl (requireActiveWorkspace_error he)
    · exact .inl (resolveReviewed_error he)
    · exact .inr (addRevision_error he)
    · cases he
  · rw [← hauthority, hprevious.logicals, Except.ok.injEq] at hlogicals
    subst hlogicals
    have hadd := addRevision_next hs hprevious.active hfresh (hnew observations hfresh).decision rfl
      rfl
    simp only [hactive, hreviewed, hadd, ok_bind]
    exact ⟨_, rfl⟩
  · simp only [bind_ok] at ht
    obtain ⟨_, _, observations, _, t', hadd, ht⟩ := ht
    rw [← Except.ok.inj ht]
    exact replaced_replaces hs hprevious (hnew observations (addRevision_ok hadd).1)

end Books

def firstRecord : Uuid := ⟨"first-record", by decide, by decide⟩

def secondRecord : Uuid := ⟨"second-record", by decide, by decide⟩

def thirdRecord : Uuid := ⟨"third-record", by decide, by decide⟩

def deskCommand (request : Request) (generation : ℕ) (reviewed : List Uuid)
    (distinct : reviewed.Nodup) (length : request.Reviewed reviewed.length)
    (valid : request.Conflicts) : DecisionCommand :=
  ⟨request, "one trade", "desk", generation, reviewed, by decide, by decide, distinct, length, valid⟩

def pairedCommand : DecisionCommand :=
  deskCommand (.initial (.link ⟨firstRecord, secondRecord, by decide⟩)) 0
    [firstRecord, secondRecord] (by decide) rfl trivial

def acceptedCommand : DecisionCommand :=
  deskCommand (.initial (.acceptUnmatched thirdRecord .right)) 1 [thirdRecord] (by decide) rfl
    trivial

def crossedAuthority : DecisionAuthority := .link ⟨firstRecord, thirdRecord, by decide⟩

def crossedCommand : DecisionCommand :=
  deskCommand (.replace ⟨firstRecord, firstRecord⟩ crossedAuthority
    [⟨secondRecord, secondRecord⟩]) 2 [firstRecord, thirdRecord] (by decide) rfl (by decide)

def recorded : Runs.Store :=
  Invalidation.elsewhere [⟨1, .active, 1000, none, none, ⟨0, 1, 0⟩⟩]
    [⟨firstRecord, 1, 0, .left⟩, ⟨secondRecord, 1, 0, .right⟩, ⟨thirdRecord, 1, 0, .right⟩]
    [⟨firstRecord, 1, firstRecord, "a"⟩, ⟨secondRecord, 1, secondRecord, "b"⟩,
      ⟨thirdRecord, 1, thirdRecord, "c"⟩] (Invalidation.createBook 1 Runs.Store.empty)

def deciding (c : Command) (s : Runs.Store) : Except DecisionFailure Runs.Store :=
  (fun a => { s with review := a }) <$> perform checksum s.review c

/-- The first record is linked with the second, the third is accepted. -/
def decidedTwice : Runs.Store :=
  Freshness.after (Freshness.after recorded
    (deciding (.initial 1 0 pairedCommand 5 firstRecord firstRecord)))
    (deciding (.initial 1 0 acceptedCommand 6 secondRecord secondRecord))

theorem decidedTwice_reached {sha : Ingestion.Sha256} :
    Invalidation.Reached sha checksum decidedTwice := by
  have hrecorded : Invalidation.Reached sha checksum recorded :=
    (Relation.ReflTransGen.refl.tail (.bookCreated _ 1)).tail (.other _ _ _ _)
  have hdecided : ∀ {s t : Runs.Store} {decision : Uuid} {command : DecisionCommand}
      {now : Instant}, deciding (.initial 1 0 command now decision decision) s = .ok t →
      Invalidation.Step sha checksum s t := by
    intro s t decision command now ht
    obtain ⟨a, ha, rfl⟩ := map_ok.mp ht
    exact .decided rfl ha
  exact Freshness.after_reached (Freshness.after_reached hrecorded fun _ _ => hdecided)
    fun _ _ => hdecided

/-- The replacement by a link of the first and the third record supersedes both
decisions. -/
theorem replacement_as_previewed_sample : ∃ p t,
    previewReplacement 1 0 ⟨firstRecord, firstRecord⟩ crossedAuthority 7 decidedTwice.review =
      .ok p ∧ p.superseded = [firstRecord, secondRecord] ∧
    commitChange checksum 1 0 crossedCommand 8 thirdRecord decidedTwice.review = .ok t ∧
      Replaces 1 0 p thirdRecord 8 decidedTwice.review t := by
  have hpreview : (match previewReplacement 1 0 ⟨firstRecord, firstRecord⟩ crossedAuthority 7
      decidedTwice.review with
    | .ok p => decide (p.superseded = [firstRecord, secondRecord] ∧
        crossedCommand.request = p.request ∧
        crossedCommand.expectedResolutionGeneration = p.resolutionGeneration)
    | .error _ => false) = true := by
    decide +kernel
  have hcommit : (commitChange checksum 1 0 crossedCommand 8 thirdRecord
      decidedTwice.review).toOption.isSome = true := by
    decide +kernel
  cases hp : previewReplacement 1 0 ⟨firstRecord, firstRecord⟩ crossedAuthority 7
      decidedTwice.review with
  | error e =>
    rw [hp] at hpreview
    cases hpreview
  | ok p =>
    rw [hp] at hpreview
    obtain ⟨hsuperseded, hrequest, hgeneration⟩ := of_decide_eq_true hpreview
    cases ht : commitChange checksum 1 0 crossedCommand 8 thirdRecord decidedTwice.review with
    | error e =>
      rw [ht] at hcommit
      cases hcommit
    | ok t =>
      exact ⟨p, t, rfl, hsuperseded, rfl, (replacement_as_previewed
        (@decidedTwice_reached Policies.sizeSha) hp hrequest hgeneration 8 thirdRecord).2.2 t ht⟩

end Workbench.Replacements
