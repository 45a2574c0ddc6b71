import Workbench.FrozenDecisions

/-!
# When the inputs of a run can be built

Claims keep linked and accepted records apart, so only rejections can clash:
the engine wants each pair rejected once, and a rejection claims nothing.
-/

set_option autoImplicit false

namespace Workbench.DoubleRejection
open Workbench.Listing Workbench.Tables Workbench.Calendar Workbench.Workspaces Workbench.Records
open Workbench.Json Workbench.Decisions Workbench.DecisionStore Workbench.DecisionLaws
open Workbench.Raising Workbench.FrozenDecisions

def decisionIdOf : Contribution → String
  | .manual link => link.decisionId
  | .accepted record => record.decisionId
  | .rejected r => r.decisionId
  | .reserved record => record.decisionId

def recordsOf : Contribution → List String
  | .manual link => [link.leftId, link.rightId]
  | .accepted record => [record.recordId]
  | .rejected _ => []
  | .reserved record => [record.recordId]

theorem decisionIds_perm (found : List Contribution) :
    ((found.filterMap manualOf).map (·.decisionId) ++
      (found.filterMap acceptedOf).map (·.decisionId) ++
      (found.filterMap rejectedOf).map (·.decisionId) ++
      (found.filterMap reservedOf).map (·.decisionId)).Perm (found.map decisionIdOf) := by
  rw [List.perm_iff_count]
  intro x
  induction found with
  | nil => rfl
  | cons c found ih =>
    simp only [List.count_append] at ih ⊢
    cases c <;>
      simp [List.filterMap_cons, manualOf, acceptedOf, rejectedOf, reservedOf, decisionIdOf,
        List.count_cons] <;> omega

theorem records_perm (found : List Contribution) :
    (((found.filterMap manualOf).map (·.leftId) ++ (found.filterMap manualOf).map (·.rightId)) ++
      ((found.filterMap acceptedOf).map (·.recordId) ++
        (found.filterMap reservedOf).map (·.recordId))).Perm (found.flatMap recordsOf) := by
  rw [List.perm_iff_count]
  intro x
  induction found with
  | nil => rfl
  | cons c found ih =>
    simp only [List.count_append] at ih ⊢
    cases c <;>
      simp [List.filterMap_cons, manualOf, acceptedOf, reservedOf, recordsOf,
        List.count_cons] <;> omega

section Rows
variable {inputs : RunInputs}

theorem observationOf_inj {a b x : Uuid} (ha : observationOf inputs a = some x)
    (hb : observationOf inputs b = some x) : a = b := by
  rw [observationOf, Option.map_eq_some_iff] at ha hb
  obtain ⟨i, hi, hix⟩ := ha
  obtain ⟨j, hj, hjx⟩ := hb
  have hij : i = j := eq_of_key_eq RunInput.observation inputs.observations_unique
    (mem_of_lookup hi) (mem_of_lookup hj) (hix.trans hjx.symm)
  rw [← key_of_lookup hi, ← key_of_lookup hj, hij]

def reservedBy (row : DecisionRevision) : List Uuid :=
  match row.authority with
  | some a => if a.reservesEndpoints then a.endpointIds else []
  | none => []

def rejectedBy (row : DecisionRevision) : Option Endpoints :=
  match row.authority with
  | some (.rejectCandidate pair) => some pair
  | _ => none

theorem contribution_decision {row : DecisionRevision} {c : Contribution}
    (h : contribution inputs row = some c) : decisionIdOf c = row.decision.text := by
  unfold contribution at h
  split at h
  · split at h <;> cases h <;> rfl
  · rw [Option.map_eq_some_iff] at h
    obtain ⟨_, _, rfl⟩ := h
    rfl
  · split at h <;> cases h
    rfl
  · cases h

theorem contribution_records (row : DecisionRevision) :
    ((contribution inputs row).toList.flatMap recordsOf) =
      ((reservedBy row).filterMap (observationOf inputs)).map (·.text) := by
  unfold contribution reservedBy
  cases ha : row.authority with
  | none => rfl
  | some a =>
    cases a with
    | link pair =>
      cases hl : observationOf inputs pair.left <;> cases hr : observationOf inputs pair.right <;>
        simp [hl, hr, DecisionAuthority.reservesEndpoints, DecisionAuthority.endpointIds,
          recordsOf, relationship, single]
    | acceptUnmatched record side =>
      cases hr : observationOf inputs record <;>
        simp [hr, DecisionAuthority.reservesEndpoints, DecisionAuthority.endpointIds,
          recordsOf, single]
    | rejectCandidate pair =>
      cases hl : observationOf inputs pair.left <;> cases hr : observationOf inputs pair.right <;>
        simp [hl, hr, DecisionAuthority.reservesEndpoints, recordsOf]

def edgeOf (inputs : RunInputs) (pair : Endpoints) : Option (String × String) :=
  match observationOf inputs pair.left, observationOf inputs pair.right with
  | some left, some right => some (left.text, right.text)
  | _, _ => none

theorem contribution_edge (row : DecisionRevision) :
    ((contribution inputs row).bind rejectedOf).map (·.edge) =
      (rejectedBy row).bind (edgeOf inputs) := by
  unfold contribution rejectedBy
  cases ha : row.authority with
  | none => rfl
  | some a =>
    cases a with
    | link pair =>
      cases hl : observationOf inputs pair.left <;> cases hr : observationOf inputs pair.right <;>
        simp [hl, hr, rejectedOf]
    | acceptUnmatched record side =>
      cases hr : observationOf inputs record <;> simp [hr, rejectedOf]
    | rejectCandidate pair =>
      cases hl : observationOf inputs pair.left <;> cases hr : observationOf inputs pair.right <;>
        simp [rejectedOf, edgeOf, hl, hr, relationship, Relationship.edge]

theorem records_eq (rows : List DecisionRevision) :
    (rows.filterMap (contribution inputs)).flatMap recordsOf =
      ((rows.flatMap reservedBy).filterMap (observationOf inputs)).map (·.text) := by
  induction rows with
  | nil => rfl
  | cons row rows ih =>
    rw [List.flatMap_cons, List.filterMap_append, List.map_append, ← contribution_records, ← ih]
    cases hc : contribution inputs row <;> simp [hc]

theorem edges_eq (rows : List DecisionRevision) :
    ((rows.filterMap (contribution inputs)).filterMap rejectedOf).map (·.edge) =
      (rows.filterMap rejectedBy).filterMap (edgeOf inputs) := by
  rw [List.filterMap_filterMap, List.filterMap_filterMap, List.map_filterMap]
  apply List.filterMap_congr
  intro row _
  exact contribution_edge row

theorem edgeOf_eq {pair : Endpoints} {e : String × String} (h : edgeOf inputs pair = some e) :
    ∃ left right, observationOf inputs pair.left = some left ∧
      observationOf inputs pair.right = some right ∧ e = (left.text, right.text) := by
  unfold edgeOf at h
  split at h
  next left right hl hr => exact ⟨left, right, hl, hr, (Option.some.inj h).symm⟩
  next => cases h

theorem edgeOf_inj {p q : Endpoints} {e : String × String} (hp : edgeOf inputs p = some e)
    (hq : edgeOf inputs q = some e) : p = q := by
  obtain ⟨l, r, hl, hr, rfl⟩ := edgeOf_eq hp
  obtain ⟨l', r', hl', hr', he⟩ := edgeOf_eq hq
  have hleft : l = l' := Uuid.text_injective (Prod.mk.inj he).1
  have hright : r = r' := Uuid.text_injective (Prod.mk.inj he).2
  subst hleft
  subst hright
  cases p
  cases q
  have h1 := observationOf_inj hl hl'
  have h2 := observationOf_inj hr hr'
  simp only at h1 h2
  subst h1
  subst h2
  rfl

end Rows

section Active
variable {s : Store} {workspace book : ℕ}

theorem mem_activeDecisions (hs : Consistent s) {r : DecisionRevision} :
    r ∈ activeDecisions workspace book s ↔
      ∃ d, ActiveAs s d r ∧ d.workspace = workspace ∧ d.book = book := by
  simp only [activeDecisions, mem_sortOn, List.mem_filterMap, List.mem_filter, Bool.and_eq_true,
    decide_eq_true_eq, revisionOf, Option.filter_eq_some_iff]
  constructor
  · rintro ⟨d, ⟨hd, hw, hb⟩, hr, hlive⟩
    exact ⟨d, ⟨hd, mem_of_lookup hr, (key_of_lookup hr).symm, hlive⟩, hw, hb⟩
  · rintro ⟨d, ⟨hd, hr, hc, hlive⟩, hw, hb⟩
    exact ⟨d, ⟨hd, hw, hb⟩, hc ▸ lookup_mem hs.chained.revisionIds hr, hlive⟩

theorem activeDecisions_nodup (hs : Consistent s) :
    ((activeDecisions workspace book s).map (·.decision)).Nodup := by
  rw [activeDecisions, nodup_map_sortOn, List.Nodup, List.pairwise_map, List.pairwise_filterMap]
  have hnodup := (hs.chained.decisionIds.of_map _).filter
    fun d => decide (d.workspace = workspace) && decide (d.book = book)
  apply hnodup.pairwise_of_forall_ne
  intro d hd d' hd' hne r hr r' hr' he
  rw [Option.filter_eq_some_iff] at hr hr'
  have hown := hs.chained.current (List.mem_filter.mp hd).1 (mem_of_lookup hr.1)
    (key_of_lookup hr.1).symm
  have hown' := hs.chained.current (List.mem_filter.mp hd').1 (mem_of_lookup hr'.1)
    (key_of_lookup hr'.1).symm
  exact hne (hs.chained.decision_eq (List.mem_filter.mp hd).1 (List.mem_filter.mp hd').1
    (hown.symm.trans (he.trans hown')))

theorem activeDecisions_pairwise (hs : Consistent s) {R : DecisionRevision → DecisionRevision → Prop}
    (h : ∀ d r d' r', ActiveAs s d r → ActiveAs s d' r' → d.workspace = d'.workspace →
      d.book = d'.book → d.id ≠ d'.id → R r r') :
    (activeDecisions workspace book s).Pairwise R := by
  apply ((activeDecisions_nodup hs).of_map _).pairwise_of_forall_ne
  intro r hr r' hr' hne
  obtain ⟨d, hd, hw, hb⟩ := (mem_activeDecisions hs).mp hr
  obtain ⟨d', hd', hw', hb'⟩ := (mem_activeDecisions hs).mp hr'
  apply h d r d' r' hd hd' (hw.trans hw'.symm) (hb.trans hb'.symm)
  intro he
  apply hne
  apply eq_of_key_eq DecisionRevision.decision (activeDecisions_nodup hs) hr hr'
  rw [hs.chained.current hd.1 hd.2.1 hd.2.2.1, hs.chained.current hd'.1 hd'.2.1 hd'.2.2.1, he]

/-- Claims keep the reserved records of active decisions apart. -/
theorem reserved_nodup (hs : Consistent s) :
    ((activeDecisions workspace book s).flatMap reservedBy).Nodup := by
  have hclaim : ∀ {d : Decision} {r : DecisionRevision} {id : Uuid}, ActiveAs s d r →
      id ∈ reservedBy r → (⟨d.workspace, d.book, id, r.id⟩ : ActiveDecisionClaim) ∈ s.claims := by
    intro d r id h hid
    unfold reservedBy at hid
    split at hid
    · rename_i a ha
      apply (hs.claimed _).mpr ⟨d, r, a, h, ha, ?_⟩
      unfold claimsOf
      split_ifs at hid ⊢ with hr
      · exact List.mem_map.mpr ⟨id, hid, rfl⟩
      · cases hid
    · cases hid
  rw [List.nodup_flatMap]
  constructor
  · intro r _
    unfold reservedBy
    split
    · split_ifs
      · exact endpointIds_nodup _
      · exact List.nodup_nil
    · exact List.nodup_nil
  · apply activeDecisions_pairwise hs
    intro d r d' r' h h' hw hb hne id hid hid'
    have heq := eq_of_key_eq (fun c => (c.book, c.logicalTransaction)) hs.claimsOnce
      (hclaim h hid) (hclaim h' hid') (by simp only [hb])
    have hrev : r = r' := hs.chained.revision_eq h.2.1 h'.2.1
      (congrArg ActiveDecisionClaim.decisionRevision heq)
    apply hne
    rw [← hs.chained.current h.1 h.2.1 h.2.2.1, ← hs.chained.current h'.1 h'.2.1 h'.2.2.1, hrev]

def Single (s : Store) : Prop :=
  ∀ d r d' r' pair, ActiveAs s d r → ActiveAs s d' r' → d.workspace = d'.workspace →
    d.book = d'.book → rejectedBy r = some pair → rejectedBy r' = some pair → d.id = d'.id

theorem rejected_nodup (hs : Consistent s) (h : Single s) :
    ((activeDecisions workspace book s).filterMap rejectedBy).Nodup := by
  rw [List.Nodup, List.pairwise_filterMap]
  apply activeDecisions_pairwise hs
  intro d r d' r' hd hd' hw hb hne p hp p' hp' he
  exact hne (h d r d' r' p hd hd' hw hb hp (he ▸ hp'))

theorem edgeText_nodup {edges : List (String × String)} (h : edges.Nodup)
    (hp : ∀ e ∈ edges, NulFree e.1) : (edges.map edgeText).Nodup := by
  apply List.Nodup.map_on ?_ h
  intro e he f hf heq
  exact edgeText_inj (hp e he) (hp f hf) heq

theorem inputs_valid (hs : Consistent s) (h : Single s) (inputs : RunInputs) :
    ∃ d, decisionInputs inputs (activeDecisions workspace book s) = .ok d := by
  unfold decisionInputs
  rw [createDecisionInputs_ok]
  have hids : (((activeDecisions workspace book s).filterMap (contribution inputs)).map
      decisionIdOf).Nodup := by
    rw [List.Nodup, List.pairwise_map, List.pairwise_filterMap]
    have hrows : ((activeDecisions workspace book s).map (·.decision)).Nodup :=
      activeDecisions_nodup hs
    rw [List.Nodup, List.pairwise_map] at hrows
    apply hrows.imp
    intro r r' hne c hc c' hc' he
    rw [contribution_decision hc, contribution_decision hc'] at he
    exact hne (Uuid.text_injective he)
  have hrecords : (((activeDecisions workspace book s).filterMap (contribution inputs)).flatMap
      recordsOf).Nodup := by
    rw [records_eq]
    apply List.Nodup.map Uuid.text_injective
    apply List.Nodup.filterMap _ (reserved_nodup hs)
    intro a a' x ha ha'
    exact observationOf_inj ha ha'
  have hedges : ((((activeDecisions workspace book s).filterMap (contribution inputs)).filterMap
      rejectedOf).map (·.edge)).Nodup := by
    rw [edges_eq]
    apply List.Nodup.filterMap _ (rejected_nodup hs h)
    intro p q e hp hq
    exact edgeOf_inj hp hq
  have hrec := (records_perm _).nodup_iff.mpr hrecords
  have hmanual := List.nodup_append.mp (List.Nodup.of_append_left hrec)
  exact
    { decisions := (decisionIds_perm _).nodup_iff.mpr hids
      left := hmanual.1
      right := hmanual.2.1
      singles := List.Nodup.of_append_right hrec
      apart := fun i hi hs => (List.nodup_append.mp hrec).2.2 i hi i hs rfl
      edges := by
        have hmap : ∀ l : List RejectedRelationship,
            l.map (fun r => edgeText r.edge) = (l.map (·.edge)).map edgeText := by
          intro l
          rw [List.map_map]
          rfl
        rw [hmap]
        apply edgeText_nodup hedges
        intro e he
        rw [edges_eq] at he
        obtain ⟨p, _, hp⟩ := List.mem_filterMap.mp he
        obtain ⟨left, right, _, _, rfl⟩ := edgeOf_eq hp
        exact left.text_plain }

end Active

section Rejections
variable {s : Store} {digest : Digest}

def bothEnds (pair : Endpoints) : RunInputs where
  rows := [⟨.left, pair.left, pair.left⟩, ⟨.right, pair.right, pair.right⟩]
  logicals_unique := by simp [pair.distinct]
  observations_unique := by simp [pair.distinct]

theorem edgeOf_bothEnds (pair : Endpoints) :
    edgeOf (bothEnds pair) pair = some (pair.left.text, pair.right.text) := by
  simp [edgeOf, observationOf, bothEnds, lookup, pair.distinct]

/-- The inputs of every run can be built exactly when no pair is rejected
twice. -/
theorem builds_iff (hs : Consistent s) : Builds s ↔ Single s := by
  constructor
  · intro h d r d' r' pair hd hd' hw hb hp hp'
    by_contra hne
    obtain ⟨x, hx⟩ := h d.workspace d.book (bothEnds pair)
    have hvalid := createDecisionInputs_ok.mp ⟨x, hx⟩
    have hedges := nodup_map_of_nodup_map_comp Relationship.edge edgeText hvalid.edges
    rw [edges_eq, List.Nodup, List.pairwise_filterMap, List.pairwise_filterMap] at hedges
    have hmem : r ∈ activeDecisions d.workspace d.book s :=
      (mem_activeDecisions hs).mpr ⟨d, hd, rfl, rfl⟩
    have hmem' : r' ∈ activeDecisions d.workspace d.book s :=
      (mem_activeDecisions hs).mpr ⟨d', hd', hw.symm, hb.symm⟩
    have hrr : r ≠ r' := by
      intro he
      apply hne
      rw [← hs.chained.current hd.1 hd.2.1 hd.2.2.1,
        ← hs.chained.current hd'.1 hd'.2.1 hd'.2.2.1, he]
    have hsymm : Std.Symm fun a b : DecisionRevision => ∀ p, rejectedBy a = some p →
        ∀ q, rejectedBy b = some q → ∀ e, edgeOf (bothEnds pair) p = some e →
        ∀ f, edgeOf (bothEnds pair) q = some f → e ≠ f :=
      ⟨fun a b hab p hp q hq e he f hf hef => hab q hq p hp f hf e he hef.symm⟩
    have hclash := hedges.forall hmem hmem' hrr
    exact hclash pair hp pair hp' _ (edgeOf_bothEnds pair) _ (edgeOf_bothEnds pair) rfl
  · intro h workspace book inputs
    exact inputs_valid hs h inputs

def rejects : Request → Option Endpoints
  | .initial (.rejectCandidate pair) => some pair
  | .replace _ (.rejectCandidate pair) _ => some pair
  | _ => none

def targetOf : Request → Option Uuid
  | .initial _ => none
  | .reaffirm target => some target.decisionId
  | .revoke target => some target.decisionId
  | .replace target _ _ => some target.decisionId

/-- No active decision of the book, but the one a command replaces, rejects
the pair that the command rejects. -/
def Unrejected (s : Store) (workspace book : ℕ) (request : Request) : Prop :=
  ∀ pair d r, rejects request = some pair → ActiveAs s d r → d.workspace = workspace →
    d.book = book → rejectedBy r = some pair → targetOf request = some d.id

theorem single_congr {t t' : Store} (hd : t.decisions = t'.decisions)
    (hr : t.revisions = t'.revisions) (hp : t.supersessions = t'.supersessions) :
    Single t ↔ Single t' := by
  unfold Single
  simp only [activeAs_congr hd hr hp]

theorem single_advance (hs : Consistent s) (hn : Single s) {t : Store} {d : Decision}
    {current r : DecisionRevision} {gone : List Uuid} (h : Advances s t d current r gone)
    (others : ∀ pair x y, r.action ≠ .revoke → rejectedBy r = some pair → ActiveAs s x y →
      x.workspace = d.workspace → x.book = d.book → rejectedBy y = some pair → x.id = d.id) :
    Single t := by
  intro x y x' y' pair hx hx' hw hb hp hp'
  cases (h.activeAs hs).mp hx with
  | inl hx =>
    obtain ⟨rfl, rfl, hact⟩ := hx
    cases (h.activeAs hs).mp hx' with
    | inl hx' => rw [hx'.1]
    | inr hx' =>
      exact absurd (others pair x' y' hact hp hx'.2.1 hw.symm hb.symm hp') hx'.1
  | inr hx =>
    cases (h.activeAs hs).mp hx' with
    | inl hx' =>
      obtain ⟨rfl, rfl, hact⟩ := hx'
      exact absurd (others pair x y hact hp' hx.2.1 hw hb hp) hx.1
    | inr hx' => exact hn x y x' y' pair hx.2.1 hx'.2.1 hw hb hp hp'

theorem rejectedBy_some {r : DecisionRevision} {a : DecisionAuthority} {pair : Endpoints}
    (ha : r.authority = some a) : rejectedBy r = some pair ↔ a = .rejectCandidate pair := by
  unfold rejectedBy
  rw [ha]
  cases a <;> simp

/-- After a successful command no pair is rejected twice, exactly when the
command rejected no pair that was rejected already. -/
theorem written_single (hs : Consistent s) (hn : Single s) {t : Store} {workspace book : ℕ}
    {request : Request} (h : Written s workspace book request t) :
    Unrejected s workspace book request ↔ Single t := by
  cases h with
  | @committed d r a fresh current new free =>
    have hact : r.action ≠ .revoke := by
      rw [new.action]
      cases a <;> simp [DecisionAuthority.action]
    have hiff := fun x y => committed_activeAs (a := a) (x := x) (y := y) hs current new.fresh hact
    constructor
    · intro hun x y x' y' pair hx hx' hw hb hp hp'
      have hclash : ∀ x y, ActiveAs s x y → rejectedBy r = some pair → x.workspace = d.workspace →
          x.book = d.book → rejectedBy y ≠ some pair := by
        intro x y hx hp hw hb hy
        rw [rejectedBy_some new.authority] at hp
        exact absurd (hun pair x y (by rw [hp]; rfl) hx hw hb hy) (by simp [targetOf])
      cases (hiff x y).mp hx with
      | inl hx =>
        obtain ⟨rfl, rfl⟩ := hx
        cases (hiff x' y').mp hx' with
        | inl hx' => rw [hx'.1]
        | inr hx' => exact absurd hp' (hclash x' y' hx' hp hw.symm hb.symm)
      | inr hold =>
        cases (hiff x' y').mp hx' with
        | inl hx' =>
          obtain ⟨rfl, rfl⟩ := hx'
          exact absurd hp (hclash x y hold hp' hw hb)
        | inr hx' => exact hn x y x' y' pair hold hx' hw hb hp hp'
    · intro hsingle pair x y hrej hx hw hb hp
      have ha : a = .rejectCandidate pair := by
        cases a <;> simp_all [rejects]
      have heq := hsingle d r x y pair ((hiff d r).mpr (.inl ⟨rfl, rfl⟩))
        ((hiff x y).mpr (.inr hx)) hw.symm hb.symm ((rejectedBy_some new.authority).mpr ha) hp
      exact absurd (List.mem_map.mpr ⟨x, hx.1, heq.symm⟩) fresh
  | @reaffirmed d current r active new =>
    constructor
    · intro _
      apply single_advance hs hn (reaffirmed_advances active new)
      intro pair x y _ hp hx hw hb hy
      have hcur : rejectedBy current = some pair := by
        rw [← hp, rejectedBy, rejectedBy, new.authority]
      exact hn x y d current pair hx active hw hb hy hcur
    · intro _ pair x y hrej
      cases hrej
  | @revoked d current r active new =>
    constructor
    · intro _
      apply single_advance hs hn (revoked_advances active new)
      intro pair x y hact
      exact absurd new.action hact
    · intro _ pair x y hrej
      cases hrej
  | @replaced d current r a approved gone now active new target conflicts free =>
    have hadv := replaced_advances hs a now active new
      fun id hid hne => (conflicts id hid hne).2
    constructor
    · intro hun
      apply single_advance hs hn hadv
      intro pair x y _ hp hx hw hb hy
      rw [rejectedBy_some new.authority] at hp
      have htarget := hun pair x y (by rw [hp]; rfl) hx hw hb hy
      exact (Option.some.inj htarget).symm
    · intro hsingle pair x y hrej hx hw hb hp
      have ha : a = .rejectCandidate pair := by
        cases a <;> simp_all [rejects]
      by_cases he : x.id = d.id
      · rw [he]
        rfl
      · -- a rejection has no conflicts, so only its target is superseded
        have hgone : y.id ∉ gone := by
          intro hg
          by_cases hyc : y.id = current.id
          · apply he
            rw [← hs.chained.current hx.1 hx.2.1 hx.2.2.1, hs.chained.revision_eq hx.2.1
              active.2.1 hyc, hs.chained.current active.1 active.2.1 active.2.2.1]
          · have hres := (conflicts y.id hg hyc).1
            rw [ha] at hres
            cases hres
        have hact : r.action ≠ .revoke := by
          rw [new.action]
          decide
        have heq := hsingle _ r x y pair ((hadv.activeAs hs).mpr (.inl ⟨rfl, rfl, hact⟩))
          ((hadv.activeAs hs).mpr (.inr ⟨he, hx, hgone⟩)) hw.symm hb.symm
          ((rejectedBy_some new.authority).mpr ha) hp
        exact absurd heq.symm he

/-- A step that does not reject again what an active decision rejects. -/
def Fresh (digest : Digest) (s : Store) (c : Command) : Prop :=
  ∀ workspace book command, decisionOf c = some (workspace, book, command) →
    (∃ t, perform digest s c = .ok t) → Unrejected s workspace book command.request

theorem call_single (hs : Consistent s) (hn : Single s) (c : Command) :
    Fresh digest s c ↔ Single (call digest s c) := by
  unfold Fresh call
  cases hres : perform digest s c with
  | error e => exact ⟨fun _ => hn, fun _ _ _ _ _ ⟨_, ht⟩ => by cases ht⟩
  | ok t =>
    rw [settle]
    cases hc : decisionOf c with
    | none =>
      obtain ⟨w, b, p, l, o, rfl⟩ : ∃ w b p l o, c = .elsewhere w b p l o := by
        cases c with
        | elsewhere w b p l o => exact ⟨w, b, p, l, o, rfl⟩
        | _ => cases hc
      simp only [perform, Except.ok.injEq] at hres
      subst hres
      exact ⟨fun _ => hn, fun _ _ _ _ h => by cases h⟩
    | some found =>
      obtain ⟨workspace, book, command⟩ := found
      obtain ⟨_, t', hw, rfl⟩ := perform_decision hs hc hres
      have hbump : Single (bump workspace book t') ↔ Single t' := single_congr rfl rfl rfl
      rw [hbump, ← written_single hs hn hw]
      constructor
      · exact fun h => h workspace book command rfl ⟨_, rfl⟩
      · intro h w b cmd he _
        simp only [Option.some.injEq, Prod.mk.injEq] at he
        obtain ⟨rfl, rfl, rfl⟩ := he
        exact h

/-- In a run of commands, the engine inputs can be built in every state and
for every dataset exactly when no successful command rejects a pair that
another active decision of the book rejects. -/
theorem inputs_build_iff (digest : Digest) (cs : List Command) :
    Along (call digest) (Fresh digest) Store.empty cs ↔
      Throughout (call digest) Builds Store.empty cs := by
  have hempty : Single Store.empty := by
    intro d r d' r' pair hd
    cases hd.1
  apply along_iff_throughout (I := Consistent) (fun s c h => call_consistent h c) ?_
    empty_consistent ((builds_iff empty_consistent).mpr hempty)
  intro s c hs hb
  rw [builds_iff hs] at hb
  rw [builds_iff (call_consistent hs c)]
  exact call_single hs hb c

def leftRecord : Uuid := ⟨"00000000-0000-0000-0000-00000000000a", by decide, by decide⟩

def rightRecord : Uuid := ⟨"00000000-0000-0000-0000-00000000000b", by decide, by decide⟩

def leftSeen : Uuid := ⟨"00000000-0000-0000-0000-0000000000aa", by decide, by decide⟩

def rightSeen : Uuid := ⟨"00000000-0000-0000-0000-0000000000bb", by decide, by decide⟩

def rejection (generation : ℕ) : DecisionCommand where
  request := .initial (.rejectCandidate ⟨leftRecord, rightRecord, by decide⟩)
  reason := "not the same trade"
  actor := "reviewer"
  expectedResolutionGeneration := generation
  reviewedObservationIds := [leftSeen, rightSeen]
  reason_text := by decide
  actor_text := by decide
  reviewed_distinct := by decide
  reviewed_length := rfl
  conflicts_valid := trivial

/-- One book with a record on each side, whose pair is rejected twice. -/
def rejectedTwice : List Command :=
  [.elsewhere [⟨1, .active, 1000, none, none, ⟨0, 1, 0⟩⟩] [⟨1, 1, 0⟩] []
    [⟨leftRecord, 1, 1, .left⟩, ⟨rightRecord, 1, 1, .right⟩]
    [⟨leftSeen, 1, leftRecord, "f1"⟩, ⟨rightSeen, 1, rightRecord, "f2"⟩],
    .initial 1 1 (rejection 0) 5 ⟨"d1", by decide, by decide⟩ ⟨"r1", by decide, by decide⟩,
    .initial 1 1 (rejection 1) 6 ⟨"d2", by decide, by decide⟩ ⟨"r2", by decide, by decide⟩]

def bothSeen : RunInputs where
  rows := [⟨.left, leftRecord, leftSeen⟩, ⟨.right, rightRecord, rightSeen⟩]
  logicals_unique := by decide
  observations_unique := by decide

/-- Every step succeeds, and the inputs of the next run cannot be built. -/
theorem rejected_twice_fails :
    Along (call checksum) (fun s c => (perform checksum s c).toOption.isSome = true) Store.empty
      rejectedTwice ∧ ¬Builds (reached checksum rejectedTwice) := by
  refine ⟨⟨by decide +kernel, by decide +kernel, by decide +kernel, trivial⟩, ?_⟩
  intro h
  obtain ⟨d, hd⟩ := h 1 1 bothSeen
  have hraised : (decisionInputs bothSeen (activeDecisions 1 1
      (reached checksum rejectedTwice))).toOption.isSome = false := by decide +kernel
  rw [hd] at hraised
  cases hraised

end Rejections

end Workbench.DoubleRejection
