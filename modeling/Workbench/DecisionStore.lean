import Workbench.Decisions

/-!
# The invariant of the decision store

Claims are exactly those of the active decisions under their current
revisions, and the revisions of a decision form one chain. What a successful
command writes is said once; the invariant is kept by each kind of write.
-/

set_option autoImplicit false

namespace Workbench.DecisionStore
open Workbench.Listing Workbench.Tables Workbench.Calendar Workbench.Workspaces Workbench.Records
open Workbench.Json Workbench.Decisions
open Workbench.Raising (bind_ok demand_ok fetch_ok)

/-- Revisions numbered from `n` on, each naming the one before it. -/
def Chain : Option Uuid → ℕ → List DecisionRevision → Prop
  | _, _, [] => True
  | p, n, r :: rs => r.predecessor = p ∧ r.revision = n ∧ Chain (some r.id) (n+1) rs

def history (revisions : List DecisionRevision) (decision : Uuid) : List DecisionRevision :=
  revisions.filter fun r => r.decision = decision

structure Chained (decisions : List Decision) (revisions : List DecisionRevision) : Prop where
  decisionIds : (decisions.map (·.id)).Nodup
  revisionIds : (revisions.map (·.id)).Nodup
  chains : ∀ d ∈ decisions, Chain none 1 (history revisions d.id) ∧
    ∃ earlier r, history revisions d.id = earlier ++ [r] ∧ d.currentRevision = r.id
  owned : ∀ r ∈ revisions, ∃ d ∈ decisions, d.id = r.decision
  authority : ∀ r ∈ revisions, r.action ≠ .revoke → ∃ a, r.authority = some a

def ActiveAs (s : Store) (d : Decision) (r : DecisionRevision) : Prop :=
  d ∈ s.decisions ∧ r ∈ s.revisions ∧ d.currentRevision = r.id ∧ live s r = true

structure Consistent (s : Store) : Prop where
  chained : Chained s.decisions s.revisions
  claimed : ∀ c, c ∈ s.claims ↔ ∃ d r a, ActiveAs s d r ∧ r.authority = some a ∧
    c ∈ claimsOf d.workspace d.book a r.id
  claimsOnce : (s.claims.map fun c => (c.book, c.logicalTransaction)).Nodup
  superseded : ∀ p ∈ s.supersessions, ∃ r ∈ s.revisions, r.id = p.superseded

theorem empty_consistent : Consistent Store.empty where
  chained := ⟨by simp [Store.empty], by simp [Store.empty], by simp [Store.empty],
    by simp [Store.empty], by simp [Store.empty]⟩
  claimed := by simp [Store.empty, ActiveAs]
  claimsOnce := by simp [Store.empty]
  superseded := by simp [Store.empty]

section Chains
variable {decisions : List Decision} {revisions : List DecisionRevision}

theorem Chained.decision_eq (h : Chained decisions revisions) {x y : Decision}
    (hx : x ∈ decisions) (hy : y ∈ decisions) (he : x.id = y.id) : x = y :=
  eq_of_key_eq Decision.id h.decisionIds hx hy he

theorem Chained.revision_eq (h : Chained decisions revisions) {x y : DecisionRevision}
    (hx : x ∈ revisions) (hy : y ∈ revisions) (he : x.id = y.id) : x = y :=
  eq_of_key_eq DecisionRevision.id h.revisionIds hx hy he

theorem Chained.hasCurrent (h : Chained decisions revisions) {d : Decision}
    (hd : d ∈ decisions) :
    ∃ r ∈ revisions, d.currentRevision = r.id ∧ r.decision = d.id := by
  obtain ⟨_, earlier, last, hh, hl⟩ := h.chains d hd
  have hmem : last ∈ history revisions d.id := by
    rw [hh]
    exact List.mem_append_right _ (List.mem_singleton_self _)
  obtain ⟨hlast, hdec⟩ := List.mem_filter.mp hmem
  exact ⟨last, hlast, hl, by simpa using hdec⟩

theorem Chained.current (h : Chained decisions revisions) {d : Decision} (hd : d ∈ decisions)
    {r : DecisionRevision} (hr : r ∈ revisions) (hc : d.currentRevision = r.id) :
    r.decision = d.id := by
  obtain ⟨last, hlast, hl, hdec⟩ := h.hasCurrent hd
  rw [h.revision_eq hr hlast (hc.symm.trans hl)]
  exact hdec

theorem chain_snoc {p : Option Uuid} {n : ℕ} {earlier : List DecisionRevision}
    {last new : DecisionRevision} (h : Chain p n (earlier ++ [last]))
    (hp : new.predecessor = some last.id) (hn : new.revision = last.revision+1) :
    Chain p n (earlier ++ [last] ++ [new]) := by
  induction earlier generalizing p n with
  | nil =>
    obtain ⟨h1, h2, _⟩ := h
    exact ⟨h1, h2, hp, by rw [hn, h2], trivial⟩
  | cons r earlier ih => exact ⟨h.1, h.2.1, ih h.2.2⟩

theorem history_append (revisions : List DecisionRevision) (r : DecisionRevision)
    (decision : Uuid) : history (revisions ++ [r]) decision =
      if r.decision = decision then history revisions decision ++ [r]
      else history revisions decision := by
  unfold history
  rw [List.filter_append]
  by_cases h : r.decision = decision <;> simp [h]

theorem fresh_nodup {α : Type} {f : α → Uuid} {l : List α} {a : α} (h : (l.map f).Nodup)
    (hf : f a ∉ l.map f) : ((l ++ [a]).map f).Nodup := by
  rw [List.map_append, List.map_singleton]
  apply List.Nodup.append h (List.nodup_singleton _)
  intro x hx hs
  rw [List.mem_singleton.mp hs] at hx
  exact hf hx

/-- A new decision with its first revision. -/
theorem Chained.first (h : Chained decisions revisions) {d : Decision} {r : DecisionRevision}
    (hd : d.id ∉ decisions.map (·.id)) (hr : r.id ∉ revisions.map (·.id))
    (hown : r.decision = d.id) (hc : d.currentRevision = r.id) (hp : r.predecessor = none)
    (hn : r.revision = 1) (ha : ∃ a, r.authority = some a) :
    Chained (decisions ++ [d]) (revisions ++ [r]) where
  decisionIds := fresh_nodup h.decisionIds hd
  revisionIds := fresh_nodup h.revisionIds hr
  chains := by
    intro x hx
    rw [history_append]
    cases List.mem_append.mp hx with
    | inl hx =>
      rw [if_neg]
      · exact h.chains x hx
      · intro he
        exact hd (List.mem_map.mpr ⟨x, hx, by rw [← he, hown]⟩)
    | inr hx =>
      rw [List.mem_singleton.mp hx, if_pos hown]
      have hnone : history revisions d.id = [] := by
        rw [history, List.filter_eq_nil_iff]
        intro old ho he
        obtain ⟨y, hy, hyd⟩ := h.owned old ho
        exact hd (List.mem_map.mpr ⟨y, hy, by rw [hyd]; simpa using he⟩)
      rw [hnone]
      exact ⟨⟨hp, hn, trivial⟩, [], r, rfl, hc⟩
  owned := by
    intro x hx
    cases List.mem_append.mp hx with
    | inl hx =>
      obtain ⟨y, hy, he⟩ := h.owned x hx
      exact ⟨y, List.mem_append_left _ hy, he⟩
    | inr hx =>
      rw [List.mem_singleton.mp hx]
      exact ⟨d, List.mem_append_right _ (List.mem_singleton_self _), hown.symm⟩
  authority := by
    intro x hx hact
    cases List.mem_append.mp hx with
    | inl hx => exact h.authority x hx hact
    | inr hx =>
      rw [List.mem_singleton.mp hx]
      exact ha

def advanced (d : Decision) (r : DecisionRevision) (decisions : List Decision) :
    List Decision :=
  revise Decision.id d.id (fun x => { x with currentRevision := r.id }) decisions

theorem mem_advanced {d x : Decision} {r : DecisionRevision} :
    x ∈ advanced d r decisions ↔ ∃ old ∈ decisions,
      x = if old.id = d.id then { old with currentRevision := r.id } else old :=
  mem_revise

/-- The next revision of a decision, made from its current one. -/
theorem Chained.advance (h : Chained decisions revisions) {d : Decision}
    {current r : DecisionRevision} (hd : d ∈ decisions) (hcur : current ∈ revisions)
    (hc : d.currentRevision = current.id) (hr : r.id ∉ revisions.map (·.id))
    (hown : r.decision = d.id) (hp : r.predecessor = some current.id)
    (hn : r.revision = current.revision+1)
    (ha : r.action ≠ .revoke → ∃ a, r.authority = some a) :
    Chained (advanced d r decisions) (revisions ++ [r]) where
  decisionIds := by
    have hk := keys_revise (g := Decision.id) (f := fun x => { x with currentRevision := r.id })
      (fun _ => rfl) d.id decisions
    rw [advanced, hk]
    exact h.decisionIds
  revisionIds := fresh_nodup h.revisionIds hr
  chains := by
    intro x hx
    obtain ⟨old, ho, rfl⟩ := mem_advanced.mp hx
    by_cases he : old.id = d.id
    · have hod : old = d := h.decision_eq ho hd he
      subst hod
      rw [if_pos rfl]
      obtain ⟨hchain, earlier, last, hh, hl⟩ := h.chains old ho
      have hlast : last ∈ revisions := by
        have hmem : last ∈ history revisions old.id := by
          rw [hh]
          exact List.mem_append_right _ (List.mem_singleton_self _)
        exact (List.mem_filter.mp hmem).1
      have hcl : current = last := h.revision_eq hcur hlast (hc.symm.trans hl)
      subst hcl
      rw [history_append, if_pos hown, hh]
      rw [hh] at hchain
      exact ⟨chain_snoc hchain hp hn, earlier ++ [current], r, rfl, rfl⟩
    · rw [if_neg he, history_append, if_neg]
      · exact h.chains old ho
      · intro hro
        exact he (hro.symm.trans hown)
  owned := by
    intro x hx
    have hkeep : ∀ y ∈ decisions, ∃ z ∈ advanced d r decisions, z.id = y.id := by
      intro y hy
      refine ⟨_, mem_advanced.mpr ⟨y, hy, rfl⟩, ?_⟩
      by_cases he : y.id = d.id <;> simp [he]
    cases List.mem_append.mp hx with
    | inl hx =>
      obtain ⟨y, hy, he⟩ := h.owned x hx
      obtain ⟨z, hz, hzy⟩ := hkeep y hy
      exact ⟨z, hz, hzy.trans he⟩
    | inr hx =>
      rw [List.mem_singleton.mp hx, hown]
      exact hkeep d hd
  authority := by
    intro x hx hact
    cases List.mem_append.mp hx with
    | inl hx => exact h.authority x hx hact
    | inr hx =>
      rw [List.mem_singleton.mp hx] at hact ⊢
      exact ha hact

end Chains

variable {s : Store}

theorem mem_claimsOf {workspace book : ℕ} {a : DecisionAuthority} {revision : Uuid}
    {c : ActiveDecisionClaim} (h : c ∈ claimsOf workspace book a revision) :
    c.workspace = workspace ∧ c.book = book ∧ c.decisionRevision = revision ∧
      c.logicalTransaction ∈ a.endpointIds := by
  unfold claimsOf at h
  split_ifs at h with hr
  · obtain ⟨id, hid, rfl⟩ := List.mem_map.mp h
    exact ⟨rfl, rfl, rfl, hid⟩
  · simp at h

theorem claimsOf_nodup (workspace book : ℕ) (a : DecisionAuthority) (revision : Uuid) :
    ((claimsOf workspace book a revision).map
      fun c => (c.book, c.logicalTransaction)).Nodup := by
  unfold claimsOf
  split_ifs with hr
  · rw [List.map_map]
    exact (endpointIds_nodup a).map fun x y h => (Prod.mk.inj h).2
  · simp

theorem claimsOf_moved {workspace book : ℕ} {a : DecisionAuthority} (old : Uuid) {new : Uuid} :
    (claimsOf workspace book a old).map (fun c => { c with decisionRevision := new }) =
      claimsOf workspace book a new := by
  unfold claimsOf
  split_ifs with hr
  · rw [List.map_map]
    rfl
  · rfl

structure NewRevision (s : Store) (r : DecisionRevision) (decision : Uuid)
    (predecessor : Option Uuid) (number : ℕ) (action : DecisionAction)
    (authority : Option DecisionAuthority) : Prop where
  decision : r.decision = decision
  predecessor : r.predecessor = predecessor
  number : r.revision = number
  action : r.action = action
  authority : r.authority = authority
  fresh : r.id ∉ s.revisions.map (·.id)

def withRevision (s : Store) (r : DecisionRevision) : Store :=
  { s with revisions := s.revisions ++ [r] }

def committed (s : Store) (d : Decision) (r : DecisionRevision) (a : DecisionAuthority) : Store :=
  { s with
    decisions := s.decisions ++ [d]
    revisions := s.revisions ++ [r]
    claims := s.claims ++ claimsOf d.workspace d.book a r.id }

def Free (s : Store) (claims : List ActiveDecisionClaim) : Prop :=
  ∀ c ∈ claims, ∀ old ∈ s.claims,
    ¬(old.book = c.book ∧ old.logicalTransaction = c.logicalTransaction)

def replaced (s : Store) (d : Decision) (r : DecisionRevision) (a : DecisionAuthority)
    (gone : List Uuid) (now : Instant) : Store :=
  let t := dropClaims d.workspace d.book gone { withRevision s r with
    supersessions := s.supersessions ++ gone.map fun id => ⟨d.workspace, r.id, id, now⟩ }
  setCurrent d.id r.id { t with claims := t.claims ++ claimsOf d.workspace d.book a r.id }

/-- What a successful command does to decisions, revisions, supersessions and
claims of a book. -/
inductive Written (s : Store) : ℕ → ℕ → Request → Store → Prop
  | committed {d : Decision} {r : DecisionRevision} {a : DecisionAuthority}
      (fresh : d.id ∉ s.decisions.map (·.id)) (current : d.currentRevision = r.id)
      (new : NewRevision s r d.id none 1 a.action (some a))
      (free : Free s (claimsOf d.workspace d.book a r.id)) :
      Written s d.workspace d.book (.initial a) (committed s d r a)
  | reaffirmed {d : Decision} {current r : DecisionRevision} (active : ActiveAs s d current)
      (new : NewRevision s r d.id (some current.id) (current.revision+1) .reaffirm
        current.authority) :
      Written s d.workspace d.book (.reaffirm ⟨d.id, current.id⟩) (setCurrent d.id r.id
        (moveClaims d.workspace d.book current.id r.id (withRevision s r)))
  | revoked {d : Decision} {current r : DecisionRevision} (active : ActiveAs s d current)
      (new : NewRevision s r d.id (some current.id) (current.revision+1) .revoke none) :
      Written s d.workspace d.book (.revoke ⟨d.id, current.id⟩) (setCurrent d.id r.id
        (dropClaims d.workspace d.book [current.id] (withRevision s r)))
  | replaced {d : Decision} {current r : DecisionRevision} {a : DecisionAuthority}
      {approved : List ExpectedDecisionRevision} {gone : List Uuid} {now : Instant}
      (active : ActiveAs s d current)
      (new : NewRevision s r d.id (some current.id) (current.revision+1) .replace (some a))
      (target : current.id ∈ gone)
      (conflicts : ∀ id ∈ gone, id ≠ current.id → a.reservesEndpoints = true ∧ ∃ c ∈ s.claims,
        c.workspace = d.workspace ∧ c.book = d.book ∧ c.decisionRevision = id)
      (free : Free (dropClaims d.workspace d.book gone s)
        (claimsOf d.workspace d.book a r.id)) :
      Written s d.workspace d.book (.replace ⟨d.id, current.id⟩ a approved)
        (replaced s d r a gone now)

structure Advances (s t : Store) (d : Decision) (current r : DecisionRevision)
    (gone : List Uuid) : Prop where
  active : ActiveAs s d current
  decisions : t.decisions = advanced d r s.decisions
  revisions : t.revisions = s.revisions ++ [r]
  fresh : r.id ∉ s.revisions.map (·.id)
  owned : r.decision = d.id
  superseded : ∀ id, superseded t id = true ↔ superseded s id = true ∨ id ∈ gone
  goneStored : ∀ id ∈ gone, ∃ old ∈ s.revisions, old.id = id

theorem live_iff {r : DecisionRevision} :
    live s r = true ↔ r.action ≠ .revoke ∧ ¬superseded s r.id = true := by
  simp [live]

theorem superseded_iff {id : Uuid} :
    superseded s id = true ↔ ∃ p ∈ s.supersessions, p.superseded = id := by
  simp [superseded]

theorem stored_ne {r : DecisionRevision} {revisions : List DecisionRevision}
    (hf : r.id ∉ revisions.map (·.id)) {old : DecisionRevision} (h : old ∈ revisions) :
    old.id ≠ r.id := by
  intro he
  exact hf (List.mem_map.mpr ⟨old, h, he⟩)

section Advance
variable {t : Store} {d : Decision} {current r : DecisionRevision} {gone : List Uuid}

theorem Advances.notGone (h : Advances s t d current r gone) : r.id ∉ gone := by
  intro hg
  obtain ⟨old, ho, he⟩ := h.goneStored r.id hg
  exact stored_ne h.fresh ho he

/-- A new revision is not superseded, and no other decision changes. -/
theorem Advances.activeAs (hs : Consistent s) (h : Advances s t d current r gone)
    {x : Decision} {y : DecisionRevision} :
    ActiveAs t x y ↔
      (x = { d with currentRevision := r.id } ∧ y = r ∧ r.action ≠ .revoke) ∨
      (x.id ≠ d.id ∧ ActiveAs s x y ∧ y.id ∉ gone) := by
  obtain ⟨hd, hcur, hdc, hlive⟩ := h.active
  unfold ActiveAs
  rw [h.decisions, h.revisions, mem_advanced, live_iff, live_iff, h.superseded]
  constructor
  · rintro ⟨⟨old, ho, rfl⟩, hy, hxy, hact, hsup⟩
    by_cases he : old.id = d.id
    · left
      have hod : old = d := hs.chained.decision_eq ho hd he
      subst hod
      rw [if_pos rfl] at hxy ⊢
      have hyr : y = r := by
        cases List.mem_append.mp hy with
        | inl hy => exact absurd hxy.symm (stored_ne h.fresh hy)
        | inr hy => exact List.mem_singleton.mp hy
      exact ⟨rfl, hyr, hyr ▸ hact⟩
    · right
      rw [if_neg he] at hxy ⊢
      obtain ⟨z, hz, hoz, _⟩ := hs.chained.hasCurrent ho
      have hys : y ∈ s.revisions := by
        cases List.mem_append.mp hy with
        | inl hy => exact hy
        | inr hy =>
          rw [List.mem_singleton.mp hy] at hxy
          exact absurd (hoz.symm.trans hxy) (stored_ne h.fresh hz)
      exact ⟨he, ⟨ho, hys, hxy, hact, fun hp => hsup (.inl hp)⟩, fun hg => hsup (.inr hg)⟩
  · intro hx
    cases hx with
    | inl hx =>
      obtain ⟨rfl, rfl, hact⟩ := hx
      refine ⟨⟨d, hd, by simp⟩, List.mem_append_right _ (List.mem_singleton_self _), rfl,
        hact, ?_⟩
      intro hp
      cases hp with
      | inl hp =>
        obtain ⟨p, hp, hpe⟩ := superseded_iff.mp hp
        obtain ⟨old, ho, he⟩ := hs.superseded p hp
        exact stored_ne h.fresh ho (he.trans hpe)
      | inr hp => exact h.notGone hp
    | inr hx =>
      obtain ⟨he, ⟨hx, hy, hxy, hact, hsup⟩, hg⟩ := hx
      refine ⟨⟨x, hx, by rw [if_neg he]⟩, List.mem_append_left _ hy, hxy, hact, ?_⟩
      intro hp
      cases hp with
      | inl hp => exact hsup hp
      | inr hp => exact hg hp

theorem Consistent.claim_owner (hs : Consistent s) {c : ActiveDecisionClaim} (hc : c ∈ s.claims)
    {x : Decision} {y : DecisionRevision} (hx : ActiveAs s x y) (hr : c.decisionRevision = y.id) :
    c.workspace = x.workspace ∧ c.book = x.book ∧
      ∃ a, y.authority = some a ∧ c ∈ claimsOf x.workspace x.book a y.id := by
  obtain ⟨x', y', a, hx', ha, hmem⟩ := (hs.claimed c).mp hc
  obtain ⟨hw, hb, hrev, _⟩ := mem_claimsOf hmem
  have hy : y' = y := hs.chained.revision_eq hx'.2.1 hx.2.1 (hrev.symm.trans hr)
  subst hy
  have hd : x' = x := by
    apply hs.chained.decision_eq hx'.1 hx.1
    rw [← hs.chained.current hx'.1 hx'.2.1 hx'.2.2.1, hs.chained.current hx.1 hx.2.1 hx.2.2.1]
  subst hd
  exact ⟨hw, hb, a, ha, hmem⟩

/-- What is left of the claims once a revision is replaced by the next one. -/
theorem Advances.claimed (hs : Consistent s) (h : Advances s t d current r gone)
    (hclaims : ∀ c, c ∈ t.claims ↔
      (c ∈ s.claims ∧ c.decisionRevision ≠ current.id ∧ c.decisionRevision ∉ gone) ∨
      ∃ a, r.action ≠ .revoke ∧ r.authority = some a ∧
        c ∈ claimsOf d.workspace d.book a r.id) (c : ActiveDecisionClaim) :
    c ∈ t.claims ↔ ∃ x y a, ActiveAs t x y ∧ y.authority = some a ∧
      c ∈ claimsOf x.workspace x.book a y.id := by
  rw [hclaims]
  constructor
  · intro hc
    cases hc with
    | inl hc =>
      obtain ⟨hc, hne, hng⟩ := hc
      obtain ⟨x, y, a, hx, ha, hmem⟩ := (hs.claimed c).mp hc
      have hrev := (mem_claimsOf hmem).2.2.1
      refine ⟨x, y, a, (h.activeAs hs).mpr (.inr ⟨?_, hx, hrev ▸ hng⟩), ha, hmem⟩
      intro he
      have hxd : x = d := hs.chained.decision_eq hx.1 h.active.1 he
      subst hxd
      exact hne (hrev.trans (hx.2.2.1.symm.trans h.active.2.2.1))
    | inr hc =>
      obtain ⟨a, hact, ha, hmem⟩ := hc
      exact ⟨_, r, a, (h.activeAs hs).mpr (.inl ⟨rfl, rfl, hact⟩), ha, hmem⟩
  · intro hc
    obtain ⟨x, y, a, hx, ha, hmem⟩ := hc
    cases (h.activeAs hs).mp hx with
    | inl hx =>
      obtain ⟨rfl, rfl, hact⟩ := hx
      exact .inr ⟨a, hact, ha, hmem⟩
    | inr hx =>
      obtain ⟨he, hx, hg⟩ := hx
      have hrev := (mem_claimsOf hmem).2.2.1
      refine .inl ⟨(hs.claimed c).mpr ⟨x, y, a, hx, ha, hmem⟩, ?_, hrev ▸ hg⟩
      intro hc
      have hyc : y = current :=
        hs.chained.revision_eq hx.2.1 h.active.2.1 (hrev.symm.trans hc)
      subst hyc
      apply he
      rw [← hs.chained.current hx.1 hx.2.1 hx.2.2.1,
        hs.chained.current h.active.1 h.active.2.1 h.active.2.2.1]

end Advance

section Writes
variable {d : Decision} {current r : DecisionRevision} {a : DecisionAuthority}

theorem committed_activeAs (hs : Consistent s) (hcur : d.currentRevision = r.id)
    (hf : r.id ∉ s.revisions.map (·.id)) (hact : r.action ≠ .revoke) {x : Decision} {y : DecisionRevision} :
    ActiveAs (committed s d r a) x y ↔ (x = d ∧ y = r) ∨ ActiveAs s x y := by
  have hsup : ∀ id, superseded (committed s d r a) id = superseded s id := fun _ => rfl
  unfold ActiveAs
  rw [live_iff, live_iff, hsup]
  simp only [committed, List.mem_append, List.mem_singleton]
  constructor
  · rintro ⟨hx, hy, hxy, hlive⟩
    cases hx with
    | inl hx =>
      right
      cases hy with
      | inl hy => exact ⟨hx, hy, hxy, hlive⟩
      | inr hy =>
        obtain ⟨z, hz, hxz, _⟩ := hs.chained.hasCurrent hx
        rw [hy] at hxy
        exact absurd (hxz.symm.trans hxy) (stored_ne hf hz)
    | inr hx =>
      left
      cases hy with
      | inl hy =>
        rw [hx, hcur] at hxy
        exact absurd hxy.symm (stored_ne hf hy)
      | inr hy => exact ⟨hx, hy⟩
  · intro hx
    cases hx with
    | inl hx =>
      refine ⟨.inr hx.1, .inr hx.2, by rw [hx.1, hx.2, hcur], ?_⟩
      rw [hx.2]
      refine ⟨hact, fun hp => ?_⟩
      obtain ⟨p, hp, hpe⟩ := superseded_iff.mp hp
      obtain ⟨old, ho, he⟩ := hs.superseded p hp
      exact stored_ne hf ho (he.trans hpe)
    | inr hx => exact ⟨.inl hx.1, .inl hx.2.1, hx.2.2.1, hx.2.2.2⟩

theorem claimsOnce_append {old new : List ActiveDecisionClaim}
    (ho : (old.map fun c => (c.book, c.logicalTransaction)).Nodup)
    (hn : (new.map fun c => (c.book, c.logicalTransaction)).Nodup)
    (hfree : ∀ c ∈ new, ∀ x ∈ old,
      ¬(x.book = c.book ∧ x.logicalTransaction = c.logicalTransaction)) :
    ((old ++ new).map fun c => (c.book, c.logicalTransaction)).Nodup := by
  rw [List.map_append]
  apply List.Nodup.append ho hn
  intro k hko hkn
  obtain ⟨x, hx, rfl⟩ := List.mem_map.mp hko
  obtain ⟨c, hc, he⟩ := List.mem_map.mp hkn
  exact hfree c hc x hx ⟨(Prod.mk.inj he).1.symm, (Prod.mk.inj he).2.symm⟩

theorem committed_consistent (hs : Consistent s) (hd : d.id ∉ s.decisions.map (·.id))
    (hcur : d.currentRevision = r.id) (new : NewRevision s r d.id none 1 a.action (some a))
    (hfree : Free s (claimsOf d.workspace d.book a r.id)) :
    Consistent (committed s d r a) where
  chained := hs.chained.first hd new.fresh new.decision hcur new.predecessor new.number
    ⟨a, new.authority⟩
  claimed := by
    intro c
    have hact : r.action ≠ .revoke := by
      rw [new.action]
      cases a <;> simp [DecisionAuthority.action]
    have hiff := fun x y => committed_activeAs (a := a) (x := x) (y := y) hs hcur new.fresh hact
    rw [committed, List.mem_append, hs.claimed]
    constructor
    · intro hc
      cases hc with
      | inl hc =>
        obtain ⟨x, y, b, hx, hb, hmem⟩ := hc
        exact ⟨x, y, b, (hiff x y).mpr (.inr hx), hb, hmem⟩
      | inr hc => exact ⟨d, r, a, (hiff d r).mpr (.inl ⟨rfl, rfl⟩), new.authority, hc⟩
    · intro hc
      obtain ⟨x, y, b, hx, hb, hmem⟩ := hc
      cases (hiff x y).mp hx with
      | inl hx =>
        obtain ⟨rfl, rfl⟩ := hx
        rw [new.authority, Option.some.injEq] at hb
        exact .inr (hb ▸ hmem)
      | inr hx => exact .inl ⟨x, y, b, hx, hb, hmem⟩
  claimsOnce := claimsOnce_append hs.claimsOnce (claimsOf_nodup _ _ _ _) hfree
  superseded := by
    intro p hp
    obtain ⟨old, ho, he⟩ := hs.superseded p hp
    exact ⟨old, List.mem_append_left _ ho, he⟩

theorem Consistent.current_claim (hs : Consistent s) (active : ActiveAs s d current)
    {c : ActiveDecisionClaim} (hc : c ∈ s.claims) :
    (c.workspace = d.workspace ∧ c.book = d.book ∧ c.decisionRevision = current.id) ↔
      c.decisionRevision = current.id := by
  constructor
  · exact fun h => h.2.2
  · intro h
    obtain ⟨hw, hb, _⟩ := hs.claim_owner hc active h
    exact ⟨hw, hb, h⟩

theorem reaffirmed_advances (active : ActiveAs s d current)
    (new : NewRevision s r d.id (some current.id) (current.revision+1) .reaffirm
      current.authority) :
    Advances s (setCurrent d.id r.id
      (moveClaims d.workspace d.book current.id r.id (withRevision s r))) d current r [] where
  active := active
  decisions := rfl
  revisions := rfl
  fresh := new.fresh
  owned := new.decision
  superseded := fun id => by simp [superseded, setCurrent, moveClaims, withRevision]
  goneStored := by simp

theorem reaffirmed_consistent (hs : Consistent s) (active : ActiveAs s d current)
    (new : NewRevision s r d.id (some current.id) (current.revision+1) .reaffirm
      current.authority) :
    Consistent (setCurrent d.id r.id
      (moveClaims d.workspace d.book current.id r.id (withRevision s r))) where
  chained := hs.chained.advance active.1 active.2.1 active.2.2.1 new.fresh new.decision
    new.predecessor new.number fun _ => by
      obtain ⟨b, hb⟩ := hs.chained.authority current active.2.1 (live_iff.mp active.2.2.2).1
      exact ⟨b, new.authority.trans hb⟩
  claimed := by
    apply (reaffirmed_advances active new).claimed hs
    intro c
    simp only [setCurrent, moveClaims, withRevision, List.mem_map, List.not_mem_nil,
      not_false_eq_true, and_true, new.action, new.authority]
    constructor
    · rintro ⟨old, ho, rfl⟩
      by_cases hm : old.decisionRevision = current.id
      · right
        rw [if_pos ((hs.current_claim active ho).mpr hm)]
        obtain ⟨_, _, b, hb, hmem⟩ := hs.claim_owner ho active hm
        refine ⟨b, by decide, hb, ?_⟩
        rw [← claimsOf_moved current.id]
        exact List.mem_map.mpr ⟨old, hmem, rfl⟩
      · left
        rw [if_neg fun h => hm h.2.2]
        exact ⟨ho, hm⟩
    · intro hc
      cases hc with
      | inl hc => exact ⟨c, hc.1, by rw [if_neg fun h => hc.2 h.2.2]⟩
      | inr hc =>
        obtain ⟨b, _, hb, hmem⟩ := hc
        rw [← claimsOf_moved current.id] at hmem
        obtain ⟨old, ho, rfl⟩ := List.mem_map.mp hmem
        have hold := (hs.claimed old).mpr ⟨d, current, b, active, hb, ho⟩
        obtain ⟨hw, hbook, hrev, _⟩ := mem_claimsOf ho
        exact ⟨old, hold, by rw [if_pos ⟨hw, hbook, hrev⟩]⟩
  claimsOnce := by
    simp only [setCurrent, moveClaims, withRevision, List.map_map]
    have hk : ((fun c : ActiveDecisionClaim => (c.book, c.logicalTransaction)) ∘ fun c =>
        if c.workspace = d.workspace ∧ c.book = d.book ∧ c.decisionRevision = current.id then
          { c with decisionRevision := r.id }
        else c) = fun c => (c.book, c.logicalTransaction) := by
      funext c
      simp only [Function.comp_apply]
      split_ifs <;> rfl
    rw [hk]
    exact hs.claimsOnce
  superseded := by
    intro p hp
    obtain ⟨old, ho, he⟩ := hs.superseded p hp
    exact ⟨old, List.mem_append_left _ ho, he⟩

theorem revoked_advances (active : ActiveAs s d current)
    (new : NewRevision s r d.id (some current.id) (current.revision+1) .revoke none) :
    Advances s (setCurrent d.id r.id
      (dropClaims d.workspace d.book [current.id] (withRevision s r))) d current r [] where
  active := active
  decisions := rfl
  revisions := rfl
  fresh := new.fresh
  owned := new.decision
  superseded := fun id => by simp [superseded, setCurrent, dropClaims, withRevision]
  goneStored := by simp

theorem revoked_consistent (hs : Consistent s) (active : ActiveAs s d current)
    (new : NewRevision s r d.id (some current.id) (current.revision+1) .revoke none) :
    Consistent (setCurrent d.id r.id
      (dropClaims d.workspace d.book [current.id] (withRevision s r))) where
  chained := hs.chained.advance active.1 active.2.1 active.2.2.1 new.fresh new.decision
    new.predecessor new.number fun h => absurd new.action h
  claimed := by
    apply (revoked_advances active new).claimed hs
    intro c
    simp only [setCurrent, dropClaims, withRevision, List.mem_filter, new.action]
    simp only [ne_eq, not_true_eq_false, false_and, exists_false, or_false, List.not_mem_nil,
      not_false_eq_true, and_true]
    apply and_congr_right
    intro hc
    have hown := hs.current_claim active hc
    simp only [List.mem_singleton, Bool.not_eq_true', Bool.and_eq_false_iff,
      decide_eq_false_iff_not]
    grind
  claimsOnce := (hs.claimsOnce.sublist (List.filter_sublist.map _))
  superseded := by
    intro p hp
    obtain ⟨old, ho, he⟩ := hs.superseded p hp
    exact ⟨old, List.mem_append_left _ ho, he⟩

theorem Consistent.same_owner (hs : Consistent s) {c c' : ActiveDecisionClaim}
    (hc : c ∈ s.claims) (hc' : c' ∈ s.claims) (h : c.decisionRevision = c'.decisionRevision) :
    c.workspace = c'.workspace ∧ c.book = c'.book := by
  obtain ⟨x, y, b, hx, _, hmem⟩ := (hs.claimed c').mp hc'
  obtain ⟨hw, hb, hrev, _⟩ := mem_claimsOf hmem
  obtain ⟨hw', hb', _⟩ := hs.claim_owner hc hx (h.trans hrev)
  exact ⟨hw'.trans hw.symm, hb'.trans hb.symm⟩

theorem replaced_advances (hs : Consistent s) (a : DecisionAuthority) (now : Instant)
    {gone : List Uuid} (active : ActiveAs s d current)
    (new : NewRevision s r d.id (some current.id) (current.revision+1) .replace (some a))
    (conflicts : ∀ id ∈ gone, id ≠ current.id → ∃ c ∈ s.claims,
      c.workspace = d.workspace ∧ c.book = d.book ∧ c.decisionRevision = id) :
    Advances s (replaced s d r a gone now) d current r gone where
  active := active
  decisions := rfl
  revisions := rfl
  fresh := new.fresh
  owned := new.decision
  superseded := fun id => by
    rw [superseded_iff, superseded_iff]
    simp only [replaced, setCurrent, dropClaims, withRevision, List.mem_append, List.mem_map]
    constructor
    · rintro ⟨p, hp | ⟨g, hg, rfl⟩, rfl⟩
      · exact .inl ⟨p, hp, rfl⟩
      · exact .inr hg
    · rintro (⟨p, hp, rfl⟩ | hg)
      · exact ⟨p, .inl hp, rfl⟩
      · exact ⟨_, .inr ⟨id, hg, rfl⟩, rfl⟩
  goneStored := by
    intro id hid
    by_cases he : id = current.id
    · exact ⟨current, active.2.1, he.symm⟩
    · obtain ⟨c, hc, _, _, hrev⟩ := conflicts id hid he
      obtain ⟨x, y, b, hx, _, hmem⟩ := (hs.claimed c).mp hc
      exact ⟨y, hx.2.1, (mem_claimsOf hmem).2.2.1.symm.trans hrev⟩

theorem replaced_consistent (hs : Consistent s) {gone : List Uuid} {now : Instant}
    (active : ActiveAs s d current)
    (new : NewRevision s r d.id (some current.id) (current.revision+1) .replace (some a))
    (target : current.id ∈ gone)
    (conflicts : ∀ id ∈ gone, id ≠ current.id → ∃ c ∈ s.claims,
      c.workspace = d.workspace ∧ c.book = d.book ∧ c.decisionRevision = id)
    (hfree : Free (dropClaims d.workspace d.book gone s)
      (claimsOf d.workspace d.book a r.id)) :
    Consistent (replaced s d r a gone now) where
  chained := hs.chained.advance active.1 active.2.1 active.2.2.1 new.fresh new.decision
    new.predecessor new.number fun _ => ⟨a, new.authority⟩
  claimed := by
    apply (replaced_advances hs a now active new conflicts).claimed hs
    intro c
    have hown : c ∈ s.claims → c.decisionRevision ∈ gone →
        c.workspace = d.workspace ∧ c.book = d.book := by
      intro hc hg
      by_cases he : c.decisionRevision = current.id
      · obtain ⟨hw, hb, _⟩ := hs.claim_owner hc active he
        exact ⟨hw, hb⟩
      · obtain ⟨c', hc', hw, hb, hrev⟩ := conflicts _ hg he
        obtain ⟨hw', hb'⟩ := hs.same_owner hc hc' hrev.symm
        exact ⟨hw'.trans hw, hb'.trans hb⟩
    simp only [replaced, setCurrent, dropClaims, withRevision, List.mem_append,
      List.mem_filter, new.action, new.authority, Option.some.injEq]
    apply or_congr
    · apply and_congr_right
      intro hc
      simp only [Bool.not_eq_true', Bool.and_eq_false_iff, decide_eq_false_iff_not]
      constructor
      · intro h
        have hg : c.decisionRevision ∉ gone := by
          intro hg
          obtain ⟨hw, hb⟩ := hown hc hg
          exact h.elim (fun h => h.elim (fun h => h hw) fun h => h hb) fun h => h hg
        exact ⟨fun he => hg (he ▸ target), hg⟩
      · exact fun h => .inr h.2
    · constructor
      · exact fun h => ⟨a, by decide, rfl, h⟩
      · rintro ⟨_, _, rfl, h⟩
        exact h
  claimsOnce := claimsOnce_append (hs.claimsOnce.sublist (List.filter_sublist.map _))
    (claimsOf_nodup _ _ _ _) hfree
  superseded := by
    intro p hp
    simp only [replaced, setCurrent, dropClaims, withRevision, List.mem_append,
      List.mem_map] at hp
    cases hp with
    | inl hp =>
      obtain ⟨old, ho, he⟩ := hs.superseded p hp
      exact ⟨old, List.mem_append_left _ ho, he⟩
    | inr hp =>
      obtain ⟨id, hid, rfl⟩ := hp
      obtain ⟨old, ho, he⟩ := (replaced_advances hs a now active new conflicts).goneStored id hid
      exact ⟨old, List.mem_append_left _ ho, he⟩

end Writes

theorem Written.consistent {t : Store} {workspace book : ℕ} {request : Request}
    (hs : Consistent s) (h : Written s workspace book request t) : Consistent t := by
  cases h with
  | committed fresh current new free => exact committed_consistent hs fresh current new free
  | reaffirmed active new => exact reaffirmed_consistent hs active new
  | revoked active new => exact revoked_consistent hs active new
  | replaced active new target conflicts free =>
    exact replaced_consistent hs active new target (fun id hid hne => (conflicts id hid hne).2)
      free

section Commands
variable {digest : Digest} {workspace book : ℕ} {command : DecisionCommand} {now : Instant}
  {decisionId revisionId : Uuid} {t : Store}

theorem addRevision_ok {r : DecisionRevision} (h : addRevision r s = .ok t) :
    r.id ∉ s.revisions.map (·.id) ∧ t = withRevision s r := by
  simp only [addRevision, bind_ok, demand_ok, Except.ok.injEq] at h
  obtain ⟨_, hf, _, _, _, _, rfl⟩ := h
  exact ⟨hf, rfl⟩

theorem addClaims_ok {a : DecisionAuthority} (h : addClaims workspace book a revisionId s = .ok t) :
    Free s (claimsOf workspace book a revisionId) ∧
      t = { s with claims := s.claims ++ claimsOf workspace book a revisionId } := by
  simp only [addClaims, bind_ok, demand_ok, Except.ok.injEq] at h
  obtain ⟨_, hf, rfl⟩ := h
  exact ⟨hf, rfl⟩

/-- The book was locked at the generation the caller expected. -/
def Expected (workspace book : ℕ) (command : DecisionCommand) (s : Store) : Prop :=
  ∃ b ∈ s.books, b.id = book ∧ b.workspace = workspace ∧
    b.resolutionGeneration = command.expectedResolutionGeneration

theorem expected_of_ok {b : Book} (h : lockedBook workspace book s = .ok b)
    (hg : requireGeneration b command = .ok ()) : Expected workspace book command s := by
  rw [lockedBook, fetch_ok] at h
  rw [requireGeneration, demand_ok] at hg
  have hb := List.find?_some h
  rw [Bool.and_eq_true, decide_eq_true_eq, decide_eq_true_eq] at hb
  exact ⟨b, List.mem_of_find?_eq_some h, hb.1, hb.2, hg⟩

theorem commitInitial_ok
    (h : commitInitial digest workspace book command now decisionId revisionId s = .ok t) :
    Expected workspace book command s ∧
      ∃ t', Written s workspace book command.request t' ∧ t = bump workspace book t' := by
  unfold commitInitial at h
  split at h
  case h_2 => cases h
  case h_1 a hreq =>
    simp only [bind_ok, demand_ok, Except.ok.injEq] at h
    obtain ⟨_, _, b, hb, _, hg, logicals, _, observations, _, _, _, _, hd, s1, h1, s2, h2, rfl⟩ := h
    obtain ⟨hf, rfl⟩ := addRevision_ok h1
    obtain ⟨hfree, rfl⟩ := addClaims_ok h2
    refine ⟨expected_of_ok hb hg, _, ?_, rfl⟩
    rw [hreq]
    exact Written.committed (d := ⟨decisionId, workspace, book, revisionId, now⟩) hd rfl
      ⟨rfl, rfl, rfl, rfl, rfl, hf⟩ hfree

theorem currentRevision_ok {target : ExpectedDecisionRevision} {current : DecisionRevision}
    (h : currentRevision workspace book target s = .ok current) :
    ∃ d, ActiveAs s d current ∧ d.workspace = workspace ∧ d.book = book ∧
      target = ⟨d.id, current.id⟩ := by
  simp only [currentRevision, bind_ok, fetch_ok, demand_ok, Except.ok.injEq] at h
  obtain ⟨d, hd, r, hr, _, hid, _, hlive, rfl⟩ := h
  have hkeys := List.find?_some hd
  simp only [Bool.and_eq_true, decide_eq_true_eq] at hkeys
  exact ⟨d, ⟨List.mem_of_find?_eq_some hd, mem_of_lookup hr, (key_of_lookup hr).symm, hlive⟩,
    hkeys.1.2, hkeys.2, by rw [hkeys.1.1, hid]⟩

theorem claimConflicts_claimed {a : DecisionAuthority} {excluding : Option Uuid}
    {x : DecisionConflict} (h : x ∈ claimConflicts workspace book a excluding s) :
    a.reservesEndpoints = true ∧ ∃ c ∈ s.claims, c.workspace = workspace ∧ c.book = book ∧
      c.decisionRevision = x.revisionId := by
  unfold claimConflicts at h
  split_ifs at h with hr
  · refine ⟨hr, ?_⟩
    rw [mem_sortOn, List.mem_map] at h
    obtain ⟨r, hmem, rfl⟩ := h
    obtain ⟨id, hid, hrev⟩ := List.mem_filterMap.mp (List.mem_filter.mp hmem).1
    obtain ⟨c, hc, rfl⟩ := List.mem_map.mp (List.mem_dedup.mp hid)
    obtain ⟨hc, _⟩ := List.mem_filter.mp hc
    obtain ⟨hc, hown⟩ := List.mem_filter.mp hc
    rw [Bool.and_eq_true, decide_eq_true_eq, decide_eq_true_eq] at hown
    exact ⟨c, hc, hown.1, hown.2, (key_of_lookup hrev).symm⟩
  · simp at h

theorem commitChange_ok (hs : Consistent s)
    (h : commitChange digest workspace book command now revisionId s = .ok t) :
    Expected workspace book command s ∧
      ∃ t', Written s workspace book command.request t' ∧ t = bump workspace book t' := by
  simp only [commitChange, bind_ok, fetch_ok] at h
  obtain ⟨target, htarget, _, _, b, hb, _, hg, current, hcur, inherited, hauth, h⟩ := h
  refine ⟨expected_of_ok hb hg, ?_⟩
  obtain ⟨d, active, rfl, rfl, rfl⟩ := currentRevision_ok hcur
  have hown : current.decision = d.id := hs.chained.current active.1 active.2.1 active.2.2.1
  have hact : ∀ req, command.request = req → command.request.action = req.action :=
    fun _ he => he ▸ rfl
  split at h
  case h_1 => cases h
  case h_2 target' hreq =>
    have ht : target' = ⟨d.id, current.id⟩ := by simpa [hreq] using htarget
    simp only [bind_ok, Except.ok.injEq] at h
    obtain ⟨logicals, _, observations, _, s1, h1, rfl⟩ := h
    obtain ⟨hf, rfl⟩ := addRevision_ok h1
    refine ⟨_, ?_, rfl⟩
    rw [hown, hreq, ht]
    exact Written.reaffirmed active ⟨hown, rfl, rfl, hact _ hreq, hauth.symm, hf⟩
  case h_3 target' hreq =>
    have ht : target' = ⟨d.id, current.id⟩ := by simpa [hreq] using htarget
    simp only [bind_ok, Except.ok.injEq] at h
    obtain ⟨s1, h1, rfl⟩ := h
    obtain ⟨hf, rfl⟩ := addRevision_ok h1
    refine ⟨_, ?_, rfl⟩
    rw [hown, hreq, ht]
    exact Written.revoked active ⟨hown, rfl, rfl, hact _ hreq, rfl, hf⟩
  case h_4 target' a approved hreq =>
    have ht : target' = ⟨d.id, current.id⟩ := by simpa [hreq] using htarget
    simp only [bind_ok, Except.ok.injEq, demand_ok, supersede] at h
    obtain ⟨logicals, _, observations, _, _, _, s1, h1, s2, ⟨_, _, rfl⟩, s3, h3, rfl⟩ := h
    obtain ⟨hf, rfl⟩ := addRevision_ok h1
    obtain ⟨hfree, rfl⟩ := addClaims_ok h3
    refine ⟨_, ?_, rfl⟩
    rw [hown, hreq, ht]
    have new : NewRevision s (lifecycleRevision digest d.workspace current command (some a)
        observations now revisionId) d.id (some current.id) (current.revision+1) .replace
        (some a) := ⟨hown, rfl, rfl, hact _ hreq, rfl, hf⟩
    have hw : Written s d.workspace d.book (.replace ⟨d.id, current.id⟩ a approved)
        (replaced s d _ a (current.id :: _) now) :=
      .replaced active new List.mem_cons_self ?_ hfree
    · rw [hown] at hw
      exact hw
    intro id hid hne
    cases List.mem_cons.mp hid with
    | inl hid => exact absurd hid hne
    | inr hid =>
      obtain ⟨x, hx, rfl⟩ := List.mem_map.mp hid
      exact claimConflicts_claimed hx

end Commands

section Runs
variable {digest : Digest}

/-- The decision command a step of a run is, with its book. -/
def decisionOf : Command → Option (ℕ × ℕ × DecisionCommand)
  | .initial workspace book command _ _ _ => some (workspace, book, command)
  | .change workspace book command _ _ => some (workspace, book, command)
  | .elsewhere .. => none

theorem bump_consistent (workspace book : ℕ) (h : Consistent s) :
    Consistent (bump workspace book s) :=
  ⟨h.chained, h.claimed, h.claimsOnce, h.superseded⟩

theorem perform_decision (hs : Consistent s) {c : Command} {workspace book : ℕ}
    {command : DecisionCommand} (hc : decisionOf c = some (workspace, book, command)) {t : Store}
    (h : perform digest s c = .ok t) :
    Expected workspace book command s ∧
      ∃ t', Written s workspace book command.request t' ∧ t = bump workspace book t' := by
  cases c with
  | initial w b cmd now decisionId revisionId =>
    simp only [decisionOf, Option.some.injEq, Prod.mk.injEq] at hc
    obtain ⟨rfl, rfl, rfl⟩ := hc
    exact commitInitial_ok h
  | change w b cmd now revisionId =>
    simp only [decisionOf, Option.some.injEq, Prod.mk.injEq] at hc
    obtain ⟨rfl, rfl, rfl⟩ := hc
    exact commitChange_ok hs h
  | elsewhere => cases hc

theorem perform_cases (hs : Consistent s) {c : Command} {t : Store}
    (h : perform digest s c = .ok t) :
    ∃ t', (t' = s ∨ ∃ workspace book request, Written s workspace book request t') ∧
      t.decisions = t'.decisions ∧ t.revisions = t'.revisions ∧
      t.supersessions = t'.supersessions ∧ t.claims = t'.claims := by
  by_cases hc : decisionOf c = none
  · cases c with
    | initial => cases hc
    | change => cases hc
    | elsewhere =>
      simp only [perform, Except.ok.injEq] at h
      exact ⟨s, .inl rfl, h ▸ rfl, h ▸ rfl, h ▸ rfl, h ▸ rfl⟩
  · obtain ⟨⟨workspace, book, command⟩, hc⟩ := Option.ne_none_iff_exists'.mp hc
    obtain ⟨_, t', hw, rfl⟩ := perform_decision hs hc h
    exact ⟨t', .inr ⟨_, _, _, hw⟩, rfl, rfl, rfl, rfl⟩

theorem activeAs_congr {t t' : Store} (hd : t.decisions = t'.decisions)
    (hr : t.revisions = t'.revisions) (hp : t.supersessions = t'.supersessions)
    {d : Decision} {r : DecisionRevision} : ActiveAs t d r ↔ ActiveAs t' d r := by
  unfold ActiveAs live superseded
  rw [hd, hr, hp]

theorem consistent_congr {t t' : Store} (hd : t.decisions = t'.decisions)
    (hr : t.revisions = t'.revisions) (hp : t.supersessions = t'.supersessions)
    (hc : t.claims = t'.claims) (h : Consistent t') : Consistent t where
  chained := by
    rw [hd, hr]
    exact h.chained
  claimed := by
    intro c
    rw [hc, h.claimed]
    simp only [activeAs_congr hd hr hp]
  claimsOnce := hc ▸ h.claimsOnce
  superseded := by
    rw [hp, hr]
    exact h.superseded

theorem call_consistent (hs : Consistent s) (c : Command) : Consistent (call digest s c) := by
  apply settle_keeps hs
  intro t h
  obtain ⟨t', ht, hd, hr, hp, hc⟩ := perform_cases hs h
  apply consistent_congr hd hr hp hc
  cases ht with
  | inl ht => exact ht ▸ hs
  | inr ht =>
    obtain ⟨_, _, _, ht⟩ := ht
    exact ht.consistent hs

theorem run_consistent (hs : Consistent s) (cs : List Command) :
    Consistent (cs.foldl (call digest) s) :=
  foldl_keeps (P := Consistent) (fun _ c h _ => call_consistent h c) hs (along_true s cs)

theorem reached_consistent (cs : List Command) : Consistent (reached digest cs) :=
  run_consistent empty_consistent cs

end Runs

end Workbench.DecisionStore
