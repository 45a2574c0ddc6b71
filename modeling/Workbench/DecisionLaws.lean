import Workbench.DecisionStore

/-!
# Laws of the decision store

What every state the commands reach satisfies, and what each command does
there.
-/

set_option autoImplicit false

namespace Workbench.DecisionLaws
open Workbench.Listing Workbench.Tables Workbench.Calendar Workbench.Workspaces Workbench.Records
open Workbench.Json Workbench.Decisions Workbench.DecisionStore

variable {s : Store} {digest : Digest}

def Active (s : Store) (id : Uuid) : Prop := ∃ d r, ActiveAs s d r ∧ d.id = id

theorem claimed_once (hs : Consistent s) {d : Decision} {r : DecisionRevision}
    (h : ActiveAs s d r) {a : DecisionAuthority} (ha : r.authority = some a)
    (hreserves : a.reservesEndpoints = true) {id : Uuid} (hid : id ∈ a.endpointIds) :
    (s.claims.filter fun c => c.decisionRevision = r.id ∧ c.logicalTransaction = id) =
      [⟨d.workspace, d.book, id, r.id⟩] := by
  rw [← List.perm_singleton]
  have hnodup : s.claims.Nodup := hs.claimsOnce.of_map _
  apply (List.perm_ext_iff_of_nodup (hnodup.filter _) (List.nodup_singleton _)).mpr
  intro c
  rw [List.mem_filter, List.mem_singleton, decide_eq_true_eq]
  constructor
  · rintro ⟨hc, hrev, hlog⟩
    obtain ⟨hw, hb, _⟩ := hs.claim_owner hc h hrev
    rw [← hw, ← hb, ← hrev, ← hlog]
  · rintro rfl
    refine ⟨(hs.claimed _).mpr ⟨d, r, a, h, ha, ?_⟩, rfl, rfl⟩
    rw [claimsOf, if_pos hreserves]
    exact List.mem_map.mpr ⟨id, hid, rfl⟩

theorem claim_origin (hs : Consistent s) {c : ActiveDecisionClaim} (hc : c ∈ s.claims) :
    ∃ d r a, ActiveAs s d r ∧ r.authority = some a ∧ a.reservesEndpoints = true ∧
      c.logicalTransaction ∈ a.endpointIds ∧ c.decisionRevision = r.id := by
  obtain ⟨d, r, a, h, ha, hmem⟩ := (hs.claimed c).mp hc
  obtain ⟨_, _, hrev, hid⟩ := mem_claimsOf hmem
  refine ⟨d, r, a, h, ha, ?_, hid, hrev⟩
  by_contra hreserves
  rw [claimsOf, if_neg hreserves] at hmem
  cases hmem

theorem written_active (hs : Consistent s) {t : Store} {workspace book : ℕ} {request : Request}
    (h : Written s workspace book request t) {id : Uuid} (hid : id ∈ s.decisions.map (·.id))
    (ha : Active t id) : Active s id := by
  obtain ⟨x, y, hx, rfl⟩ := ha
  have hadvance : ∀ {d : Decision} {current r : DecisionRevision} {gone : List Uuid},
      Advances s t d current r gone → Active s x.id := by
    intro d current r gone hadv
    cases (hadv.activeAs hs).mp hx with
    | inl hx => exact ⟨d, current, hadv.active, by rw [hx.1]⟩
    | inr hx => exact ⟨x, y, hx.2.1, rfl⟩
  cases h with
  | @committed d r a fresh current new free =>
    have hact : r.action ≠ .revoke := by
      rw [new.action]
      cases a <;> simp [DecisionAuthority.action]
    cases (committed_activeAs hs current new.fresh hact).mp hx with
    | inl hx =>
      rw [hx.1] at hid
      exact absurd hid fresh
    | inr hx => exact ⟨x, y, hx, rfl⟩
  | reaffirmed active new => exact hadvance (reaffirmed_advances active new)
  | revoked active new => exact hadvance (revoked_advances active new)
  | replaced active new target conflicts free =>
    exact hadvance (replaced_advances hs _ _ active new fun id hid hne => (conflicts id hid hne).2)

theorem written_ids {t : Store} {workspace book : ℕ} {request : Request}
    (h : Written s workspace book request t) {id : Uuid} (hid : id ∈ s.decisions.map (·.id)) :
    id ∈ t.decisions.map (·.id) := by
  have hadvanced : ∀ (d : Decision) (r : DecisionRevision),
      id ∈ (advanced d r s.decisions).map (·.id) := by
    intro d r
    have hk := keys_revise (g := Decision.id) (f := fun x => { x with currentRevision := r.id })
      (fun _ => rfl) d.id s.decisions
    rw [advanced, hk]
    exact hid
  cases h with
  | committed => exact List.map_append ▸ List.mem_append_left _ hid
  | reaffirmed => exact hadvanced _ _
  | revoked => exact hadvanced _ _
  | replaced => exact hadvanced _ _

theorem written_books {t : Store} {workspace book : ℕ} {request : Request}
    (h : Written s workspace book request t) : t.books = s.books := by
  cases h <;> rfl

/-- A decision that is stored and not in force. -/
def Retired (id : Uuid) (s : Store) : Prop := id ∈ s.decisions.map (·.id) ∧ ¬Active s id

theorem call_retired (hs : Consistent s) {id : Uuid} (h : Retired id s) (c : Command) :
    Retired id (call digest s c) := by
  apply settle_keeps h
  intro t ht
  obtain ⟨t', ht', hd, hr, hp, _⟩ := perform_cases hs ht
  have hact : Active t id ↔ Active t' id := by
    unfold Active
    simp only [activeAs_congr hd hr hp]
  unfold Retired
  rw [hd, hact]
  cases ht' with
  | inl ht' => exact ht' ▸ h
  | inr ht' =>
    obtain ⟨_, _, _, ht'⟩ := ht'
    exact ⟨written_ids ht' h.1, fun ha => h.2 (written_active hs ht' h.1 ha)⟩

theorem run_retired (hs : Consistent s) {id : Uuid} (h : Retired id s) (cs : List Command) :
    Retired id (cs.foldl (call digest) s) := by
  have hboth : Consistent (cs.foldl (call digest) s) ∧ Retired id (cs.foldl (call digest) s) :=
    foldl_keeps (P := fun s => Consistent s ∧ Retired id s)
      (fun _ c h _ => ⟨call_consistent h.1 c, call_retired h.1 h.2 c⟩) ⟨hs, h⟩ (along_true s cs)
  exact hboth.2

/-- Laws of a state of the decision tables. -/
structure Lawful (s : Store) : Prop where
  /-- An active link or accepted record has one claim for each of its records. -/
  claimed : ∀ d r a, ActiveAs s d r → r.authority = some a → a.reservesEndpoints = true →
    ∀ id ∈ a.endpointIds,
      (s.claims.filter fun c => c.decisionRevision = r.id ∧ c.logicalTransaction = id) =
        [⟨d.workspace, d.book, id, r.id⟩]
  noOther : ∀ c ∈ s.claims, ∃ d r a, ActiveAs s d r ∧ r.authority = some a ∧
    a.reservesEndpoints = true ∧ c.logicalTransaction ∈ a.endpointIds ∧ c.decisionRevision = r.id
  claimsOnce : (s.claims.map fun c => (c.book, c.logicalTransaction)).Nodup
  /-- The revisions of a decision are one chain that ends at the current one. -/
  chains : ∀ d ∈ s.decisions, Chain none 1 (history s.revisions d.id) ∧
    ∃ earlier r, history s.revisions d.id = earlier ++ [r] ∧ d.currentRevision = r.id

theorem Consistent.lawful (hs : Consistent s) : Lawful s where
  claimed := fun _ _ _ h ha hreserves _ hid => claimed_once hs h ha hreserves hid
  noOther := fun _ hc => claim_origin hs hc
  claimsOnce := hs.claimsOnce
  chains := hs.chained.chains

/-- In every state a run reaches the laws hold, a retired decision stays retired
however the run goes on, a successful decision command met the generation it
expected and raised it by one, and a failing one changed nothing. -/
theorem decision_store_lawful (digest : Digest) (cs : List Command) :
    Lawful (reached digest cs) ∧
    (∀ id ds, Retired id (reached digest cs) → Retired id (reached digest (cs ++ ds))) ∧
    (∀ c workspace book command t, decisionOf c = some (workspace, book, command) →
      perform digest (reached digest cs) c = .ok t →
      Expected workspace book command (reached digest cs) ∧
      t.books = revise Book.id book
        (fun b => { b with resolutionGeneration := b.resolutionGeneration+1 })
        (reached digest cs).books) ∧
    ∀ c e, perform digest (reached digest cs) c = .error e →
      call digest (reached digest cs) c = reached digest cs := by
  have hs : Consistent (reached digest cs) := reached_consistent cs
  refine ⟨Consistent.lawful hs, ?_, ?_, ?_⟩
  · intro id ds h
    unfold reached at h hs ⊢
    rw [List.foldl_append]
    exact run_retired hs h ds
  · intro c workspace book command t hc h
    obtain ⟨hexp, t', hw, rfl⟩ := perform_decision hs hc h
    refine ⟨hexp, ?_⟩
    rw [bump, written_books hw]
  · intro c e h
    rw [call, h]
    rfl

end Workbench.DecisionLaws
