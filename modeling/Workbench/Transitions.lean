import Workbench.PublicationFrames

/-!
# Lineage between cases

A plan has an edge for every two different cases that overlap, one shown before
and one found now. It does not ask whether either of them changed, so two
cases that overlap and both stay are linked again by every publication.
-/

set_option autoImplicit false

namespace Workbench.Transitions
open Workbench.Listing Workbench.Tables Workbench.Ingestion Workbench.Review Workbench.Runs
open Workbench.Publications Workbench.PublicationFrames

/-- A set of cases: none is in it twice. -/
structure CaseSet where
  nodes : List CaseTransitionNode
  keys_unique : (nodes.map (·.caseKey)).Nodup

def CaseSet.keys (c : CaseSet) : List CaseKey := c.nodes.map (·.caseKey)

def Changed (before after : CaseSet) (p s : CaseTransitionNode) : Prop :=
  p.caseKey ∉ after.keys ∨ s.caseKey ∉ before.keys

section Plans
variable {previous current : List CaseTransitionNode} {old new : CaseTransitionNode}
variable {e : CaseLineageEdge}

theorem edgeBetween_some :
    edgeBetween old new = some e ↔
      old.caseKey = e.predecessor ∧ new.caseKey = e.successor ∧ old.Overlap new := by
  unfold edgeBetween
  by_cases hk : old.caseKey = new.caseKey
  · rw [dif_neg (fun h => h hk)]
    constructor
    · intro h
      cases h
    · intro h
      exact absurd (h.1.symm.trans (hk.trans h.2.1)) e.distinct
  · rw [dif_pos hk]
    by_cases ho : old.Overlap new
    · rw [if_pos ho, Option.some.injEq, CaseLineageEdge.ext_iff]
      exact ⟨fun h => ⟨h.1, h.2, ho⟩, fun h => ⟨h.1, h.2.1⟩⟩
    · rw [if_neg ho]
      constructor
      · intro h
        cases h
      · intro h
        exact absurd h.2.2 ho

theorem edges_nodup (hp : (previous.map (·.caseKey)).Nodup)
    (hc : (current.map (·.caseKey)).Nodup) :
    (previous.flatMap fun p => current.filterMap (edgeBetween p)).Nodup := by
  apply List.nodup_flatMap.mpr
  constructor
  · intro p _
    apply List.pairwise_filterMap.mpr
    apply (List.pairwise_map.mp hc).imp
    intro a b hab e he f hf hef
    have ha := (edgeBetween_some.mp he).2.1
    have hb := (edgeBetween_some.mp hf).2.1
    exact hab (ha.trans (hef ▸ hb.symm))
  · apply (List.pairwise_map.mp hp).imp
    intro a b hab e ha hb
    obtain ⟨_, _, ha⟩ := List.mem_filterMap.mp ha
    obtain ⟨_, _, hb⟩ := List.mem_filterMap.mp hb
    exact hab ((edgeBetween_some.mp ha).1.trans (edgeBetween_some.mp hb).1.symm)

theorem keys_sorted {l : List CaseTransitionNode} (h : (l.map (·.caseKey)).Nodup) :
    ((sortOn (·.caseKey.order) l).map (·.caseKey)).Nodup :=
  (nodup_map_sortOn _ _ l).mpr h

theorem plan_some (hp : (previous.map (·.caseKey)).Nodup)
    (hc : (current.map (·.caseKey)).Nodup) : ∃ edges,
    planCaseTransitions previous current = some edges ∧ edges.Nodup ∧
      ∀ e, e ∈ edges ↔ ∃ p ∈ previous, ∃ s ∈ current,
        p.caseKey = e.predecessor ∧ s.caseKey = e.successor ∧ p.Overlap s := by
  have hnodup := edges_nodup (keys_sorted hp) (keys_sorted hc)
  refine ⟨_, if_pos hnodup, (sortOn_perm _ _).nodup_iff.mpr hnodup, fun e => ?_⟩
  simp only [mem_sortOn, List.mem_flatMap, List.mem_filterMap, edgeBetween_some]

end Plans

/-- Each edge once, and an edge exactly between different cases that overlap
and of which one changed. -/
def Exact (before after : CaseSet) (edges : List CaseLineageEdge) : Prop :=
  edges.Nodup ∧ ∀ e, e ∈ edges ↔ ∃ p ∈ before.nodes, ∃ s ∈ after.nodes,
    p.caseKey = e.predecessor ∧ s.caseKey = e.successor ∧ p.Overlap s ∧ Changed before after p s

/-- Publishing the cases that were shown before records no lineage. -/
def Quiet (before after : CaseSet) : Prop :=
  (∀ k, k ∈ before.keys ↔ k ∈ after.keys) →
    ∀ (sha : Sha256) (r : Run) (read : List DecisionHealthSnapshot) (s t : Store),
      materializeRunCases sha r read true s = .ok t →
      (shownCases r.scope s).mapM transitionNode = some before.nodes →
      (casesOf t r.id).mapM transitionNode = some after.nodes → t.lineage = s.lineage

/-- Two different cases overlap and are both on both sides. -/
def KeptOverlap (before after : CaseSet) : Prop :=
  ∃ p ∈ before.nodes, ∃ s ∈ after.nodes, p.caseKey ∈ after.keys ∧ s.caseKey ∈ before.keys ∧
    p.caseKey ≠ s.caseKey ∧ p.Overlap s

theorem exact_iff {before after : CaseSet} {edges : List CaseLineageEdge} (hd : edges.Nodup)
    (he : ∀ e, e ∈ edges ↔ ∃ p ∈ before.nodes, ∃ s ∈ after.nodes,
      p.caseKey = e.predecessor ∧ s.caseKey = e.successor ∧ p.Overlap s) :
    Exact before after edges ↔ ¬KeptOverlap before after := by
  constructor
  · intro h hk
    obtain ⟨p, hp, s, hs, hpa, hsb, hne, ho⟩ := hk
    have hmem := (he ⟨p.caseKey, s.caseKey, hne⟩).mpr ⟨p, hp, s, hs, rfl, rfl, ho⟩
    obtain ⟨q, _, u, _, hq, hu, _, hc⟩ := (h.2 _).mp hmem
    rcases hc with hc | hc
    · exact hc (hq ▸ hpa)
    · exact hc (hu ▸ hsb)
  · intro h
    refine ⟨hd, fun e => ⟨fun hm => ?_, fun hm => ?_⟩⟩
    · obtain ⟨p, hp, s, hs, hpe, hse, ho⟩ := (he e).mp hm
      refine ⟨p, hp, s, hs, hpe, hse, ho, ?_⟩
      by_contra hc
      unfold Changed at hc
      push Not at hc
      exact h ⟨p, hp, s, hs, hc.1, hc.2, fun h0 => e.distinct (hpe ▸ hse ▸ h0), ho⟩
    · obtain ⟨p, hp, s, hs, hpe, hse, ho, _⟩ := hm
      exact (he e).mpr ⟨p, hp, s, hs, hpe, hse, ho⟩

theorem exact_unchanged {before after : CaseSet} {edges : List CaseLineageEdge}
    (h : Exact before after edges) (hk : ∀ k, k ∈ before.keys ↔ k ∈ after.keys) : edges = [] := by
  apply List.eq_nil_iff_forall_not_mem.mpr
  intro e he
  obtain ⟨p, hp, s, hs, _, _, _, hc⟩ := (h.2 e).mp he
  have hpa := (hk _).mp (List.mem_map_of_mem (f := (·.caseKey)) hp)
  have hsb := (hk _).mpr (List.mem_map_of_mem (f := (·.caseKey)) hs)
  rcases hc with hc | hc
  · exact hc hpa
  · exact hc hsb

theorem quiet_of_exact {before after : CaseSet} {edges : List CaseLineageEdge}
    (hp : planCaseTransitions before.nodes after.nodes = some edges)
    (h : Exact before after edges) : Quiet before after := by
  intro hk sha r read s t ht hprevious hcurrent
  obtain ⟨findings, u, rows, _, hu, hlineage, rfl⟩ := materialize_current ht
  obtain ⟨b, a, plan, _, hb, ha, hplan, hrows, he⟩ := recordLineage_ok hlineage
  have hcases : (casesOf u r.id).mapM transitionNode = some after.nodes := hcurrent
  rw [hprevious, Option.some.injEq] at hb
  rw [hcases, Option.some.injEq] at ha
  subst hb
  subst ha
  rw [hp, exact_unchanged h hk, Option.some.injEq] at hplan
  subst hplan
  rw [List.mapM_nil] at hrows
  have hu := recordFindings_frame hu
  have hrows' := List.append_cancel_left (congrArg Store.lineage he)
  rw [hrows', ← Option.some.inj hrows, List.append_nil, hu]

/-- Between any two sets of cases, the edges of the plan are exactly those that
changes ask for, and an unchanged set records no lineage, if and only if no two
different cases that both stay overlap. -/
theorem transitions_concern_changes_iff (before after : CaseSet) :
    (∃ edges, planCaseTransitions before.nodes after.nodes = some edges ∧
      Exact before after edges ∧ Quiet before after) ↔ ¬KeptOverlap before after := by
  obtain ⟨edges, hp, hd, he⟩ := plan_some before.keys_unique after.keys_unique
  constructor
  · intro h
    obtain ⟨edges', hp', hx, _⟩ := h
    rw [hp, Option.some.injEq] at hp'
    subst hp'
    exact (exact_iff hd he).mp hx
  · intro h
    have hx := (exact_iff hd he).mpr h
    exact ⟨edges, hp, hx, quiet_of_exact hp hx⟩

theorem repeated_hex (c : Char) (hc : c ∈ Json.hexDigits) :
    HexDigest (String.ofList (List.replicate 64 c)) := by
  unfold HexDigest
  rw [String.toList_ofList]
  exact ⟨List.length_replicate, fun d hd => (List.eq_of_mem_replicate hd) ▸ hc⟩

def repeatedKey (kind : CaseKind) (c : Char) (hc : c ∈ Json.hexDigits) : CaseKey :=
  ⟨kind, String.ofList (List.replicate 64 c), repeated_hex c hc⟩

def openRecord : CaseTransitionNode where
  caseKey := repeatedKey .unpaired 'a' (by decide)
  memberIds := ["L1"]
  members_text := by decide
  members_sorted := by decide
  members_unique := by decide
  members_some := by decide

def openGroup : CaseTransitionNode where
  caseKey := repeatedKey .ambiguity 'b' (by decide)
  memberIds := ["L1", "R1"]
  members_text := by decide
  members_sorted := by decide
  members_unique := by decide
  members_some := by decide

def openCases : CaseSet := ⟨[openRecord, openGroup], by decide⟩

/-- A record that stays ambiguous is linked with its group, and its group with
it, by a rerun that changes nothing. -/
theorem unchanged_rerun_links : ¬∃ edges,
    planCaseTransitions openCases.nodes openCases.nodes = some edges ∧
      Exact openCases openCases edges ∧ Quiet openCases openCases := by
  intro h
  obtain ⟨edges, hp, hx, _⟩ := h
  obtain ⟨edges', hp', hd, he⟩ := plan_some openCases.keys_unique openCases.keys_unique
  rw [hp, Option.some.injEq] at hp'
  subst hp'
  apply (exact_iff hd he).mp hx
  exact ⟨openRecord, by simp [openCases], openGroup, by simp [openCases], by decide, by decide,
    by decide, by decide⟩

end Workbench.Transitions
