import Workbench.Components

/-!
# Optimal selections

With an optimal solver the selection in a component is a one-to-one set of
allowed edges of the largest total utility, and making it never fails.
-/

set_option autoImplicit false

namespace Workbench.Optimum
open Workbench.Listing Workbench.Raising Workbench.Records Workbench.Evidence
open Workbench.Candidates Workbench.Assignment Workbench.Components
open Workbench.PaddedAssignment Workbench.Matching

def edgesOf (cs : List CandidateEvidence) : Finset Edge := (cs.map (·.edge)).toFinset

@[simp] theorem mem_edgesOf {cs : List CandidateEvidence} {e : Edge} :
    e ∈ edgesOf cs ↔ ∃ c ∈ cs, c.edge = e := by
  simp [edgesOf]

def scoreOf (cs : List CandidateEvidence) (e : Edge) : ℕ :=
  ((lookup (·.edge) cs e).map (·.scoreBp)).getD 0

/-- The utility of an edge: how far its score is above the floor. -/
def utility (cs : List CandidateEvidence) (floorBp : ℕ) (e : Edge) : ℕ := scoreOf cs e-floorBp

theorem scoreOf_mem {cs : List CandidateEvidence} (h : (cs.map (·.edge)).Nodup)
    {c : CandidateEvidence} (hc : c ∈ cs) : scoreOf cs c.edge = c.scoreBp := by
  have hlookup : lookup (·.edge) cs c.edge = some c := lookup_mem h hc
  simp [scoreOf, hlookup]

theorem utility_mem {cs : List CandidateEvidence} (h : (cs.map (·.edge)).Nodup) (floorBp : ℕ)
    {c : CandidateEvidence} (hc : c ∈ cs) : utility cs floorBp c.edge = c.scoreBp-floorBp := by
  rw [utility, scoreOf_mem h hc]

theorem edgeTable_mem {cs : List CandidateEvidence} (h : (cs.map (·.edge)).Nodup)
    {c : CandidateEvidence} (hc : c ∈ cs) : edgeTable cs c.edge = some c := by
  rw [edgeTable, ← lookup_perm (List.reverse_perm cs).symm h]
  exact lookup_mem h hc

theorem edgeTable_none {cs : List CandidateEvidence} {e : Edge} (h : e ∉ edgesOf cs) :
    edgeTable cs e = none := by
  refine lookup_none.mpr fun c hc he => h ?_
  exact mem_edgesOf.mpr ⟨c, List.mem_reverse.mp hc, he⟩

/-- A component as it is handed to the solver: distinct endpoints, distinct
edges between them, every score above the floor. -/
structure Solvable (leftIds rightIds : List String) (cs : List CandidateEvidence)
    (floorBp : ℕ) : Prop where
  left_nodup : leftIds.Nodup
  right_nodup : rightIds.Nodup
  unique : (cs.map (·.edge)).Nodup
  within : ∀ c ∈ cs, c.leftId ∈ leftIds ∧ c.rightId ∈ rightIds
  text : ∀ c ∈ cs, nonblank c.leftId = true ∧ nonblank c.rightId = true
  above : ∀ c ∈ cs, floorBp < c.scoreBp
  scale : ∀ c ∈ cs, c.scoreBp ≤ scoreScaleBp

structure BestSelection (cs : List CandidateEvidence) (floorBp : ℕ) (forbidden : List Edge)
    (selected : List SelectedAssignmentEdge) : Prop where
  nodup : (selected.map (·.edge)).Nodup
  oneToOne : OneToOne (selected.map (·.edge)).toFinset
  allowed : ∀ s ∈ selected, s.edge ∉ forbidden
  matched : ∀ s ∈ selected, ∃ c ∈ cs, c.edge = s.edge ∧ s.scoreBp = c.scoreBp ∧
    s.utilityBp = c.scoreBp-floorBp
  sorted : selected.Pairwise fun a b => edgeOrder a.edge ≤ edgeOrder b.edge
  best : (selected.map (·.utilityBp)).sum =
    best (edgesOf cs \ forbidden.toFinset) (utility cs floorBp)

section Solving
variable {leftIds rightIds : List String} {cs : List CandidateEvidence} {floorBp : ℕ}
  {forbidden : List Edge}

theorem priced (h : Solvable leftIds rightIds cs floorBp) (forbidden : List Edge) :
    Priced leftIds rightIds (edgesOf cs \ forbidden.toFinset) (utility cs floorBp)
      (costCell cs floorBp forbidden (leftIds.length*10001+1)) scoreScaleBp
      (leftIds.length*10001+1) := by
  refine ⟨?_, ?_, ?_, ?_⟩
  · intro l r he
    obtain ⟨hmem, hno⟩ := Finset.mem_sdiff.mp he
    obtain ⟨c, hc, hce⟩ := mem_edgesOf.mp hmem
    have habove := h.above c hc
    rw [← hce, costCell, show (l, r) = c.edge from hce.symm, edgeTable_mem h.unique hc,
      utility_mem h.unique floorBp hc]
    simp only
    rw [if_neg (by rw [hce]; simpa using hno)]
    omega
  · intro l _ r _ he
    rw [costCell]
    by_cases hmem : (l, r) ∈ edgesOf cs
    · have hforbidden : (l, r) ∈ forbidden := by simpa [hmem] using he
      obtain ⟨c, hc, hce⟩ := mem_edgesOf.mp hmem
      rw [← hce, edgeTable_mem h.unique hc]
      simp only
      rw [if_pos (hce ▸ hforbidden)]
    · rw [edgeTable_none hmem]
  · intro e he
    obtain ⟨c, hc, rfl⟩ := mem_edgesOf.mp (Finset.mem_sdiff.mp he).1
    rw [utility_mem h.unique floorBp hc]
    have := h.scale c hc
    omega
  · unfold scoreScaleBp
    push_cast
    omega

def selectedOf (cs : List CandidateEvidence) (floorBp : ℕ) (e : Edge) : SelectedAssignmentEdge :=
  ⟨e.1, e.2, scoreOf cs e, utility cs floorBp e⟩

theorem selectEdge_ok (h : Solvable leftIds rightIds cs floorBp) {p : ℕ × ℕ} {e : Edge}
    (hp : pairAt leftIds rightIds p = some e) (he : e ∈ edgesOf cs \ forbidden.toFinset) :
    selectEdge leftIds rightIds cs floorBp forbidden p = .ok (selectedOf cs floorBp e) := by
  obtain ⟨hmem, hno⟩ := Finset.mem_sdiff.mp he
  obtain ⟨c, hc, rfl⟩ := mem_edgesOf.mp hmem
  have hno' : c.edge ∉ forbidden := by simpa using hno
  have habove := h.above c hc
  have hscale := h.scale c hc
  obtain ⟨hl, hr⟩ := h.text c hc
  simp only [selectEdge, hp, if_neg hno', edgeTable_mem h.unique hc]
  rw [if_neg (by omega)]
  simp only [SelectedAssignmentEdge.create, bind_ok, exists_require, pure_ok]
  refine ⟨hl, hr, by omega, by omega, ⟨by exact_mod_cast hscale, by omega⟩, ?_⟩
  simp only [selectedOf, scoreOf_mem h.unique hc, utility_mem h.unique floorBp hc,
    SelectedAssignmentEdge.mk.injEq, true_and]
  exact ⟨rfl, by omega⟩

/-- The selection in a component never fails and is a best one. -/
theorem solveComponent_best (h : Solvable leftIds rightIds cs floorBp)
    {solver : AssignmentSolver} (hopt : Optimal solver.minimize)
    (hforbidden : forbidden ⊆ cs.map (·.edge)) :
    ∃ selected, solveComponent leftIds rightIds cs floorBp solver forbidden = .ok selected ∧
      BestSelection cs floorBp forbidden selected := by
  generalize hs : solver.minimize (padded leftIds rightIds
    (costCell cs floorBp forbidden (leftIds.length*10001+1))) = s
  have hmin : Minimum (padded leftIds rightIds
      (costCell cs floorBp forbidden (leftIds.length*10001+1)))
      (rightIds.length+leftIds.length) s := by
    rw [← hs]
    exact hopt _ _ (padded_rectangular _ _ _) (by simp)
  have hcomplete := hmin.complete
  rw [padded_length] at hcomplete
  have hp := priced h forbidden
  have hallowed := chosen_allowed hp hmin
  have hin : ∀ e ∈ edgesOf cs \ forbidden.toFinset, e.1 ∈ leftIds ∧ e.2 ∈ rightIds := by
    intro e he
    obtain ⟨c, hc, rfl⟩ := mem_edgesOf.mp (Finset.mem_sdiff.mp he).1
    exact h.within c hc
  have hbest := chosen_best h.left_nodup h.right_nodup hp hin hmin
  have hnodup := chosen_nodup h.left_nodup h.right_nodup hcomplete
  have hone := chosen_oneToOne h.left_nodup h.right_nodup hcomplete
  have hsome : ∀ p ∈ s, (pairAt leftIds rightIds p).isSome = decide (p.2 < rightIds.length) := by
    intro p hps
    have hrow := hcomplete.row_lt hps
    unfold pairAt
    rw [List.getElem?_eq_getElem hrow]
    by_cases hcol : p.2 < rightIds.length
    · simp [hcol]
    · simp [hcol]
  have hmap : (s.filter (·.2 < rightIds.length)).mapM
      (selectEdge leftIds rightIds cs floorBp forbidden) =
        .ok ((chosen leftIds rightIds s).map (selectedOf cs floorBp)) := by
    have hchosen := map_filter_eq_filterMap ("", "") hsome
    rw [chosen, ← hchosen, List.map_map]
    refine mapM_total fun p hp' => ?_
    obtain ⟨hps, hcol⟩ := List.mem_filter.mp hp'
    obtain ⟨e, he⟩ := Option.isSome_iff_exists.mp ((hsome p hps).trans hcol)
    have hmem : e ∈ chosen leftIds rightIds s := List.mem_filterMap.mpr ⟨p, hps, he⟩
    rw [Function.comp_apply, he, Option.getD_some]
    exact selectEdge_ok h he (hallowed e hmem)
  have hedges : ((chosen leftIds rightIds s).map (selectedOf cs floorBp)).map (·.edge) =
      chosen leftIds rightIds s := by
    rw [List.map_map]
    exact List.map_id _
  refine ⟨sortOn (fun x => edgeOrder x.edge)
    ((chosen leftIds rightIds s).map (selectedOf cs floorBp)), ?_, ?_⟩
  · simp only [solveComponent, bind_ok, exists_require, pure_ok, hs]
    refine ⟨hforbidden, (), ?_, _, hmap, rfl⟩
    have hrows : SameMembers (s.map Prod.fst) (List.range leftIds.length) :=
      ⟨fun a ha => hcomplete.rows.mem_iff.mp ha, fun a ha => hcomplete.rows.mem_iff.mpr ha⟩
    exact bind_ok.mpr ⟨(), require_ok.mpr hcomplete.length_eq, bind_ok.mpr ⟨(),
      require_ok.mpr ⟨hrows, hcomplete.distinct⟩, require_ok.mpr hcomplete.columns⟩⟩
  · have hperm := sortOn_perm (fun x : SelectedAssignmentEdge => edgeOrder x.edge)
      ((chosen leftIds rightIds s).map (selectedOf cs floorBp))
    have hmem : ∀ x ∈ sortOn (fun x : SelectedAssignmentEdge => edgeOrder x.edge)
        ((chosen leftIds rightIds s).map (selectedOf cs floorBp)),
        ∃ e ∈ chosen leftIds rightIds s, selectedOf cs floorBp e = x :=
      fun x hx => List.mem_map.mp (hperm.mem_iff.mp hx)
    refine ⟨?_, ?_, ?_, ?_, sortOn_pairwise _ _, ?_⟩
    · rw [nodup_map_sortOn, hedges]
      exact hnodup
    · rw [List.toFinset_eq_of_perm _ _ (hperm.map (·.edge)), hedges]
      exact hone
    · intro x hx
      obtain ⟨e, he, rfl⟩ := hmem x hx
      have hno := (Finset.mem_sdiff.mp (hallowed e he)).2
      rwa [List.mem_toFinset] at hno
    · intro x hx
      obtain ⟨e, he, rfl⟩ := hmem x hx
      obtain ⟨c, hc, rfl⟩ := mem_edgesOf.mp (Finset.mem_sdiff.mp (hallowed e he)).1
      exact ⟨c, hc, rfl, scoreOf_mem h.unique hc, utility_mem h.unique floorBp hc⟩
    · rw [(hperm.map (·.utilityBp)).sum_eq, List.map_map, ← hbest]
      rfl

end Solving

end Workbench.Optimum
