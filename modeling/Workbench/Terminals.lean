import Workbench.Overrides

/-!
# Where preprocessing puts each record

A terminal outcome gives the reason for which its record was taken out, and a
conflict lists every free record that carries its reference. Pairs, terminal
outcomes and remaining records share out the input.
-/

set_option autoImplicit false

namespace Workbench.Terminals
open Workbench.Listing Workbench.Raising Workbench.Records Workbench.Evidence
open Workbench.References Workbench.Reservations

section Reasons
variable (s : EngineSnapshot) (d : DecisionInputs) (contract : ReferenceContract)

def Justified (u : UnpairedOutcome) : Prop :=
  match u.reason with
  | .cancelledExcluded => u.recordId ∉ available s u.side
  | .manualAttention => u.recordId ∈ manualEnds d u.side
  | .acceptedUnmatched => u.recordId ∈ d.acceptedUnmatched.map (·.recordId)
  | .reviewerReserved => u.recordId ∈ d.reservedIdentities.map (·.recordId)
  | .duplicateReference => u.recordId ∈ conflictIds s d contract u.side
  | _ => False

def Adds (P : UnpairedOutcome → Prop) (st st' : Reservation) : Prop :=
  ∀ u ∈ st'.terminal, u ∈ st.terminal ∨ P u

variable {s d contract} {P : UnpairedOutcome → Prop}

theorem Adds.refl (st : Reservation) : Adds P st st := fun _ h => Or.inl h

theorem Adds.trans {st₁ st₂ st₃ : Reservation} (h : Adds P st₁ st₂) (h' : Adds P st₂ st₃) :
    Adds P st₁ st₃ := by
  intro u hu
  by_cases hp : P u
  · exact Or.inr hp
  · exact h u ((h' u hu).resolve_right hp)

theorem fold_adds {σ α : Type} (proj : σ → Reservation) {f : σ → α → Outcome σ} {l : List α}
    (step : ∀ a ∈ l, ∀ x y, f x a = .ok y → Adds P (proj x) (proj y)) {x y : σ}
    (h : l.foldlM f x = .ok y) : Adds P (proj x) (proj y) := by
  induction l generalizing x with
  | nil =>
    rw [List.foldlM_nil, pure_ok] at h
    exact h ▸ Adds.refl _
  | cons a l ih =>
    rw [List.foldlM_cons, bind_ok] at h
    obtain ⟨z, hz, hy⟩ := h
    exact (step a (by simp) x z hz).trans (ih (fun b hb => step b (by simp [hb])) hy)

theorem remove_adds {st st' : Reservation} {side : RecordSide} {i : String}
    (h : st.remove side i = .ok st') : st'.terminal = st.terminal := by
  unfold Reservation.remove at h
  split_ifs at h
  rw [← Except.ok.inj h, discard_terminal]

theorem put_adds {st : Reservation} {u : UnpairedOutcome} (hu : P u) : Adds P st (st.put u) := by
  intro v hv
  rcases List.mem_append.mp hv with h | h
  · exact Or.inl (List.mem_of_mem_filter h)
  · exact Or.inr (List.mem_singleton.mp h ▸ hu)

theorem created_reason {u v : UnpairedOutcome} (h : u.create = .ok v) :
    v.recordId = u.recordId ∧ v.side = u.side ∧ v.reason = u.reason := by
  simp only [UnpairedOutcome.create, bind_ok, pure_ok] at h
  obtain ⟨_, _, _, _, _, _, rfl⟩ := h
  exact ⟨rfl, rfl, rfl⟩

theorem settle_adds {side : RecordSide} {reason : UnpairedReason} {explanation : String}
    {related : List String} {st st' : Reservation} {i : String}
    (hP : ∀ u : UnpairedOutcome, u.recordId = i → u.side = side → u.reason = reason → P u)
    (h : settle side reason explanation related st i = .ok st') : Adds P st st' := by
  unfold settle at h
  rw [bind_ok] at h
  obtain ⟨u, hu, hst⟩ := h
  obtain ⟨hi, hs, hr⟩ := created_reason hu
  have hput : Adds P st (st.put u) := put_adds (hP u hi hs hr)
  intro v hv
  exact hput v (remove_adds hst ▸ hv)

theorem join_adds {origin : PairOrigin} {st st' : Reservation} {l r : String}
    (h : join origin st l r = .ok st') : Adds P st st' := by
  unfold join at h
  simp only [bind_ok] at h
  obtain ⟨pair, -, st₁, h₁, h₂⟩ := h
  intro u hu
  rw [remove_adds h₂, remove_adds h₁] at hu
  exact Or.inl hu

theorem excludeCancelled_adds {side : RecordSide} {st st' : Reservation} {r : MatchRecord}
    (hr : r ∈ s.records side) (h : excludeCancelled side st r = .ok st') :
    Adds (Justified s d contract) st st' := by
  unfold excludeCancelled at h
  by_cases he : r.eligible = true
  · rw [if_pos he, Except.ok.injEq] at h
    exact h ▸ Adds.refl _
  · rw [if_neg he, bind_ok] at h
    obtain ⟨u, hu, hst⟩ := h
    obtain ⟨hi, hs, hreason⟩ := created_reason hu
    have hj : Justified s d contract u := by
      unfold Justified
      simp only [hreason, hi, hs]
      rwa [available_eligible hr]
    rw [pure_ok] at hst
    intro v hv
    rw [← hst, discard_terminal] at hv
    exact put_adds hj v hv

theorem reserveManualLink_adds {st st' : Reservation} {link : ManualLink}
    (hl : link ∈ d.manualLinks) (h : reserveManualLink st link = .ok st') :
    Adds (Justified s d contract) st st' := by
  have hend : ∀ side, ∀ u : UnpairedOutcome, u.recordId = link.endId side → u.side = side →
      u.reason = .manualAttention → Justified s d contract u := by
    intro side u hi hs hr
    unfold Justified
    simp only [hr, hi, hs]
    exact List.mem_map_of_mem hl
  unfold reserveManualLink at h
  split_ifs at h
  · exact join_adds h
  · exact settle_adds (hend .left) h
  · exact settle_adds (hend .right) h
  · exact Except.ok.inj h ▸ Adds.refl _

theorem reserveSingle_adds {reason : UnpairedReason} {explanation : String}
    {st st' : Reservation} {decision : SingleReservation}
    (hP : ∀ u : UnpairedOutcome, u.recordId = decision.recordId → u.reason = reason → P u)
    (h : reserveSingle reason explanation st decision = .ok st') : Adds P st st' := by
  unfold reserveSingle at h
  split_ifs at h
  · exact settle_adds (fun u hi _ hr => hP u hi hr) h
  · exact settle_adds (fun u hi _ hr => hP u hi hr) h
  · exact Except.ok.inj h ▸ Adds.refl _

theorem reserveDecisions_adds {st : Reservation} (h : reserveDecisions s d = .ok st) :
    ∀ u ∈ st.terminal, Justified s d contract u := by
  unfold reserveDecisions at h
  simp only [bind_ok] at h
  obtain ⟨st₁, h₁, st₂, h₂, st₃, h₃, st₄, h₄, h₅⟩ := h
  have hcancel : ∀ side x y, (s.records side).foldlM (excludeCancelled side) x = .ok y →
      Adds (Justified s d contract) x y := fun side x y hf =>
    fold_adds (fun st => st) (fun r hr _ _ hs => excludeCancelled_adds hr hs) hf
  have hmanual : Adds (Justified s d contract) st₂ st₃ :=
    fold_adds (fun st => st) (fun link hl _ _ hs => reserveManualLink_adds hl hs) h₃
  have haccepted : Adds (Justified s d contract) st₃ st₄ :=
    fold_adds (fun st => st) (fun a ha _ _ hs => reserveSingle_adds (by
      intro u hi hr
      unfold Justified
      simp only [hr, hi]
      exact List.mem_map_of_mem ha) hs) h₄
  have hreserved : Adds (Justified s d contract) st₄ st :=
    fold_adds (fun st => st) (fun a ha _ _ hs => reserveSingle_adds (by
      intro u hi hr
      unfold Justified
      simp only [hr, hi]
      exact List.mem_map_of_mem ha) hs) h₅
  intro u hu
  have hall := (((hcancel .left _ _ h₁).trans (hcancel .right _ _ h₂)).trans hmanual).trans
    (haccepted.trans hreserved)
  exact (hall u hu).resolve_left List.not_mem_nil

theorem resolveConflict_adds {key : String} {acc acc' : Reservation × List ReferenceConflict}
    (h : resolveConflict (sharing s d contract .left) (sharing s d contract .right) acc key =
      .ok acc') : Adds (Justified s d contract) acc.1 acc'.1 := by
  unfold resolveConflict at h
  by_cases hd : Duplicated s d contract key
  · have hmember : ∀ side, ∀ i ∈ sharing s d contract side key, ∀ u : UnpairedOutcome,
        u.recordId = i → u.side = side → u.reason = .duplicateReference →
          Justified s d contract u := by
      intro side i hi u hu hs hr
      unfold Justified
      simp only [hr, hu, hs]
      exact mem_conflictIds.mpr ⟨key, hd, hi⟩
    have hfold : ∀ side all x y,
        (sharing s d contract side key).foldlM
          (settle side .duplicateReference duplicateText all) x = .ok y →
          Adds (Justified s d contract) x y := fun side all x y hf =>
      fold_adds (fun st => st) (fun i hi _ _ hs => settle_adds (hmember side i hi) hs) hf
    have hconflicting : Conflicting _ _ key := hd
    rw [if_pos hconflicting] at h
    simp only [bind_ok, pure_ok] at h
    obtain ⟨conflict, -, st₁, h₁, st₂, h₂, rfl⟩ := h
    exact (hfold .left _ _ _ h₁).trans (hfold .right _ _ _ h₂)
  · have hquiet : ¬Conflicting _ _ key := hd
    rw [if_neg hquiet, Except.ok.injEq] at h
    exact h ▸ Adds.refl _

theorem establish_adds {prohibited : List Edge} {left right : String → List String}
    {key : String} {st st' : Reservation} (h : establish prohibited left right st key = .ok st') :
    Adds P st st' := by
  unfold establish at h
  split at h
  · split_ifs at h
    · exact join_adds h
    · exact Except.ok.inj h ▸ Adds.refl _
  · exact Except.ok.inj h ▸ Adds.refl _

variable (s d contract) in
def conflictOf (key : String) : ReferenceConflict :=
  ⟨key, sharing s d contract .left key, sharing s d contract .right key⟩

theorem sharing_sorted (side : RecordSide) (key : String) :
    sortOn id (sharing s d contract side key) = sharing s d contract side key :=
  sortOn_eq_self id (sortOn_pairwise id _)

theorem resolveConflict_lists {key : String} {acc acc' : Reservation × List ReferenceConflict}
    (h : resolveConflict (sharing s d contract .left) (sharing s d contract .right) acc key =
      .ok acc') : acc'.2 = acc.2 ++
        if Duplicated s d contract key then [conflictOf s d contract key] else [] := by
  unfold resolveConflict at h
  by_cases hd : Duplicated s d contract key
  · have hconflicting : Conflicting _ _ key := hd
    rw [if_pos hconflicting] at h
    simp only [bind_ok, pure_ok] at h
    obtain ⟨conflict, hc, st₁, -, st₂, -, rfl⟩ := h
    simp only [ReferenceConflict.create, bind_ok, pure_ok] at hc
    obtain ⟨_, _, _, _, _, _, rfl⟩ := hc
    rw [if_pos hd, conflictOf, sharing_sorted, sharing_sorted]
  · have hquiet : ¬Conflicting _ _ key := hd
    rw [if_neg hquiet, Except.ok.injEq] at h
    rw [if_neg hd, ← h, List.append_nil]

theorem resolveConflicts_lists {keys : List String} {acc acc' : Reservation × List ReferenceConflict}
    (h : keys.foldlM (resolveConflict (sharing s d contract .left) (sharing s d contract .right))
      acc = .ok acc') : acc'.2 = acc.2 ++
        (keys.filter (Duplicated s d contract ·)).map (conflictOf s d contract) := by
  induction keys generalizing acc with
  | nil =>
    rw [List.foldlM_nil, pure_ok] at h
    simp [h]
  | cons key keys ih =>
    rw [List.foldlM_cons, bind_ok] at h
    obtain ⟨z, hz, hy⟩ := h
    rw [ih hy, resolveConflict_lists hz, List.append_assoc]
    by_cases hd : Duplicated s d contract key <;> simp [hd]

theorem create_ordered {p q : ReferencePreprocessingResult} (h : p.create = .ok q) :
    q = p.ordered := by
  simp only [ReferencePreprocessingResult.create, partUnique, bind_ok, exists_require, pure_ok] at h
  obtain ⟨_, _, _, _, _, _, _, _, _, _, _, rfl⟩ := h
  rfl

theorem preprocess_lists {p : ReferencePreprocessingResult}
    (h : preprocessReferences s d contract = .ok p) :
    (∀ u ∈ p.terminalUnpaired, Justified s d contract u) ∧
      p.referenceConflicts.Perm
        (((allKeys s d contract).filter (Duplicated s d contract ·)).map
          (conflictOf s d contract)) := by
  unfold preprocessReferences at h
  simp only [bind_ok] at h
  obtain ⟨_, -, st, hst, acc, hacc, st', hst', hp⟩ := h
  obtain ⟨st₀, hst₀, -, -, hfree⟩ := reserveDecisions_spec s d
  have hsame : st = st₀ := Except.ok.inj (hst.symm.trans hst₀)
  rw [hsame] at hacc hst'
  rw [show s.left.filter (·.observationId ∈ st₀.remainingLeft) = freeRecords s d .left from
    filter_remaining (hfree .left), show s.right.filter (·.observationId ∈ st₀.remainingRight) =
      freeRecords s d .right from filter_remaining (hfree .right)] at hacc hst'
  have hresolved : Adds (Justified s d contract) st₀ acc.1 :=
    fold_adds Prod.fst (fun _ _ _ _ hs => resolveConflict_adds hs) hacc
  have hestablished : Adds (Justified s d contract) acc.1 st' :=
    fold_adds (fun st => st) (fun _ _ _ _ hs => establish_adds hs) hst'
  rw [create_ordered hp]
  refine ⟨fun u hu => ?_, ?_⟩
  · have hu' : u ∈ st'.terminal := (mem_sortOn _ _ _).mp hu
    exact ((hresolved.trans hestablished) u hu').elim (reserveDecisions_adds hst₀ u) fun h => h
  · refine (sortOn_perm _ _).trans (List.Perm.of_eq ?_)
    have hlists := resolveConflicts_lists hacc
    exact hlists

theorem terminal_of_input {p : ReferencePreprocessingResult} (h : Preprocessed s d contract p)
    {side : RecordSide} {i : String} (hi : i ∈ ids (s.records side))
    (hpair : i ∉ p.pairs.map (·.endId side)) (hopen : ¬Open s d contract side i) :
    ∃ u ∈ p.terminalUnpaired, u.recordId = i ∧ u.side = side := by
  have hleft : i ∉ ids (p.remaining side) := by
    rw [h.remaining]
    intro hm
    obtain ⟨r, hr, rfl⟩ := mem_ids hm
    exact hopen (of_decide_eq_true (List.mem_filter.mp hr).2)
  have hall := (h.partition side).mem_iff.mpr hi
  rw [List.mem_append, List.mem_append] at hall
  have hon : i ∈ on side p.terminalUnpaired := by tauto
  obtain ⟨u, hu, hui⟩ := List.mem_map.mp hon
  obtain ⟨hmem, hside⟩ := List.mem_filter.mp hu
  exact ⟨u, hmem, hui, of_decide_eq_true hside⟩

theorem referencePair_ends {q : PairOutcome} (hq : q ∈ referencePairs s d contract)
    (side : RecordSide) : ∃ key, sharing s d contract side key = [q.endId side] ∧
      ¬Duplicated s d contract key := by
  obtain ⟨key, hkey⟩ := mem_referencePairs.mp hq
  obtain ⟨hl, hr, -, -⟩ := mem_established.mp hkey
  refine ⟨key, ?_, established_conflict hkey⟩
  cases side
  · exact hl
  · exact hr

theorem referencePair_free {q : PairOutcome} (hq : q ∈ referencePairs s d contract)
    (side : RecordSide) : Free s d side (q.endId side) := by
  obtain ⟨key, hkey, -⟩ := referencePair_ends hq side
  have hmem : q.endId side ∈ sharing s d contract side key := by
    rw [hkey]
    exact List.mem_singleton_self _
  exact sharing_free hmem

theorem conflictIds_free {side : RecordSide} {i : String} (hi : i ∈ conflictIds s d contract side) :
    Free s d side i := by
  obtain ⟨key, -, hm⟩ := mem_conflictIds.mp hi
  exact sharing_free hm

theorem single_unlinked {i : String} (hi : i ∈ d.singleIds) (side : RecordSide) :
    i ∉ manualEnds d side := by
  intro hm
  exact d.singles_apart i (Overrides.manualEnds_subset hm) hi

theorem manualEnds_unique {a b : ManualLink} (ha : a ∈ d.manualLinks) (hb : b ∈ d.manualLinks)
    {side : RecordSide} (he : a.endId side = b.endId side) : a = b := by
  cases side with
  | left => exact eq_of_key_eq (·.leftId) d.manualLeft_unique ha hb he
  | right => exact eq_of_key_eq (·.rightId) d.manualRight_unique ha hb he

theorem pair_end_cases {p : ReferencePreprocessingResult} (h : Preprocessed s d contract p)
    {q : PairOutcome} (hq : q ∈ p.pairs) (side : RecordSide) :
    (∃ link ∈ d.manualLinks, q = manualPair link ∧ ∀ other, link.endId other ∈ available s other) ∨
      (q ∈ referencePairs s d contract ∧ Free s d side (q.endId side)) := by
  rcases List.mem_append.mp (h.pairs.mem_iff.mp hq) with hq | hq
  · rw [Overrides.manualPairs_eq] at hq
    obtain ⟨link, hl, rfl⟩ := List.mem_map.mp hq
    obtain ⟨hmem, hav⟩ := List.mem_filter.mp hl
    obtain ⟨hleft, hright⟩ := of_decide_eq_true hav
    refine Or.inl ⟨link, hmem, rfl, fun other => ?_⟩
    cases other
    · exact hleft
    · exact hright
  · exact Or.inr ⟨hq, referencePair_free hq side⟩

section Kinds
variable {p : ReferencePreprocessingResult} {side : RecordSide} {i : String}

/-- The records of a conflict end as duplicates, whatever else was decided. -/
theorem conflict_terminal (h : preprocessReferences s d contract = .ok p)
    (hi : i ∈ conflictIds s d contract side) :
    ∃ u ∈ p.terminalUnpaired, u.recordId = i ∧ u.side = side ∧ u.reason = .duplicateReference := by
  have hp := (preprocess_spec h).2
  have hfree : Free s d side i := conflictIds_free hi
  have hunpaired : i ∉ p.pairs.map (·.endId side) := by
    intro hm
    obtain ⟨q, hq, rfl⟩ := List.mem_map.mp hm
    rcases pair_end_cases hp hq side with ⟨link, hlink, rfl, -⟩ | ⟨hq, -⟩
    · refine hfree.2.1 (List.mem_map.mpr ⟨link, hlink, ?_⟩)
      cases side <;> rfl
    · obtain ⟨key, hkey, hno⟩ := referencePair_ends hq side
      obtain ⟨key', hd, hm'⟩ := mem_conflictIds.mp hi
      exact hno (sharing_key hm' (hkey ▸ List.mem_singleton_self _) ▸ hd)
  obtain ⟨u, hu, rfl, rfl⟩ := terminal_of_input hp (available_input hfree.1) hunpaired
    fun ho => ho.2.1 hi
  have hj := (preprocess_lists h).1 u hu
  refine ⟨u, hu, rfl, rfl, ?_⟩
  have hsingle := hfree.2.2
  unfold DecisionInputs.singleIds at hsingle
  rw [List.mem_append] at hsingle
  unfold Justified at hj
  generalize u.reason = reason at hj
  cases reason
  case duplicateReference => rfl
  case cancelledExcluded => exact absurd hfree.1 hj
  case manualAttention => exact absurd hj hfree.2.1
  case acceptedUnmatched => exact absurd (Or.inl hj) hsingle
  case reviewerReserved => exact absurd (Or.inr hj) hsingle
  all_goals exact hj.elim

theorem reserved_terminal (h : preprocessReferences s d contract = .ok p)
    (hi : i ∈ available s side) (hr : i ∈ d.reservedIdentities.map (·.recordId)) :
    ∃ u ∈ p.terminalUnpaired, u.recordId = i ∧ u.side = side ∧ u.reason = .reviewerReserved := by
  have hp := (preprocess_spec h).2
  have hsingle : i ∈ d.singleIds := List.mem_append_right _ hr
  have hunfree : ¬Free s d side i := fun hf => hf.2.2 hsingle
  have hunpaired : i ∉ p.pairs.map (·.endId side) := by
    intro hm
    obtain ⟨q, hq, rfl⟩ := List.mem_map.mp hm
    rcases pair_end_cases hp hq side with ⟨link, hlink, rfl, -⟩ | ⟨-, hf⟩
    · refine single_unlinked hsingle side (List.mem_map.mpr ⟨link, hlink, ?_⟩)
      cases side <;> rfl
    · exact hunfree hf
  obtain ⟨u, hu, rfl, rfl⟩ := terminal_of_input hp (available_input hi) hunpaired
    fun ho => hunfree ho.1
  have hj := (preprocess_lists h).1 u hu
  refine ⟨u, hu, rfl, rfl, ?_⟩
  unfold Justified at hj
  generalize u.reason = reason at hj
  cases reason
  case reviewerReserved => rfl
  case cancelledExcluded => exact absurd hi hj
  case manualAttention => exact absurd hj (single_unlinked hsingle _)
  case acceptedUnmatched =>
    exact absurd rfl ((List.nodup_append.mp d.singles_unique).2.2 _ hj _ hr)
  case duplicateReference => exact absurd (conflictIds_free hj) hunfree
  all_goals exact hj.elim

/-- A linked record whose other end is not available needs attention. -/
theorem attention_terminal (h : preprocessReferences s d contract = .ok p) {link : ManualLink}
    (hlink : link ∈ d.manualLinks) (hi : link.endId side ∈ available s side)
    (hother : link.endId side.other ∉ available s side.other) :
    ∃ u ∈ p.terminalUnpaired, u.recordId = link.endId side ∧ u.side = side ∧
      u.reason = .manualAttention := by
  have hp := (preprocess_spec h).2
  have hend : link.endId side ∈ manualEnds d side := List.mem_map_of_mem hlink
  have hunfree : ¬Free s d side (link.endId side) := fun hf => hf.2.1 hend
  have hunpaired : link.endId side ∉ p.pairs.map (·.endId side) := by
    intro hm
    obtain ⟨q, hq, he⟩ := List.mem_map.mp hm
    rcases pair_end_cases hp hq side with ⟨other, hmem, rfl, hav⟩ | ⟨-, hf⟩
    · have hsame : other.endId side = link.endId side := by
        rw [← he]
        cases side <;> rfl
      exact hother (manualEnds_unique hmem hlink hsame ▸ hav side.other)
    · exact hunfree (he ▸ hf)
  obtain ⟨u, hu, hid, hside⟩ := terminal_of_input hp (available_input hi) hunpaired
    fun ho => hunfree ho.1
  have hj := (preprocess_lists h).1 u hu
  refine ⟨u, hu, hid, hside, ?_⟩
  unfold Justified at hj
  rw [hid, hside] at hj
  generalize u.reason = reason at hj
  cases reason
  case manualAttention => rfl
  case cancelledExcluded => exact absurd hi hj
  case acceptedUnmatched =>
    exact absurd hend (single_unlinked (List.mem_append_left _ hj) side)
  case reviewerReserved =>
    exact absurd hend (single_unlinked (List.mem_append_right _ hj) side)
  case duplicateReference => exact absurd (conflictIds_free hj) hunfree
  all_goals exact hj.elim

end Kinds

end Reasons

section Buckets
variable (s : EngineSnapshot) (d : DecisionInputs) (contract : ReferenceContract)

def carriers (side : RecordSide) (key : String) : List MatchRecord :=
  (freeRecords s d side).filter (referenceKey contract · = some key)

def memberIds (c : ReferenceConflict) : RecordSide → List String
  | .left => c.leftIds
  | .right => c.rightIds

def ofOrigin (origin : PairOrigin) (pairs : List PairOutcome) : List PairOutcome :=
  pairs.filter (·.origin = origin)

def SoleCarriers (l r : String) : Prop :=
  ∃ key a b, carriers s d contract .left key = [a] ∧ carriers s d contract .right key = [b] ∧
    a.observationId = l ∧ b.observationId = r ∧
    (l, r) ∉ d.rejectedRelationships.map (·.edge)

/-- Which bucket of the result each record is in. -/
structure Bucketed (p : ReferencePreprocessingResult) : Prop where
  authoritative : ∀ l r, (∃ q ∈ ofOrigin .authoritativeReference p.pairs, q.edge = (l, r)) ↔
    SoleCarriers s d contract l r
  keys_unique : (p.referenceConflicts.map (·.referenceKey)).Nodup
  keys : ∀ key, (∃ c ∈ p.referenceConflicts, c.referenceKey = key) ↔
    ∃ side, 2 ≤ (carriers s d contract side key).length
  members : ∀ c ∈ p.referenceConflicts, ∀ side,
    (memberIds c side).Perm (ids (carriers s d contract side c.referenceKey))
  duplicates : ∀ c ∈ p.referenceConflicts, ∀ side, ∀ i ∈ memberIds c side,
    ∃ u ∈ p.terminalUnpaired, u.recordId = i ∧ u.side = side ∧ u.reason = .duplicateReference
  remaining : ∀ side q, q ∈ p.remaining side ↔ q ∈ freeRecords s d side ∧
    (∀ c ∈ p.referenceConflicts, q.observationId ∉ memberIds c side) ∧
    q.observationId ∉ (ofOrigin .authoritativeReference p.pairs).map (·.endId side)
  partition : ∀ side, ((ofOrigin .manual p.pairs).map (·.endId side) ++
    (ofOrigin .authoritativeReference p.pairs).map (·.endId side) ++
    on side p.terminalUnpaired ++ ids (p.remaining side)).Perm (ids (s.records side))

variable {s d contract}

theorem sharing_carriers (side : RecordSide) (key : String) :
    (sharing s d contract side key).Perm (ids (carriers s d contract side key)) :=
  sortOn_perm id _

theorem carriers_length (side : RecordSide) (key : String) :
    (sharing s d contract side key).length = (carriers s d contract side key).length := by
  rw [(sharing_carriers side key).length_eq, ids, List.length_map]

theorem sharing_singleton {side : RecordSide} {key i : String} :
    sharing s d contract side key = [i] ↔
      ∃ a, carriers s d contract side key = [a] ∧ a.observationId = i := by
  constructor
  · intro h
    have hlength : (carriers s d contract side key).length = 1 := by
      rw [← carriers_length, h, List.length_singleton]
    obtain ⟨a, ha⟩ := List.length_eq_one_iff.mp hlength
    refine ⟨a, ha, ?_⟩
    have hperm := @sharing_carriers s d contract side key
    rw [h, ha] at hperm
    exact (List.singleton_perm_singleton.mp hperm).symm
  · intro h
    obtain ⟨a, ha, rfl⟩ := h
    have hperm := @sharing_carriers s d contract side key
    rw [ha] at hperm
    exact List.perm_singleton.mp hperm

theorem mem_carriers {side : RecordSide} {key : String} {q : MatchRecord}
    (h : q ∈ carriers s d contract side key) :
    q ∈ s.records side ∧ q.observationId ∈ ids (s.records side) := by
  have hmem := (mem_freeRecords.mp (List.mem_of_mem_filter h)).1
  exact ⟨hmem, List.mem_map_of_mem hmem⟩

theorem rejected_prohibited {l r : String} (hl : l ∈ ids s.left) (hr : r ∈ ids s.right) :
    (l, r) ∈ (prohibitedRelationships s d).map (·.edge) ↔
      (l, r) ∈ d.rejectedRelationships.map (·.edge) := by
  simp only [prohibitedRelationships, List.mem_map, List.mem_filter, decide_eq_true_eq]
  constructor
  · intro h
    obtain ⟨x, ⟨hx, -⟩, he⟩ := h
    exact ⟨x, hx, he⟩
  · intro h
    obtain ⟨x, hx, he⟩ := h
    have hle : x.leftId = l := congrArg Prod.fst he
    have hre : x.rightId = r := congrArg Prod.snd he
    exact ⟨x, ⟨hx, hle ▸ hl, hre ▸ hr⟩, he⟩

theorem referencePairs_sole {l r : String} :
    (∃ q ∈ referencePairs s d contract, q.edge = (l, r)) ↔ SoleCarriers s d contract l r := by
  constructor
  · intro h
    obtain ⟨q, hq, he⟩ := h
    obtain ⟨key, hkey⟩ := mem_referencePairs.mp hq
    obtain ⟨hl, hr, hno, -⟩ := mem_established.mp hkey
    have hql : q.leftId = l := congrArg Prod.fst he
    have hqr : q.rightId = r := congrArg Prod.snd he
    rw [hql, sharing_singleton] at hl
    rw [hqr, sharing_singleton] at hr
    obtain ⟨a, ha, rfl⟩ := hl
    obtain ⟨b, hb, rfl⟩ := hr
    have hain := (mem_carriers (ha ▸ List.mem_singleton_self a)).2
    have hbin := (mem_carriers (hb ▸ List.mem_singleton_self b)).2
    rw [he, rejected_prohibited hain hbin] at hno
    exact ⟨key, a, b, ha, hb, rfl, rfl, hno⟩
  · intro h
    obtain ⟨key, a, b, ha, hb, rfl, rfl, hno⟩ := h
    have hain := (mem_carriers (ha ▸ List.mem_singleton_self a)).2
    have hbin := (mem_carriers (hb ▸ List.mem_singleton_self b)).2
    refine ⟨referencePair a.observationId b.observationId, ?_, rfl⟩
    refine mem_referencePairs.mpr ⟨key, mem_established.mpr ⟨?_, ?_, ?_, rfl⟩⟩
    · exact sharing_singleton.mpr ⟨a, ha, rfl⟩
    · exact sharing_singleton.mpr ⟨b, hb, rfl⟩
    · exact fun h => hno ((rejected_prohibited hain hbin).mp h)

theorem duplicated_twice {key : String} :
    Duplicated s d contract key ↔ ∃ side, 2 ≤ (carriers s d contract side key).length := by
  have hsides : Duplicated s d contract key ↔
      ¬((carriers s d contract .left key).length ≤ 1 ∧
        (carriers s d contract .right key).length ≤ 1) := by
    rw [← carriers_length, ← carriers_length]
    exact Iff.rfl
  rw [hsides]
  constructor
  · intro h
    by_cases hl : (carriers s d contract .left key).length ≤ 1
    · exact ⟨.right, by omega⟩
    · exact ⟨.left, by omega⟩
  · intro h
    obtain ⟨side, hside⟩ := h
    cases side <;> omega

theorem manual_origin : ofOrigin .manual (manualPairs s d) = manualPairs s d ∧
    ofOrigin .authoritativeReference (manualPairs s d) = [] := by
  have ho : ∀ q ∈ manualPairs s d, q.origin = .manual := by
    intro q hq
    rw [Overrides.manualPairs_eq] at hq
    obtain ⟨link, -, rfl⟩ := List.mem_map.mp hq
    rfl
  constructor
  · exact List.filter_eq_self.mpr fun q hq => decide_eq_true (ho q hq)
  · exact List.filter_eq_nil_iff.mpr fun q hq => by simp [ho q hq]

theorem reference_origin :
    ofOrigin .authoritativeReference (referencePairs s d contract) =
        referencePairs s d contract ∧
      ofOrigin .manual (referencePairs s d contract) = [] := by
  have ho : ∀ q ∈ referencePairs s d contract, q.origin = .authoritativeReference := by
    intro q hq
    obtain ⟨key, hkey⟩ := mem_referencePairs.mp hq
    rw [(mem_established.mp hkey).2.2.2]
    rfl
  constructor
  · exact List.filter_eq_self.mpr fun q hq => decide_eq_true (ho q hq)
  · exact List.filter_eq_nil_iff.mpr fun q hq => by simp [ho q hq]

section Result
variable {p : ReferencePreprocessingResult}

theorem Preprocessed.manual (h : Preprocessed s d contract p) :
    (ofOrigin .manual p.pairs).Perm (manualPairs s d) := by
  refine (h.pairs.filter _).trans (List.Perm.of_eq ?_)
  rw [List.filter_append]
  show ofOrigin .manual (manualPairs s d) ++ ofOrigin .manual (referencePairs s d contract) = _
  rw [manual_origin.1, reference_origin.2, List.append_nil]

theorem Preprocessed.references (h : Preprocessed s d contract p) :
    (ofOrigin .authoritativeReference p.pairs).Perm (referencePairs s d contract) := by
  refine (h.pairs.filter _).trans (List.Perm.of_eq ?_)
  rw [List.filter_append]
  show ofOrigin _ (manualPairs s d) ++ ofOrigin _ (referencePairs s d contract) = _
  rw [manual_origin.2, reference_origin.1, List.nil_append]

theorem Preprocessed.by_origin (h : Preprocessed s d contract p) :
    (ofOrigin .manual p.pairs ++ ofOrigin .authoritativeReference p.pairs).Perm p.pairs :=
  ((Preprocessed.manual h).append (Preprocessed.references h)).trans h.pairs.symm

theorem mem_conflicts (h : preprocessReferences s d contract = .ok p) {c : ReferenceConflict} :
    c ∈ p.referenceConflicts ↔
      ∃ key, Duplicated s d contract key ∧ c = conflictOf s d contract key := by
  rw [(preprocess_lists h).2.mem_iff, List.mem_map]
  constructor
  · intro hc
    obtain ⟨key, hkey, rfl⟩ := hc
    exact ⟨key, of_decide_eq_true (List.mem_filter.mp hkey).2, rfl⟩
  · intro hc
    obtain ⟨key, hd, rfl⟩ := hc
    obtain ⟨side, hside⟩ := duplicated_twice.mp hd
    refine ⟨key, List.mem_filter.mpr ⟨mem_allKeys.mpr ⟨side, ?_⟩, decide_eq_true hd⟩, rfl⟩
    rw [← List.length_pos_iff, carriers_length]
    omega

theorem memberIds_conflictOf (side : RecordSide) (key : String) :
    memberIds (conflictOf s d contract key) side = sharing s d contract side key := by
  cases side <;> rfl

theorem mem_conflict_member (h : preprocessReferences s d contract = .ok p) {side : RecordSide}
    {i : String} : (∃ c ∈ p.referenceConflicts, i ∈ memberIds c side) ↔
      i ∈ conflictIds s d contract side := by
  rw [mem_conflictIds]
  constructor
  · intro hc
    obtain ⟨c, hc, hi⟩ := hc
    obtain ⟨key, hd, rfl⟩ := (mem_conflicts h).mp hc
    exact ⟨key, hd, memberIds_conflictOf side key ▸ hi⟩
  · intro hk
    obtain ⟨key, hd, hi⟩ := hk
    exact ⟨_, (mem_conflicts h).mpr ⟨key, hd, rfl⟩, memberIds_conflictOf side key ▸ hi⟩

theorem preprocess_bucketed (h : preprocessReferences s d contract = .ok p) :
    Bucketed s d contract p := by
  have hp := (preprocess_spec h).2
  have hreferences := Preprocessed.references hp
  refine ⟨?_, ?_, ?_, ?_, ?_, ?_, ?_⟩
  · intro l r
    rw [← referencePairs_sole]
    simp only [hreferences.mem_iff]
  · refine ((preprocess_lists h).2.map _).nodup_iff.mpr ?_
    rw [List.map_map]
    have hid : (fun c : ReferenceConflict => c.referenceKey) ∘ conflictOf s d contract = id := rfl
    rw [hid, List.map_id]
    exact (sortedSet_nodup _).filter _
  · intro key
    rw [← duplicated_twice]
    constructor
    · intro hc
      obtain ⟨c, hc, rfl⟩ := hc
      obtain ⟨key, hd, rfl⟩ := (mem_conflicts h).mp hc
      exact hd
    · exact fun hd => ⟨_, (mem_conflicts h).mpr ⟨key, hd, rfl⟩, rfl⟩
  · intro c hc side
    obtain ⟨key, -, rfl⟩ := (mem_conflicts h).mp hc
    rw [memberIds_conflictOf]
    exact sharing_carriers side key
  · intro c hc side i hi
    exact conflict_terminal h ((mem_conflict_member h).mp ⟨c, hc, hi⟩)
  · intro side q
    have hends : q.observationId ∈ (ofOrigin .authoritativeReference p.pairs).map (·.endId side) ↔
        q.observationId ∈ (referencePairs s d contract).map (·.endId side) :=
      (hreferences.map _).mem_iff
    have hmember : (∀ c ∈ p.referenceConflicts, q.observationId ∉ memberIds c side) ↔
        q.observationId ∉ conflictIds s d contract side := by
      rw [← mem_conflict_member h]
      push Not
      rfl
    rw [hp.remaining, List.mem_filter, decide_eq_true_eq, mem_freeRecords, hends, hmember, Open]
    tauto
  · intro side
    refine List.Perm.trans ?_ (hp.partition side)
    rw [← List.map_append]
    exact (((Preprocessed.by_origin hp).map _).append_right _).append_right _

end Result

/-- Preprocessing returns for every decision whose ends are on their sides, and
what it returns puts each record in one bucket: authoritative pairs are the
unique free carriers, conflicts the references that repeat, and the rest of the
free records remains. -/
theorem preprocess_exact (s : EngineSnapshot) (d : DecisionInputs)
    (contract : ReferenceContract) :
    ((∃ p, preprocessReferences s d contract = .ok p) ↔ Oriented s d) ∧
      ∀ p, preprocessReferences s d contract = .ok p → Bucketed s d contract p := by
  refine ⟨⟨?_, ?_⟩, fun p hp => preprocess_bucketed hp⟩
  · intro h
    obtain ⟨p, hp⟩ := h
    exact (preprocess_spec hp).1
  · intro h
    obtain ⟨p, hp, -⟩ := preprocess_total h contract
    exact ⟨p, hp⟩

end Buckets

end Workbench.Terminals
