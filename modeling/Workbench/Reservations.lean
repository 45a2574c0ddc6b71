import Workbench.References

/-!
# What preprocessing returns

At every point of the pass each record is in exactly one place. What remains
and which pairs are made is described by the snapshot and the decisions
alone, and with oriented decisions nothing raises.
-/

set_option autoImplicit false

namespace Workbench.Reservations
open Workbench.Listing Workbench.Raising Workbench.Records Workbench.Evidence
open Workbench.References

@[simp] theorem discard_remaining (st : Reservation) (side other : RecordSide) (i : String) :
    (st.discard side i).remaining other =
      if other = side then (st.remaining side).filter (· ≠ i) else st.remaining other := by
  cases side <;> cases other <;> rfl

@[simp] theorem discard_pairs (st : Reservation) (side : RecordSide) (i : String) :
    (st.discard side i).pairs = st.pairs := by
  cases side <;> rfl

@[simp] theorem discard_terminal (st : Reservation) (side : RecordSide) (i : String) :
    (st.discard side i).terminal = st.terminal := by
  cases side <;> rfl

@[simp] theorem put_remaining (st : Reservation) (u : UnpairedOutcome) (side : RecordSide) :
    (st.put u).remaining side = st.remaining side := by
  cases side <;> rfl

@[simp] theorem put_pairs (st : Reservation) (u : UnpairedOutcome) :
    (st.put u).pairs = st.pairs := rfl

@[simp] theorem on_append (side : RecordSide) (a b : List UnpairedOutcome) :
    on side (a ++ b) = on side a ++ on side b := by
  simp [on]

theorem mem_on {u : UnpairedOutcome} {outcomes : List UnpairedOutcome} (h : u ∈ outcomes) :
    u.recordId ∈ on u.side outcomes :=
  List.mem_map_of_mem (List.mem_filter.mpr ⟨h, by simp⟩)

theorem mem_ids {records : List MatchRecord} {i : String} (h : i ∈ ids records) :
    ∃ r ∈ records, r.observationId = i := List.mem_map.mp h

theorem ids_text {records : List MatchRecord} {i : String} (h : i ∈ ids records) :
    nonblank i = true := by
  obtain ⟨r, -, rfl⟩ := mem_ids h
  exact r.observationId_text

theorem sides_apart (s : EngineSnapshot) {side other : RecordSide} (hne : other ≠ side)
    {i : String} (h : i ∈ ids (s.records side)) : i ∉ ids (s.records other) := by
  cases side <;> cases other
  · exact absurd rfl hne
  · exact s.apart i h
  · exact fun h' => s.apart i h' h
  · exact absurd rfl hne

def Tracks (s : EngineSnapshot) (st : Reservation) : Prop :=
  ∀ side, (st.pairs.map (·.endId side) ++ on side st.terminal ++ st.remaining side).Perm
    (ids (s.records side))

section Tracking
variable {s : EngineSnapshot} {st : Reservation}

theorem Tracks.nodup (h : Tracks s st) (side : RecordSide) :
    (st.pairs.map (·.endId side) ++ on side st.terminal ++ st.remaining side).Nodup :=
  (h side).nodup_iff.mpr (s.nodup side)

theorem Tracks.mem_input (h : Tracks s st) {side : RecordSide} {i : String}
    (hi : i ∈ st.remaining side) : i ∈ ids (s.records side) :=
  (h side).mem_iff.mp (List.mem_append_right _ hi)

theorem Tracks.remaining_nodup (h : Tracks s st) (side : RecordSide) :
    (st.remaining side).Nodup := (List.nodup_append.mp (h.nodup side)).2.1

theorem Tracks.terminal_fresh (h : Tracks s st) {side : RecordSide} {i : String}
    (hi : i ∈ st.remaining side) : st.terminal.filter (·.recordId ≠ i) = st.terminal := by
  refine List.filter_eq_self.mpr fun u hu => ?_
  rw [decide_eq_true_eq]
  rintro rfl
  have hon := mem_on hu
  by_cases hside : u.side = side
  · rw [hside] at hon
    have hd := (List.nodup_append.mp (h.nodup side)).2.2
    exact hd _ (List.mem_append_right _ hon) _ hi rfl
  · have hin : u.recordId ∈ ids (s.records u.side) :=
      (h u.side).mem_iff.mp (List.mem_append_left _ (List.mem_append_right _ hon))
    exact sides_apart s hside (h.mem_input hi) hin

theorem cons_filter_perm {l : List String} (hl : l.Nodup) {i : String} (hi : i ∈ l) :
    (i::l.filter (· ≠ i)).Perm l := by
  have he : l.filter (· ≠ i) = l.erase i := by
    rw [hl.erase_eq_filter]
    refine List.filter_congr fun x _ => ?_
    by_cases hx : x = i <;> simp [hx]
  rw [he]
  exact (List.perm_cons_erase hi).symm

theorem perm_move {a b l : List String} (hl : l.Nodup) {i : String} (hi : i ∈ l) :
    (a ++ (b ++ [i]) ++ l.filter (· ≠ i)).Perm (a ++ b ++ l) := by
  rw [List.append_assoc, List.append_assoc, List.append_assoc]
  exact (((cons_filter_perm hl hi).append_left b)).append_left a

theorem Tracks.settled (h : Tracks s st) {u : UnpairedOutcome}
    (hi : u.recordId ∈ st.remaining u.side) :
    Tracks s ((st.put u).discard u.side u.recordId) := by
  intro side
  have hterm : (st.put u).terminal = st.terminal ++ [u] := by
    show st.terminal.filter (·.recordId ≠ u.recordId) ++ [u] = _
    rw [h.terminal_fresh hi]
  rw [discard_pairs, discard_terminal, discard_remaining, put_pairs, hterm, on_append,
    put_remaining, put_remaining]
  by_cases hs : side = u.side
  · subst hs
    have h1 : on u.side [u] = [u.recordId] := by simp [on]
    rw [if_pos rfl, h1]
    exact (perm_move (h.remaining_nodup _) hi).trans (h _)
  · have h1 : on side [u] = [] := by simp [on, Ne.symm hs]
    rw [if_neg hs, h1, List.append_nil]
    exact h side

theorem Tracks.joined (h : Tracks s st) (pair : PairOutcome)
    (hl : pair.leftId ∈ st.remaining .left) (hr : pair.rightId ∈ st.remaining .right) :
    Tracks s ((Reservation.discard { st with pairs := st.pairs ++ [pair] } .left
      pair.leftId).discard .right pair.rightId) := by
  have hmove : ∀ {a b l : List String} {i : String}, l.Nodup → i ∈ l →
      (a ++ [i] ++ b ++ l.filter (· ≠ i)).Perm (a ++ b ++ l) := by
    intro a b l i hn hi
    refine List.Perm.trans ?_ (perm_move hn hi)
    refine List.Perm.append_right _ ?_
    rw [List.append_assoc]
    exact (List.perm_append_comm).append_left a
  intro side
  cases side with
  | left =>
    have := hmove (a := st.pairs.map (·.endId .left)) (b := on .left st.terminal)
      (h.remaining_nodup .left) hl
    refine List.Perm.trans ?_ (this.trans (h .left))
    simp [Reservation.remaining, Reservation.discard, PairOutcome.endId]
  | right =>
    have := hmove (a := st.pairs.map (·.endId .right)) (b := on .right st.terminal)
      (h.remaining_nodup .right) hr
    refine List.Perm.trans ?_ (this.trans (h .right))
    simp [Reservation.remaining, Reservation.discard, PairOutcome.endId]

end Tracking

structure Moved (s : EngineSnapshot) (st st' : Reservation) (gone : RecordSide → List String)
    (added : List PairOutcome) : Prop where
  tracks : Tracks s st'
  pairs : st'.pairs = st.pairs ++ added
  remaining : ∀ side, st'.remaining side = (st.remaining side).filter (· ∉ gone side)

section Stretches
variable {s : EngineSnapshot} {st : Reservation}

theorem Moved.refl (h : Tracks s st) : Moved s st st (fun _ => []) [] :=
  ⟨h, by simp, fun side => by simp⟩

theorem Moved.trans {st₁ st₂ : Reservation} {g₁ g₂ : RecordSide → List String}
    {a₁ a₂ : List PairOutcome} (h₁ : Moved s st st₁ g₁ a₁) (h₂ : Moved s st₁ st₂ g₂ a₂) :
    Moved s st st₂ (fun side => g₁ side ++ g₂ side) (a₁ ++ a₂) := by
  refine ⟨h₂.tracks, by rw [h₂.pairs, h₁.pairs, List.append_assoc], fun side => ?_⟩
  rw [h₂.remaining, h₁.remaining, List.filter_filter]
  refine List.filter_congr fun i _ => ?_
  simp [Bool.and_comm]

theorem Moved.widen {st' : Reservation} {g g' : RecordSide → List String}
    {a : List PairOutcome} (h : Moved s st st' g a)
    (hg : ∀ side, ∀ i ∈ st.remaining side, i ∈ g' side ↔ i ∈ g side) :
    Moved s st st' g' a := by
  refine ⟨h.tracks, h.pairs, fun side => ?_⟩
  rw [h.remaining]
  refine List.filter_congr fun i hi => ?_
  simp [hg side i hi]

theorem Moved.mem {st' : Reservation} {g : RecordSide → List String} {a : List PairOutcome}
    (h : Moved s st st' g a) {side : RecordSide} {i : String} :
    i ∈ st'.remaining side ↔ i ∈ st.remaining side ∧ i ∉ g side := by
  rw [h.remaining]
  simp

def only (side : RecordSide) (l : List String) (other : RecordSide) : List String :=
  if other = side then l else []

theorem unpaired_create {u : UnpairedOutcome} (hi : nonblank u.recordId = true)
    (he : nonblank u.explanation = true) (hr : u.relatedIds.Nodup) :
    u.create = .ok { u with relatedIds := sortOn id u.relatedIds } := by
  simp [UnpairedOutcome.create, requiredText, unique, hi, he, hr]

theorem settle_moved (h : Tracks s st) (side : RecordSide) (reason : UnpairedReason)
    (explanation : String) (related : List String) {i : String} (hi : i ∈ st.remaining side)
    (he : nonblank explanation = true) (hr : related.Nodup) :
    ∃ st', settle side reason explanation related st i = .ok st' ∧
      Moved s st st' (only side [i]) [] := by
  have hcreate := unpaired_create (u := ⟨i, side, reason, explanation, related⟩)
    (ids_text (h.mem_input hi)) he hr
  refine ⟨_, ?_, h.settled (u := ⟨i, side, reason, explanation, sortOn id related⟩) hi, ?_, ?_⟩
  · simp only [settle, bind_ok]
    exact ⟨_, hcreate, by simp [Reservation.remove, hi]⟩
  · simp
  · intro other
    by_cases ho : other = side
    · simp [only, ho]
    · simp [only, ho]

theorem pair_create {p : PairOutcome} (hl : nonblank p.leftId = true)
    (hr : nonblank p.rightId = true) (ho : p.origin ≠ .weightedGlobal) (hs : p.scoreBp = none)
    (hg : p.globalGapBp = none) (hc : p.comparisons = []) : p.create = .ok p := by
  obtain ⟨l, r, o, sc, g, c⟩ := p
  simp only at hl hr ho hs hg hc
  subst hs hg hc
  simp [PairOutcome.create, PairOutcome.checkScores, requiredText, unique, hl, hr, ho, sortOn]

theorem join_moved (h : Tracks s st) (origin : PairOrigin) {l r : String}
    (hl : l ∈ st.remaining .left) (hr : r ∈ st.remaining .right)
    (ho : origin ≠ .weightedGlobal) :
    ∃ st', join origin st l r = .ok st' ∧
      Moved s st st' (fun | .left => [l] | .right => [r]) [⟨l, r, origin, none, none, []⟩] := by
  have hcreate := pair_create (p := ⟨l, r, origin, none, none, []⟩)
    (ids_text (h.mem_input hl)) (ids_text (h.mem_input hr)) ho rfl rfl rfl
  refine ⟨_, ?_, h.joined ⟨l, r, origin, none, none, []⟩ hl hr, ?_, ?_⟩
  · simp only [join, bind_ok]
    refine ⟨_, hcreate, Reservation.discard { st with pairs := st.pairs ++
      [⟨l, r, origin, none, none, []⟩] } .left l, ?_, ?_⟩
    · rw [Reservation.remove, if_pos]
      exact hl
    · rw [Reservation.remove, if_pos]
      exact hr
  · rfl
  · intro side
    cases side <;> simp [Reservation.remaining, Reservation.discard]

/-- A loop whose steps are stretches is a stretch: each step must stay
possible while the steps before it are taken. -/
theorem fold_moved {σ α : Type} (proj : σ → Reservation) {f : σ → α → Outcome σ}
    (gone : α → RecordSide → List String) (added : α → List PairOutcome)
    (Ready : Reservation → α → Prop) {l : List α}
    (step : ∀ a ∈ l, ∀ x, Tracks s (proj x) → Ready (proj x) a →
      ∃ y, f x a = .ok y ∧ Moved s (proj x) (proj y) (gone a) (added a))
    (keep : l.Pairwise fun a b =>
      ∀ st st', Moved s st st' (gone a) (added a) → Ready st b → Ready st' b)
    (x : σ) (h : Tracks s (proj x)) (ready : ∀ a ∈ l, Ready (proj x) a) :
    ∃ y, l.foldlM f x = .ok y ∧
      Moved s (proj x) (proj y) (fun side => l.flatMap (gone · side)) (l.flatMap added) := by
  induction l generalizing x with
  | nil => exact ⟨x, rfl, Moved.refl h⟩
  | cons a l ih =>
    obtain ⟨hka, hkl⟩ := List.pairwise_cons.mp keep
    obtain ⟨y, hy, hmy⟩ := step a (by simp) x h (ready a (by simp))
    obtain ⟨z, hz, hmz⟩ := ih (fun b hb => step b (by simp [hb])) hkl y hmy.tracks
      fun b hb => hka b hb _ _ hmy (ready b (by simp [hb]))
    refine ⟨z, ?_, ?_⟩
    · rw [List.foldlM_cons, hy]
      exact hz
    · simpa using hmy.trans hmz

theorem fold_reservation {α : Type} {f : Reservation → α → Outcome Reservation}
    (gone : α → RecordSide → List String) (added : α → List PairOutcome)
    (Ready : Reservation → α → Prop) {l : List α}
    (step : ∀ a ∈ l, ∀ x, Tracks s x → Ready x a →
      ∃ y, f x a = .ok y ∧ Moved s x y (gone a) (added a))
    (keep : l.Pairwise fun a b =>
      ∀ st st', Moved s st st' (gone a) (added a) → Ready st b → Ready st' b)
    (h : Tracks s st) (ready : ∀ a ∈ l, Ready st a) :
    ∃ y, l.foldlM f st = .ok y ∧
      Moved s st y (fun side => l.flatMap (gone · side)) (l.flatMap added) :=
  fold_moved (fun x => x) gone added Ready step keep st h ready

theorem flatMap_nil {α β : Type} (l : List α) : l.flatMap (fun _ => ([] : List β)) = [] := by
  simp

end Stretches

section Decisions
variable (s : EngineSnapshot) (d : DecisionInputs)

def available (side : RecordSide) : List String := ids ((s.records side).filter (·.eligible))

def manualEnds (side : RecordSide) : List String := d.manualLinks.map (·.endId side)

/-- Not cancelled, not manually linked and not reserved on its own. Rejected
relationships play no part in it. -/
def Free (side : RecordSide) (i : String) : Prop :=
  i ∈ available s side ∧ i ∉ manualEnds d side ∧ i ∉ d.singleIds

instance (side : RecordSide) (i : String) : Decidable (Free s d side i) :=
  inferInstanceAs (Decidable (_ ∧ _ ∧ _))

def manualPair (link : ManualLink) : PairOutcome :=
  ⟨link.leftId, link.rightId, .manual, none, none, []⟩

def manualPairs : List PairOutcome :=
  d.manualLinks.flatMap fun link =>
    if link.leftId ∈ available s .left ∧ link.rightId ∈ available s .right then
      [manualPair link]
    else []

variable {s d}

theorem mem_available {side : RecordSide} {i : String} :
    i ∈ available s side ↔ ∃ r ∈ s.records side, r.eligible = true ∧ r.observationId = i := by
  simp only [available, ids, List.mem_map, List.mem_filter]
  constructor
  · rintro ⟨r, ⟨hr, he⟩, hi⟩
    exact ⟨r, hr, he, hi⟩
  · rintro ⟨r, hr, he, hi⟩
    exact ⟨r, ⟨hr, he⟩, hi⟩

theorem available_eligible {side : RecordSide} {r : MatchRecord} (hr : r ∈ s.records side) :
    r.observationId ∈ available s side ↔ r.eligible = true := by
  rw [mem_available]
  constructor
  · rintro ⟨q, hq, he, hi⟩
    rwa [← s.record_eq hq hr hi]
  · exact fun he => ⟨r, hr, he, rfl⟩

theorem available_input {side : RecordSide} {i : String} (h : i ∈ available s side) :
    i ∈ ids (s.records side) := by
  obtain ⟨r, hr, -, rfl⟩ := mem_available.mp h
  exact List.mem_map_of_mem hr

def cancelledIds (r : MatchRecord) : List String := if r.eligible then [] else [r.observationId]

theorem excludeCancelled_moved {st : Reservation} (h : Tracks s st) (side : RecordSide)
    (hin : ∀ r ∈ s.records side, r.observationId ∈ st.remaining side) :
    ∃ st', (s.records side).foldlM (excludeCancelled side) st = .ok st' ∧
      Moved s st st' (only side ((s.records side).flatMap cancelledIds)) [] := by
  obtain ⟨st', hst', hm⟩ := fold_reservation (s := s) (f := excludeCancelled side)
    (fun r => only side (cancelledIds r)) (fun _ => [])
    (fun st r => r.observationId ∈ st.remaining side) (l := s.records side)
    (by
      intro r hr st ht hready
      by_cases he : r.eligible = true
      · refine ⟨st, by simp [excludeCancelled, he], (Moved.refl ht).widen fun other i hi => ?_⟩
        simp [only, cancelledIds, he]
      · have htext : nonblank cancelledText = true := by decide
        have hcreate := unpaired_create
          (u := ⟨r.observationId, side, .cancelledExcluded, cancelledText, []⟩)
          r.observationId_text htext List.nodup_nil
        refine ⟨_, ?_, ht.settled
          (u := ⟨r.observationId, side, .cancelledExcluded, cancelledText, []⟩) hready, ?_, ?_⟩
        · rw [excludeCancelled, if_neg he, bind_ok]
          exact ⟨_, hcreate, rfl⟩
        · rw [discard_pairs, put_pairs, List.append_nil]
        · intro other
          rw [discard_remaining, put_remaining, put_remaining]
          by_cases ho : other = side <;> simp [only, ho, cancelledIds, he])
    (by
      have hd : (s.records side).Pairwise fun a b => a.observationId ≠ b.observationId :=
        List.pairwise_map.mp (s.nodup side)
      refine hd.imp ?_
      intro a b hab st st' hm hb
      refine hm.mem.mpr ⟨hb, ?_⟩
      unfold only cancelledIds
      split_ifs <;> simp [hab.symm])
    h hin
  rw [flatMap_nil] at hm
  refine ⟨st', hst', hm.widen fun other i _ => ?_⟩
  by_cases ho : other = side <;> simp [only, ho]

theorem mem_cancelledIds {records : List MatchRecord} {i : String} :
    i ∈ records.flatMap cancelledIds ↔
      ∃ r ∈ records, r.eligible = false ∧ r.observationId = i := by
  simp only [List.mem_flatMap, cancelledIds]
  refine exists_congr fun r => and_congr_right fun _ => ?_
  cases r.eligible <;> simp [eq_comm]

def linked (st : Reservation) (link : ManualLink) : List PairOutcome :=
  if link.leftId ∈ st.remaining .left ∧ link.rightId ∈ st.remaining .right then
    [manualPair link]
  else []

theorem not_mem_gone {l : List String} {x : String} (hx : x ∉ l) :
    ∀ i ∈ l, i ∈ [x] ↔ i ∈ ([] : List String) := by
  intro i hi
  simp only [List.mem_singleton, List.not_mem_nil, iff_false]
  rintro rfl
  exact hx hi

theorem reserveManualLink_moved {st : Reservation} (h : Tracks s st) (link : ManualLink) :
    ∃ st', reserveManualLink st link = .ok st' ∧
      Moved s st st' (fun side => [link.endId side]) (linked st link) := by
  have hleft : (link.leftId ∈ st.remainingLeft) = (link.leftId ∈ st.remaining .left) := rfl
  have hright : (link.rightId ∈ st.remainingRight) = (link.rightId ∈ st.remaining .right) := rfl
  simp only [reserveManualLink, linked, hleft, hright]
  by_cases hl : link.leftId ∈ st.remaining .left
  · by_cases hr : link.rightId ∈ st.remaining .right
    · simp only [hl, hr, and_self, if_true]
      obtain ⟨st', hst', hm⟩ := join_moved h .manual hl hr (by decide)
      refine ⟨st', hst', hm.widen fun side i _ => ?_⟩
      cases side <;> exact Iff.rfl
    · simp only [hl, hr, and_false, if_true, if_false]
      obtain ⟨st', hst', hm⟩ := settle_moved h .left .manualAttention attentionText
        [link.rightId] hl (by decide) (by simp)
      refine ⟨st', hst', hm.widen fun side => ?_⟩
      cases side with
      | left => exact fun _ _ => Iff.rfl
      | right => exact not_mem_gone hr
  · by_cases hr : link.rightId ∈ st.remaining .right
    · simp only [hl, hr, false_and, if_true, if_false]
      obtain ⟨st', hst', hm⟩ := settle_moved h .right .manualAttention attentionText
        [link.leftId] hr (by decide) (by simp)
      refine ⟨st', hst', hm.widen fun side => ?_⟩
      cases side with
      | left => exact not_mem_gone hl
      | right => exact fun _ _ => Iff.rfl
    · simp only [hl, hr, false_and, if_false]
      refine ⟨st, rfl, (Moved.refl h).widen fun side => ?_⟩
      cases side
      · exact not_mem_gone hl
      · exact not_mem_gone hr

theorem reserveManualLinks_moved {st : Reservation} (h : Tracks s st) (d : DecisionInputs) :
    ∃ st', d.manualLinks.foldlM reserveManualLink st = .ok st' ∧
      Moved s st st' (manualEnds d) (d.manualLinks.flatMap (linked st)) := by
  have hleft : d.manualLinks.Pairwise fun a b => a.leftId ≠ b.leftId :=
    List.pairwise_map.mp d.manualLeft_unique
  have hright : d.manualLinks.Pairwise fun a b => a.rightId ≠ b.rightId :=
    List.pairwise_map.mp d.manualRight_unique
  obtain ⟨st', hst', hm⟩ := fold_reservation (s := s) (f := reserveManualLink)
    (fun link side => [link.endId side]) (linked st)
    (fun x link => (link.leftId ∈ x.remaining .left ↔ link.leftId ∈ st.remaining .left) ∧
      (link.rightId ∈ x.remaining .right ↔ link.rightId ∈ st.remaining .right))
    (l := d.manualLinks)
    (by
      intro link _ x hx hready
      have hlinked : linked x link = linked st link := by
        simp only [linked, hready.1, hready.2]
      rw [← hlinked]
      exact reserveManualLink_moved hx link)
    (by
      refine (hleft.and hright).imp ?_
      intro a b hab x x' hm hb
      refine ⟨?_, ?_⟩
      · rw [hm.mem, ← hb.1]
        simp [Relationship.endId, hab.1.symm]
      · rw [hm.mem, ← hb.2]
        simp [Relationship.endId, hab.2.symm])
    h (fun link _ => ⟨Iff.rfl, Iff.rfl⟩)
  refine ⟨st', hst', hm.widen fun side i _ => ?_⟩
  simp [manualEnds, eq_comm]

theorem reserveSingle_moved {st : Reservation} (h : Tracks s st) (reason : UnpairedReason)
    (explanation : String) (he : nonblank explanation = true) (decision : SingleReservation) :
    ∃ st', reserveSingle reason explanation st decision = .ok st' ∧
      Moved s st st' (fun _ => [decision.recordId]) [] := by
  have hleft : (decision.recordId ∈ st.remainingLeft) =
      (decision.recordId ∈ st.remaining .left) := rfl
  have hright : (decision.recordId ∈ st.remainingRight) =
      (decision.recordId ∈ st.remaining .right) := rfl
  simp only [reserveSingle, hleft, hright]
  by_cases hl : decision.recordId ∈ st.remaining .left
  · rw [if_pos hl]
    obtain ⟨st', hst', hm⟩ := settle_moved h .left reason explanation [] hl he (by simp)
    refine ⟨st', hst', hm.widen fun side => ?_⟩
    cases side with
    | left => exact fun _ _ => Iff.rfl
    | right =>
      exact not_mem_gone fun hr => sides_apart s (by decide) (h.mem_input hr) (h.mem_input hl)
  · rw [if_neg hl]
    by_cases hr : decision.recordId ∈ st.remaining .right
    · rw [if_pos hr]
      obtain ⟨st', hst', hm⟩ := settle_moved h .right reason explanation [] hr he (by simp)
      refine ⟨st', hst', hm.widen fun side => ?_⟩
      cases side with
      | left => exact not_mem_gone hl
      | right => exact fun _ _ => Iff.rfl
    · rw [if_neg hr]
      refine ⟨st, rfl, (Moved.refl h).widen fun side => ?_⟩
      cases side
      · exact not_mem_gone hl
      · exact not_mem_gone hr

theorem reserveSingles_moved {st : Reservation} (h : Tracks s st) (reason : UnpairedReason)
    (explanation : String) (he : nonblank explanation = true)
    (decisions : List SingleReservation) :
    ∃ st', decisions.foldlM (reserveSingle reason explanation) st = .ok st' ∧
      Moved s st st' (fun _ => decisions.map (·.recordId)) [] := by
  obtain ⟨st', hst', hm⟩ := fold_reservation (s := s) (f := reserveSingle reason explanation)
    (fun decision _ => [decision.recordId]) (fun _ => []) (fun _ _ => True) (l := decisions)
    (fun decision _ x hx _ => reserveSingle_moved hx reason explanation he decision)
    (List.pairwise_iff_forall_sublist.mpr fun _ _ _ _ _ => trivial) h (fun _ _ => trivial)
  rw [flatMap_nil] at hm
  refine ⟨st', hst', hm.widen fun side i _ => ?_⟩
  simp [eq_comm]

/-- After the decisions exactly the free records remain, and the pairs are
the manual links with both ends available. -/
theorem reserveDecisions_spec (s : EngineSnapshot) (d : DecisionInputs) :
    ∃ st, reserveDecisions s d = .ok st ∧ Tracks s st ∧ st.pairs = manualPairs s d ∧
      ∀ side i, i ∈ st.remaining side ↔ Free s d side i := by
  have h0 : Tracks s ⟨ids s.left, ids s.right, [], []⟩ := by
    intro side
    cases side <;> exact List.Perm.refl _
  obtain ⟨st₁, hst₁, hm₁⟩ := excludeCancelled_moved h0 .left
    (fun r hr => List.mem_map_of_mem hr)
  obtain ⟨st₂, hst₂, hm₂⟩ := excludeCancelled_moved hm₁.tracks .right
    (fun r hr => hm₁.mem.mpr ⟨List.mem_map_of_mem hr, by simp [only]⟩)
  obtain ⟨st₃, hst₃, hm₃⟩ := reserveManualLinks_moved hm₂.tracks d
  obtain ⟨st₄, hst₄, hm₄⟩ := reserveSingles_moved hm₃.tracks .acceptedUnmatched acceptedText
    (by decide) d.acceptedUnmatched
  obtain ⟨st₅, hst₅, hm₅⟩ := reserveSingles_moved hm₄.tracks .reviewerReserved reservedText
    (by decide) d.reservedIdentities
  have hcancel : ∀ side i, i ∈ st₂.remaining side ↔ i ∈ available s side := by
    intro side i
    rw [hm₂.mem, hm₁.mem, mem_available]
    have hsplit : ∀ (records : List MatchRecord), (ids records).Nodup →
        ((i ∈ ids records ∧ i ∉ records.flatMap cancelledIds) ↔
          ∃ r ∈ records, r.eligible = true ∧ r.observationId = i) := by
      intro records hnd
      rw [mem_cancelledIds]
      constructor
      · rintro ⟨hi, hno⟩
        obtain ⟨r, hr, rfl⟩ := mem_ids hi
        refine ⟨r, hr, ?_, rfl⟩
        by_contra he
        exact hno ⟨r, hr, by simpa using he, rfl⟩
      · rintro ⟨r, hr, he, rfl⟩
        refine ⟨List.mem_map_of_mem hr, ?_⟩
        rintro ⟨q, hq, hqe, hqi⟩
        rw [List.inj_on_of_nodup_map hnd hq hr hqi, he] at hqe
        exact absurd hqe (by decide)
    cases side with
    | left =>
      simp only [only, reduceCtorEq, if_true, if_false, List.not_mem_nil, not_false_eq_true,
        and_true]
      exact hsplit s.left s.left_nodup
    | right =>
      simp only [only, reduceCtorEq, if_true, if_false, List.not_mem_nil, not_false_eq_true,
        and_true]
      exact hsplit s.right s.right_nodup
  refine ⟨st₅, ?_, hm₅.tracks, ?_, ?_⟩
  · unfold reserveDecisions
    simp only [bind_ok]
    exact ⟨st₁, hst₁, st₂, hst₂, st₃, hst₃, st₄, hst₄, hst₅⟩
  · rw [hm₅.pairs, hm₄.pairs, hm₃.pairs, hm₂.pairs, hm₁.pairs]
    simp only [List.nil_append, List.append_nil, manualPairs]
    refine List.flatMap_congr fun link _ => ?_
    simp only [linked, hcancel]
  · intro side i
    rw [hm₅.mem, hm₄.mem, hm₃.mem, hcancel]
    unfold Free DecisionInputs.singleIds
    rw [List.mem_append]
    tauto

end Decisions

section Sharing
variable (s : EngineSnapshot) (d : DecisionInputs) (contract : ReferenceContract)

def freeRecords (side : RecordSide) : List MatchRecord :=
  (s.records side).filter fun r => Free s d side r.observationId

def sharing (side : RecordSide) (key : String) : List String :=
  referenceIndex contract (freeRecords s d side) key

def allKeys : List String :=
  sortedSet (referenceKeys contract (freeRecords s d .left) ++
    referenceKeys contract (freeRecords s d .right))

def Duplicated (key : String) : Prop :=
  Conflicting (sharing s d contract .left) (sharing s d contract .right) key

instance (key : String) : Decidable (Duplicated s d contract key) :=
  inferInstanceAs (Decidable (Conflicting _ _ _))

def conflictIds (side : RecordSide) : List String :=
  (allKeys s d contract).flatMap fun key =>
    if Duplicated s d contract key then sharing s d contract side key else []

def referencePair (l r : String) : PairOutcome :=
  ⟨l, r, .authoritativeReference, none, none, []⟩

def established (key : String) : List PairOutcome :=
  match sharing s d contract .left key, sharing s d contract .right key with
  | [l], [r] =>
    if (l, r) ∉ (prohibitedRelationships s d).map (·.edge) then [referencePair l r] else []
  | _, _ => []

def referencePairs : List PairOutcome := (allKeys s d contract).flatMap (established s d contract)

def Open (side : RecordSide) (i : String) : Prop :=
  Free s d side i ∧ i ∉ conflictIds s d contract side ∧
    i ∉ (referencePairs s d contract).map (·.endId side)

instance (side : RecordSide) (i : String) : Decidable (Open s d contract side i) :=
  inferInstanceAs (Decidable (_ ∧ _ ∧ _))

variable {s d contract}

theorem mem_freeRecords {side : RecordSide} {r : MatchRecord} :
    r ∈ freeRecords s d side ↔ r ∈ s.records side ∧ Free s d side r.observationId := by
  simp [freeRecords]

theorem mem_sharing {side : RecordSide} {key i : String} :
    i ∈ sharing s d contract side key ↔
      ∃ r ∈ freeRecords s d side, referenceKey contract r = some key ∧ r.observationId = i := by
  simp only [sharing, referenceIndex, mem_sortOn, ids, List.mem_map, List.mem_filter,
    decide_eq_true_eq, and_assoc]

theorem sharing_free {side : RecordSide} {key i : String}
    (h : i ∈ sharing s d contract side key) : Free s d side i := by
  obtain ⟨r, hr, -, rfl⟩ := mem_sharing.mp h
  exact (mem_freeRecords.mp hr).2

theorem sharing_nodup (side : RecordSide) (key : String) :
    (sharing s d contract side key).Nodup := by
  refine (sortOn_perm id _).nodup_iff.mpr ?_
  refine ((s.nodup side).sublist ?_)
  exact ((List.filter_sublist).trans List.filter_sublist).map _

theorem sharing_key {side : RecordSide} {key key' i : String}
    (h : i ∈ sharing s d contract side key) (h' : i ∈ sharing s d contract side key') :
    key = key' := by
  obtain ⟨r, hr, hk, rfl⟩ := mem_sharing.mp h
  obtain ⟨q, hq, hk', hi⟩ := mem_sharing.mp h'
  rw [s.record_eq (mem_freeRecords.mp hq).1 (mem_freeRecords.mp hr).1 hi, hk] at hk'
  exact Option.some.inj hk'

theorem mem_allKeys {key : String} :
    key ∈ allKeys s d contract ↔ ∃ side, sharing s d contract side key ≠ [] := by
  have hside : ∀ side, key ∈ referenceKeys contract (freeRecords s d side) ↔
      sharing s d contract side key ≠ [] := by
    intro side
    rw [referenceKeys, List.mem_filterMap]
    constructor
    · rintro ⟨r, hr, hk⟩
      exact List.ne_nil_of_mem (mem_sharing.mpr ⟨r, hr, hk, rfl⟩)
    · intro hne
      obtain ⟨i, hi⟩ := List.exists_mem_of_ne_nil _ hne
      obtain ⟨r, hr, hk, -⟩ := mem_sharing.mp hi
      exact ⟨r, hr, hk⟩
  rw [allKeys, mem_sortedSet, List.mem_append, hside, hside]
  constructor
  · rintro (h | h)
    · exact ⟨_, h⟩
    · exact ⟨_, h⟩
  · rintro ⟨side, h⟩
    cases side
    · exact Or.inl h
    · exact Or.inr h

theorem allKeys_text {key : String} (h : key ∈ allKeys s d contract) : nonblank key = true := by
  obtain ⟨side, hne⟩ := mem_allKeys.mp h
  obtain ⟨i, hi⟩ := List.exists_mem_of_ne_nil _ hne
  obtain ⟨r, -, hk, -⟩ := mem_sharing.mp hi
  cases contract
  · exact r.referenceValue_text key hk
  · exact r.sharedReferenceAlias_text key hk

theorem mem_conflictIds {side : RecordSide} {i : String} :
    i ∈ conflictIds s d contract side ↔
      ∃ key, Duplicated s d contract key ∧ i ∈ sharing s d contract side key := by
  simp only [conflictIds, List.mem_flatMap]
  constructor
  · rintro ⟨key, -, hi⟩
    split_ifs at hi with hd
    · exact ⟨key, hd, hi⟩
    · simp at hi
  · rintro ⟨key, hd, hi⟩
    exact ⟨key, mem_allKeys.mpr ⟨side, List.ne_nil_of_mem hi⟩, by rwa [if_pos hd]⟩

theorem mem_established {key : String} {p : PairOutcome} :
    p ∈ established s d contract key ↔
      sharing s d contract .left key = [p.leftId] ∧
      sharing s d contract .right key = [p.rightId] ∧
      p.edge ∉ (prohibitedRelationships s d).map (·.edge) ∧
      p = referencePair p.leftId p.rightId := by
  unfold established
  constructor
  · intro hp
    split at hp
    · rename_i l r hl hr
      split_ifs at hp with hno
      · simp at hp
      · rw [List.mem_singleton] at hp
        subst hp
        exact ⟨hl, hr, hno, rfl⟩
    · simp at hp
  · rintro ⟨hl, hr, hno, hp⟩
    have hno' : (p.leftId, p.rightId) ∉ (prohibitedRelationships s d).map (·.edge) := hno
    rw [hl, hr]
    simp only
    rw [if_pos hno']
    exact List.mem_singleton.mpr hp

theorem mem_referencePairs {p : PairOutcome} :
    p ∈ referencePairs s d contract ↔ ∃ key, p ∈ established s d contract key := by
  rw [referencePairs, List.mem_flatMap]
  constructor
  · rintro ⟨key, -, hp⟩
    exact ⟨key, hp⟩
  · rintro ⟨key, hp⟩
    refine ⟨key, mem_allKeys.mpr ⟨.left, ?_⟩, hp⟩
    rw [(mem_established.mp hp).1]
    simp

theorem settles_moved {st : Reservation} (h : Tracks s st) (side : RecordSide)
    (reason : UnpairedReason) (explanation : String) (related : List String) {l : List String}
    (hl : l.Nodup) (hin : ∀ i ∈ l, i ∈ st.remaining side) (he : nonblank explanation = true)
    (hr : related.Nodup) :
    ∃ st', l.foldlM (settle side reason explanation related) st = .ok st' ∧
      Moved s st st' (only side l) [] := by
  obtain ⟨st', hst', hm⟩ := fold_reservation (s := s)
    (f := settle side reason explanation related) (fun i => only side [i]) (fun _ => [])
    (fun st i => i ∈ st.remaining side) (l := l)
    (fun i _ x hx hi => settle_moved hx side reason explanation related hi he hr)
    (by
      refine hl.imp ?_
      intro a b hab x x' hm hb
      exact hm.mem.mpr ⟨hb, by simp [only, Ne.symm hab]⟩)
    h hin
  rw [flatMap_nil] at hm
  refine ⟨st', hst', hm.widen fun other i _ => ?_⟩
  by_cases ho : other = side <;> simp [only, ho]

theorem resolveConflict_moved {acc : Reservation × List ReferenceConflict}
    (h : Tracks s acc.1) {key : String} (hkey : nonblank key = true)
    (hin : ∀ side, ∀ i ∈ sharing s d contract side key, i ∈ acc.1.remaining side) :
    ∃ acc', resolveConflict (sharing s d contract .left) (sharing s d contract .right) acc key =
        .ok acc' ∧
      Moved s acc.1 acc'.1 (fun side => if Duplicated s d contract key
        then sharing s d contract side key else []) [] := by
  unfold resolveConflict
  by_cases hd : Duplicated s d contract key
  · have hdup := hd
    unfold Duplicated at hd
    rw [if_pos hd]
    have hall : (sortOn id (sharing s d contract .left key ++
        sharing s d contract .right key)).Nodup := by
      refine (sortOn_perm id _).nodup_iff.mpr (List.nodup_append.mpr
        ⟨sharing_nodup _ _, sharing_nodup _ _, ?_⟩)
      rintro i hl j hr rfl
      exact sides_apart s (by decide) (h.mem_input (hin .left i hl))
        (h.mem_input (hin .right i hr))
    obtain ⟨st₁, hst₁, hm₁⟩ := settles_moved h .left .duplicateReference duplicateText _
      (sharing_nodup .left key) (hin .left) (by decide) hall
    obtain ⟨st₂, hst₂, hm₂⟩ := settles_moved hm₁.tracks .right .duplicateReference
      duplicateText _ (sharing_nodup .right key)
      (fun i hi => hm₁.mem.mpr ⟨hin .right i hi, by simp [only]⟩) (by decide) hall
    obtain ⟨conflict, hcreate⟩ : ∃ conflict, ReferenceConflict.create ⟨key,
        sharing s d contract .left key, sharing s d contract .right key⟩ = .ok conflict := by
      unfold Conflicting at hd
      simp [ReferenceConflict.create, hkey, sharing_nodup, hd]
    have hm : Moved s acc.1 st₂ _ [] := hm₁.trans hm₂
    refine ⟨(st₂, acc.2 ++ [conflict]), ?_, hm.widen fun side i _ => ?_⟩
    · simp only [bind_ok]
      exact ⟨conflict, hcreate, st₁, hst₁, st₂, hst₂, rfl⟩
    · rw [if_pos hdup]
      cases side <;> simp [only]
  · have hno := hd
    unfold Duplicated at hno
    rw [if_neg hno]
    exact ⟨acc, rfl, (Moved.refl h).widen fun side i _ => by rw [if_neg hd]⟩

theorem establish_moved {st : Reservation} (h : Tracks s st) {key : String}
    (hin : ∀ l r, sharing s d contract .left key = [l] → sharing s d contract .right key = [r] →
      l ∈ st.remaining .left ∧ r ∈ st.remaining .right) :
    ∃ st', establish ((prohibitedRelationships s d).map (·.edge)) (sharing s d contract .left)
        (sharing s d contract .right) st key = .ok st' ∧
      Moved s st st' (fun side => (established s d contract key).map (·.endId side))
        (established s d contract key) := by
  by_cases hone : ∃ l r, sharing s d contract .left key = [l] ∧
      sharing s d contract .right key = [r]
  · obtain ⟨l, r, hl, hr⟩ := hone
    obtain ⟨hil, hir⟩ := hin l r hl hr
    have hil' : l ∈ st.remainingLeft := hil
    have hir' : r ∈ st.remainingRight := hir
    simp only [establish, established, hl, hr, hil', hir', true_and]
    split_ifs with hno
    · exact ⟨st, rfl, Moved.refl h⟩
    · obtain ⟨st', hst', hm⟩ := join_moved h .authoritativeReference hil hir (by decide)
      refine ⟨st', hst', hm.widen fun side i _ => ?_⟩
      cases side <;> exact Iff.rfl
  · have hnone : established s d contract key = [] := by
      unfold established
      split
      · exact absurd ⟨_, _, ‹_›, ‹_›⟩ hone
      · rfl
    have hstay : establish ((prohibitedRelationships s d).map (·.edge))
        (sharing s d contract .left) (sharing s d contract .right) st key = .ok st := by
      unfold establish
      split
      · exact absurd ⟨_, _, ‹_›, ‹_›⟩ hone
      · rfl
    rw [hnone]
    exact ⟨st, hstay, Moved.refl h⟩

theorem established_conflict {key : String} {p : PairOutcome}
    (h : p ∈ established s d contract key) : ¬Duplicated s d contract key := by
  obtain ⟨hl, hr, -, -⟩ := mem_established.mp h
  simp [Duplicated, Conflicting, hl, hr]

end Sharing

theorem forM_require_ok {α : Type} {f : α → Outcome Unit} {l : List α} {u : Unit} :
    l.forM f = .ok u ↔ ∀ a ∈ l, f a = .ok () := by
  induction l with
  | nil => simp
  | cons a l ih =>
    have hcons : (a::l).forM f = (f a >>= fun _ => l.forM f) := rfl
    rw [hcons, bind_ok]
    simp only [List.mem_cons, forall_eq_or_imp, ← ih]
    constructor
    · rintro ⟨v, hv, hl⟩
      exact ⟨hv, hl⟩
    · rintro ⟨hv, hl⟩
      exact ⟨(), hv, hl⟩

/-- What preprocessing returns, in terms of the snapshot and the decisions
alone. -/
structure Preprocessed (s : EngineSnapshot) (d : DecisionInputs) (contract : ReferenceContract)
    (p : ReferencePreprocessingResult) : Prop where
  pairs : p.pairs.Perm (manualPairs s d ++ referencePairs s d contract)
  partition : ∀ side, (p.pairs.map (·.endId side) ++ on side p.terminalUnpaired ++
    ids (p.remaining side)).Perm (ids (s.records side))
  remaining : ∀ side, p.remaining side =
    (s.records side).filter fun r => Open s d contract side r.observationId
  prohibited : p.prohibitedRelationships = prohibitedRelationships s d

theorem on_perm (side : RecordSide) {a b : List UnpairedOutcome} (h : a.Perm b) :
    (on side a).Perm (on side b) := (h.filter _).map _

theorem ids_filter_eq {s : EngineSnapshot} (side : RecordSide) {l : List String}
    (hsub : ∀ i ∈ l, i ∈ ids (s.records side)) (hl : l.Nodup) :
    (ids ((s.records side).filter (·.observationId ∈ l))).Perm l := by
  refine (List.perm_ext_iff_of_nodup ?_ hl).mpr fun i => ?_
  · exact (s.nodup side).sublist (List.filter_sublist.map _)
  · constructor
    · intro hi
      obtain ⟨r, hr, rfl⟩ := mem_ids hi
      exact of_decide_eq_true (List.mem_filter.mp hr).2
    · intro hi
      obtain ⟨r, hr, rfl⟩ := mem_ids (hsub i hi)
      exact List.mem_map_of_mem (List.mem_filter.mpr ⟨hr, decide_eq_true hi⟩)

theorem sortOn_filter {s : EngineSnapshot} (side : RecordSide) (keep : MatchRecord → Bool) :
    sortOn (·.observationId) ((s.records side).filter keep) = (s.records side).filter keep := by
  apply sortOn_eq_self
  have h := List.pairwise_map.mp (s.sorted side)
  exact (h.imp fun hab => le_of_lt hab).sublist List.filter_sublist

/-- The checks on a preprocessing result hold of every partition. -/
theorem result_create {s : EngineSnapshot} {st : Reservation} (h : Tracks s st)
    (prohibited : List ProhibitedRelationship) (conflicts : List ReferenceConflict) :
    (collect s st prohibited conflicts).create =
        .ok (collect s st prohibited conflicts).ordered ∧
      ∀ side, (collect s st prohibited conflicts).ordered.remaining side =
        (s.records side).filter (·.observationId ∈ st.remaining side) := by
  have hperm : ∀ side, (ids ((s.records side).filter
      (·.observationId ∈ st.remaining side))).Perm (st.remaining side) := fun side =>
    ids_filter_eq side (fun i hi => h.mem_input hi) (h.remaining_nodup side)
  have hpart : ∀ side, (st.pairs.map (·.endId side) ++ on side st.terminal ++
      ids ((s.records side).filter (·.observationId ∈ st.remaining side))).Perm
        (ids (s.records side)) := fun side => ((hperm side).append_left _).trans (h side)
  have hnd : ∀ side, (st.pairs.map (·.endId side) ++ on side st.terminal ++
      ids ((s.records side).filter (·.observationId ∈ st.remaining side))).Nodup :=
    fun side => (hpart side).nodup_iff.mpr (s.nodup side)
  have hsame : ∀ side, SameMembers (st.pairs.map (·.endId side) ++ on side st.terminal ++
      ids ((s.records side).filter (·.observationId ∈ st.remaining side)))
        (ids (s.records side)) := fun side =>
    ⟨fun i hi => (hpart side).mem_iff.mp hi, fun i hi => (hpart side).mem_iff.mpr hi⟩
  have happ : ∀ {a b : List String}, (a ++ b).Nodup → a.Nodup ∧ b.Nodup ∧ Apart a b := by
    intro a b hab
    obtain ⟨ha, hb, hd⟩ := List.nodup_append.mp hab
    exact ⟨ha, hb, fun i hi hj => hd i hi i hj rfl⟩
  have hparts : ∀ side, (st.pairs.map (·.endId side)).Nodup ∧ (on side st.terminal).Nodup ∧
      (ids ((s.records side).filter (·.observationId ∈ st.remaining side))).Nodup ∧
      Apart (st.pairs.map (·.endId side)) (on side st.terminal) ∧
      Apart (st.pairs.map (·.endId side))
        (ids ((s.records side).filter (·.observationId ∈ st.remaining side))) ∧
      Apart (on side st.terminal)
        (ids ((s.records side).filter (·.observationId ∈ st.remaining side))) := by
    intro side
    obtain ⟨h12, h3, hap⟩ := happ (hnd side)
    obtain ⟨h1, h2, h12'⟩ := happ h12
    exact ⟨h1, h2, h3, h12', fun i hi => hap i (List.mem_append_left _ hi),
      fun i hi => hap i (List.mem_append_right _ hi)⟩
  obtain ⟨l1, l2, l3, l4, l5, l6⟩ := hparts .left
  obtain ⟨r1, r2, r3, r4, r5, r6⟩ := hparts .right
  refine ⟨?_, ?_⟩
  · simp only [ReferencePreprocessingResult.create, partUnique, bind_ok, exists_require, pure_ok]
    exact ⟨⟨s.left_nodup, s.right_nodup⟩, s.apart, l1, r1, l2, r2, l3, r3, hsame .left,
      hsame .right, ⟨l4, l5, l6, r4, r5, r6⟩, trivial⟩
  · intro side
    cases side
    · exact sortOn_filter .left _
    · exact sortOn_filter .right _

theorem orientation_ok {s : EngineSnapshot} {d : DecisionInputs} {u : Unit} :
    validateRelationshipOrientation s d = .ok u ↔ Oriented s d := by
  rw [validateRelationshipOrientation, forM_require_ok]
  simp [Oriented]

theorem prohibited_sorted (s : EngineSnapshot) (d : DecisionInputs) :
    sortOn (·.order) (prohibitedRelationships s d) = prohibitedRelationships s d :=
  sortOn_eq_self _ (d.rejected_sorted.sublist List.filter_sublist)

theorem filter_remaining {s : EngineSnapshot} {d : DecisionInputs} {st : Reservation}
    {side : RecordSide} (h : ∀ i, i ∈ st.remaining side ↔ Free s d side i) :
    (s.records side).filter (·.observationId ∈ st.remaining side) = freeRecords s d side := by
  refine List.filter_congr fun r _ => ?_
  simp [h]

/-- With oriented decisions preprocessing never raises. -/
theorem preprocess_total {s : EngineSnapshot} {d : DecisionInputs} (ho : Oriented s d)
    (contract : ReferenceContract) :
    ∃ p, preprocessReferences s d contract = .ok p ∧ Preprocessed s d contract p := by
  obtain ⟨st, hst, ht, hpairs, hfree⟩ := reserveDecisions_spec s d
  have hkeys : (allKeys s d contract).Nodup := sortedSet_nodup _
  have hleft : s.left.filter (·.observationId ∈ st.remainingLeft) = freeRecords s d .left :=
    filter_remaining (hfree .left)
  have hright : s.right.filter (·.observationId ∈ st.remainingRight) = freeRecords s d .right :=
    filter_remaining (hfree .right)
  obtain ⟨acc, hacc, hm₁⟩ := fold_moved (s := s) Prod.fst
    (f := resolveConflict (sharing s d contract .left) (sharing s d contract .right))
    (fun key side => if Duplicated s d contract key
      then sharing s d contract side key else []) (fun _ => [])
    (fun st key => ∀ side, ∀ i ∈ sharing s d contract side key, i ∈ st.remaining side)
    (l := allKeys s d contract)
    (fun key hkey x hx hready => resolveConflict_moved hx (allKeys_text hkey) hready)
    (by
      refine hkeys.imp ?_
      intro a b hab x x' hm hb side i hi
      refine hm.mem.mpr ⟨hb side i hi, fun hgone => ?_⟩
      split_ifs at hgone
      · exact hab (sharing_key hgone hi)
      · simp at hgone)
    (st, []) ht (fun key _ side i hi => (hfree side i).mpr (sharing_free hi))
  rw [flatMap_nil] at hm₁
  have hm₁' : Moved s st acc.1 (conflictIds s d contract) [] := hm₁
  obtain ⟨st', hst', hm₂⟩ := fold_reservation (s := s)
    (f := establish ((prohibitedRelationships s d).map (·.edge)) (sharing s d contract .left)
      (sharing s d contract .right))
    (fun key side => (established s d contract key).map (·.endId side))
    (established s d contract)
    (fun st key => ∀ l r, sharing s d contract .left key = [l] →
      sharing s d contract .right key = [r] →
      l ∈ st.remaining .left ∧ r ∈ st.remaining .right)
    (l := allKeys s d contract)
    (fun key _ x hx hready => establish_moved hx hready)
    (by
      refine hkeys.imp ?_
      intro a b hab x x' hm hb l r hl hr
      obtain ⟨h1, h2⟩ := hb l r hl hr
      refine ⟨hm.mem.mpr ⟨h1, fun hgone => ?_⟩, hm.mem.mpr ⟨h2, fun hgone => ?_⟩⟩
      · obtain ⟨p, hp, hpe⟩ := List.mem_map.mp hgone
        have hpl := (mem_established.mp hp).1
        have ha : l ∈ sharing s d contract .left a := by
          rw [hpl, ← hpe]
          simp [PairOutcome.endId]
        exact hab (sharing_key ha (by simp [hl]))
      · obtain ⟨p, hp, hpe⟩ := List.mem_map.mp hgone
        have hpr := (mem_established.mp hp).2.1
        have ha : r ∈ sharing s d contract .right a := by
          rw [hpr, ← hpe]
          simp [PairOutcome.endId]
        exact hab (sharing_key ha (by simp [hr])))
    hm₁.tracks (by
      intro key _ l r hl hr
      have hno : ¬Duplicated s d contract key := by
        simp [Duplicated, Conflicting, hl, hr]
      have hstay : ∀ side i, i ∈ sharing s d contract side key → i ∈ acc.1.remaining side := by
        intro side i hi
        refine hm₁'.mem.mpr ⟨(hfree side i).mpr (sharing_free hi), fun hgone => ?_⟩
        obtain ⟨key', hd, hi'⟩ := mem_conflictIds.mp hgone
        exact hno (sharing_key hi' hi ▸ hd)
      exact ⟨hstay .left l (by simp [hl]), hstay .right r (by simp [hr])⟩)
  obtain ⟨hp, hprem⟩ := result_create hm₂.tracks (prohibitedRelationships s d) acc.2
  have hpp := sortOn_perm (fun q : PairOutcome => edgeOrder q.edge) st'.pairs
  have hpt := sortOn_perm UnpairedOutcome.order st'.terminal
  have hrem : ∀ side i, i ∈ st'.remaining side ↔ Open s d contract side i := by
    intro side i
    rw [hm₂.mem, hm₁'.mem, hfree]
    unfold Open referencePairs
    rw [List.map_flatMap]
    tauto
  refine ⟨(collect s st' (prohibitedRelationships s d) acc.2).ordered, ?_, ?_, ?_, ?_,
    prohibited_sorted s d⟩
  · unfold preprocessReferences
    simp only [bind_ok]
    refine ⟨(), orientation_ok.mpr ho, st, hst, ?_⟩
    rw [hleft, hright]
    exact ⟨acc, hacc, st', hst', hp⟩
  · refine hpp.trans ?_
    rw [hm₂.pairs, hm₁'.pairs, hpairs, List.append_nil]
    exact List.Perm.refl _
  · intro side
    have hids : (ids ((collect s st' (prohibitedRelationships s d) acc.2).ordered.remaining
        side)).Perm (st'.remaining side) := by
      rw [hprem]
      exact ids_filter_eq side (fun i hi => hm₂.tracks.mem_input hi)
        (hm₂.tracks.remaining_nodup side)
    exact (((hpp.map _).append (on_perm side hpt)).append hids).trans (hm₂.tracks side)
  · intro side
    rw [hprem]
    refine List.filter_congr fun r _ => ?_
    simp [hrem]

theorem preprocess_spec {s : EngineSnapshot} {d : DecisionInputs} {contract : ReferenceContract}
    {p : ReferencePreprocessingResult} (h : preprocessReferences s d contract = .ok p) :
    Oriented s d ∧ Preprocessed s d contract p := by
  have ho : Oriented s d := by
    unfold preprocessReferences at h
    rw [bind_ok] at h
    obtain ⟨u, hu, -⟩ := h
    exact orientation_ok.mp hu
  obtain ⟨q, hq, hs⟩ := preprocess_total ho contract
  rw [hq, Except.ok.injEq] at h
  exact ⟨ho, h ▸ hs⟩

end Workbench.Reservations
