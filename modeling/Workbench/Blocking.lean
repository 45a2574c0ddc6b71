import Workbench.Generation

/-!
# What the blocking passes find

A candidate lists the passes that reached it. Without a limited endpoint it
lists every pass that puts its records together, and a pass never joins a
limited record to one that is not limited.
-/

set_option autoImplicit false

namespace Workbench.Blocking
open Workbench.Listing Workbench.Calendar Workbench.Raising Workbench.Records
open Workbench.Evidence Workbench.References Workbench.Candidates Workbench.Json
open Workbench.SearchSpace Workbench.Generation

/-- The values a pass requires are present and equal, and the times are at most
its window apart. -/
structure Alike (pass : BlockingPassPolicy) (l r : MatchRecord) : Prop where
  instrument : pass.requireInstrument = true → l.instrument ≠ none ∧ l.instrument = r.instrument
  side : pass.requireSide = true → l.side ≠ none ∧ l.side = r.side
  currency : pass.requireCurrency = true → l.currency ≠ none ∧ l.currency = r.currency
  sharedAlias : pass.useSharedAlias = true →
    l.sharedReferenceAlias ≠ none ∧ l.sharedReferenceAlias = r.sharedReferenceAlias
  time : ∀ window ∈ pass.timeWindow, ∃ t u, l.executedAt = some t ∧ r.executedAt = some u ∧
    |(t.val : ℤ)-u.val| ≤ window.microseconds

theorem inWindow_iff {window : Duration} {l r : MatchRecord} :
    inWindow window l r = true ↔ ∃ t u, l.executedAt = some t ∧ r.executedAt = some u ∧
      |(t.val : ℤ)-u.val| ≤ window.microseconds := by
  unfold inWindow
  cases l.executedAt with
  | none => simp
  | some t =>
    cases r.executedAt with
    | none => simp
    | some u =>
      rw [decide_eq_true_eq]
      constructor
      · intro h
        exact ⟨t, u, rfl, rfl, abs_le.mpr ⟨by omega, by omega⟩⟩
      · intro h
        obtain ⟨t', u', ht, hu, hle⟩ := h
        rw [Option.some.injEq] at ht hu
        subst ht hu
        rw [abs_le] at hle
        exact ⟨by omega, by omega⟩

def keyOf (pass : BlockingPassPolicy) (r : MatchRecord) : Key :=
  (if pass.requireInstrument then r.instrument else none,
    if pass.requireSide then r.side.map (·.value) else none,
    if pass.requireCurrency then r.currency else none,
    if pass.useSharedAlias then r.sharedReferenceAlias else none)

theorem blockingKey_some {pass : BlockingPassPolicy} {r : MatchRecord} {key : Key} :
    blockingKey pass r = some key ↔
      (pass.timeWindow.isSome = true → r.executedAt ≠ none) ∧
      (pass.requireInstrument = true → r.instrument ≠ none) ∧
      (pass.requireSide = true → r.side ≠ none) ∧
      (pass.requireCurrency = true → r.currency ≠ none) ∧
      (pass.useSharedAlias = true → r.sharedReferenceAlias ≠ none) ∧ key = keyOf pass r := by
  have hkey : (if pass.requireInstrument then r.instrument else none,
    if pass.requireSide then r.side.map (·.value) else none,
    if pass.requireCurrency then r.currency else none,
    if pass.useSharedAlias then r.sharedReferenceAlias else none) = keyOf pass r := rfl
  unfold blockingKey
  rw [hkey]
  constructor
  · intro h
    split_ifs at h with h1 h2 h3 h4 h5
    exact ⟨fun hw hn => h1 ⟨hw, hn⟩, fun hi hn => h2 ⟨hi, hn⟩, fun hs hn => h3 ⟨hs, hn⟩,
      fun hc hn => h4 ⟨hc, hn⟩, fun ha hn => h5 ⟨ha, hn⟩, (Option.some.inj h).symm⟩
  · intro h
    obtain ⟨h1, h2, h3, h4, h5, rfl⟩ := h
    rw [if_neg fun h => h1 h.1 h.2, if_neg fun h => h2 h.1 h.2, if_neg fun h => h3 h.1 h.2,
      if_neg fun h => h4 h.1 h.2, if_neg fun h => h5 h.1 h.2]

theorem sideValue_inj {a b : Option CanonicalSide} (h : a.map (·.value) = b.map (·.value)) :
    a = b := by
  have hinj : Function.Injective CanonicalSide.value := by
    intro x y hxy
    cases x <;> cases y
    · rfl
    · exact absurd hxy (by decide)
    · exact absurd hxy (by decide)
    · rfl
  exact Option.map_injective hinj h

theorem compatible_alike {pass : BlockingPassPolicy} {l r : MatchRecord} :
    Compatible pass l r ↔ Alike pass l r := by
  constructor
  · intro h
    obtain ⟨key, hl, hr, hwindow⟩ := h
    obtain ⟨-, li, ls, lc, la, hlk⟩ := blockingKey_some.mp hl
    obtain ⟨-, -, -, -, -, hrk⟩ := blockingKey_some.mp hr
    rw [hlk] at hrk
    simp only [keyOf, Prod.mk.injEq] at hrk
    obtain ⟨hi, hs, hc, ha⟩ := hrk
    refine ⟨fun h => ⟨li h, ?_⟩, fun h => ⟨ls h, ?_⟩, fun h => ⟨lc h, ?_⟩, fun h => ⟨la h, ?_⟩,
      fun w hw => inWindow_iff.mp (hwindow w hw)⟩
    · rwa [if_pos h, if_pos h] at hi
    · rw [if_pos h, if_pos h] at hs
      exact sideValue_inj hs
    · rwa [if_pos h, if_pos h] at hc
    · rwa [if_pos h, if_pos h] at ha
  · intro h
    have htime : pass.timeWindow.isSome = true → l.executedAt ≠ none ∧ r.executedAt ≠ none := by
      intro hw
      obtain ⟨w, hw⟩ := Option.isSome_iff_exists.mp hw
      obtain ⟨t, u, ht, hu, -⟩ := h.time w hw
      simp [ht, hu]
    refine ⟨_, blockingKey_some.mpr ⟨fun hw => (htime hw).1, fun hi => (h.instrument hi).1,
      fun hs => (h.side hs).1, fun hc => (h.currency hc).1, fun ha => (h.sharedAlias ha).1, rfl⟩,
      blockingKey_some.mpr ⟨fun hw => (htime hw).2, fun hi => ?_, fun hs => ?_, fun hc => ?_,
        fun ha => ?_, ?_⟩, fun w hw => inWindow_iff.mpr (h.time w hw)⟩
    · exact (h.instrument hi).2 ▸ (h.instrument hi).1
    · exact (h.side hs).2 ▸ (h.side hs).1
    · exact (h.currency hc).2 ▸ (h.currency hc).1
    · exact (h.sharedAlias ha).2 ▸ (h.sharedAlias ha).1
    · simp only [keyOf, Prod.mk.injEq]
      refine ⟨?_, ?_, ?_, ?_⟩
      · split_ifs with hi
        · exact (h.instrument hi).2
        · rfl
      · split_ifs with hs
        · rw [(h.side hs).2]
        · rfl
      · split_ifs with hc
        · exact (h.currency hc).2
        · rfl
      · split_ifs with ha
        · exact (h.sharedAlias ha).2
        · rfl

def Reaches (pre : ReferencePreprocessingResult) (pass : BlockingPassPolicy) (e : Edge) : Prop :=
  ∃ l ∈ pre.remainingLeft, ∃ r ∈ pre.remainingRight,
    e = (l.observationId, r.observationId) ∧ Alike pass l r

def Listed (st : Search) (e : Edge) (s : String) : Prop := ∃ x ∈ st.edges, x.1 = e ∧ s ∈ x.2

theorem listed_addReason {st : Search} {e e' : Edge} {s s' : String} :
    Listed (st.addReason e s) e' s' ↔
      Listed st e' s' ∨ e' = e ∧ s' = s ∧ e ∈ st.edges.map Prod.fst := by
  simp only [Listed, Search.addReason, List.mem_map]
  constructor
  · intro h
    obtain ⟨x, ⟨y, hy, rfl⟩, he, hs⟩ := h
    split_ifs at he hs with hc
    · rcases List.mem_append.mp hs with hs | hs
      · exact Or.inl ⟨y, hy, he, hs⟩
      · exact Or.inr ⟨he ▸ hc.1, List.mem_singleton.mp hs, y, hy, hc.1⟩
    · exact Or.inl ⟨y, hy, he, hs⟩
  · intro h
    rcases h with ⟨y, hy, he, hs⟩ | ⟨rfl, rfl, y, hy, he⟩
    · refine ⟨_, ⟨y, hy, rfl⟩, ?_, ?_⟩
      · split_ifs <;> exact he
      · split_ifs
        · exact List.mem_append_left _ hs
        · exact hs
    · refine ⟨_, ⟨y, hy, rfl⟩, ?_, ?_⟩
      · split_ifs <;> exact he
      · by_cases hs : s' ∈ y.2
        · rw [if_neg (by simp [hs])]
          exact hs
        · rw [if_pos ⟨he, hs⟩]
          exact List.mem_append_right _ (List.mem_singleton_self _)

theorem listed_addEdge {st : Search} {e e' : Edge} {s s' : String} :
    Listed (st.addEdge e s) e' s' ↔ Listed st e' s' ∨ e' = e ∧ s' = s := by
  simp only [Listed, Search.addEdge, List.mem_append, List.mem_singleton]
  constructor
  · intro h
    obtain ⟨x, hx | rfl, he, hs⟩ := h
    · exact Or.inl ⟨x, hx, he, hs⟩
    · exact Or.inr ⟨he.symm, List.mem_singleton.mp hs⟩
  · intro h
    rcases h with ⟨x, hx, he, hs⟩ | ⟨rfl, rfl⟩
    · exact ⟨x, Or.inl hx, he, hs⟩
    · exact ⟨_, Or.inr rfl, rfl, List.mem_singleton_self _⟩

structure Lists (reason : String) (edges : Edge → Prop) (st st' : Search) : Prop where
  kept : ∀ e s, Listed st e s → Listed st' e s
  added : ∀ e s, Listed st' e s → Listed st e s ∨ s = reason ∧ edges e

section Stretches
variable {reason : String} {edges edges' : Edge → Prop}

theorem Lists.refl (reason : String) (edges : Edge → Prop) (st : Search) :
    Lists reason edges st st := ⟨fun _ _ h => h, fun _ _ h => Or.inl h⟩

theorem Lists.trans {st₁ st₂ st₃ : Search} (h : Lists reason edges st₁ st₂)
    (h' : Lists reason edges st₂ st₃) : Lists reason edges st₁ st₃ := by
  refine ⟨fun e s hl => h'.kept e s (h.kept e s hl), fun e s hl => ?_⟩
  rcases h'.added e s hl with hl | hl
  · exact h.added e s hl
  · exact Or.inr hl

theorem Lists.mono {st st' : Search} (h : Lists reason edges st st')
    (he : ∀ e, edges e → edges' e) : Lists reason edges' st st' :=
  ⟨h.kept, fun e s hl => (h.added e s hl).imp_right fun hr => ⟨hr.1, he e hr.2⟩⟩

end Stretches

section Enumeration
variable {prohibited : List Edge} {limits : CapacityLimits}

def Between (leftId : String) (rights : List MatchRecord) (e : Edge) : Prop :=
  ∃ r ∈ rights, e = (leftId, r.observationId)

theorem enumerateRights_lists (reason leftId : String) (rights : List MatchRecord) (st : Search)
    (p : Partition) :
    Lists reason (Between leftId rights) st
        (enumerateRights prohibited limits reason leftId rights st p).1 ∧
      ((enumerateRights prohibited limits reason leftId rights st p).2.2 = true →
        (enumerateRights prohibited limits reason leftId rights st p).2.1.limitReason ≠ none) ∧
      ((enumerateRights prohibited limits reason leftId rights st p).2.2 = false →
        ∀ r ∈ rights, (leftId, r.observationId) ∉ prohibited →
          Listed (enumerateRights prohibited limits reason leftId rights st p).1
            (leftId, r.observationId) reason) := by
  induction rights generalizing st p with
  | nil => exact ⟨Lists.refl _ _ st, by simp [enumerateRights], by simp⟩
  | cons right rest ih =>
    have hmore : ∀ e, Between leftId rest e → Between leftId (right::rest) e := by
      intro e he
      obtain ⟨r, hr, rfl⟩ := he
      exact ⟨r, List.mem_cons_of_mem _ hr, rfl⟩
    have hhere : Between leftId (right::rest) (leftId, right.observationId) :=
      ⟨right, List.mem_cons_self .., rfl⟩
    unfold enumerateRights
    split_ifs with h1 h2 h3 h4
    · obtain ⟨hlists, hstop, hall⟩ := ih st p
      refine ⟨hlists.mono hmore, hstop, fun hgo r hr hno => ?_⟩
      rcases List.mem_cons.mp hr with rfl | hr
      · exact absurd h1 hno
      · exact hall hgo r hr hno
    · obtain ⟨hlists, hstop, hall⟩ :=
        ih (st.addReason (leftId, right.observationId) reason) p.counted
      have hnote : Lists reason (Between leftId (right::rest)) st
          (st.addReason (leftId, right.observationId) reason) := by
        refine ⟨fun e s hl => listed_addReason.mpr (Or.inl hl), fun e s hl => ?_⟩
        rcases listed_addReason.mp hl with hl | ⟨rfl, rfl, -⟩
        · exact Or.inl hl
        · exact Or.inr ⟨rfl, hhere⟩
      refine ⟨hnote.trans (hlists.mono hmore), hstop, fun hgo r hr hno => ?_⟩
      rcases List.mem_cons.mp hr with rfl | hr
      · exact hlists.kept _ _ (listed_addReason.mpr (Or.inr ⟨rfl, rfl, h2⟩))
      · exact hall hgo r hr hno
    · exact ⟨Lists.refl _ _ st, by simp [Partition.limited], by simp⟩
    · exact ⟨⟨fun _ _ h => h, fun _ _ h => Or.inl h⟩, by simp [Partition.limited], by simp⟩
    · obtain ⟨hlists, hstop, hall⟩ :=
        ih (st.addEdge (leftId, right.observationId) reason) p.counted
      have hnote : Lists reason (Between leftId (right::rest)) st
          (st.addEdge (leftId, right.observationId) reason) := by
        refine ⟨fun e s hl => listed_addEdge.mpr (Or.inl hl), fun e s hl => ?_⟩
        rcases listed_addEdge.mp hl with hl | ⟨rfl, rfl⟩
        · exact Or.inl hl
        · exact Or.inr ⟨rfl, hhere⟩
      refine ⟨hnote.trans (hlists.mono hmore), hstop, fun hgo r hr hno => ?_⟩
      rcases List.mem_cons.mp hr with rfl | hr
      · exact hlists.kept _ _ (listed_addEdge.mpr (Or.inr ⟨rfl, rfl⟩))
      · exact hall hgo r hr hno

def Offered (pass : BlockingPassPolicy) (rights lefts : List MatchRecord) (e : Edge) : Prop :=
  ∃ l ∈ lefts, ∃ r ∈ near pass rights l, e = (l.observationId, r.observationId)

theorem sweepLefts_lists (pass : BlockingPassPolicy) (rights lefts : List MatchRecord)
    (st : Search) (p : Partition) :
    Lists (blockingReason pass) (Offered pass rights lefts) st
        (sweepLefts prohibited limits pass rights lefts st p).1 ∧
      ((sweepLefts prohibited limits pass rights lefts st p).2.limitReason = none →
        ∀ e, Offered pass rights lefts e → e ∉ prohibited →
          Listed (sweepLefts prohibited limits pass rights lefts st p).1 e
            (blockingReason pass)) := by
  induction lefts generalizing st p with
  | nil =>
    refine ⟨Lists.refl _ _ st, fun _ e he => ?_⟩
    obtain ⟨l, hl, -⟩ := he
    exact absurd hl List.not_mem_nil
  | cons left rest ih =>
    obtain ⟨hlists, hstop, hall⟩ := @enumerateRights_lists prohibited limits (blockingReason pass)
      left.observationId (near pass rights left) st p
    have hfirst : ∀ e, Between left.observationId (near pass rights left) e →
        Offered pass rights (left::rest) e := by
      intro e he
      obtain ⟨r, hr, rfl⟩ := he
      exact ⟨left, List.mem_cons_self .., r, hr, rfl⟩
    have hmore : ∀ e, Offered pass rights rest e → Offered pass rights (left::rest) e := by
      intro e he
      obtain ⟨l, hl, r, hr, rfl⟩ := he
      exact ⟨l, List.mem_cons_of_mem _ hl, r, hr, rfl⟩
    simp only [sweepLefts]
    split_ifs with hs
    · exact ⟨hlists.mono hfirst, fun hn => absurd hn (hstop hs)⟩
    · obtain ⟨hrest, hcov⟩ := ih (enumerateRights prohibited limits (blockingReason pass)
        left.observationId (near pass rights left) st p).1 (enumerateRights prohibited limits
        (blockingReason pass) left.observationId (near pass rights left) st p).2.1
      refine ⟨(hlists.mono hfirst).trans (hrest.mono hmore), fun hn e he hno => ?_⟩
      obtain ⟨l, hl, r, hr, rfl⟩ := he
      rcases List.mem_cons.mp hl with rfl | hl
      · exact hrest.kept _ _ (hall (by simpa using hs) r hr hno)
      · exact hcov hn _ ⟨l, hl, r, hr, rfl⟩ hno

end Enumeration

section Jobs
variable {digest : Digest} {pre : ReferencePreprocessingResult} {limits : CapacityLimits}

def JobOffers (pre : ReferencePreprocessingResult) (job : Job) (e : Edge) : Prop :=
  Offered job.1 (group job.1 pre.remainingRight job.2) (group job.1 pre.remainingLeft job.2) e

/-- Jobs done so far: where reasons come from, and that a partition without a
limit gave its reason to everything it offers. -/
structure Noted (digest : Digest) (pre : ReferencePreprocessingResult) (done : List Job)
    (acc : Search × List Partition) : Prop where
  sound : ∀ e s, Listed acc.1 e s → ∃ job ∈ done, s = blockingReason job.1 ∧ JobOffers pre job e
  covered : ∀ job ∈ done, ∃ p ∈ acc.2, shape p = shape (jobPartition digest pre job) ∧
    (p.limitReason = none → ∀ e, JobOffers pre job e → e ∉ prohibitedEdges pre →
      Listed acc.1 e (blockingReason job.1))

theorem sweepLefts_shape {prohibited : List Edge} (pass : BlockingPassPolicy)
    (rights lefts : List MatchRecord) (st : Search) (p : Partition) :
    shape (sweepLefts prohibited limits pass rights lefts st p).2 = shape p := by
  have hrights : ∀ leftId (rs : List MatchRecord) st p,
      shape (enumerateRights prohibited limits (blockingReason pass) leftId rs st p).2.1 =
        shape p := by
    intro leftId rs
    induction rs with
    | nil => exact fun _ _ => rfl
    | cons right rest ih =>
      intro st p
      unfold enumerateRights
      split_ifs
      · exact ih st p
      · exact ih _ p.counted
      · rfl
      · rfl
      · exact ih _ p.counted
  induction lefts generalizing st p with
  | nil => rfl
  | cons left rest ih =>
    simp only [sweepLefts]
    split_ifs
    · exact hrights _ _ st p
    · exact (ih _ _).trans (hrights _ _ st p)

theorem sweepJob_noted {done : List Job} {acc : Search × List Partition}
    (h : Noted digest pre done acc) (job : Job) :
    Noted digest pre (done ++ [job]) (sweepJob digest pre limits acc job) := by
  unfold sweepJob
  split_ifs
  · refine ⟨fun e s hl => ?_, fun job' hj => ?_⟩
    · obtain ⟨job', hj, hs⟩ := h.sound e s hl
      exact ⟨job', List.mem_append_left _ hj, hs⟩
    · rcases List.mem_append.mp hj with hj | hj
      · obtain ⟨p, hp, hrest⟩ := h.covered job' hj
        exact ⟨p, List.mem_append_left _ hp, hrest⟩
      · rw [List.mem_singleton.mp hj]
        refine ⟨_, List.mem_append_right _ (List.mem_singleton_self _), rfl, fun hn => ?_⟩
        simp [Partition.limited] at hn
  · obtain ⟨hlists, hcov⟩ := @sweepLefts_lists (prohibitedEdges pre) limits job.1
      (group job.1 pre.remainingRight job.2) (group job.1 pre.remainingLeft job.2) acc.1
      (jobPartition digest pre job)
    refine ⟨fun e s hl => ?_, fun job' hj => ?_⟩
    · rcases hlists.added e s hl with hl | ⟨hs, he⟩
      · obtain ⟨job', hj, hs⟩ := h.sound e s hl
        exact ⟨job', List.mem_append_left _ hj, hs⟩
      · exact ⟨job, List.mem_append_right _ (List.mem_singleton_self _), hs, he⟩
    · rcases List.mem_append.mp hj with hj | hj
      · obtain ⟨p, hp, hshape, hall⟩ := h.covered job' hj
        exact ⟨p, List.mem_append_left _ hp, hshape,
          fun hn e he hno => hlists.kept _ _ (hall hn e he hno)⟩
      · rw [List.mem_singleton.mp hj]
        exact ⟨_, List.mem_append_right _ (List.mem_singleton_self _), sweepLefts_shape _ _ _ _ _,
          hcov⟩

theorem sweep_noted {rest : List Job} {done : List Job} {acc : Search × List Partition}
    (h : Noted digest pre done acc) :
    Noted digest pre (done ++ rest) (sweep digest pre limits rest acc) := by
  induction rest generalizing done acc with
  | nil => simpa [sweep] using h
  | cons job rest ih =>
    have hjob : Noted digest pre (done ++ [job]) (sweepJob digest pre limits acc job) :=
      sweepJob_noted h job
    simpa [sweep] using ih hjob

theorem swept_noted (digest : Digest) (pre : ReferencePreprocessingResult)
    (policy : MatchingPolicy) :
    Noted digest pre (jobs pre policy.blockingPasses) (swept digest pre policy) := by
  have hstart : Noted digest pre [] (Search.start, []) := by
    refine ⟨fun e s hl => ?_, fun job hj => absurd hj List.not_mem_nil⟩
    obtain ⟨x, hx, -⟩ := hl
    exact absurd hx List.not_mem_nil
  have h : Noted digest pre ([] ++ jobs pre policy.blockingPasses) (swept digest pre policy) :=
    sweep_noted hstart
  rwa [List.nil_append] at h

end Jobs

section Spread
variable {partitions : List Partition}

theorem mem_touching {i j : ℕ} : j ∈ touching partitions i ↔
    ∃ p q, partitions[i]? = some p ∧ partitions[j]? = some q ∧ ∃ x ∈ p.members, x ∈ q.members := by
  simp only [touching, List.mem_filter, List.mem_range]
  constructor
  · intro h
    obtain ⟨hj, hm⟩ := h
    split at hm
    · rename_i p q hp hq
      obtain ⟨x, hx, hxq⟩ := List.any_eq_true.mp hm
      exact ⟨p, q, hp, hq, x, hx, of_decide_eq_true hxq⟩
    · cases hm
  · intro h
    obtain ⟨p, q, hp, hq, x, hx, hxq⟩ := h
    refine ⟨(List.getElem?_eq_some_iff.mp hq).1, ?_⟩
    rw [hp, hq]
    exact List.any_eq_true.mpr ⟨x, hx, decide_eq_true hxq⟩

theorem mem_limitedIndices {i : ℕ} : i ∈ limitedIndices partitions ↔
    ∃ p, partitions[i]? = some p ∧ p.limitReason ≠ none := by
  simp only [limitedIndices, List.mem_filter, List.mem_range]
  constructor
  · intro h
    obtain ⟨hi, hm⟩ := h
    split at hm
    · rename_i p hp
      exact ⟨p, hp, Option.isSome_iff_ne_none.mp hm⟩
    · cases hm
  · intro h
    obtain ⟨p, hp, hne⟩ := h
    refine ⟨(List.getElem?_eq_some_iff.mp hp).1, ?_⟩
    rw [hp]
    exact Option.isSome_iff_ne_none.mpr hne

theorem connected_closed : (∀ i ∈ limitedIndices partitions, i ∈ connectedIndices partitions) ∧
    ∀ i ∈ connectedIndices partitions, ∀ j ∈ touching partitions i,
      j ∈ connectedIndices partitions := by
  have hclosed : ∀ i ∈ List.range partitions.length, ∀ j ∈ touching partitions i,
      j ∈ List.range partitions.length := fun i _ j hj => (List.mem_filter.mp hj).1
  have hwork : Flood.work (touching partitions) (List.range partitions.length)
      (limitedIndices partitions) [] ≤ (limitedIndices partitions).length+
        Flood.budget (touching partitions) (List.range partitions.length) := by
    simp only [Flood.work, Flood.budget, List.not_mem_nil, not_false_eq_true, decide_true,
      List.filter_true]
    omega
  obtain ⟨hcovered, hmem, -, -⟩ := Flood.flood_spec (touching partitions) List.nodup_range hclosed _
    (limitedIndices partitions) [] (fun i hi => (List.mem_filter.mp hi).1)
    (fun i hi => absurd hi List.not_mem_nil) hwork
  refine ⟨fun i hi => hmem i (Or.inl hi), fun i hi j hj => ?_⟩
  exact (hcovered i hi j hj).resolve_right List.not_mem_nil

theorem mem_spread_limited {q : Partition} (h : q ∈ propagateIncompletePartitions partitions) :
    ∃ i p, partitions[i]? = some p ∧ shape q = shape p ∧
      (q.limitReason ≠ none ↔ i ∈ connectedIndices partitions) := by
  obtain ⟨⟨p, i⟩, hx, rfl⟩ := List.mem_map.mp h
  have hp : partitions[i]? = some p := by
    simpa [List.mem_zipIdx_iff_getElem?] using hx
  refine ⟨i, p, hp, by split_ifs <;> rfl, ?_⟩
  by_cases hn : p.limitReason = none
  · by_cases hc : i ∈ connectedIndices partitions
    · simp [hn, hc, Partition.limited]
    · simp [hn, hc]
  · have hc := connected_closed.1 i (mem_limitedIndices.mpr ⟨p, hp, hn⟩)
    simp [hn, hc]

theorem members_shape {p q : Partition} (h : shape q = shape p) : q.members = p.members := by
  simp only [shape, Prod.mk.injEq] at h
  rw [Partition.members, Partition.members, h.2.2.1, h.2.2.2]

theorem spread_together {q q' : Partition} (h : q ∈ propagateIncompletePartitions partitions)
    (h' : q' ∈ propagateIncompletePartitions partitions) {x : String} (hx : x ∈ q.members)
    (hx' : x ∈ q'.members) (hl : q.limitReason ≠ none) : q'.limitReason ≠ none := by
  obtain ⟨i, p, hp, hshape, hiff⟩ := mem_spread_limited h
  obtain ⟨j, p', hp', hshape', hiff'⟩ := mem_spread_limited h'
  refine hiff'.mpr (connected_closed.2 i (hiff.mp hl) j ?_)
  refine mem_touching.mpr ⟨p, p', hp, hp', x, ?_, ?_⟩
  · exact members_shape hshape ▸ hx
  · exact members_shape hshape' ▸ hx'

end Spread

section Result
variable {digest : Digest} {pre : ReferencePreprocessingResult} {policy : MatchingPolicy}

theorem compatibleEdge_reaches {passes : List BlockingPassPolicy} {e : Edge} :
    CompatibleEdge pre passes e ↔ ∃ pass ∈ passes, Reaches pre pass e := by
  simp only [CompatibleEdge, Reaches, compatible_alike]

theorem jobOffers_reaches {job : Job} {e : Edge} (h : JobOffers pre job e) :
    Reaches pre job.1 e := by
  obtain ⟨l, hl, r, hr, rfl⟩ := h
  obtain ⟨hl, hlk⟩ := mem_group.mp hl
  obtain ⟨hr, hwindow⟩ := mem_near.mp hr
  obtain ⟨hr, hrk⟩ := mem_group.mp hr
  exact ⟨l, hl, r, hr, rfl, compatible_alike.mp ⟨job.2, hlk, hrk, hwindow⟩⟩

theorem alike_job {pass : BlockingPassPolicy} (hpass : pass ∈ policy.blockingPasses)
    {l r : MatchRecord} (hl : l ∈ pre.remainingLeft) (hr : r ∈ pre.remainingRight)
    (h : Alike pass l r) : ∃ key, (pass, key) ∈ jobs pre policy.blockingPasses ∧
      l ∈ group pass pre.remainingLeft key ∧ r ∈ group pass pre.remainingRight key ∧
      JobOffers pre (pass, key) (l.observationId, r.observationId) := by
  obtain ⟨key, hlk, hrk, hwindow⟩ := compatible_alike.mpr h
  have hlg : l ∈ group pass pre.remainingLeft key := mem_group.mpr ⟨hl, hlk⟩
  have hrg : r ∈ group pass pre.remainingRight key := mem_group.mpr ⟨hr, hrk⟩
  refine ⟨key, mem_jobs.mpr ⟨hpass, mem_sharedKeys.mpr ⟨⟨l, hl, hlk⟩, r, hr, hrk⟩⟩, hlg, hrg, ?_⟩
  exact ⟨l, hlg, r, mem_near.mpr ⟨hrg, hwindow⟩, rfl⟩

theorem limited_iff {i : String} : i ∈ (generated digest pre policy).limitedRecordIds ↔
    ∃ q ∈ propagateIncompletePartitions (swept digest pre policy).2,
      q.limitReason ≠ none ∧ i ∈ q.members := by
  simp only [generated, mem_sortOn, List.mem_dedup, mem_limitedIds, List.mem_map]
  constructor
  · intro h
    obtain ⟨-, ⟨q, hq, rfl⟩, hincomplete, hi⟩ := h
    refine ⟨q, hq, ?_, List.mem_append.mpr (mem_evidence_members.mp hi)⟩
    intro hn
    simp [evidenceOf, hn] at hincomplete
  · intro h
    obtain ⟨q, hq, hne, hi⟩ := h
    refine ⟨_, ⟨q, hq, rfl⟩, ?_, mem_evidence_members.mpr (List.mem_append.mp hi)⟩
    simpa [evidenceOf] using Option.isSome_iff_ne_none.mpr hne

theorem job_partition {job : Job} (hj : job ∈ jobs pre policy.blockingPasses) :
    ∃ q ∈ propagateIncompletePartitions (swept digest pre policy).2,
      q.members = ids (group job.1 pre.remainingLeft job.2) ++
        ids (group job.1 pre.remainingRight job.2) ∧
      (q.limitReason = none → ∀ e, JobOffers pre job e → e ∉ prohibitedEdges pre →
        Listed (swept digest pre policy).1 e (blockingReason job.1)) := by
  obtain ⟨p, hp, hshape, hall⟩ := (swept_noted digest pre policy).covered job hj
  obtain ⟨q, hq, hqp, hlimit⟩ := spread_mem hp
  exact ⟨q, hq, members_shape (hqp.trans hshape), fun hn => hall (hlimit hn)⟩

theorem mem_candidates {c : CandidateEdge} :
    c ∈ (generated digest pre policy).candidates ↔
      ∃ x ∈ (swept digest pre policy).1.edges, c = edgeOf x := by
  simp only [generated, mem_sortOn, List.mem_map, eq_comm]

theorem candidate_reasons {c : CandidateEdge} (hc : c ∈ (generated digest pre policy).candidates)
    (s : String) : s ∈ c.blockingReasons ↔ Listed (swept digest pre policy).1 c.edge s := by
  obtain ⟨x, hx, rfl⟩ := mem_candidates.mp hc
  have hnodup := (swept_spec digest pre policy).1.kept.nodup
  rw [show (edgeOf x).blockingReasons = sortedSet x.2 from rfl, mem_sortedSet]
  constructor
  · exact fun hs => ⟨x, hx, rfl, hs⟩
  · intro h
    obtain ⟨y, hy, he, hs⟩ := h
    have hsame : y = x := List.inj_on_of_nodup_map hnodup hy hx he
    exact hsame ▸ hs

end Result

/-- What the candidates, their reasons and the limited records are to be. -/
structure Bounded (pre : ReferencePreprocessingResult) (policy : MatchingPolicy)
    (g : CandidateGenerationResult) : Prop where
  found : ∀ pass ∈ policy.blockingPasses, ∀ e, Reaches pre pass e → e ∉ prohibitedEdges pre →
    e ∈ g.candidates.map (·.edge) ∨ e.1 ∈ g.limitedRecordIds ∧ e.2 ∈ g.limitedRecordIds
  allowed : ∀ c ∈ g.candidates, c.edge ∉ prohibitedEdges pre
  reasons : ∀ c ∈ g.candidates, c.blockingReasons ≠ [] ∧ ∀ s ∈ c.blockingReasons,
    ∃ pass ∈ policy.blockingPasses, s = blockingReason pass ∧ Reaches pre pass c.edge
  listed : ∀ c ∈ g.candidates, c.leftId ∉ g.limitedRecordIds → c.rightId ∉ g.limitedRecordIds →
    ∀ pass ∈ policy.blockingPasses, Reaches pre pass c.edge →
      blockingReason pass ∈ c.blockingReasons
  closed : ∀ pass ∈ policy.blockingPasses, ∀ e, Reaches pre pass e →
    (e.1 ∈ g.limitedRecordIds ↔ e.2 ∈ g.limitedRecordIds)
  edges_once : (g.candidates.map (·.edge)).Nodup
  left_degree : ∀ i, g.candidates.countP (·.leftId = i) ≤ policy.limits.maxCandidatesPerRecord
  right_degree : ∀ i, g.candidates.countP (·.rightId = i) ≤ policy.limits.maxCandidatesPerRecord
  total : g.candidates.length ≤ policy.limits.maxRunCandidateEdges

section Generated
variable {digest : Digest} {pre : ReferencePreprocessingResult} {policy : MatchingPolicy}

theorem candidates_count (f : Edge → String) (i : String) :
    (generated digest pre policy).candidates.countP (fun c => f c.edge = i) =
      (keysOf (swept digest pre policy).1).countP (fun e => f e = i) := by
  rw [generated, (sortOn_perm _ _).countP_eq, keysOf, List.countP_map, List.countP_map]
  rfl

theorem generated_bounded : Bounded pre policy (generated digest pre policy) := by
  have hspec : Generated pre policy (generated digest pre policy) := generated_spec digest policy
  have hkept := (swept_spec digest pre policy).1.kept
  have hnoted := swept_noted digest pre policy
  refine ⟨?_, hspec.allowed, ?_, ?_, ?_, hspec.nodup, ?_, ?_, ?_⟩
  · intro pass hpass e he hno
    exact hspec.full e (compatibleEdge_reaches.mpr ⟨pass, hpass, he⟩) hno
  · intro c hc
    refine ⟨(hspec.reasons c hc).1, fun s hs => ?_⟩
    obtain ⟨job, hj, rfl, hoffers⟩ := hnoted.sound _ _ ((candidate_reasons hc s).mp hs)
    exact ⟨job.1, (mem_jobs.mp hj).1, rfl, jobOffers_reaches hoffers⟩
  · intro c hc hleft hright pass hpass he
    obtain ⟨l, hl, r, hr, hedge, halike⟩ := he
    obtain ⟨key, hj, hlg, hrg, hoffers⟩ := alike_job hpass hl hr halike
    obtain ⟨q, hq, hmembers, hall⟩ := @job_partition digest pre policy _ hj
    have hopen : q.limitReason = none := by
      by_contra hne
      refine hleft (limited_iff.mpr ⟨q, hq, hne, ?_⟩)
      rw [hmembers, show c.leftId = l.observationId from congrArg Prod.fst hedge]
      exact List.mem_append_left _ (List.mem_map_of_mem hlg)
    rw [candidate_reasons hc, hedge]
    exact hall hopen _ hoffers (hedge ▸ hspec.allowed c hc)
  · intro pass hpass e he
    obtain ⟨l, hl, r, hr, rfl, halike⟩ := he
    obtain ⟨key, hj, hlg, hrg, -⟩ := alike_job hpass hl hr halike
    obtain ⟨q, hq, hmembers, -⟩ := @job_partition digest pre policy _ hj
    have hlq : l.observationId ∈ q.members :=
      hmembers ▸ List.mem_append_left _ (List.mem_map_of_mem hlg)
    have hrq : r.observationId ∈ q.members :=
      hmembers ▸ List.mem_append_right _ (List.mem_map_of_mem hrg)
    rw [limited_iff, limited_iff]
    constructor
    · intro h
      obtain ⟨q', hq', hne, hm⟩ := h
      exact ⟨q, hq, spread_together hq' hq hm hlq hne, hrq⟩
    · intro h
      obtain ⟨q', hq', hne, hm⟩ := h
      exact ⟨q, hq, spread_together hq' hq hm hrq hne, hlq⟩
  · intro i
    rw [show (generated digest pre policy).candidates.countP (·.leftId = i) = _ from
      candidates_count Prod.fst i, ← hkept.leftDegree]
    exact hkept.left_le i
  · intro i
    rw [show (generated digest pre policy).candidates.countP (·.rightId = i) = _ from
      candidates_count Prod.snd i, ← hkept.rightDegree]
    exact hkept.right_le i
  · rw [generated, length_sortOn, List.length_map]
    exact hkept.run_le

end Generated

section Returns
variable {digest : Digest} {pre : ReferencePreprocessingResult} {policy : MatchingPolicy}

/-- Every time stays representable when it is moved by the window of a pass. -/
def WindowsStay (pre : ReferencePreprocessingResult) (passes : List BlockingPassPolicy) : Prop :=
  ∀ pass ∈ passes, ∀ l ∈ pre.remainingLeft, WindowDefined pass l

instance (pre : ReferencePreprocessingResult) (passes : List BlockingPassPolicy) :
    Decidable (WindowsStay pre passes) :=
  inferInstanceAs (Decidable (∀ pass ∈ passes, ∀ l ∈ pre.remainingLeft, _))

theorem leftsDefined_all {prohibited : List Edge} {limits : CapacityLimits}
    {pass : BlockingPassPolicy} {rights lefts : List MatchRecord}
    (h : ∀ l ∈ lefts, WindowDefined pass l) (st : Search) (p : Partition) :
    LeftsDefined prohibited limits pass rights lefts st p := by
  induction lefts generalizing st p with
  | nil => trivial
  | cons left rest ih =>
    exact ⟨h left (by simp), fun _ => ih (fun l hl => h l (by simp [hl])) _ _⟩

theorem windowsDefined_stay (h : WindowsStay pre policy.blockingPasses) :
    WindowsDefined digest pre policy := by
  have hjobs : ∀ rest : List Job, (∀ job ∈ rest, job.1 ∈ policy.blockingPasses) → ∀ acc,
      JobsDefined digest pre policy.limits rest acc := by
    intro rest
    induction rest with
    | nil => exact fun _ _ => trivial
    | cons job rest ih =>
      intro hrest acc
      refine ⟨fun _ => leftsDefined_all (fun l hl => ?_) _ _, ih (fun j hj => hrest j (by simp [hj])) _⟩
      exact h job.1 (hrest job (by simp)) l (mem_group.mp hl).1
  exact hjobs _ (fun job hj => (mem_jobs.mp hj).1) _

theorem created_distinct (h : ∃ raw, ReferencePreprocessingResult.create raw = .ok pre) :
    Distinct pre := by
  obtain ⟨raw, h⟩ := h
  simp only [ReferencePreprocessingResult.create, partUnique, bind_ok, exists_require, pure_ok] at h
  obtain ⟨_, _, _, _, _, _, hleft, hright, _, _, _, rfl⟩ := h
  intro side
  cases side with
  | left => exact (nodup_map_sortOn _ _ _).mpr hleft
  | right => exact (nodup_map_sortOn _ _ _).mpr hright

/-- The hashes of different partitions are different. -/
def HashesApart (digest : Digest) (pre : ReferencePreprocessingResult)
    (passes : List BlockingPassPolicy) : Prop :=
  ∀ job ∈ jobs pre passes, ∀ job' ∈ jobs pre passes,
    digest.short (partitionPayload (blockingReason job.1) job.2) =
      digest.short (partitionPayload (blockingReason job'.1) job'.2) →
    partitionPayload (blockingReason job.1) job.2 = partitionPayload (blockingReason job'.1) job'.2

theorem partitionId_short {reason reason' : String} {key key' : Key} :
    partitionId digest reason key = partitionId digest reason' key' ↔
      digest.short (partitionPayload reason key) = digest.short (partitionPayload reason' key') := by
  constructor
  · intro h
    have hlist := congrArg String.toList h
    simp only [partitionId, String.toList_append] at hlist
    exact String.toList_injective (List.append_cancel_left hlist)
  · intro h
    rw [partitionId, partitionId, h]

theorem partitionsApart_iff {passes : List BlockingPassPolicy} (hpasses : passes.Nodup) :
    PartitionsApart digest pre passes ↔
      ReasonsApart pre passes ∧ HashesApart digest pre passes := by
  constructor
  · intro h
    constructor
    · intro pass hp pass' hp' hreason hne key hk hk'
      have hj : (pass, key) ∈ jobs pre passes := mem_jobs.mpr ⟨hp, hk⟩
      have hj' : (pass', key) ∈ jobs pre passes := mem_jobs.mpr ⟨hp', hk'⟩
      have heq := List.inj_on_of_nodup_map h hj hj' (by simp [hreason])
      exact hne (Prod.mk.inj heq).1
    · intro job hj job' hj' hshort
      rw [List.inj_on_of_nodup_map h hj hj' (partitionId_short.mpr hshort)]
  · intro h
    obtain ⟨hreasons, hhashes⟩ := h
    refine (jobs_nodup hpasses).map_on ?_
    intro job hj job' hj' he
    obtain ⟨hreason, hkey⟩ :=
      partitionPayload_inj (hhashes job hj job' hj' (partitionId_short.mp he))
    obtain ⟨hp, hk⟩ := mem_jobs.mp hj
    obtain ⟨hp', hk'⟩ := mem_jobs.mp hj'
    by_contra hne
    have hpass : job.1 ≠ job'.1 := fun hpass => hne (Prod.ext hpass hkey)
    exact hreasons _ hp _ hp' hreason hpass _ hk (hkey ▸ hk')

/-- Generation returns bounded candidates exactly when no two partitions run
together: passes with one text share no key, and different partitions have
different hashes. What it returns is bounded in any case. -/
theorem generate_bounded_iff (digest : Digest)
    (hmade : ∃ raw, ReferencePreprocessingResult.create raw = .ok pre)
    (hwindows : WindowsStay pre policy.blockingPasses) :
    ((∃ g, generateCandidates digest pre policy = .ok g ∧ Bounded pre policy g) ↔
      ReasonsApart pre policy.blockingPasses ∧ HashesApart digest pre policy.blockingPasses) ∧
      ∀ g, generateCandidates digest pre policy = .ok g → Bounded pre policy g := by
  have hd := created_distinct hmade
  have hall : ∀ g, generateCandidates digest pre policy = .ok g → Bounded pre policy g := by
    intro g hg
    rw [((generate_ok hd).mp hg).2.2]
    exact generated_bounded
  refine ⟨?_, hall⟩
  rw [← partitionsApart_iff (passes_nodup policy)]
  constructor
  · intro h
    obtain ⟨g, hg, -⟩ := h
    exact ((generate_ok hd).mp hg).2.1
  · intro h
    have hg := (generate_ok hd).mpr ⟨@windowsDefined_stay digest pre policy hwindows, h, rfl⟩
    exact ⟨_, hg, hall _ hg⟩

end Returns

/-- What is left of the sample snapshot. -/
def openSample : ReferencePreprocessingResult :=
  ⟨["L1"], ["R1"], [], [], (sampleSnapshot noon).left, (sampleSnapshot noon).right, [], []⟩

theorem generate_bounded_sample : ∃ g,
    generateCandidates checksum openSample (samplePolicy sampleLimits) = .ok g ∧
      Bounded openSample (samplePolicy sampleLimits) g := by
  refine (generate_bounded_iff checksum ⟨openSample, rfl⟩ ?_).1.mpr ⟨?_, ?_⟩
  · decide
  · decide
  · intro job hj job' hj' _
    have hall : ∀ job ∈ jobs openSample (samplePolicy sampleLimits).blockingPasses,
        job = (samplePass, (some "ACME", none, none, none)) := by decide
    rw [hall job hj, hall job' hj']

def venuePass : BlockingPassPolicy :=
  { samplePass with
    passId := "venue"
    version := "one@two"
    passId_text := by decide
    version_text := by decide }

def venueOnePass : BlockingPassPolicy :=
  { samplePass with
    passId := "venue@one"
    version := "two"
    passId_text := by decide
    version_text := by decide }

/-- Two passes whose texts run together. -/
def venuePolicy : MatchingPolicy :=
  { samplePolicy sampleLimits with
    blockingPasses := [venuePass, venueOnePass]
    passes_nonempty := by simp
    passes_sorted := by decide
    passes_unique := by decide }

/-- The two passes give one identity to two partitions, and generation raises. -/
theorem passes_run_together : (∃ raw, ReferencePreprocessingResult.create raw = .ok openSample) ∧
    WindowsStay openSample venuePolicy.blockingPasses ∧
    generateCandidates checksum openSample venuePolicy =
      .error (.domainValidation "candidate partition identities must be unique") :=
  ⟨⟨openSample, rfl⟩, by decide, by decide +kernel⟩

end Workbench.Blocking
