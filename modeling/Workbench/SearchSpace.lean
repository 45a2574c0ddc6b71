import Workbench.Candidates

/-!
# What the search keeps

The search in unbounded time never fails: a window is then an interval of
integers. The search of the code agrees with it exactly when every window it
reaches can be represented. What the unbounded search keeps is described by
compatibility of records: nothing incompatible, and everything compatible
that no cap cut off.
-/

set_option autoImplicit false

namespace Workbench.SearchSpace
open Workbench.Listing Workbench.Calendar Workbench.Raising Workbench.Records
open Workbench.Evidence Workbench.References Workbench.Candidates Workbench.Json

def inWindow (window : Duration) (left right : MatchRecord) : Bool :=
  match left.executedAt, right.executedAt with
  | some t, some u => (t.val : ℤ)-window.microseconds ≤ u.val ∧ (u.val : ℤ) ≤ t.val+window.microseconds
  | _, _ => false

def near (pass : BlockingPassPolicy) (rights : List MatchRecord) (left : MatchRecord) :
    List MatchRecord :=
  match pass.timeWindow with
  | none => rights
  | some window => rights.filter (inWindow window left)

def WindowDefined (pass : BlockingPassPolicy) (left : MatchRecord) : Prop :=
  ∀ window ∈ pass.timeWindow, ∀ t ∈ left.executedAt,
    InRange t.val (-window.microseconds) ∧ InRange t.val window.microseconds

instance (pass : BlockingPassPolicy) (left : MatchRecord) : Decidable (WindowDefined pass left) :=
  inferInstanceAs (Decidable (∀ window ∈ pass.timeWindow, ∀ t ∈ left.executedAt, _))

theorem blockingKey_time {pass : BlockingPassPolicy} {r : MatchRecord} {key : Key}
    (h : blockingKey pass r = some key) (hw : pass.timeWindow.isSome = true) :
    ∃ t, r.executedAt = some t := by
  unfold blockingKey at h
  split_ifs at h with h1
  all_goals
    rw [not_and] at h1
    exact Option.ne_none_iff_exists'.mp (h1 hw)

theorem mem_group {pass : BlockingPassPolicy} {records : List MatchRecord} {key : Key}
    {r : MatchRecord} :
    r ∈ group pass records key ↔ r ∈ records ∧ blockingKey pass r = some key := by
  simp [group]

def timeOf (r : MatchRecord) : Instant := r.executedAt.getD 0

theorem requiredTime_eq {r : MatchRecord} (h : ∃ t, r.executedAt = some t) :
    requiredTime r = .ok (timeOf r) := by
  obtain ⟨t, ht⟩ := h
  simp [requiredTime, timeOf, ht]

theorem group_times {pass : BlockingPassPolicy} (records : List MatchRecord) (key : Key)
    (hw : pass.timeWindow.isSome = true) :
    (∀ r ∈ group pass records key, ∃ t, r.executedAt = some t) ∧
      (group pass records key).Pairwise fun a b => timeOf a ≤ timeOf b := by
  have htimes : ∀ r ∈ group pass records key, ∃ t, r.executedAt = some t := fun r hr =>
    blockingKey_time (mem_group.mp hr).2 hw
  refine ⟨htimes, ?_⟩
  have hsorted := sortOn_pairwise (groupOrder pass) (records.filter (blockingKey pass · = some key))
  refine hsorted.imp_of_mem ?_
  intro a b ha hb hab
  obtain ⟨t, ht⟩ := htimes a ha
  obtain ⟨u, hu⟩ := htimes b hb
  have hle := Prod.Lex.monotone_fst _ _ hab
  simp only [groupOrder, hw, ofLex_toLex, ht, hu] at hle
  have htu : t ≤ u := WithBot.coe_le_coe.mp hle
  simpa [timeOf, ht, hu] using htu

/-- The slice of the code is the window in unbounded time, and it is reached
exactly when the window is representable. -/
theorem span_ok {pass : BlockingPassPolicy} {records : List MatchRecord} {key : Key}
    {left : MatchRecord} (hleft : blockingKey pass left = some key) {x : List MatchRecord} :
    span pass (group pass records key) left = .ok x ↔
      WindowDefined pass left ∧ x = near pass (group pass records key) left := by
  cases hw : pass.timeWindow with
  | none => simp [span, near, WindowDefined, hw, eq_comm]
  | some window =>
    have hsome : pass.timeWindow.isSome = true := by simp [hw]
    obtain ⟨htimes, hsorted⟩ := group_times records key hsome
    obtain ⟨t, ht⟩ := blockingKey_time hleft hsome
    have hpos : 0 < window.microseconds := pass.timeWindow_pos window (by simp [hw])
    have hmap : (group pass records key).mapM requiredTime =
        .ok ((group pass records key).map timeOf) :=
      mapM_total fun r hr => requiredTime_eq (htimes r hr)
    have htime : requiredTime left = .ok t := by simp [requiredTime, ht]
    have hslice : ∀ low high : Instant, (low.val : ℤ) = t.val+-window.microseconds →
        (high.val : ℤ) = t.val+window.microseconds →
        ((group pass records key).drop (bisectLeft ((group pass records key).map timeOf) low)).take
          (bisectRight ((group pass records key).map timeOf) high-
            bisectLeft ((group pass records key).map timeOf) low) =
          (group pass records key).filter (inWindow window left) := by
      intro low high hlow hhigh
      have hle : low ≤ high := by
        rw [Fin.le_def]
        omega
      have hs := slice_eq_filter timeOf hsorted hle
      simp only [bisectLeft, bisectRight, List.takeWhile_map, List.length_map]
      refine hs.trans (List.filter_congr fun r hr => ?_)
      obtain ⟨u, hu⟩ := htimes r hr
      simp only [inWindow, ht, hu, timeOf, Option.getD_some, Fin.le_def]
      congr 1
      apply propext
      omega
    simp only [span, hw, hmap, htime, near]
    simp only [bind_ok, Except.ok.injEq, exists_eq_left', fetch_ok, pure_ok]
    constructor
    · rintro ⟨low, hlow, high, hhigh, hx⟩
      refine ⟨?_, ?_⟩
      · intro w hw' u hu
        rw [hw, Option.mem_some_iff] at hw'
        rw [ht, Option.mem_some_iff] at hu
        subst hw' hu
        exact ⟨shift_isSome.mp ⟨low, hlow⟩, shift_isSome.mp ⟨high, hhigh⟩⟩
      · rw [← hx]
        exact hslice low high (shift_some.mp hlow) (shift_some.mp hhigh)
    · rintro ⟨hdef, hx⟩
      obtain ⟨h1, h2⟩ := hdef window (by simp [hw]) t (by simp [ht])
      obtain ⟨low, hlow⟩ := shift_isSome.mpr h1
      obtain ⟨high, hhigh⟩ := shift_isSome.mpr h2
      refine ⟨low, hlow, high, hhigh, ?_⟩
      rw [hx]
      exact hslice low high (shift_some.mp hlow) (shift_some.mp hhigh)

abbrev Job := BlockingPassPolicy × Key

def jobs (pre : ReferencePreprocessingResult) (passes : List BlockingPassPolicy) : List Job :=
  passes.flatMap fun pass =>
    (sharedKeys pass pre.remainingLeft pre.remainingRight).map fun key => (pass, key)

def sweepLefts (prohibited : List Edge) (limits : CapacityLimits) (pass : BlockingPassPolicy)
    (rights : List MatchRecord) : List MatchRecord → Search → Partition → Search × Partition
  | [], st, p => (st, p)
  | left::rest, st, p =>
    let out := enumerateRights prohibited limits (blockingReason pass) left.observationId
      (near pass rights left) st p
    if out.2.2 then (out.1, out.2.1)
    else sweepLefts prohibited limits pass rights rest out.1 out.2.1

def LeftsDefined (prohibited : List Edge) (limits : CapacityLimits) (pass : BlockingPassPolicy)
    (rights : List MatchRecord) : List MatchRecord → Search → Partition → Prop
  | [], _, _ => True
  | left::rest, st, p =>
    WindowDefined pass left ∧
      ((enumerateRights prohibited limits (blockingReason pass) left.observationId
          (near pass rights left) st p).2.2 = false →
        LeftsDefined prohibited limits pass rights rest
          (enumerateRights prohibited limits (blockingReason pass) left.observationId
            (near pass rights left) st p).1
          (enumerateRights prohibited limits (blockingReason pass) left.observationId
            (near pass rights left) st p).2.1)

def decideLefts (prohibited : List Edge) (limits : CapacityLimits) (pass : BlockingPassPolicy)
    (rights : List MatchRecord) : ∀ (lefts : List MatchRecord) (st : Search) (p : Partition),
    Decidable (LeftsDefined prohibited limits pass rights lefts st p)
  | [], _, _ => isTrue trivial
  | left::rest, st, p => by
    have := decideLefts prohibited limits pass rights rest
      (enumerateRights prohibited limits (blockingReason pass) left.observationId
        (near pass rights left) st p).1
      (enumerateRights prohibited limits (blockingReason pass) left.observationId
        (near pass rights left) st p).2.1
    unfold LeftsDefined
    exact inferInstance

instance (prohibited : List Edge) (limits : CapacityLimits) (pass : BlockingPassPolicy)
    (rights lefts : List MatchRecord) (st : Search) (p : Partition) :
    Decidable (LeftsDefined prohibited limits pass rights lefts st p) :=
  decideLefts prohibited limits pass rights lefts st p

theorem enumerateLefts_ok {prohibited : List Edge} {limits : CapacityLimits}
    {pass : BlockingPassPolicy} {records : List MatchRecord} {key : Key}
    {lefts : List MatchRecord} (hlefts : ∀ l ∈ lefts, blockingKey pass l = some key)
    {st : Search} {p : Partition} {x : Search × Partition} :
    enumerateLefts prohibited limits pass (group pass records key) lefts st p = .ok x ↔
      LeftsDefined prohibited limits pass (group pass records key) lefts st p ∧
      x = sweepLefts prohibited limits pass (group pass records key) lefts st p := by
  induction lefts generalizing st p with
  | nil => simp [enumerateLefts, LeftsDefined, sweepLefts, eq_comm]
  | cons left rest ih =>
    have hrest := @ih (fun l hl => hlefts l (by simp [hl]))
    simp only [enumerateLefts, LeftsDefined, sweepLefts, bind_ok,
      span_ok (hlefts left (by simp))]
    generalize hout : enumerateRights prohibited limits (blockingReason pass) left.observationId
      (near pass (group pass records key) left) st p = out
    obtain ⟨st', p', stop⟩ := out
    cases stop with
    | true =>
      constructor
      · rintro ⟨a, ⟨hdef, rfl⟩, hx⟩
        rw [hout] at hx
        simp only [if_true, Except.ok.injEq] at hx
        simp [hdef, hx]
      · rintro ⟨⟨hdef, -⟩, rfl⟩
        refine ⟨_, ⟨hdef, rfl⟩, ?_⟩
        rw [hout]
        simp
    | false =>
      constructor
      · rintro ⟨a, ⟨hdef, rfl⟩, hx⟩
        rw [hout] at hx
        simp only [Bool.false_eq_true, if_false, hrest] at hx
        simp [hdef, hx.1, hx.2]
      · rintro ⟨⟨hdef, hd⟩, hx⟩
        refine ⟨_, ⟨hdef, rfl⟩, ?_⟩
        rw [hout]
        simp only [Bool.false_eq_true, if_false, hrest]
        exact ⟨hd rfl, by simpa using hx⟩

section Sweep
variable (digest : Digest) (pre : ReferencePreprocessingResult) (limits : CapacityLimits)

def jobPartition (job : Job) : Partition :=
  freshPartition digest job.1 job.2 (group job.1 pre.remainingLeft job.2)
    (group job.1 pre.remainingRight job.2)

def sweepJob (acc : Search × List Partition) (job : Job) : Search × List Partition :=
  if acc.1.runLimited then
    (acc.1, acc.2 ++ [(jobPartition digest pre job).limited .runEdgeLimit])
  else
    let out := sweepLefts (prohibitedEdges pre) limits job.1
      (group job.1 pre.remainingRight job.2) (group job.1 pre.remainingLeft job.2) acc.1
      (jobPartition digest pre job)
    (out.1, acc.2 ++ [out.2])

def JobDefined (acc : Search × List Partition) (job : Job) : Prop :=
  acc.1.runLimited = false →
    LeftsDefined (prohibitedEdges pre) limits job.1 (group job.1 pre.remainingRight job.2)
      (group job.1 pre.remainingLeft job.2) acc.1 (jobPartition digest pre job)

instance (acc : Search × List Partition) (job : Job) :
    Decidable (JobDefined digest pre limits acc job) :=
  inferInstanceAs (Decidable (_ → _))

def JobsDefined : List Job → Search × List Partition → Prop
  | [], _ => True
  | job::rest, acc =>
    JobDefined digest pre limits acc job ∧ JobsDefined rest (sweepJob digest pre limits acc job)

def decideJobs : ∀ (l : List Job) (acc : Search × List Partition),
    Decidable (JobsDefined digest pre limits l acc)
  | [], _ => isTrue trivial
  | job::rest, acc => by
    have := decideJobs rest (sweepJob digest pre limits acc job)
    unfold JobsDefined
    exact inferInstance

instance (l : List Job) (acc : Search × List Partition) :
    Decidable (JobsDefined digest pre limits l acc) := decideJobs digest pre limits l acc

def sweep (l : List Job) (acc : Search × List Partition) : Search × List Partition :=
  l.foldl (sweepJob digest pre limits) acc

variable {digest pre limits}

theorem searchPartition_ok {pass : BlockingPassPolicy} {acc x : Search × List Partition}
    {key : Key} :
    searchPartition digest pre limits pass acc key = .ok x ↔
      JobDefined digest pre limits acc (pass, key) ∧
      x = sweepJob digest pre limits acc (pass, key) := by
  unfold searchPartition JobDefined sweepJob jobPartition
  by_cases hrun : acc.1.runLimited = true
  · simp [hrun, eq_comm]
  · simp only [hrun, if_false, Bool.false_eq_true, bind_ok, pure_ok]
    simp only [enumerateLefts_ok fun l hl => (mem_group.mp hl).2]
    simp only [Bool.not_eq_true] at hrun
    simp only [forall_true_left]
    constructor
    · rintro ⟨a, ⟨hd, rfl⟩, hx⟩
      exact ⟨hd, hx.symm⟩
    · rintro ⟨hd, rfl⟩
      exact ⟨_, ⟨hd, rfl⟩, rfl⟩

theorem sweep_append (l m : List Job) (acc : Search × List Partition) :
    sweep digest pre limits (l ++ m) acc =
      sweep digest pre limits m (sweep digest pre limits l acc) := List.foldl_append

theorem jobsDefined_append (l m : List Job) (acc : Search × List Partition) :
    JobsDefined digest pre limits (l ++ m) acc ↔
      JobsDefined digest pre limits l acc ∧
      JobsDefined digest pre limits m (sweep digest pre limits l acc) := by
  induction l generalizing acc with
  | nil => simp [JobsDefined, sweep]
  | cons job l ih =>
    simp only [List.cons_append, JobsDefined, ih, sweep, List.foldl_cons, and_assoc]

theorem searchPass_ok {pass : BlockingPassPolicy} {keys : List Key}
    {acc x : Search × List Partition} :
    keys.foldlM (searchPartition digest pre limits pass) acc = .ok x ↔
      JobsDefined digest pre limits (keys.map fun key => (pass, key)) acc ∧
      x = sweep digest pre limits (keys.map fun key => (pass, key)) acc := by
  induction keys generalizing acc with
  | nil =>
    simp only [List.foldlM_nil, pure_ok, List.map_nil, JobsDefined, sweep, List.foldl_nil, true_and]
    exact eq_comm
  | cons key keys ih =>
    simp only [List.foldlM_cons, bind_ok, searchPartition_ok, List.map_cons, JobsDefined, sweep,
      List.foldl_cons]
    constructor
    · rintro ⟨a, ⟨hd, rfl⟩, hx⟩
      obtain ⟨hds, rfl⟩ := ih.mp hx
      exact ⟨⟨hd, hds⟩, rfl⟩
    · rintro ⟨⟨hd, hds⟩, rfl⟩
      exact ⟨_, ⟨hd, rfl⟩, ih.mpr ⟨hds, rfl⟩⟩

theorem searchPasses_ok {passes : List BlockingPassPolicy} {acc x : Search × List Partition} :
    passes.foldlM (searchPass digest pre limits) acc = .ok x ↔
      JobsDefined digest pre limits (jobs pre passes) acc ∧
      x = sweep digest pre limits (jobs pre passes) acc := by
  induction passes generalizing acc with
  | nil =>
    simp only [List.foldlM_nil, pure_ok, jobs, List.flatMap_nil, JobsDefined, sweep,
      List.foldl_nil, true_and]
    exact eq_comm
  | cons pass passes ih =>
    have hjobs : jobs pre (pass::passes) =
        (sharedKeys pass pre.remainingLeft pre.remainingRight).map (fun key => (pass, key)) ++
          jobs pre passes := by
      simp [jobs]
    simp only [List.foldlM_cons, bind_ok, searchPass, searchPass_ok, hjobs, jobsDefined_append,
      sweep_append]
    constructor
    · rintro ⟨a, ⟨hd, rfl⟩, hx⟩
      obtain ⟨hds, rfl⟩ := ih.mp hx
      exact ⟨⟨hd, hds⟩, rfl⟩
    · rintro ⟨⟨hd, hds⟩, rfl⟩
      exact ⟨_, ⟨hd, rfl⟩, ih.mpr ⟨hds, rfl⟩⟩

end Sweep

def WindowsDefined (digest : Digest) (pre : ReferencePreprocessingResult)
    (policy : MatchingPolicy) : Prop :=
  JobsDefined digest pre policy.limits (jobs pre policy.blockingPasses) (Search.start, [])

instance (digest : Digest) (pre : ReferencePreprocessingResult) (policy : MatchingPolicy) :
    Decidable (WindowsDefined digest pre policy) :=
  inferInstanceAs (Decidable (JobsDefined _ _ _ _ _))

def swept (digest : Digest) (pre : ReferencePreprocessingResult) (policy : MatchingPolicy) :
    Search × List Partition :=
  sweep digest pre policy.limits (jobs pre policy.blockingPasses) (Search.start, [])

theorem search_ok {digest : Digest} {pre : ReferencePreprocessingResult}
    {policy : MatchingPolicy} {x : Search × List Partition} :
    search digest pre policy = .ok x ↔
      WindowsDefined digest pre policy ∧ x = swept digest pre policy := searchPasses_ok

/-- The windows a search reaches depend on the remaining records and the
prohibited relationships only. -/
theorem windows_congr {digest : Digest} {pre pre' : ReferencePreprocessingResult}
    (hleft : pre.remainingLeft = pre'.remainingLeft)
    (hright : pre.remainingRight = pre'.remainingRight)
    (hprohibited : pre.prohibitedRelationships = pre'.prohibitedRelationships)
    (policy : MatchingPolicy) :
    WindowsDefined digest pre policy ↔ WindowsDefined digest pre' policy := by
  have hstep : sweepJob digest pre policy.limits = sweepJob digest pre' policy.limits := by
    funext acc job
    simp only [sweepJob, jobPartition, prohibitedEdges, hleft, hright, hprohibited]
  have hjob : ∀ acc job, JobDefined digest pre policy.limits acc job ↔
      JobDefined digest pre' policy.limits acc job := by
    intro acc job
    simp only [JobDefined, jobPartition, prohibitedEdges, hleft, hright, hprohibited]
  have hjobs : ∀ l acc, JobsDefined digest pre policy.limits l acc ↔
      JobsDefined digest pre' policy.limits l acc := by
    intro l
    induction l with
    | nil => exact fun _ => Iff.rfl
    | cons job l ih =>
      intro acc
      simp only [JobsDefined, hjob, hstep, ih]
  rw [WindowsDefined, WindowsDefined, hjobs]
  simp only [jobs, hleft, hright]

def keysOf (st : Search) : List Edge := st.edges.map Prod.fst

/-- Some pass puts both records in one group, inside its window. -/
def Compatible (pass : BlockingPassPolicy) (l r : MatchRecord) : Prop :=
  ∃ key, blockingKey pass l = some key ∧ blockingKey pass r = some key ∧
    ∀ window ∈ pass.timeWindow, inWindow window l r = true

def CompatibleEdge (pre : ReferencePreprocessingResult) (passes : List BlockingPassPolicy)
    (e : Edge) : Prop :=
  ∃ pass ∈ passes, ∃ l ∈ pre.remainingLeft, ∃ r ∈ pre.remainingRight,
    e = (l.observationId, r.observationId) ∧ Compatible pass l r

theorem mem_near {pass : BlockingPassPolicy} {rights : List MatchRecord} {l r : MatchRecord} :
    r ∈ near pass rights l ↔
      r ∈ rights ∧ ∀ window ∈ pass.timeWindow, inWindow window l r = true := by
  unfold near
  cases pass.timeWindow <;> simp

structure Kept (pre : ReferencePreprocessingResult) (passes : List BlockingPassPolicy)
    (limits : CapacityLimits) (st : Search) : Prop where
  nodup : (keysOf st).Nodup
  allowed : ∀ e ∈ keysOf st, e ∉ prohibitedEdges pre
  compatible : ∀ e ∈ keysOf st, CompatibleEdge pre passes e
  reasons : ∀ x ∈ st.edges, x.2 ≠ [] ∧ ∀ s ∈ x.2, ∃ pass ∈ passes, s = blockingReason pass
  leftDegree : ∀ i, st.leftDegree i = (keysOf st).countP (·.1 = i)
  rightDegree : ∀ i, st.rightDegree i = (keysOf st).countP (·.2 = i)
  left_le : ∀ i, st.leftDegree i ≤ limits.maxCandidatesPerRecord
  right_le : ∀ i, st.rightDegree i ≤ limits.maxCandidatesPerRecord
  run_le : st.edges.length ≤ limits.maxRunCandidateEdges

section Keeping
variable {pre : ReferencePreprocessingResult} {passes : List BlockingPassPolicy}
  {limits : CapacityLimits} {st : Search}

@[simp] theorem keys_addReason (e : Edge) (reason : String) :
    keysOf (st.addReason e reason) = keysOf st := by
  simp only [keysOf, Search.addReason, List.map_map]
  refine List.map_congr_left fun x _ => ?_
  simp only [Function.comp_apply]
  split_ifs <;> rfl

@[simp] theorem keys_addEdge (e : Edge) (reason : String) :
    keysOf (st.addEdge e reason) = keysOf st ++ [e] := by
  simp [keysOf, Search.addEdge]

theorem Kept.addReason (h : Kept pre passes limits st) (e : Edge) {pass : BlockingPassPolicy}
    (hp : pass ∈ passes) : Kept pre passes limits (st.addReason e (blockingReason pass)) := by
  refine ⟨by simpa using h.nodup, by simpa using h.allowed, by simpa using h.compatible, ?_,
    fun i => by rw [keys_addReason]; exact h.leftDegree i,
    fun i => by rw [keys_addReason]; exact h.rightDegree i, h.left_le, h.right_le,
    by simpa [Search.addReason] using h.run_le⟩
  intro x hx
  obtain ⟨y, hy, rfl⟩ := List.mem_map.mp hx
  obtain ⟨h1, h2⟩ := h.reasons y hy
  split_ifs
  · refine ⟨by simp, fun s hs => ?_⟩
    rcases List.mem_append.mp hs with hs | hs
    · exact h2 s hs
    · exact ⟨pass, hp, List.mem_singleton.mp hs⟩
  · exact ⟨h1, h2⟩

theorem Kept.addEdge (h : Kept pre passes limits st) {e : Edge} {pass : BlockingPassPolicy}
    (hp : pass ∈ passes) (hnew : e ∉ keysOf st) (hallowed : e ∉ prohibitedEdges pre)
    (hc : CompatibleEdge pre passes e) (hl : st.leftDegree e.1 < limits.maxCandidatesPerRecord)
    (hr : st.rightDegree e.2 < limits.maxCandidatesPerRecord)
    (hrun : st.edges.length < limits.maxRunCandidateEdges) :
    Kept pre passes limits (st.addEdge e (blockingReason pass)) := by
  have hcount : ∀ (f : Edge → String) (i : String),
      (keysOf st ++ [e]).countP (f · = i) =
        Function.update (fun i => (keysOf st).countP (f · = i)) (f e)
          ((keysOf st).countP (f · = f e)+1) i := by
    intro f i
    by_cases hi : i = f e
    · subst hi
      simp [List.countP_append]
    · simp [List.countP_append, hi, Ne.symm hi]
  have hbound : ∀ (deg : String → ℕ) (i : String), (∀ j, deg j ≤ limits.maxCandidatesPerRecord) →
      deg i < limits.maxCandidatesPerRecord →
      ∀ j, Function.update deg i (deg i+1) j ≤ limits.maxCandidatesPerRecord := by
    intro deg i hall hi j
    rw [Function.update_apply]
    split_ifs
    · omega
    · exact hall j
  refine ⟨?_, ?_, ?_, ?_, ?_, ?_, hbound _ _ h.left_le hl, hbound _ _ h.right_le hr, ?_⟩
  · rw [keys_addEdge]
    exact List.nodup_append.mpr ⟨h.nodup, by simp, by
      intro a ha b hb
      rw [List.mem_singleton.mp hb]
      rintro rfl
      exact hnew ha⟩
  · intro f hf
    rw [keys_addEdge, List.mem_append, List.mem_singleton] at hf
    rcases hf with hf | rfl
    · exact h.allowed f hf
    · exact hallowed
  · intro f hf
    rw [keys_addEdge, List.mem_append, List.mem_singleton] at hf
    rcases hf with hf | rfl
    · exact h.compatible f hf
    · exact hc
  · intro x hx
    rcases List.mem_append.mp hx with hx | hx
    · exact h.reasons x hx
    · rw [List.mem_singleton.mp hx]
      exact ⟨by simp, fun s hs => ⟨pass, hp, List.mem_singleton.mp hs⟩⟩
  · intro i
    have hfun : st.leftDegree = fun i => (keysOf st).countP (·.1 = i) := funext h.leftDegree
    rw [keys_addEdge, hcount Prod.fst i, ← hfun]
    simp [Search.addEdge, h.leftDegree]
  · intro i
    have hfun : st.rightDegree = fun i => (keysOf st).countP (·.2 = i) :=
      funext h.rightDegree
    rw [keys_addEdge, hcount Prod.snd i, ← hfun]
    simp [Search.addEdge, h.rightDegree]
  · simp only [Search.addEdge, List.length_append, List.length_singleton]
    omega

end Keeping

def Roomy (pre : ReferencePreprocessingResult) (passes : List BlockingPassPolicy)
    (limits : CapacityLimits) : Prop :=
  ∀ edges : List Edge, edges.Nodup →
    (∀ e ∈ edges, CompatibleEdge pre passes e ∧ e ∉ prohibitedEdges pre) →
    (∀ i, edges.countP (·.1 = i) ≤ limits.maxCandidatesPerRecord) ∧
    (∀ i, edges.countP (·.2 = i) ≤ limits.maxCandidatesPerRecord) ∧
    edges.length ≤ limits.maxRunCandidateEdges

structure Ample (pre : ReferencePreprocessingResult) (limits : CapacityLimits) : Prop where
  left : pre.remainingLeft.length ≤ limits.maxCandidatesPerRecord
  right : pre.remainingRight.length ≤ limits.maxCandidatesPerRecord
  run : pre.remainingLeft.length*pre.remainingRight.length ≤ limits.maxRunCandidateEdges

def shape (p : Partition) : String × String × List String × List String :=
  (p.partitionId, p.blockingPass, p.leftIds, p.rightIds)

section Steps
variable {pre : ReferencePreprocessingResult} {passes : List BlockingPassPolicy}
  {limits : CapacityLimits} {pass : BlockingPassPolicy}

theorem CompatibleEdge.left_mem {e : Edge} (h : CompatibleEdge pre passes e) :
    e.1 ∈ ids pre.remainingLeft := by
  obtain ⟨_, _, l, hl, r, -, rfl, -⟩ := h
  exact List.mem_map_of_mem hl

theorem CompatibleEdge.right_mem {e : Edge} (h : CompatibleEdge pre passes e) :
    e.2 ∈ ids pre.remainingRight := by
  obtain ⟨_, _, l, -, r, hr, rfl, -⟩ := h
  exact List.mem_map_of_mem hr

theorem Ample.roomy (ha : Ample pre limits) : Roomy pre passes limits := by
  intro edges hnd hall
  have hleft := ha.left
  have hright := ha.right
  have hrun := ha.run
  refine ⟨fun i => ?_, fun i => ?_, ?_⟩
  · have hnodup : ((edges.filter (·.1 = i)).map Prod.snd).Nodup := by
      refine (hnd.filter _).map_on ?_
      intro x hx y hy hxy
      have h1 := of_decide_eq_true (List.mem_filter.mp hx).2
      have h2 := of_decide_eq_true (List.mem_filter.mp hy).2
      exact Prod.ext (h1.trans h2.symm) hxy
    have hsub : (edges.filter (·.1 = i)).map Prod.snd ⊆ ids pre.remainingRight := by
      intro j hj
      obtain ⟨f, hf, rfl⟩ := List.mem_map.mp hj
      exact (hall f (List.mem_filter.mp hf).1).1.right_mem
    have hle := (List.subperm_of_subset hnodup hsub).length_le
    simp only [List.length_map, ids, ← List.countP_eq_length_filter] at hle
    omega
  · have hnodup : ((edges.filter (·.2 = i)).map Prod.fst).Nodup := by
      refine (hnd.filter _).map_on ?_
      intro x hx y hy hxy
      have h1 := of_decide_eq_true (List.mem_filter.mp hx).2
      have h2 := of_decide_eq_true (List.mem_filter.mp hy).2
      exact Prod.ext hxy (h1.trans h2.symm)
    have hsub : (edges.filter (·.2 = i)).map Prod.fst ⊆ ids pre.remainingLeft := by
      intro j hj
      obtain ⟨f, hf, rfl⟩ := List.mem_map.mp hj
      exact (hall f (List.mem_filter.mp hf).1).1.left_mem
    have hle := (List.subperm_of_subset hnodup hsub).length_le
    simp only [List.length_map, ids, ← List.countP_eq_length_filter] at hle
    omega
  · have hsub : edges ⊆ ids pre.remainingLeft ×ˢ ids pre.remainingRight := by
      intro f hf
      exact List.mem_product.mpr ⟨(hall f hf).1.left_mem, (hall f hf).1.right_mem⟩
    have hle := (List.subperm_of_subset hnd hsub).length_le
    simp only [List.length_product, ids, List.length_map] at hle
    omega

theorem Roomy.fits (ha : Roomy pre passes limits) {st : Search} (h : Kept pre passes limits st)
    {e : Edge} (hnew : e ∉ keysOf st) (hc : CompatibleEdge pre passes e)
    (hno : e ∉ prohibitedEdges pre) :
    st.leftDegree e.1 < limits.maxCandidatesPerRecord ∧
      st.rightDegree e.2 < limits.maxCandidatesPerRecord ∧
      st.edges.length < limits.maxRunCandidateEdges := by
  obtain ⟨h1, h2, h3⟩ := ha (e::keysOf st) (List.nodup_cons.mpr ⟨hnew, h.nodup⟩) (by
    intro f hf
    rcases List.mem_cons.mp hf with rfl | hf
    · exact ⟨hc, hno⟩
    · exact ⟨h.compatible f hf, h.allowed f hf⟩)
  have hl := h1 e.1
  have hr := h2 e.2
  rw [h.leftDegree, h.rightDegree]
  simp only [decide_true, List.countP_cons_of_pos, List.length_cons, keysOf, List.length_map]
    at hl hr h3 ⊢
  omega

theorem Kept.roomy {st : Search} (h : Kept pre passes limits st)
    (hall : ∀ e, CompatibleEdge pre passes e → e ∉ prohibitedEdges pre → e ∈ keysOf st) :
    Roomy pre passes limits := by
  intro edges hnd hedges
  have hsub : List.Subperm edges (keysOf st) :=
    List.subperm_of_subset hnd fun e he => hall e (hedges e he).1 (hedges e he).2
  refine ⟨fun i => ?_, fun i => ?_, ?_⟩
  · exact (hsub.countP_le _).trans ((h.leftDegree i).symm.le.trans (h.left_le i))
  · exact (hsub.countP_le _).trans ((h.rightDegree i).symm.le.trans (h.right_le i))
  · have hle := hsub.length_le
    have hrun := h.run_le
    simp only [keysOf, List.length_map] at hle
    omega

/-- One left record against its candidates: what is kept, and what is known
when no cap ended it. -/
theorem enumerateRights_spec (hp : pass ∈ passes) {l : MatchRecord} {rights : List MatchRecord}
    (hrights : ∀ r ∈ rights, CompatibleEdge pre passes (l.observationId, r.observationId))
    {st : Search} (h : Kept pre passes limits st) (p : Partition) :
    ∃ st' p' stop, enumerateRights (prohibitedEdges pre) limits (blockingReason pass)
        l.observationId rights st p = (st', p', stop) ∧
      Kept pre passes limits st' ∧ keysOf st ⊆ keysOf st' ∧ shape p' = shape p ∧
      (stop = true → p'.limitReason ≠ none) ∧
      (stop = false → p'.limitReason = p.limitReason ∧ st'.runLimited = st.runLimited ∧
        ∀ r ∈ rights, (l.observationId, r.observationId) ∉ prohibitedEdges pre →
          (l.observationId, r.observationId) ∈ keysOf st') ∧
      (Roomy pre passes limits → stop = false) := by
  induction rights generalizing st p with
  | nil => exact ⟨st, p, false, rfl, h, fun _ => id, rfl, by simp, by simp, by simp⟩
  | cons r rest ih =>
    have hrest := @ih fun q hq => hrights q (by simp [hq])
    unfold enumerateRights
    split_ifs with h1 h2 h3 h4
    · obtain ⟨st', p', stop, he, hk, hsub, hshape, hstop, hgo, ha⟩ := hrest h p
      refine ⟨st', p', stop, he, hk, hsub, hshape, hstop, ?_, ha⟩
      intro hs
      obtain ⟨hl, hr, hall⟩ := hgo hs
      refine ⟨hl, hr, fun q hq hno => ?_⟩
      rcases List.mem_cons.mp hq with rfl | hq
      · exact absurd h1 hno
      · exact hall q hq hno
    · obtain ⟨st', p', stop, he, hk, hsub, hshape, hstop, hgo, ha⟩ :=
        hrest (h.addReason (l.observationId, r.observationId) hp) p.counted
      rw [keys_addReason] at hsub
      refine ⟨st', p', stop, he, hk, hsub, hshape, hstop, ?_, ha⟩
      intro hs
      obtain ⟨hl, hr, hall⟩ := hgo hs
      refine ⟨hl, hr, fun q hq hno => ?_⟩
      rcases List.mem_cons.mp hq with rfl | hq
      · exact hsub h2
      · exact hall q hq hno
    · refine ⟨st, p.limited .perRecordLimit, true, rfl, h, fun _ => id, rfl, by simp [Partition.limited],
        by simp, fun ha => ?_⟩
      obtain ⟨hl, hr, -⟩ := ha.fits h h2 (hrights r (by simp)) h1
      rcases h3 with h3 | h3
      · exact absurd h3 (not_le.mpr hl)
      · exact absurd h3 (not_le.mpr hr)
    · refine ⟨{ st with runLimited := true }, p.limited .runEdgeLimit, true, rfl,
        ⟨h.nodup, h.allowed, h.compatible, h.reasons, h.leftDegree, h.rightDegree, h.left_le,
          h.right_le, h.run_le⟩,
        fun _ => id, rfl, by simp [Partition.limited], by simp, fun ha => ?_⟩
      obtain ⟨-, -, hlen⟩ := ha.fits h h2 (hrights r (by simp)) h1
      exact absurd h4 (not_le.mpr hlen)
    · obtain ⟨st', p', stop, he, hk, hsub, hshape, hstop, hgo, ha⟩ :=
        hrest (h.addEdge hp h2 h1 (hrights r (by simp)) (not_le.mp (not_or.mp h3).1)
          (not_le.mp (not_or.mp h3).2) (not_le.mp h4)) p.counted
      rw [keys_addEdge] at hsub
      refine ⟨st', p', stop, he, hk, fun e he => hsub (List.mem_append_left _ he), hshape,
        hstop, ?_, ha⟩
      intro hs
      obtain ⟨hl, hr, hall⟩ := hgo hs
      refine ⟨hl, hr, fun q hq hno => ?_⟩
      rcases List.mem_cons.mp hq with rfl | hq
      · exact hsub (by simp)
      · exact hall q hq hno

/-- Nothing allowed is missing between a list of left records and the
right records of their group. -/
def Covered (pre : ReferencePreprocessingResult) (pass : BlockingPassPolicy)
    (rights lefts : List MatchRecord) (st : Search) : Prop :=
  ∀ l ∈ lefts, ∀ r ∈ near pass rights l,
    (l.observationId, r.observationId) ∉ prohibitedEdges pre →
      (l.observationId, r.observationId) ∈ keysOf st

theorem sweepLefts_spec (limits : CapacityLimits) (hp : pass ∈ passes) {lefts rights : List MatchRecord}
    (hall : ∀ l ∈ lefts, ∀ r ∈ near pass rights l,
      CompatibleEdge pre passes (l.observationId, r.observationId))
    {st : Search} (h : Kept pre passes limits st) (p : Partition) (hfresh : p.limitReason = none) :
    ∃ st' p', sweepLefts (prohibitedEdges pre) limits pass rights lefts st p = (st', p') ∧
      Kept pre passes limits st' ∧ keysOf st ⊆ keysOf st' ∧ shape p' = shape p ∧
      (p'.limitReason = none → Covered pre pass rights lefts st' ∧
        st'.runLimited = st.runLimited) ∧
      (Roomy pre passes limits → p'.limitReason = none) := by
  induction lefts generalizing st p with
  | nil =>
    exact ⟨st, p, rfl, h, fun _ => id, rfl, fun _ => ⟨fun l hl => by simp at hl, rfl⟩,
      fun _ => hfresh⟩
  | cons l rest ih =>
    obtain ⟨st₁, p₁, stop, he, hk, hsub, hshape, hstop, hgo, ha⟩ :=
      enumerateRights_spec hp (hall l (by simp)) h p
    have hunfold : sweepLefts (prohibitedEdges pre) limits pass rights (l::rest) st p =
        if stop then (st₁, p₁)
        else sweepLefts (prohibitedEdges pre) limits pass rights rest st₁ p₁ := by
      rw [sweepLefts, he]
    rw [hunfold]
    cases stop with
    | true =>
      have hne := hstop rfl
      exact ⟨st₁, p₁, by simp, hk, hsub, hshape, fun hn => absurd hn hne,
        fun hamp => absurd (ha hamp) (by simp)⟩
    | false =>
      obtain ⟨hl, hr, hcov⟩ := hgo rfl
      obtain ⟨st₂, p₂, he₂, hk₂, hsub₂, hshape₂, hcov₂, ha₂⟩ :=
        ih (fun q hq => hall q (by simp [hq])) hk p₁ (hl.trans hfresh)
      refine ⟨st₂, p₂, by simpa using he₂, hk₂, fun e hin => hsub₂ (hsub hin),
        hshape₂.trans hshape, fun hn => ?_, ha₂⟩
      obtain ⟨hc, hrun⟩ := hcov₂ hn
      refine ⟨fun q hq r hnear hno => ?_, hrun.trans hr⟩
      rcases List.mem_cons.mp hq with rfl | hq
      · exact hsub₂ (hcov r hnear hno)
      · exact hc q hq r hnear hno

/-- Jobs done so far: what is kept, which partitions there are, and that a
partition without a limit misses nothing. -/
structure Swept (digest : Digest) (pre : ReferencePreprocessingResult)
    (passes : List BlockingPassPolicy) (limits : CapacityLimits) (done : List Job)
    (acc : Search × List Partition) : Prop where
  kept : Kept pre passes limits acc.1
  shapes : acc.2.map shape = done.map fun job => shape (jobPartition digest pre job)
  covered : ∀ job ∈ done, ∃ p ∈ acc.2, shape p = shape (jobPartition digest pre job) ∧
    (p.limitReason = none → Covered pre job.1 (group job.1 pre.remainingRight job.2)
      (group job.1 pre.remainingLeft job.2) acc.1)

theorem mem_jobs {job : Job} :
    job ∈ jobs pre passes ↔
      job.1 ∈ passes ∧ job.2 ∈ sharedKeys job.1 pre.remainingLeft pre.remainingRight := by
  obtain ⟨pass', key⟩ := job
  simp only [jobs, List.mem_flatMap, List.mem_map, Prod.mk.injEq]
  constructor
  · rintro ⟨a, ha, k, hk, rfl, rfl⟩
    exact ⟨ha, hk⟩
  · rintro ⟨ha, hk⟩
    exact ⟨pass', ha, key, hk, rfl, rfl⟩

theorem mem_sharedKeys {left right : List MatchRecord} {key : Key} :
    key ∈ sharedKeys pass left right ↔
      (∃ l ∈ left, blockingKey pass l = some key) ∧ ∃ r ∈ right, blockingKey pass r = some key := by
  simp [sharedKeys, List.mem_filterMap]

theorem group_compatible (hp : pass ∈ passes) (key : Key) :
    ∀ l ∈ group pass pre.remainingLeft key,
      ∀ r ∈ near pass (group pass pre.remainingRight key) l,
        CompatibleEdge pre passes (l.observationId, r.observationId) := by
  intro l hl r hr
  obtain ⟨hl1, hl2⟩ := mem_group.mp hl
  obtain ⟨hr1, hr2⟩ := mem_near.mp hr
  obtain ⟨hr3, hr4⟩ := mem_group.mp hr1
  exact ⟨pass, hp, l, hl1, r, hr3, rfl, key, hl2, hr4, hr2⟩

theorem sweepJob_spec {digest : Digest} {done : List Job} {acc : Search × List Partition}
    (h : Swept digest pre passes limits done acc) {job : Job} (hj : job.1 ∈ passes) :
    Swept digest pre passes limits (done ++ [job]) (sweepJob digest pre limits acc job) ∧
      (Roomy pre passes limits → acc.1.runLimited = false → (∀ p ∈ acc.2, p.limitReason = none) →
        (sweepJob digest pre limits acc job).1.runLimited = false ∧
        ∀ p ∈ (sweepJob digest pre limits acc job).2, p.limitReason = none) := by
  by_cases hrun : acc.1.runLimited = true
  · have heq : sweepJob digest pre limits acc job =
        (acc.1, acc.2 ++ [(jobPartition digest pre job).limited .runEdgeLimit]) := by
      simp [sweepJob, hrun]
    rw [heq]
    refine ⟨⟨h.kept, ?_, ?_⟩, fun _ hno => absurd hrun (by simp [hno])⟩
    · simp only [List.map_append, h.shapes]
      rfl
    · intro job' hj'
      rcases List.mem_append.mp hj' with hj' | hj'
      · obtain ⟨p, hp, hs, hc⟩ := h.covered job' hj'
        exact ⟨p, List.mem_append_left _ hp, hs, hc⟩
      · rw [List.mem_singleton.mp hj']
        refine ⟨(jobPartition digest pre job).limited .runEdgeLimit,
          List.mem_append_right _ (by simp), rfl, fun hn => ?_⟩
        simp [Partition.limited] at hn
  · obtain ⟨st', p', he, hk, hsub, hshape, hcov, ha⟩ :=
      sweepLefts_spec limits hj (group_compatible hj job.2) h.kept
        (jobPartition digest pre job) rfl
    have heq : sweepJob digest pre limits acc job = (st', acc.2 ++ [p']) := by
      simp [sweepJob, hrun, he]
    rw [heq]
    refine ⟨⟨hk, ?_, ?_⟩, fun hamp hno hall => ?_⟩
    · simp [h.shapes, hshape]
    · intro job' hj'
      rcases List.mem_append.mp hj' with hj' | hj'
      · obtain ⟨p, hp, hs, hc⟩ := h.covered job' hj'
        refine ⟨p, List.mem_append_left _ hp, hs, fun hn l hl r hr hno => ?_⟩
        exact hsub (hc hn l hl r hr hno)
      · rw [List.mem_singleton.mp hj']
        exact ⟨p', List.mem_append_right _ (by simp), hshape, fun hn => (hcov hn).1⟩
    · have hnone := ha hamp
      refine ⟨(hcov hnone).2.trans hno, fun p hp => ?_⟩
      rcases List.mem_append.mp hp with hp | hp
      · exact hall p hp
      · rw [List.mem_singleton.mp hp]
        exact hnone

theorem sweep_spec {digest : Digest} {rest : List Job} (hrest : ∀ job ∈ rest, job.1 ∈ passes)
    {done : List Job} {acc : Search × List Partition} (h : Swept digest pre passes limits done acc) :
    Swept digest pre passes limits (done ++ rest) (sweep digest pre limits rest acc) ∧
      (Roomy pre passes limits → acc.1.runLimited = false → (∀ p ∈ acc.2, p.limitReason = none) →
        ∀ p ∈ (sweep digest pre limits rest acc).2, p.limitReason = none) := by
  induction rest generalizing done acc with
  | nil => exact ⟨by simpa [sweep] using h, fun _ _ hall => hall⟩
  | cons job rest ih =>
    obtain ⟨hstep, hamp⟩ := sweepJob_spec h (hrest job (by simp))
    obtain ⟨hs, ha⟩ := ih (fun j hj => hrest j (by simp [hj])) hstep
    refine ⟨by simpa [sweep] using hs, fun hample hrun hall => ?_⟩
    obtain ⟨h1, h2⟩ := hamp hample hrun hall
    exact ha hample h1 h2

end Steps

theorem kept_start (pre : ReferencePreprocessingResult) (passes : List BlockingPassPolicy)
    (limits : CapacityLimits) : Kept pre passes limits Search.start := by
  constructor <;> simp [keysOf, Search.start]

theorem swept_spec (digest : Digest) (pre : ReferencePreprocessingResult)
    (policy : MatchingPolicy) :
    Swept digest pre policy.blockingPasses policy.limits (jobs pre policy.blockingPasses)
        (swept digest pre policy) ∧
      (Roomy pre policy.blockingPasses policy.limits → ∀ p ∈ (swept digest pre policy).2, p.limitReason = none) := by
  have hstart : Swept digest pre policy.blockingPasses policy.limits []
      (Search.start, []) :=
    ⟨kept_start pre policy.blockingPasses policy.limits, rfl, fun job hj => by simp at hj⟩
  have hjobs : ∀ job ∈ jobs pre policy.blockingPasses, job.1 ∈ policy.blockingPasses :=
    fun job hj => (mem_jobs.mp hj).1
  obtain ⟨h1, h2⟩ := sweep_spec hjobs hstart
  rw [List.nil_append] at h1
  exact ⟨h1, fun ha => h2 ha rfl (by simp)⟩

end Workbench.SearchSpace
