import Workbench.DecisionStore
import Workbench.PublicationRuns

/-!
# Policies of a book

A request for a policy makes a new revision of the book, or returns the
revision that has its content. A run freezes the latest revision. Between the
two the services work on the scopes of the book in any order.
-/

set_option autoImplicit false

namespace Workbench.Policies
open Workbench.Listing Workbench.Tables Workbench.Calendar Workbench.Json Workbench.Records
open Workbench.Ingestion Workbench.Runs Workbench.Publications Workbench.PublicationFrames
open Workbench.PublicationRuns
open Workbench.Raising (bind_ok map_ok demand fetch demand_ok fetch_ok)

def textOf (name : String) (fields : List (String × Value)) : Option String :=
  match lookup Prod.fst fields name with
  | some (_, .text s) => some s
  | _ => none

/-- The two payloads, with their entries in the order of the keys, and what a
manifest reads of the matching policy. -/
structure PolicyRequest where
  matchingPolicy : List (String × Value)
  comparisonPolicy : List (String × Value)
  engineVersion : String
  solverVersion : String
  referenceContract : ReferenceContract
  engine_read : textOf "engine_version" matchingPolicy = some engineVersion
  solver_read : textOf "solver_version" matchingPolicy = some solverVersion
  contract_read : textOf "reference_contract" matchingPolicy = some (ReferenceContract.value referenceContract)

inductive PolicyFailure where
  | policyUnavailable
  | generationConflict
  | domainValidation
deriving DecidableEq

def policyRevisionDigest (sha : Sha256) (request : PolicyRequest) : Option String :=
  if request.matchingPolicy = [] ∨ request.comparisonPolicy = [] then none
  else some (sha.hexdigest (digestBytes "policy-revision" (.object
    [("comparison_policy", .object request.comparisonPolicy),
      ("matching_policy", .object request.matchingPolicy)])))

section Revisions
variable (workspace book : ℕ)

def policiesOf (s : Store) : List PolicyRevision :=
  s.policies.filter fun p => p.workspace = workspace && p.book = book

def latestRevision (s : Store) : ℕ :=
  ((policiesOf workspace book s).map (·.revision)).foldr max 0

def policyOf (revision : ℕ) (digest : String) (request : PolicyRequest) (s : Store) :
    PolicyRevision :=
  ⟨s.policies.length, workspace, book, revision, digest, request.engineVersion,
    request.solverVersion, request.referenceContract⟩

def raiseGeneration (s : Store) : List BookData :=
  revise BookData.id book (fun b => { b with generation := b.generation+1 }) s.books

def dirtied (p : Decisions.Scope → Bool) (scopes : List Decisions.Scope) : List Decisions.Scope :=
  scopes.map fun x => if p x then { x with isDirty := true, generation := x.generation+1 } else x

def addPolicy (p : PolicyRevision) (dirties : Decisions.Scope → Bool) (s : Store) : Store :=
  { s with
    policies := s.policies ++ [p]
    books := raiseGeneration book s
    review := { s.review with scopes := dirtied dirties s.review.scopes } }

/-- `create_revision`. -/
def createRevision (sha : Sha256) (expectedGeneration : ℤ) (request : PolicyRequest) (s : Store) :
    Except PolicyFailure (Store × PolicyRevision) := do
  demand (0 ≤ expectedGeneration) .generationConflict
  let digest ← fetch .domainValidation (policyRevisionDigest sha request)
  let _ ← fetch .policyUnavailable
    (s.review.books.find? fun b => b.id = book && b.workspace = workspace)
  let data ← fetch .policyUnavailable (lookup BookData.id s.books book)
  demand (data.generation = expectedGeneration) .generationConflict
  match (policiesOf workspace book s).find? fun p => p.digest = digest with
  | some existing => .ok (s, existing)
  | none =>
    let p := policyOf workspace book (latestRevision workspace book s+1) digest request s
    .ok (addPolicy book p (fun x => x.workspace = workspace && x.book = book) s, p)

/-- The first policy of a book, made by `ensure_run_context` with its scope. -/
def ensurePolicy (sha : Sha256) (scope : ℕ) (initial : PolicyRequest) (s : Store) :
    Except PolicyFailure Store :=
  match latestPolicy workspace book s with
  | some _ => .ok s
  | none => do
    let digest ← fetch .domainValidation (policyRevisionDigest sha initial)
    .ok (addPolicy book (policyOf workspace book 1 digest initial s) (fun x => x.id = scope) s)

end Revisions

structure Unshown (s t : Store) : Prop where
  policies : t.policies = s.policies
  shown : ∀ c ∈ t.scopes, ∀ run, c.currentRun = some run →
    ∃ old ∈ s.scopes, old.id = c.id ∧ old.currentRun = some run
  clean : ∀ x ∈ t.review.scopes, x.isDirty = false → ∃ old ∈ s.review.scopes,
    old.id = x.id ∧ old.workspace = x.workspace ∧ old.book = x.book ∧ old.isDirty = false
  ids : (t.review.scopes.map (·.id)).Nodup

/-- What the transactions have in common that neither make a policy nor work on
a run. -/
structure Others (s t : Store) : Prop extends Unshown s t where
  runs : t.runs = s.runs

inductive Step (sha : Sha256) (digest : Digest) : Option (ℕ × ℕ) → Store → Store → Prop
  | requested {s t : Store} {workspace book : ℕ} {expectedGeneration : ℤ}
      {request : PolicyRequest} {p : PolicyRevision}
      (h : createRevision workspace book sha expectedGeneration request s = .ok (t, p)) :
      Step sha digest (some (workspace, book)) s t
  | prepared {s t : Store} {workspace book scope : ℕ} {initial : PolicyRequest}
      (h : ensurePolicy workspace book sha scope initial s = .ok t) : Step sha digest none s t
  | created {s t : Store} {workspace scope : ℕ} {now : Instant} {r : Run}
      (h : createRunManifest workspace scope now s = .ok (t, r)) : Step sha digest none s t
  | claimed {s t : Store} {workspace run : ℕ} {token : Option ℕ}
      (h : claimRun workspace run token s = .ok t) : Step sha digest none s t
  | failed {s t : Store} {workspace run : ℕ} {token : Option ℕ} {code : String}
      (h : failRun workspace run token code s = .ok t) : Step sha digest none s t
  | published {s t : Store} {workspace run : ℕ} {p : Publication}
      (h : publishRun sha digest workspace run p s = .ok t) : Step sha digest none s t
  | other {s t : Store} (h : Others s t) : Step sha digest none s t

def Reachable (sha : Sha256) (digest : Digest) (s : Store) : Prop :=
  Relation.ReflTransGen (fun s t => ∃ label, Step sha digest label s t) Store.empty s

def Later (sha : Sha256) (digest : Digest) (workspace book : ℕ) : Store → Store → Prop :=
  Relation.ReflTransGen fun s t => ∃ label, label ≠ some (workspace, book) ∧
    Step sha digest label s t

def Superseded (sha : Sha256) (workspace book : ℕ) (request : PolicyRequest) (s : Store) : Prop :=
  ∃ old ∈ policiesOf workspace book s, policyRevisionDigest sha request = some old.digest ∧
    latestPolicy workspace book s ≠ some old

/-- The revision that a request returned is the one that runs freeze exactly
when the request did not return to a superseded policy. -/
def FreezesReturned (sha : Sha256) (digest : Digest) (s : Store) : Prop :=
  ∀ workspace book expectedGeneration request t p,
    createRevision workspace book sha expectedGeneration request s = .ok (t, p) →
    ∀ u, Later sha digest workspace book t u →
      ∀ scope locked, lockScope workspace scope u = .ok locked → locked.book.id = book →
        ∀ now v r, createRunManifest workspace scope now u = .ok (v, r) →
          (r.manifest.policyRevision = p.id ↔ ¬ Superseded sha workspace book request s)

/-- A scope whose current run used another policy than the latest is dirty. -/
def DirtyUnlessLatest (s : Store) : Prop :=
  ∀ c ∈ s.scopes, ∀ x ∈ s.review.scopes, x.id = c.id → ∀ r ∈ s.runs, c.currentRun = some r.id →
    (latestPolicy x.workspace x.book s).map (·.id) ≠ some r.manifest.policyRevision →
    x.isDirty = true

variable {sha : Sha256} {digest : Digest} {s t u : Store} {workspace book : ℕ}

theorem le_latestRevision {p : PolicyRevision} (hp : p ∈ policiesOf workspace book s) :
    p.revision ≤ latestRevision workspace book s := by
  unfold latestRevision
  generalize policiesOf workspace book s = l at hp
  induction l with
  | nil => cases hp
  | cons q l ih =>
    rw [List.map_cons, List.foldr_cons]
    rcases List.mem_cons.mp hp with rfl | hp
    · exact le_max_left _ _
    · exact (ih hp).trans (le_max_right _ _)

theorem mem_policiesOf {p : PolicyRevision} : p ∈ policiesOf workspace book s ↔
    p ∈ s.policies ∧ p.workspace = workspace ∧ p.book = book := by
  simp [policiesOf]

theorem policiesOf_append {news : List PolicyRevision} (h : t.policies = s.policies ++ news)
    (hnews : ∀ p ∈ news, ¬(p.workspace = workspace ∧ p.book = book)) :
    policiesOf workspace book t = policiesOf workspace book s := by
  have hnone : policiesOf workspace book { s with policies := news } = [] := by
    apply List.filter_eq_nil_iff.mpr
    intro p hp hq
    simp only [Bool.and_eq_true, decide_eq_true_eq] at hq
    exact hnews p hp hq
  unfold policiesOf at hnone ⊢
  rw [h, List.filter_append, hnone, List.append_nil]

theorem latestPolicy_congr (h : policiesOf workspace book t = policiesOf workspace book s) :
    latestPolicy workspace book t = latestPolicy workspace book s :=
  congrArg (List.argmax fun p : PolicyRevision => toLex (p.revision, p.id)) h

theorem latestPolicy_mem {p : PolicyRevision} (h : latestPolicy workspace book s = some p) :
    p ∈ policiesOf workspace book s := List.argmax_mem h

theorem latestPolicy_new {p : PolicyRevision} (h : t.policies = s.policies ++ [p])
    (hw : p.workspace = workspace) (hb : p.book = book)
    (hp : ∀ q ∈ policiesOf workspace book s, q.revision < p.revision) :
    latestPolicy workspace book t = some p := by
  have hof : policiesOf workspace book t = policiesOf workspace book s ++ [p] := by
    unfold policiesOf
    rw [h, List.filter_append, List.filter_singleton]
    simp [hw, hb]
  show (policiesOf workspace book t).argmax _ = some p
  rw [hof, List.argmax_concat]
  cases hq : (policiesOf workspace book s).argmax fun p => toLex (p.revision, p.id) with
  | none => rfl
  | some q =>
    have hlt := hp q (List.argmax_mem hq)
    show (if _ then some p else some q) = some p
    exact if_pos (Prod.Lex.toLex_lt_toLex.mpr (.inl hlt))

theorem createRevision_ok {expectedGeneration : ℤ} {request : PolicyRequest} {p : PolicyRevision}
    (h : createRevision workspace book sha expectedGeneration request s = .ok (t, p)) :
    policyRevisionDigest sha request = some p.digest ∧
      (t = s ∧ p ∈ policiesOf workspace book s ∨
        (∀ q ∈ policiesOf workspace book s, q.digest ≠ p.digest) ∧
          p = policyOf workspace book (latestRevision workspace book s+1) p.digest request s ∧
          t = addPolicy book p (fun x => x.workspace = workspace && x.book = book) s) := by
  simp only [createRevision, bind_ok, demand_ok, fetch_ok] at h
  obtain ⟨_, _, d, hd, _, _, _, _, _, _, h⟩ := h
  cases hf : (policiesOf workspace book s).find? fun p => p.digest = d with
  | some existing =>
    rw [hf] at h
    obtain ⟨rfl, rfl⟩ := Prod.mk.inj (Except.ok.inj h)
    have hdigest : existing.digest = d := by simpa using List.find?_some hf
    exact ⟨hdigest ▸ hd, .inl ⟨rfl, List.mem_of_find?_eq_some hf⟩⟩
  | none =>
    rw [hf] at h
    obtain ⟨rfl, rfl⟩ := Prod.mk.inj (Except.ok.inj h)
    refine ⟨hd, .inr ⟨?_, rfl, rfl⟩⟩
    intro q hq he
    exact List.find?_eq_none.mp hf q hq (decide_eq_true he)

theorem ensurePolicy_ok {scope : ℕ} {initial : PolicyRequest}
    (h : ensurePolicy workspace book sha scope initial s = .ok t) :
    t = s ∨ latestPolicy workspace book s = none ∧ ∃ d,
      t = addPolicy book (policyOf workspace book 1 d initial s) (fun x => x.id = scope) s := by
  unfold ensurePolicy at h
  cases hl : latestPolicy workspace book s with
  | some p =>
    rw [hl] at h
    exact .inl (Except.ok.inj h).symm
  | none =>
    rw [hl] at h
    simp only [bind_ok, fetch_ok] at h
    obtain ⟨d, _, h⟩ := h
    exact .inr ⟨rfl, d, (Except.ok.inj h).symm⟩

theorem createRunManifest_ok {scope : ℕ} {now : Instant} {r : Run}
    (h : createRunManifest workspace scope now s = .ok (t, r)) :
    ∃ locked p, lockScope workspace scope s = .ok locked ∧
      latestPolicy workspace locked.book.id s = some p ∧ r.manifest.policyRevision = p.id ∧
      (t = s ∨ t = { s with runs := s.runs ++ [r] } ∧ r.id = s.runs.length) := by
  simp only [createRunManifest, bind_ok] at h
  obtain ⟨_, _, locked, hl, m, hm, h⟩ := h
  simp only [manifestOf, bind_ok, fetch_ok] at hm
  obtain ⟨_, _, _, _, p, hp, hm⟩ := hm
  have hpolicy : m.policyRevision = p.id := by rw [← Except.ok.inj hm]
  refine ⟨locked, p, hl, hp, ?_⟩
  split at h
  · rename_i existing hf
    obtain ⟨rfl, rfl⟩ := Prod.mk.inj (Except.ok.inj h)
    have hsame := List.find?_some hf
    simp only [Bool.and_eq_true, decide_eq_true_eq] at hsame
    exact ⟨hsame.2 ▸ hpolicy, .inl rfl⟩
  · simp only [bind_ok, demand_ok] at h
    obtain ⟨_, _, _, _, _, _, _, _, h⟩ := h
    obtain ⟨rfl, rfl⟩ := Prod.mk.inj (Except.ok.inj h)
    exact ⟨hpolicy, .inr ⟨rfl, rfl⟩⟩

theorem claimRun_ok {run : ℕ} {token : Option ℕ} (h : claimRun workspace run token s = .ok t) :
    t = { s with runs := revise Run.id run (Run.claimed token) s.runs } := by
  simp only [claimRun, bind_ok, demand_ok] at h
  obtain ⟨_, _, _, _, h⟩ := h
  exact (updateRun_ok h).2

theorem failRun_ok {run : ℕ} {token : Option ℕ} {code : String}
    (h : failRun workspace run token code s = .ok t) :
    t = s ∨ t = { s with runs := revise Run.id run (Run.failedWith code) s.runs } := by
  unfold failRun at h
  split at h
  · split at h
    · exact .inr (updateRun_ok h).2
    · exact .inl (Except.ok.inj h).symm
  · exact .inl (Except.ok.inj h).symm

/-- The tables that a manifest is made from, the decisions and the generations
apart. -/
def inputTables (s : Store) : List PolicyRevision × List Dataset × List DatasetRevision :=
  (s.policies, s.datasets, s.revisions)

theorem publishRun_inputs {run : ℕ} {p : Publication}
    (h : publishRun sha digest workspace run p s = .ok t) : inputTables t = inputTables s := by
  simp only [publishRun, bind_ok, fetch_ok, demand_ok] at h
  obtain ⟨_, _, r, hr, locked, hl, _, _, _, _, _, _, policy, _, a, ha, b, hb, c, hc, d, hd, _, _,
    he⟩ := h
  have hresult : inputTables a = inputTables s := (congrArg inputTables (persistResult_frame ha) :)
  have hhealth : inputTables b = inputTables a := by
    simp only [persistDecisionHealth, bind_ok] at hb
    obtain ⟨v, hv, hb⟩ := hb
    obtain ⟨news, rfl, _⟩ := snapshots_ok hv
    split at hb
    · rw [← Except.ok.inj hb]
      rfl
    · rw [← Except.ok.inj hb]
      rfl
  have hfound : ∀ {findings : List Finding} {v : Store},
      insertEach (recordFinding r) findings b = .ok v → inputTables v = inputTables b :=
    fun hv => (congrArg inputTables (recordFindings_frame hv) :)
  have hcases : inputTables c = inputTables b := by
    cases hfresh : isFresh locked r s with
    | false =>
      rw [hfresh] at hc
      obtain ⟨_, _, hf⟩ := materialize_stale hc
      exact hfound hf
    | true =>
      rw [hfresh] at hc
      obtain ⟨_, v, rows, _, hf, _, rfl⟩ := materialize_current hc
      show inputTables v = inputTables b
      exact hfound hf
  obtain ⟨_, rfl⟩ := updateRun_ok hd
  rw [← Except.ok.inj he, ← hresult, ← hhealth, ← hcases]
  split
  · rfl
  · rfl

theorem publishRun_policies {run : ℕ} {p : Publication}
    (h : publishRun sha digest workspace run p s = .ok t) : t.policies = s.policies :=
  (Prod.mk.inj (publishRun_inputs h)).1

theorem dirtied_ids (p : Decisions.Scope → Bool) (scopes : List Decisions.Scope) :
    (dirtied p scopes).map (·.id) = scopes.map (·.id) := by
  unfold dirtied
  rw [List.map_map]
  apply List.map_congr_left
  intro x _
  by_cases hx : p x = true <;> simp [hx]

theorem dirtied_clean {p : Decisions.Scope → Bool} {scopes : List Decisions.Scope}
    {x : Decisions.Scope} (hx : x ∈ dirtied p scopes) (hc : x.isDirty = false) :
    x ∈ scopes ∧ p x = false := by
  obtain ⟨y, hy, rfl⟩ := List.mem_map.mp hx
  by_cases hp : p y = true
  · simp [hp] at hc
  · simp only [hp]
    exact ⟨hy, by simpa using hp⟩

/-- What a step changes that makes a policy: for the book of its label, or the
first of a book. -/
structure Made (label : Option (ℕ × ℕ)) (s t : Store) (p : PolicyRevision) : Prop where
  policies : t.policies = s.policies ++ [p]
  id : p.id = s.policies.length
  newest : ∀ q ∈ policiesOf p.workspace p.book s, q.revision < p.revision
  new : ∀ q ∈ policiesOf p.workspace p.book s, q.digest ≠ p.digest
  asked : label = some (p.workspace, p.book) ∨ latestPolicy p.workspace p.book s = none
  runs : t.runs = s.runs
  scopes : t.scopes = s.scopes
  clean : ∀ x ∈ t.review.scopes, x.isDirty = false → x ∈ s.review.scopes ∧
    (x.workspace = p.workspace → x.book = p.book → latestPolicy p.workspace p.book s = none)
  ids : t.review.scopes.map (·.id) = s.review.scopes.map (·.id)

theorem requested_made {expectedGeneration : ℤ} {request : PolicyRequest} {p : PolicyRevision}
    (h : createRevision workspace book sha expectedGeneration request s = .ok (t, p)) :
    t = s ∨ Made (some (workspace, book)) s t p := by
  obtain ⟨_, ⟨rfl, _⟩ | ⟨hnew, hp, rfl⟩⟩ := createRevision_ok h
  · exact .inl rfl
  · have hw : p.workspace = workspace := by rw [hp]; rfl
    have hb : p.book = book := by rw [hp]; rfl
    have hrevision : p.revision = latestRevision workspace book s+1 := by rw [hp]; rfl
    right
    refine ⟨rfl, by rw [hp]; rfl, ?_, ?_, .inl (by rw [hw, hb]), rfl, rfl, ?_, dirtied_ids _ _⟩
    · intro q hq
      rw [hw, hb] at hq
      exact hrevision ▸ Nat.lt_succ_of_le (le_latestRevision hq)
    · intro q hq
      rw [hw, hb] at hq
      exact hnew q hq
    · intro x hx hc
      obtain ⟨hx, hother⟩ := dirtied_clean hx hc
      refine ⟨hx, fun hxw hxb => ?_⟩
      simp [hxw.trans hw, hxb.trans hb] at hother

theorem prepared_made {scope : ℕ} {initial : PolicyRequest}
    (h : ensurePolicy workspace book sha scope initial s = .ok t) :
    t = s ∨ ∃ p, Made none s t p := by
  rcases ensurePolicy_ok h with rfl | ⟨hnone, d, rfl⟩
  · exact .inl rfl
  · have hempty : policiesOf workspace book s = [] := List.argmax_eq_none.mp hnone
    refine .inr ⟨policyOf workspace book 1 d initial s, rfl, rfl, ?_, ?_, .inr hnone, rfl, rfl, ?_,
      dirtied_ids _ _⟩
    · intro q hq
      have hq : q ∈ policiesOf workspace book s := hq
      rw [hempty] at hq
      cases hq
    · intro q hq
      have hq : q ∈ policiesOf workspace book s := hq
      rw [hempty] at hq
      cases hq
    · intro x hx hc
      exact ⟨(dirtied_clean hx hc).1, fun _ _ => hnone⟩

/-- The runs after a step that makes no policy and shows no run: their rows
keep their manifests, and new ones are behind them. -/
structure Continued (s t : Store) : Prop extends Unshown s t where
  numbered : Numbered Run.id s.runs → Numbered Run.id t.runs
  length : s.runs.length ≤ t.runs.length
  manifests : ∀ r ∈ t.runs, r.id < s.runs.length →
    ∃ q ∈ s.runs, q.id = r.id ∧ q.manifest = r.manifest

theorem revised_continued {run : ℕ} {f : Run → Run}
    (hf : ∀ r, (f r).id = r.id ∧ (f r).manifest = r.manifest)
    (hn : (s.review.scopes.map (·.id)).Nodup) (hp : t.policies = s.policies)
    (hs : t.scopes = s.scopes) (hreview : t.review = s.review)
    (hr : t.runs = revise Run.id run f s.runs) : Continued s t where
  policies := hp
  shown := by
    intro c hc run hrun
    exact ⟨c, hs ▸ hc, rfl, hrun⟩
  clean := by
    intro x hx hc
    exact ⟨x, hreview ▸ hx, rfl, rfl, rfl, hc⟩
  ids := hreview ▸ hn
  numbered := by
    intro h
    rw [hr]
    exact h.revise (fun r => (hf r).1) run
  length := by
    rw [hr]
    unfold revise
    rw [List.length_map]
  manifests := by
    intro r h _
    rw [hr] at h
    obtain ⟨q, hq, rfl⟩ := mem_revise.mp h
    refine ⟨q, hq, ?_⟩
    split
    · exact ⟨(hf q).1.symm, (hf q).2.symm⟩
    · exact ⟨rfl, rfl⟩

theorem Others.continued (h : Others s t) : Continued s t where
  toUnshown := h.toUnshown
  numbered := fun hn => h.runs ▸ hn
  length := (congrArg List.length h.runs).ge
  manifests := fun r hr _ => ⟨r, h.runs ▸ hr, rfl, rfl⟩

theorem created_continued {scope : ℕ} {now : Instant} {r : Run}
    (hn : (s.review.scopes.map (·.id)).Nodup)
    (h : createRunManifest workspace scope now s = .ok (t, r)) : Continued s t := by
  obtain ⟨_, _, _, _, _, rfl | ⟨rfl, hid⟩⟩ := createRunManifest_ok h
  · exact Others.continued ⟨⟨rfl, fun c hc _ hr => ⟨c, hc, rfl, hr⟩,
      fun x hx hd => ⟨x, hx, rfl, rfl, rfl, hd⟩, hn⟩, rfl⟩
  · refine ⟨⟨rfl, fun c hc _ hr => ⟨c, hc, rfl, hr⟩,
      fun x hx hd => ⟨x, hx, rfl, rfl, rfl, hd⟩, hn⟩, fun hr => hr.concat hid, ?_, ?_⟩
    · show s.runs.length ≤ (s.runs ++ [r]).length
      rw [List.length_append]
      omega
    · intro q hq hlt
      rcases List.mem_append.mp hq with hq | hq
      · exact ⟨q, hq, rfl, rfl⟩
      · rw [List.mem_singleton.mp hq, hid] at hlt
        omega

structure Lawful (s : Store) : Prop where
  policies : Numbered PolicyRevision.id s.policies
  digests : ∀ p ∈ s.policies, ∀ q ∈ policiesOf p.workspace p.book s, q.digest = p.digest → q = p
  runs : Numbered Run.id s.runs
  scopeIds : (s.review.scopes.map (·.id)).Nodup
  shown : ∀ c ∈ s.scopes, ∀ run, c.currentRun = some run → run < s.runs.length
  clean : ∀ c ∈ s.scopes, ∀ x ∈ s.review.scopes, x.id = c.id → x.isDirty = false → ∀ r ∈ s.runs,
    c.currentRun = some r.id → ∃ p, latestPolicy x.workspace x.book s = some p ∧
      r.manifest.policyRevision = p.id

theorem empty_lawful : Lawful Store.empty where
  policies := rfl
  digests := by simp [Store.empty]
  runs := rfl
  scopeIds := by simp [Store.empty, Decisions.Store.empty]
  shown := by simp [Store.empty]
  clean := by simp [Store.empty]

theorem policiesOf_congr (h : t.policies = s.policies) (workspace book : ℕ) :
    policiesOf workspace book t = policiesOf workspace book s := by
  unfold policiesOf
  rw [h]

theorem Lawful.continue (h : Lawful s) (hc : Continued s t) : Lawful t where
  policies := hc.policies ▸ h.policies
  digests := by
    intro p hp q hq
    rw [policiesOf_congr hc.policies] at hq
    exact h.digests p (hc.policies ▸ hp) q hq
  runs := hc.numbered h.runs
  scopeIds := hc.ids
  shown := by
    intro c hcm run hrun
    obtain ⟨old, hold, _, hcurrent⟩ := hc.shown c hcm run hrun
    exact (h.shown old hold run hcurrent).trans_le hc.length
  clean := by
    intro c hcm x hx hid hd r hr hrun
    obtain ⟨old, hold, hcid, hcurrent⟩ := hc.shown c hcm r.id hrun
    obtain ⟨y, hy, hyid, hyw, hyb, hyd⟩ := hc.clean x hx hd
    obtain ⟨q, hq, hqid, hmanifest⟩ := hc.manifests r hr (h.shown old hold r.id hcurrent)
    obtain ⟨p, hp, hrevision⟩ := h.clean old hold y hy (hyid.trans (hid.trans hcid.symm)) hyd q hq
      (hqid ▸ hcurrent)
    refine ⟨p, ?_, hmanifest ▸ hrevision⟩
    rw [hyw, hyb] at hp
    rw [latestPolicy_congr (policiesOf_congr hc.policies _ _)]
    exact hp

theorem Lawful.make (h : Lawful s) {label : Option (ℕ × ℕ)} {p : PolicyRevision}
    (hm : Made label s t p) : Lawful t where
  policies := by
    rw [hm.policies]
    exact h.policies.concat hm.id
  digests := by
    have hof : ∀ q ∈ t.policies, q ∈ s.policies ∨ q = p := by
      intro q hq
      rw [hm.policies] at hq
      rcases List.mem_append.mp hq with hq | hq
      · exact .inl hq
      · exact .inr (List.mem_singleton.mp hq)
    intro a ha b hb hd
    obtain ⟨hb, hbw, hbb⟩ := mem_policiesOf.mp hb
    rcases hof a ha with ha | rfl
    · rcases hof b hb with hb | rfl
      · exact h.digests a ha b (mem_policiesOf.mpr ⟨hb, hbw, hbb⟩) hd
      · exact absurd hd.symm (hm.new a (mem_policiesOf.mpr ⟨ha, hbw.symm, hbb.symm⟩))
    · rcases hof b hb with hb | rfl
      · exact absurd hd (hm.new b (mem_policiesOf.mpr ⟨hb, hbw, hbb⟩))
      · rfl
  runs := hm.runs ▸ h.runs
  scopeIds := hm.ids ▸ h.scopeIds
  shown := by
    rw [hm.runs, hm.scopes]
    exact h.shown
  clean := by
    intro c hc x hx hid hd r hr hrun
    obtain ⟨hx, hnone⟩ := hm.clean x hx hd
    obtain ⟨q, hq, hrevision⟩ := h.clean c (hm.scopes ▸ hc) x hx hid hd r (hm.runs ▸ hr) hrun
    refine ⟨q, ?_, hrevision⟩
    rw [latestPolicy_congr (policiesOf_append hm.policies _)]
    · exact hq
    · intro y hy hbook
      rw [List.mem_singleton.mp hy] at hbook
      have hn := hnone hbook.1.symm hbook.2.symm
      rw [hbook.1, hbook.2, hq] at hn
      cases hn

theorem lockScope_row {scope : ℕ} {locked : LockedScope}
    (h : lockScope workspace scope s = .ok locked) :
    locked.scope ∈ s.review.scopes ∧ locked.scope.id = scope ∧
      locked.scope.workspace = workspace ∧ locked.book.id = locked.scope.book := by
  simp only [lockScope, bind_ok, fetch_ok] at h
  obtain ⟨row, hrow, data, _, b, hb, _, _, he⟩ := h
  rw [← Except.ok.inj he]
  have hr := List.find?_some hrow
  have hbook := List.find?_some hb
  simp only [Bool.and_eq_true, decide_eq_true_eq] at hr hbook
  exact ⟨List.mem_of_find?_eq_some hrow, hr.1, hr.2, hbook.1⟩

/-- The scope of a run that is current becomes clean, and its run used the
latest policy. -/
theorem Lawful.current (h : Lawful s) {r : Run} {locked : LockedScope}
    (hfresh : isFresh locked r s = true) (hr : r ∈ s.runs)
    (hl : lockScope r.workspace r.scope s = .ok locked) (hp : t.policies = s.policies)
    (hs : t.scopes =
      revise ScopeData.id r.scope (fun c => { c with currentRun := some r.id }) s.scopes)
    (hx : t.review.scopes =
      revise Decisions.Scope.id r.scope (fun c => { c with isDirty := false }) s.review.scopes)
    {f : Run → Run} (hf : ∀ r, (f r).id = r.id ∧ (f r).manifest = r.manifest)
    (hruns : t.runs = revise Run.id r.id f s.runs) : Lawful t := by
  have hlength : t.runs.length = s.runs.length := by
    rw [hruns]
    unfold revise
    rw [List.length_map]
  have hmanifest : ∀ q ∈ t.runs, ∃ old ∈ s.runs, old.id = q.id ∧ old.manifest = q.manifest := by
    intro q hq
    rw [hruns] at hq
    obtain ⟨old, hold, rfl⟩ := mem_revise.mp hq
    refine ⟨old, hold, ?_⟩
    split
    · exact ⟨(hf old).1.symm, (hf old).2.symm⟩
    · exact ⟨rfl, rfl⟩
  obtain ⟨hrow, hrowid, hroww, hbook⟩ := lockScope_row hl
  refine ⟨hp ▸ h.policies, ?_, ?_, ?_, ?_, ?_⟩
  · intro p hpm q hq hd
    rw [policiesOf_congr hp] at hq
    exact h.digests p (hp ▸ hpm) q hq hd
  · rw [hruns]
    exact h.runs.revise (fun r => (hf r).1) r.id
  · rw [hx]
    have hkeys := keys_revise (g := Decisions.Scope.id)
      (f := fun c => { c with isDirty := false }) (fun _ => rfl) r.scope s.review.scopes
    exact hkeys ▸ h.scopeIds
  · intro c hc run hrun
    rw [hs] at hc
    obtain ⟨old, hold, rfl⟩ := mem_revise.mp hc
    rw [hlength]
    by_cases hid : old.id = r.scope
    · rw [if_pos hid] at hrun
      rw [← Option.some.inj hrun]
      exact h.runs.lt hr
    · rw [if_neg hid] at hrun
      exact h.shown old hold run hrun
  · intro c hc x hxm hid hd q hq hrun
    rw [hs] at hc
    rw [hx] at hxm
    obtain ⟨c', hc', rfl⟩ := mem_revise.mp hc
    obtain ⟨y, hy, rfl⟩ := mem_revise.mp hxm
    obtain ⟨old, hold, holdid, holdm⟩ := hmanifest q hq
    rw [latestPolicy_congr (policiesOf_congr hp _ _)]
    by_cases hy' : y.id = r.scope
    · have hyrow := eq_of_key_eq Decisions.Scope.id h.scopeIds hy hrow (hy'.trans hrowid.symm)
      rw [if_pos hy'] at hid ⊢
      have hc'' : c'.id = r.scope := by
        split at hid
        · assumption
        · exact hid.symm.trans hy'
      rw [if_pos hc''] at hrun
      have he := eq_of_key_eq Run.id h.runs.nodup hold hr (holdid.trans (Option.some.inj hrun).symm)
      simp only [isFresh, Bool.and_eq_true, decide_eq_true_eq] at hfresh
      obtain ⟨p, hlatest, hrevision⟩ := Option.map_eq_some_iff.mp hfresh.1.1.1.2
      refine ⟨p, ?_, ?_⟩
      · show latestPolicy y.workspace y.book s = some p
        rw [hyrow, hroww, ← hbook]
        exact hlatest
      · rw [← holdm, he, hrevision]
    · rw [if_neg hy'] at hid hd ⊢
      have hc'' : c'.id ≠ r.scope := by
        intro hc''
        rw [if_pos hc''] at hid
        exact hy' (hid.trans hc'')
      rw [if_neg hc''] at hid hrun
      obtain ⟨p, hlatest, hrevision⟩ := h.clean c' hc' y hy hid hd old hold (holdid ▸ hrun)
      exact ⟨p, hlatest, holdm ▸ hrevision⟩

/-- A publication that is current cleans its scope, and its run used the latest
policy. -/
theorem Lawful.publish (h : Lawful s) {run : ℕ} {p : Publication}
    (ht : publishRun sha digest workspace run p s = .ok t) : Lawful t := by
  have hpolicies := publishRun_policies ht
  obtain ⟨r, locked, rows, snapshots, occurrences, hr, hl, _, hp⟩ := publishRun_ok ht
  cases hfresh : isFresh locked r s with
  | false =>
    rw [hfresh] at hp
    have hf : ∀ r, (Run.completedWith false p.resultDigest p.result p.clock r).id = r.id ∧
        (Run.completedWith false p.resultDigest p.result p.clock r).manifest = r.manifest :=
      fun _ => ⟨rfl, rfl⟩
    exact h.continue (revised_continued hf h.scopeIds hpolicies hp.scopes hp.review hp.runs)
  | true =>
    rw [hfresh] at hp
    exact h.current (f := Run.completedWith true p.resultDigest p.result p.clock) hfresh
      (runOf_some hr).1 ((runOf_some hr).2.2 ▸ hl) hpolicies hp.scopes (by rw [hp.review]; rfl)
      (fun _ => ⟨rfl, rfl⟩) hp.runs

theorem Lawful.step (h : Lawful s) {label : Option (ℕ × ℕ)} (hs : Step sha digest label s t) :
    Lawful t := by
  cases hs with
  | requested hr =>
    rcases requested_made hr with rfl | hm
    · exact h
    · exact h.make hm
  | prepared hr =>
    rcases prepared_made hr with rfl | ⟨p, hm⟩
    · exact h
    · exact h.make hm
  | created hr => exact h.continue (created_continued h.scopeIds hr)
  | claimed hr =>
    obtain rfl := claimRun_ok hr
    exact h.continue (revised_continued (f := Run.claimed _) (fun _ => ⟨rfl, rfl⟩) h.scopeIds rfl
      rfl rfl rfl)
  | failed hr =>
    rcases failRun_ok hr with rfl | rfl
    · exact h
    · exact h.continue (revised_continued (f := Run.failedWith _) (fun _ => ⟨rfl, rfl⟩) h.scopeIds
        rfl rfl rfl rfl)
  | published hr => exact h.publish hr
  | other hr => exact h.continue hr.continued

theorem reachable_lawful (h : Reachable sha digest s) : Lawful s := by
  induction h with
  | refl => exact empty_lawful
  | tail _ hs ih =>
    obtain ⟨label, hs⟩ := hs
    exact ih.step hs

/-- Only a request for a book changes the policies of a book that has one. -/
theorem step_policiesOf {label : Option (ℕ × ℕ)} (h : Step sha digest label s t)
    (hl : label ≠ some (workspace, book)) (hsome : latestPolicy workspace book s ≠ none) :
    policiesOf workspace book t = policiesOf workspace book s := by
  have hmade : ∀ {p : PolicyRevision}, Made label s t p →
      policiesOf workspace book t = policiesOf workspace book s := by
    intro p hm
    apply policiesOf_append hm.policies
    intro q hq hbook
    rw [List.mem_singleton.mp hq] at hbook
    have hasked := hm.asked
    rw [hbook.1, hbook.2] at hasked
    exact hasked.elim hl hsome
  cases h with
  | requested hr =>
    rcases requested_made hr with rfl | hm
    · rfl
    · exact hmade hm
  | prepared hr =>
    rcases prepared_made hr with rfl | ⟨p, hm⟩
    · rfl
    · exact hmade hm
  | created hr =>
    obtain ⟨_, _, _, _, _, rfl | ⟨rfl, _⟩⟩ := createRunManifest_ok hr
    · rfl
    · rfl
  | claimed hr =>
    obtain rfl := claimRun_ok hr
    rfl
  | failed hr =>
    rcases failRun_ok hr with rfl | rfl
    · rfl
    · rfl
  | published hr => exact policiesOf_congr (publishRun_policies hr) _ _
  | other hr => exact policiesOf_congr hr.policies _ _

theorem later_latest (h : Later sha digest workspace book s t) {p : PolicyRevision}
    (hp : latestPolicy workspace book s = some p) : latestPolicy workspace book t = some p := by
  induction h with
  | refl => exact hp
  | tail _ hs ih =>
    obtain ⟨label, hl, hs⟩ := hs
    rw [latestPolicy_congr (step_policiesOf hs hl (by rw [ih]; simp))]
    exact ih

/-- After a request the latest revision is the returned one, unless the request
went back to a superseded policy. -/
theorem returned_latest_iff (h : Lawful s) {expectedGeneration : ℤ} {request : PolicyRequest}
    {p : PolicyRevision}
    (hr : createRevision workspace book sha expectedGeneration request s = .ok (t, p)) :
    ∃ q, latestPolicy workspace book t = some q ∧
      (q.id = p.id ↔ ¬ Superseded sha workspace book request s) := by
  obtain ⟨hdigest, ⟨rfl, hp⟩ | ⟨hnew, hpolicy, rfl⟩⟩ := createRevision_ok hr
  · obtain ⟨hmem, hw, hb⟩ := mem_policiesOf.mp hp
    have hsome : latestPolicy workspace book t ≠ none := by
      intro hn
      have hempty : policiesOf workspace book t = [] := List.argmax_eq_none.mp hn
      rw [hempty] at hp
      cases hp
    obtain ⟨q, hq⟩ := Option.ne_none_iff_exists'.mp hsome
    refine ⟨q, hq, ?_⟩
    constructor
    · intro hid hsup
      obtain ⟨old, hold, hd, hne⟩ := hsup
      rw [hdigest, Option.some.injEq] at hd
      have he := h.digests p hmem old (by rw [hw, hb]; exact hold) hd.symm
      have hqp := eq_of_key_eq PolicyRevision.id h.policies.nodup
        (mem_policiesOf.mp (latestPolicy_mem hq)).1 hmem hid
      rw [he, hq, hqp] at hne
      exact hne rfl
    · intro hnot
      by_contra hid
      apply hnot
      refine ⟨p, hp, hdigest, ?_⟩
      rw [hq]
      intro he
      exact hid (congrArg PolicyRevision.id (Option.some.inj he))
  · refine ⟨p, latestPolicy_new rfl (by rw [hpolicy]; rfl) (by rw [hpolicy]; rfl) ?_, ?_⟩
    · intro q hq
      rw [hpolicy]
      exact Nat.lt_succ_of_le (le_latestRevision hq)
    · apply iff_of_true rfl
      intro hsup
      obtain ⟨old, hold, hd, _⟩ := hsup
      rw [hdigest, Option.some.injEq] at hd
      exact hnew old hold hd.symm

/-- In every state that requests and the other transactions of the services
reach, a request names the revision that the next run of each scope freezes,
unless it returns to a superseded policy, and a scope whose current run used
another policy than the latest is dirty. -/
theorem policies_lawful (h : Reachable sha digest s) :
    FreezesReturned sha digest s ∧ DirtyUnlessLatest s := by
  have hs := reachable_lawful h
  constructor
  · intro w b e request t p hr u hu scope locked hl hb now v r hrun
    obtain ⟨q, hq, hiff⟩ := returned_latest_iff hs hr
    obtain ⟨locked', q', hl', hq', hrevision, _⟩ := createRunManifest_ok hrun
    rw [hl, Except.ok.injEq] at hl'
    rw [← hl', hb, later_latest hu hq, Option.some.injEq] at hq'
    rw [hrevision, ← hq']
    exact hiff
  · intro c hc x hx hid r hr hrun hne
    by_contra hd
    obtain ⟨p, hp, hrevision⟩ := hs.clean c hc x hx hid (by simpa using hd) r hr hrun
    rw [hp, hrevision] at hne
    exact hne rfl

/-- Whatever makes scopes dirty and leaves policies and runs alone is one of the
other transactions: an activation, or a new generation of the book. -/
theorem dirtied_other (hn : (s.review.scopes.map (·.id)).Nodup) (hp : t.policies = s.policies)
    (hr : t.runs = s.runs) (hs : t.scopes = s.scopes) {p : Decisions.Scope → Bool}
    (hx : t.review.scopes = dirtied p s.review.scopes) : Others s t := by
  refine ⟨⟨hp, fun c hc _ hrun => ⟨c, hs ▸ hc, rfl, hrun⟩, ?_, ?_⟩, hr⟩
  · intro x hxm hd
    rw [hx] at hxm
    exact ⟨x, (dirtied_clean hxm hd).1, rfl, rfl, rfl, hd⟩
  · rw [hx, dirtied_ids]
    exact hn

theorem written_scopes {a b : Decisions.Store} {request : Decisions.Request}
    (h : DecisionStore.Written a workspace book request b) : b.scopes = a.scopes := by
  cases h <;> rfl

theorem decided_other (hn : (s.review.scopes.map (·.id)).Nodup)
    (hc : DecisionStore.Consistent s.review) {c : Decisions.Command}
    {command : Decisions.DecisionCommand}
    (hd : DecisionStore.decisionOf c = some (workspace, book, command)) {a : Decisions.Store}
    (h : Decisions.perform digest s.review c = .ok a) : Others s { s with review := a } := by
  obtain ⟨_, b, hb, rfl⟩ := DecisionStore.perform_decision hc hd h
  have hscopes : (Decisions.bump workspace book b).scopes =
      dirtied (fun x => x.workspace = workspace && x.book = book) s.review.scopes := by
    unfold Decisions.bump dirtied
    simp only [written_scopes hb, Bool.and_eq_true, decide_eq_true_eq]
  exact dirtied_other (t := { s with review := Decisions.bump workspace book b }) hn rfl rfl rfl
    hscopes

def sizeSha : Sha256 := endingIn List.length

def firstPolicy : PolicyRequest where
  matchingPolicy := [("engine_version", .text "engine"),
    ("reference_contract", .text "SHARED_MUST_AGREE"), ("solver_version", .text "solver")]
  comparisonPolicy := [("policy_version", .text "1")]
  engineVersion := "engine"
  solverVersion := "solver"
  referenceContract := .sharedMustAgree
  engine_read := by decide
  solver_read := by decide
  contract_read := by decide

def secondPolicy : PolicyRequest :=
  { firstPolicy with comparisonPolicy := [("policy_version", .text "10")] }

def prepared : Store :=
  { Store.empty with
    review := { Decisions.Store.empty with
      workspaces := [⟨1, .active, 1000, none, none, ⟨0, 1, 0⟩⟩]
      books := [⟨1, 1, 0⟩]
      scopes := [⟨0, 1, 1, true, 0⟩] }
    books := [⟨1, 0⟩]
    scopes := [⟨0, 0, 1, none⟩]
    datasets := [⟨0, 1, 1, some 0⟩, ⟨1, 1, 1, some 1⟩]
    revisions := [⟨0, 0, []⟩, ⟨1, 1, []⟩] }

theorem prepared_reachable (sha : Sha256) (digest : Digest) : Reachable sha digest prepared := by
  apply Relation.ReflTransGen.single
  refine ⟨none, .other ⟨⟨rfl, ?_, ?_, by decide⟩, rfl⟩⟩
  · intro c hc run hrun
    rw [List.mem_singleton.mp hc] at hrun
    cases hrun
  · intro x hx hd
    rw [List.mem_singleton.mp hx] at hd
    cases hd

def requested (sha : Sha256) (expectedGeneration : ℤ) (request : PolicyRequest) (s : Store) :
    Store :=
  settle s ((·.1) <$> createRevision 1 1 sha expectedGeneration request s)

theorem requested_reachable (h : Reachable sha digest s) (expectedGeneration : ℤ)
    (request : PolicyRequest) :
    Reachable sha digest (requested sha expectedGeneration request s) := by
  apply settle_keeps h
  intro t ht
  obtain ⟨⟨t, p⟩, hr, rfl⟩ := map_ok.mp ht
  exact h.tail ⟨_, .requested hr⟩

def Works : Command → Prop
  | .createRun .. => True
  | .claim .. => True
  | .publish .. => True
  | _ => False

theorem worked_reachable (h : Reachable sha digest s) {c : Command} (hc : Works c) :
    Reachable sha digest (call sha digest s c) := by
  apply settle_keeps h
  intro t ht
  cases c with
  | createRun workspace scope now =>
    obtain ⟨⟨t, r⟩, hr, rfl⟩ := map_ok.mp ht
    exact h.tail ⟨_, .created hr⟩
  | claim workspace run token => exact h.tail ⟨_, .claimed ht⟩
  | publish workspace run p => exact h.tail ⟨_, .published ht⟩
  | review => cases hc
  | inputs => cases hc
  | createScope => cases hc
  | fail => cases hc

def emptyResult : Evidence.EngineResult where
  leftRevisionId := "0"
  rightRevisionId := "1"
  matchingPolicyVersion := "1"
  comparisonPolicyVersion := "1"
  engineVersion := "engine"
  solverVersion := "solver"
  inputLeftIds := []
  inputRightIds := []
  pairs := []
  unpaired := []
  candidates := []
  components := []
  diagnostics := []

def publication (clock : Instant) : Publication :=
  ⟨emptyResult, "digest", none, clock, fun l => l, fun _ => List.Perm.refl _, false⟩

def work (s : Store) (c : Command) : Store := call sizeSha checksum s c

/-- One policy after the other. -/
def bothRequested : Store :=
  requested sizeSha 1 secondPolicy (requested sizeSha 0 firstPolicy prepared)

def lateCompletion : Store :=
  let first := work (work (requested sizeSha 0 firstPolicy prepared) (.createRun 1 0 5))
    (.claim 1 0 none)
  let second := work (work (requested sizeSha 1 secondPolicy first) (.createRun 1 0 6))
    (.claim 1 1 none)
  work (work second (.publish 1 1 (publication 7))) (.publish 1 0 (publication 8))

def LastCompleted (s : Store) (scope : ℕ) (r : Run) : Prop :=
  r.scope = scope ∧ r.lifecycle = .completed ∧ ∀ q ∈ s.runs, q.scope = scope →
    q.lifecycle = .completed → ∀ a ∈ q.completedAt, ∀ b ∈ r.completedAt, a ≤ b

theorem policies_lawful_sample :
    FreezesReturned sizeSha checksum bothRequested ∧ DirtyUnlessLatest bothRequested :=
  policies_lawful (requested_reachable (requested_reachable
    (prepared_reachable sizeSha checksum) 0 firstPolicy) 1 secondPolicy)

/-- A request that goes back to the first policy returns its revision, and the
next run freezes the second; a run of the first policy that completes late
leaves its scope clean. -/
theorem superseded_not_frozen :
    (∃ s t p u r, Reachable sizeSha checksum s ∧
      createRevision 1 1 sizeSha 2 firstPolicy s = .ok (t, p) ∧
      createRunManifest 1 0 9 t = .ok (u, r) ∧ r.manifest.policyRevision ≠ p.id) ∧
    ∃ s, Reachable sizeSha checksum s ∧ ∃ x ∈ s.review.scopes, x.isDirty = false ∧
      ∃ r ∈ s.runs, LastCompleted s x.id r ∧
        (latestPolicy x.workspace x.book s).map (·.id) ≠ some r.manifest.policyRevision := by
  have hback : ((createRevision 1 1 sizeSha 2 firstPolicy bothRequested).toOption.bind fun a =>
      (createRunManifest 1 0 9 a.1).toOption.map fun b =>
        decide (b.2.manifest.policyRevision ≠ a.2.id)) = some true := by decide +kernel
  have hlate : ∃ x ∈ lateCompletion.review.scopes, x.isDirty = false ∧
      ∃ r ∈ lateCompletion.runs, LastCompleted lateCompletion x.id r ∧
        (latestPolicy x.workspace x.book lateCompletion).map (·.id) ≠
          some r.manifest.policyRevision := by
    unfold LastCompleted
    decide +kernel
  have hbase := prepared_reachable sizeSha checksum
  constructor
  · obtain ⟨⟨t, p⟩, hr, hback⟩ := Option.bind_eq_some_iff.mp hback
    obtain ⟨⟨u, r⟩, hrun, hne⟩ := Option.map_eq_some_iff.mp hback
    refine ⟨bothRequested, t, p, u, r, ?_, Raising.toOption_ok hr, Raising.toOption_ok hrun,
      of_decide_eq_true hne⟩
    exact requested_reachable (requested_reachable hbase 0 firstPolicy) 1 secondPolicy
  · refine ⟨lateCompletion, ?_, hlate⟩
    have hfirst := requested_reachable hbase 0 firstPolicy
    have hrun := worked_reachable (worked_reachable hfirst (c := .createRun 1 0 5) trivial)
      (c := .claim 1 0 none) trivial
    have hsecond := requested_reachable hrun 1 secondPolicy
    have hnext := worked_reachable (worked_reachable hsecond (c := .createRun 1 0 6) trivial)
      (c := .claim 1 1 none) trivial
    exact worked_reachable (worked_reachable hnext (c := .publish 1 1 (publication 7)) trivial)
      (c := .publish 1 0 (publication 8)) trivial

end Workbench.Policies
