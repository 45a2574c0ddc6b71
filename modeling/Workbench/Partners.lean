import Workbench.Terminals
import Workbench.Observations
import Workbench.Publications

/-!
# Links with one endpoint left

A run computes its result from the observations of its inputs and the decisions
it froze. A link whose other record is out of the snapshot reserves the record
that is left; one whose other record is cancelled still holds it.
-/

set_option autoImplicit false

namespace Workbench.Partners
open Workbench.Listing Workbench.Tables Workbench.Decimals Workbench.Calendar Workbench.Raising
open Workbench.Records Workbench.Evidence Workbench.Json Workbench.Decisions Workbench.FrozenDecisions
open Workbench.References Workbench.Reservations Workbench.Terminals Workbench.Review
open Workbench.Observations Workbench.Assignment Workbench.Engine Workbench.Publications

theorem sorted_strictly {records : List MatchRecord}
    (h : (ids (sortOn (·.observationId) records)).Nodup) :
    (ids (sortOn (·.observationId) records)).Pairwise (· < ·) := by
  have hle : (ids (sortOn (·.observationId) records)).Pairwise (· ≤ ·) :=
    List.pairwise_map.mpr (sortOn_pairwise _ _)
  exact (hle.and h).imp fun hab => lt_of_le_of_ne hab.1 hab.2

def createSnapshot (leftRevisionId rightRevisionId : String) (left right : List MatchRecord) :
    Outcome EngineSnapshot := do
  let leftText ← check (nonblank leftRevisionId = true) (textMessage "left_revision_id")
  let rightText ← check (nonblank rightRevisionId = true) (textMessage "right_revision_id")
  let orderedLeft := sortOn (·.observationId) left
  let orderedRight := sortOn (·.observationId) right
  let leftUnique ← check (ids orderedLeft).Nodup "left observation identities must be unique"
  let rightUnique ← check (ids orderedRight).Nodup "right observation identities must be unique"
  let apart ← check (∀ i ∈ ids orderedLeft, i ∉ ids orderedRight)
    "observation identities must be unique across sides"
  .ok ⟨leftRevisionId, rightRevisionId, orderedLeft, orderedRight, leftText.down, rightText.down,
    sorted_strictly leftUnique.down, sorted_strictly rightUnique.down, apart.down⟩

def observed (observations : List Observation) (i : Runs.RunInput) : Option Observation :=
  lookup Observation.id observations i.observation

def inputRecord (observations : List Observation) (i : Runs.RunInput) : Outcome MatchRecord := do
  let o ← fetch .missingKey (observed observations i)
  matchRecord i.referenceSemantics
    { o with id := i.observation, logicalTransaction := i.logicalTransaction }

def orderedInputs (m : Runs.Manifest) : List Runs.RunInput :=
  sortOn (fun i => toLex (i.side.value, i.observation.text)) m.inputs

def sideRecords (observations : List Observation) (m : Runs.Manifest) (side : RecordSide) :
    Outcome (List MatchRecord) :=
  ((orderedInputs m).filter (·.side = side)).mapM (inputRecord observations)

/-- The inputs of a run as its decisions see them; the constraints of their
table hold of every run. -/
def frozenInputs (m : Runs.Manifest) : Outcome RunInputs := do
  let rows := m.inputs.map fun i => (⟨i.side, i.logicalTransaction, i.observation⟩ : RunInput)
  let logicals ← check (rows.map (·.logicalTransaction)).Nodup "run_input_logical_unique"
  let observations ← check (rows.map (·.observation)).Nodup "run_input_observation_unique"
  .ok ⟨rows, logicals.down, observations.down⟩

def engineInputs (observations : List Observation) (r : Runs.Run) :
    Outcome (EngineSnapshot × DecisionInputs) := do
  let left ← sideRecords observations r.manifest .left
  let right ← sideRecords observations r.manifest .right
  let snapshot ← createSnapshot (idText r.manifest.leftRevision) (idText r.manifest.rightRevision)
    left right
  let inputs ← frozenInputs r.manifest
  let decisions ← decisionInputs inputs r.manifest.decisions
  return (snapshot, decisions)

inductive ComputeFailure where
  | runStateConflict
  | runResultMismatch
  | raised (failure : Failure)
deriving DecidableEq

def raising {α : Type} : Outcome α → Except ComputeFailure α
  | .ok a => .ok a
  | .error failure => .error (.raised failure)

@[simp] theorem raising_ok {α : Type} {x : Outcome α} {a : α} :
    raising x = .ok a ↔ x = .ok a := by
  cases x <;> simp [raising]

/-- `compute_run`, with the policies that the payload of its policy revision
holds. -/
def computeRun (digest : Digest) (matching : MatchingPolicy) (comparison : ComparisonPolicy)
    (solver : AssignmentSolver) (observations : List Observation) (r : Runs.Run) :
    Except ComputeFailure EngineResult := do
  demand (r.lifecycle ≠ .completed) .runStateConflict
  let (snapshot, decisions) ← raising (engineInputs observations r)
  demand (solver.version = r.manifest.solverVersion ∧
    matching.solverVersion = r.manifest.solverVersion) .runResultMismatch
  raising (reconcile digest snapshot matching comparison decisions solver)

section Inputs
variable {observations : List Observation} {r : Runs.Run} {s : EngineSnapshot}
  {d : DecisionInputs}

theorem matchRecord_columns {semantics : Ingestion.ReferenceSemantics} {o : Observation}
    {q : MatchRecord} (h : matchRecord semantics o = .ok q) :
    q.observationId = o.id.text ∧ q.state = o.state := by
  simp only [matchRecord, bind_ok, Except.ok.injEq] at h
  obtain ⟨_, _, _, _, _, _, _, _, _, _, _, _, _, _, _, _, _, _, _, _, rfl⟩ := h
  exact ⟨rfl, rfl⟩

theorem inputRecord_columns {i : Runs.RunInput} {q : MatchRecord}
    (h : inputRecord observations i = .ok q) : q.observationId = i.observation.text ∧
      ∃ o, observed observations i = some o ∧ q.state = o.state := by
  simp only [inputRecord, bind_ok, fetch_ok] at h
  obtain ⟨o, ho, hq⟩ := h
  obtain ⟨hid, hstate⟩ := matchRecord_columns hq
  exact ⟨hid, o, ho, hstate⟩

theorem createSnapshot_records {leftRevisionId rightRevisionId : String}
    {left right : List MatchRecord}
    (h : createSnapshot leftRevisionId rightRevisionId left right = .ok s) :
    s.records .left = sortOn (·.observationId) left ∧
      s.records .right = sortOn (·.observationId) right := by
  simp only [createSnapshot, bind_ok, Except.ok.injEq] at h
  obtain ⟨_, _, _, _, _, _, _, _, _, _, rfl⟩ := h
  exact ⟨rfl, rfl⟩

theorem mem_records (h : engineInputs observations r = .ok (s, d)) {side : RecordSide}
    {q : MatchRecord} : q ∈ s.records side → ∃ i ∈ r.manifest.inputs, i.side = side ∧
      inputRecord observations i = .ok q := by
  simp only [engineInputs, bind_ok, pure_ok, Prod.mk.injEq] at h
  obtain ⟨left, hleft, right, hright, s', hs, _, _, _, _, rfl, rfl⟩ := h
  obtain ⟨hl, hr⟩ := createSnapshot_records hs
  have hside : ∀ {side : RecordSide} {records : List MatchRecord},
      sideRecords observations r.manifest side = .ok records → q ∈ records →
        ∃ i ∈ r.manifest.inputs, i.side = side ∧ inputRecord observations i = .ok q := by
    intro side records hrecords hq
    obtain ⟨i, hi, hok⟩ := mapM_mem_right hrecords hq
    obtain ⟨hmem, hiside⟩ := List.mem_filter.mp hi
    exact ⟨i, (mem_sortOn _ _ _).mp hmem, of_decide_eq_true hiside, hok⟩
  intro hq
  cases side with
  | left => exact hside hleft ((mem_sortOn _ _ _).mp (hl ▸ hq))
  | right => exact hside hright ((mem_sortOn _ _ _).mp (hr ▸ hq))

theorem input_record (h : engineInputs observations r = .ok (s, d)) {i : Runs.RunInput}
    (hi : i ∈ r.manifest.inputs) :
    ∃ q ∈ s.records i.side, inputRecord observations i = .ok q := by
  simp only [engineInputs, bind_ok, pure_ok, Prod.mk.injEq] at h
  obtain ⟨left, hleft, right, hright, s', hs, _, _, _, _, rfl, rfl⟩ := h
  obtain ⟨hl, hr⟩ := createSnapshot_records hs
  have hmem : i ∈ (orderedInputs r.manifest).filter (·.side = i.side) :=
    List.mem_filter.mpr ⟨(mem_sortOn _ _ _).mpr hi, decide_eq_true rfl⟩
  cases hside : i.side with
  | left =>
    rw [hside] at hmem
    obtain ⟨q, hq, hok⟩ := mapM_mem hleft hmem
    exact ⟨q, hl ▸ (mem_sortOn _ _ _).mpr hq, hok⟩
  | right =>
    rw [hside] at hmem
    obtain ⟨q, hq, hok⟩ := mapM_mem hright hmem
    exact ⟨q, hr ▸ (mem_sortOn _ _ _).mpr hq, hok⟩

theorem input_unique (h : engineInputs observations r = .ok (s, d)) {i j : Runs.RunInput}
    (hi : i ∈ r.manifest.inputs) (hj : j ∈ r.manifest.inputs)
    (he : i.observation.text = j.observation.text) : i = j := by
  simp only [engineInputs, frozenInputs, bind_ok, pure_ok, Except.ok.injEq] at h
  obtain ⟨_, _, _, _, _, _, _, ⟨_, _, unique, _, rfl⟩, _⟩ := h
  have hnodup := unique.down
  rw [List.map_map] at hnodup
  exact eq_of_key_eq (fun i : Runs.RunInput => i.observation) hnodup hi hj (Uuid.text_injective he)

theorem input_available (h : engineInputs observations r = .ok (s, d)) {i : Runs.RunInput}
    (hi : i ∈ r.manifest.inputs) {o : Observation} (ho : observed observations i = some o) :
    i.observation.text ∈ available s i.side ↔ o.state ≠ .cancelled := by
  obtain ⟨q, hq, hok⟩ := input_record h hi
  obtain ⟨hid, o', ho', hstate⟩ := inputRecord_columns hok
  rw [ho, Option.some.injEq] at ho'
  subst ho'
  rw [← hid, available_eligible hq, MatchRecord.eligible, decide_eq_true_eq, hstate]

def inputOf (m : Runs.Manifest) (logical : Uuid) : Option Runs.RunInput :=
  lookup (fun i => i.logicalTransaction) m.inputs logical

theorem observationOf_input {m : Runs.Manifest} {inputs : RunInputs}
    (h : frozenInputs m = .ok inputs) (logical : Uuid) :
    observationOf inputs logical = (inputOf m logical).map (·.observation) := by
  simp only [frozenInputs, bind_ok, Except.ok.injEq] at h
  obtain ⟨_, _, _, _, rfl⟩ := h
  unfold observationOf inputOf lookup
  rw [List.find?_map, Option.map_map]
  rfl

theorem createDecisionInputs_mem {manual : List ManualLink} {accepted : List AcceptedUnmatched}
    {rejected : List RejectedRelationship} {reserved : List ReservedIdentity}
    (h : createDecisionInputs manual accepted rejected reserved = .ok d) :
    (∀ link, link ∈ d.manualLinks ↔ link ∈ manual) ∧
      ∀ x, x ∈ d.reservedIdentities ↔ x ∈ reserved := by
  simp only [createDecisionInputs, bind_ok, Except.ok.injEq] at h
  obtain ⟨_, _, _, _, _, _, _, _, _, _, _, _, rfl⟩ := h
  exact ⟨fun link => mem_sortOn _ _ _, fun x => mem_sortOn _ _ _⟩

theorem contributed (h : engineInputs observations r = .ok (s, d)) {row : DecisionRevision}
    (hrow : row ∈ r.manifest.decisions) {c : Contribution}
    (hc : ∀ inputs, frozenInputs r.manifest = .ok inputs → contribution inputs row = some c) :
    (∀ link, c = .manual link → link ∈ d.manualLinks) ∧
      ∀ x, c = .reserved x → x ∈ d.reservedIdentities := by
  simp only [engineInputs, bind_ok, pure_ok, Prod.mk.injEq] at h
  obtain ⟨_, _, _, _, _, _, inputs, hinputs, d', hd, _, rfl⟩ := h
  obtain ⟨hmanual, hreserved⟩ := createDecisionInputs_mem hd
  have hmem : c ∈ r.manifest.decisions.filterMap (contribution inputs) :=
    List.mem_filterMap.mpr ⟨row, hrow, hc inputs hinputs⟩
  constructor
  · intro link hlink
    exact (hmanual link).mpr (List.mem_filterMap.mpr ⟨c, hmem, by rw [hlink]; rfl⟩)
  · intro x hx
    exact (hreserved x).mpr (List.mem_filterMap.mpr ⟨c, hmem, by rw [hx]; rfl⟩)

section Links
variable {row : DecisionRevision} {pair : Endpoints} {i j : Runs.RunInput}

theorem link_manual (h : engineInputs observations r = .ok (s, d))
    (hrow : row ∈ r.manifest.decisions) (ha : row.authority = some (.link pair))
    (hi : inputOf r.manifest pair.left = some i) (hj : inputOf r.manifest pair.right = some j) :
    relationship row i.observation j.observation ∈ d.manualLinks := by
  refine (contributed h hrow fun inputs hinputs => ?_).1 _ rfl
  have hl := observationOf_input hinputs pair.left
  have hr := observationOf_input hinputs pair.right
  rw [hi, Option.map_some] at hl
  rw [hj, Option.map_some] at hr
  simp [contribution, ha, hl, hr]

theorem link_left_reserved (h : engineInputs observations r = .ok (s, d))
    (hrow : row ∈ r.manifest.decisions) (ha : row.authority = some (.link pair))
    (hi : inputOf r.manifest pair.left = some i) (hj : inputOf r.manifest pair.right = none) :
    single row i.observation ∈ d.reservedIdentities := by
  refine (contributed h hrow fun inputs hinputs => ?_).2 _ rfl
  have hl := observationOf_input hinputs pair.left
  have hr := observationOf_input hinputs pair.right
  rw [hi, Option.map_some] at hl
  rw [hj, Option.map_none] at hr
  simp [contribution, ha, hl, hr]

theorem link_right_reserved (h : engineInputs observations r = .ok (s, d))
    (hrow : row ∈ r.manifest.decisions) (ha : row.authority = some (.link pair))
    (hi : inputOf r.manifest pair.left = none) (hj : inputOf r.manifest pair.right = some j) :
    single row j.observation ∈ d.reservedIdentities := by
  refine (contributed h hrow fun inputs hinputs => ?_).2 _ rfl
  have hl := observationOf_input hinputs pair.left
  have hr := observationOf_input hinputs pair.right
  rw [hi, Option.map_none] at hl
  rw [hj, Option.map_some] at hr
  simp [contribution, ha, hl, hr]

end Links

end Inputs

section Endpoints
variable (observations : List Observation) (m : Runs.Manifest)

def Absent (logical : Uuid) : Prop := inputOf m logical = none

def Standing (logical : Uuid) (i : Runs.RunInput) : Prop :=
  inputOf m logical = some i ∧ ∃ o, observed observations i = some o ∧ o.state ≠ .cancelled

def Withdrawn (logical : Uuid) : Prop :=
  ∃ i o, inputOf m logical = some i ∧ observed observations i = some o ∧ o.state = .cancelled

def Ends (pair : Endpoints) (kept lost : Uuid) : Prop :=
  kept = pair.left ∧ lost = pair.right ∨ kept = pair.right ∧ lost = pair.left

end Endpoints

def outcomesOf (result : EngineResult) (recordId : String) : List UnpairedOutcome :=
  result.unpaired.filter (·.recordId = recordId)

structure Unpaired (result : EngineResult) (i : Runs.RunInput) (reason : UnpairedReason) :
    Prop where
  alone : ∀ p ∈ result.pairs, ∀ side, p.endId side ≠ i.observation.text
  listed : ∃ u, outcomesOf result i.observation.text = [u] ∧ u.reason = reason

def healthOf (digest : Digest) (contract : ReferenceContract) (r : Runs.Run)
    (diagnostics : List DecisionHealthDiagnostic) (row : DecisionRevision)
    (authority : DecisionAuthority) : DecisionHealth :=
  (snapshotOf digest contract r diagnostics 0 row authority).projection.health

section Outcomes
variable {digest : Digest} {matching : MatchingPolicy} {comparison : ComparisonPolicy}
  {solver : AssignmentSolver} {s : EngineSnapshot} {d : DecisionInputs}

/-- A result keeps the terminal outcomes of preprocessing and lists each record
once. -/
theorem reconcile_terminal {result : EngineResult}
    (h : reconcile digest s matching comparison d solver = .ok result) :
    Results.Consistent result ∧ ∃ pre,
      preprocessReferences s d matching.referenceContract = .ok pre ∧
        ∀ u ∈ pre.terminalUnpaired, u ∈ result.unpaired := by
  simp only [reconcile, unpairedOutcomes, bind_ok, pure_ok] at h
  obtain ⟨pre, hpre, g, -, cs, -, a, -, gated, -, est, -, acc, -, us, ⟨left, -, right, -, rfl⟩,
    primary, hprimary, ds, -, hr⟩ := h
  obtain ⟨-, -, rfl⟩ := Results.create_ok.mp hprimary
  obtain ⟨hc, -, rfl⟩ := Results.create_ok.mp hr
  refine ⟨hc.reordered (Results.ordered_reordered _), pre, hpre, fun u hu => ?_⟩
  refine (mem_sortOn _ _ _).mpr ((mem_sortOn _ _ _).mpr ?_)
  exact List.mem_append_left _ hu

def inputIds (result : EngineResult) : RecordSide → List String
  | .left => result.inputLeftIds
  | .right => result.inputRightIds

section Listed
variable {result : EngineResult} (hc : Results.Consistent result)
include hc

theorem listed_input {side : RecordSide} :
    (∀ p ∈ result.pairs, p.endId side ∈ inputIds result side) ∧
      ∀ x ∈ on side result.unpaired, x ∈ inputIds result side := by
  cases side with
  | left =>
    have hcover := hc.cover.1.1
    exact ⟨fun p hp => hcover _ (List.mem_append_left _ (List.mem_map_of_mem hp)),
      fun x hx => hcover _ (List.mem_append_right _ hx)⟩
  | right =>
    have hcover := hc.cover.2.1
    exact ⟨fun p hp => hcover _ (List.mem_append_left _ (List.mem_map_of_mem hp)),
      fun x hx => hcover _ (List.mem_append_right _ hx)⟩

theorem input_side {side other : RecordSide} {x : String} (h : x ∈ inputIds result side)
    (h' : x ∈ inputIds result other) : side = other := by
  cases side <;> cases other
  · rfl
  · exact absurd h' (hc.apart x h)
  · exact absurd h (hc.apart x h')
  · rfl

theorem paired_apart {side : RecordSide} {p : PairOutcome} (hp : p ∈ result.pairs) :
    p.endId side ∉ on side result.unpaired := by
  cases side with
  | left => exact hc.outcomes_apart.1 _ (List.mem_map_of_mem hp)
  | right => exact hc.outcomes_apart.2 _ (List.mem_map_of_mem hp)

theorem outcome_eq {u v : UnpairedOutcome} (hu : u ∈ result.unpaired) (hv : v ∈ result.unpaired)
    (hid : u.recordId = v.recordId) : u = v := by
  have hside : u.side = v.side := by
    refine input_side hc ((listed_input hc).2 _ (mem_on hu)) ?_
    rw [hid]
    exact (listed_input hc).2 _ (mem_on hv)
  have hnodup : (on u.side result.unpaired).Nodup := by
    cases u.side
    · exact hc.unpairedLeft_nodup
    · exact hc.unpairedRight_nodup
  exact List.inj_on_of_nodup_map hnodup
    (List.mem_filter.mpr ⟨hu, decide_eq_true rfl⟩)
    (List.mem_filter.mpr ⟨hv, decide_eq_true hside.symm⟩) hid

theorem outcomesOf_eq {u : UnpairedOutcome} (hu : u ∈ result.unpaired) :
    outcomesOf result u.recordId = [u] := by
  have hnodup : (on u.side result.unpaired).Nodup := by
    cases u.side
    · exact hc.unpairedLeft_nodup
    · exact hc.unpairedRight_nodup
  have hside : outcomesOf result u.recordId =
      (result.unpaired.filter (·.side = u.side)).filter (·.recordId = u.recordId) := by
    unfold outcomesOf
    rw [List.filter_filter]
    refine List.filter_congr fun v hv => ?_
    by_cases hid : v.recordId = u.recordId
    · simp [outcome_eq hc hv hu hid]
    · simp [hid]
  have hset : ∀ v, v ∈ outcomesOf result u.recordId ↔ v ∈ [u] := by
    intro v
    rw [List.mem_singleton, outcomesOf, List.mem_filter, decide_eq_true_iff]
    constructor
    · exact fun hv => outcome_eq hc hv.1 hu hv.2
    · rintro rfl
      exact ⟨hu, rfl⟩
  have hone : (outcomesOf result u.recordId).Nodup := by
    rw [hside]
    exact (List.Nodup.of_map _ hnodup).filter _
  exact ((List.perm_ext_iff_of_nodup hone (List.nodup_singleton u)).mpr hset).eq_singleton

theorem unpaired_of_terminal {i : Runs.RunInput} {u : UnpairedOutcome}
    (hu : u ∈ result.unpaired) (hid : u.recordId = i.observation.text) :
    Unpaired result i u.reason := by
  refine ⟨?_, u, ?_, rfl⟩
  · intro p hp side he
    have hon := mem_on hu
    have hin := (listed_input hc).2 _ hon
    have hpair : p.endId side ∈ inputIds result side := (listed_input hc).1 p hp
    rw [hid, ← he] at hin
    have hside := input_side hc hpair hin
    have happart : p.endId side ∉ on side result.unpaired := paired_apart hc hp
    apply happart
    rw [he, ← hid, hside]
    exact hon
  · rw [← hid]
    exact outcomesOf_eq hc hu

end Listed

variable {r : Runs.Run} {observations : List Observation} {result : EngineResult}

theorem computeRun_ok
    (h : computeRun digest matching comparison solver observations r = .ok result) :
    ∃ s d, engineInputs observations r = .ok (s, d) ∧
      reconcile digest s matching comparison d solver = .ok result := by
  simp only [computeRun, bind_ok, raising_ok] at h
  obtain ⟨_, -, ⟨s, d⟩, hs, _, -, hr⟩ := h
  exact ⟨s, d, hs, hr⟩

section Link
variable {row : DecisionRevision} {pair : Endpoints} {kept lost : Uuid} {i : Runs.RunInput}

theorem inputOf_mem {m : Runs.Manifest} {logical : Uuid} (h : inputOf m logical = some i) :
    i ∈ m.inputs ∧ i.logicalTransaction = logical := lookup_some h

theorem absent_reserved (h : computeRun digest matching comparison solver observations r =
    .ok result) (hrow : row ∈ r.manifest.decisions) (ha : row.authority = some (.link pair))
    (hends : Ends pair kept lost) (hkept : Standing observations r.manifest kept i)
    (hlost : Absent r.manifest lost) : Unpaired result i .reviewerReserved := by
  obtain ⟨s, d, hs, hr⟩ := computeRun_ok h
  obtain ⟨hinput, o, ho, hstate⟩ := hkept
  obtain ⟨hc, pre, hpre, hterminal⟩ := reconcile_terminal hr
  have hsingle : single row i.observation ∈ d.reservedIdentities := by
    rcases hends with ⟨rfl, rfl⟩ | ⟨rfl, rfl⟩
    · exact link_left_reserved hs hrow ha hinput hlost
    · exact link_right_reserved hs hrow ha hlost hinput
  have hav := (input_available hs (inputOf_mem hinput).1 ho).mpr hstate
  have hreserved : i.observation.text ∈ d.reservedIdentities.map (·.recordId) :=
    List.mem_map_of_mem hsingle
  obtain ⟨u, hu, hid, -, hreason⟩ := reserved_terminal hpre hav hreserved
  exact hreason ▸ unpaired_of_terminal hc (hterminal u hu) hid

theorem link_sides {s : EngineSnapshot} {d : DecisionInputs} {j : Runs.RunInput}
    (hs : engineInputs observations r = .ok (s, d)) (ho : Oriented s d)
    (hi : i ∈ r.manifest.inputs) (hj : j ∈ r.manifest.inputs)
    (hlink : relationship row i.observation j.observation ∈ d.manualLinks) :
    i.side = .left ∧ j.side = .right := by
  have hcarried : ∀ k ∈ r.manifest.inputs, k.observation.text ∈ ids (s.records k.side) := by
    intro k hk
    obtain ⟨q, hq, hok⟩ := input_record hs hk
    exact (inputRecord_columns hok).1 ▸ List.mem_map_of_mem hq
  obtain ⟨hleft, hright⟩ := ho _ (List.mem_append_left _ hlink)
  have hil := hcarried i hi
  have hjr := hcarried j hj
  constructor
  · cases hside : i.side with
    | left => rfl
    | right =>
      rw [hside] at hil
      exact absurd hil hleft
  · cases hside : j.side with
    | right => rfl
    | left =>
      rw [hside] at hjr
      exact absurd hjr hright

theorem withdrawn_attention (h : computeRun digest matching comparison solver observations r =
    .ok result) (hrow : row ∈ r.manifest.decisions) (ha : row.authority = some (.link pair))
    (hends : Ends pair kept lost) (hkept : Standing observations r.manifest kept i)
    (hlost : Withdrawn observations r.manifest lost) : Unpaired result i .manualAttention := by
  obtain ⟨s, d, hs, hr⟩ := computeRun_ok h
  obtain ⟨hinput, o, ho, hstate⟩ := hkept
  obtain ⟨j, oj, hother, hoj, hcancelled⟩ := hlost
  obtain ⟨hc, pre, hpre, hterminal⟩ := reconcile_terminal hr
  have hi := (inputOf_mem hinput).1
  have hj := (inputOf_mem hother).1
  have hav := (input_available hs hi ho).mpr hstate
  have hgone : j.observation.text ∉ available s j.side := fun hm =>
    (input_available hs hj hoj).mp hm hcancelled
  have horiented := (preprocess_spec hpre).1
  rcases hends with ⟨rfl, rfl⟩ | ⟨rfl, rfl⟩
  · have hlink := link_manual hs hrow ha hinput hother
    obtain ⟨hleft, hright⟩ := link_sides hs horiented hi hj hlink
    rw [hleft] at hav
    rw [hright] at hgone
    obtain ⟨u, hu, hid, -, hreason⟩ := attention_terminal hpre hlink hav hgone
    exact hreason ▸ unpaired_of_terminal hc (hterminal u hu) hid
  · have hlink := link_manual hs hrow ha hother hinput
    obtain ⟨hleft, hright⟩ := link_sides hs horiented hj hi hlink
    rw [hright] at hav
    rw [hleft] at hgone
    obtain ⟨u, hu, hid, -, hreason⟩ := attention_terminal hpre hlink hav hgone
    exact hreason ▸ unpaired_of_terminal hc (hterminal u hu) hid

end Link

section Health
variable {contract : ReferenceContract} {diagnostics : List DecisionHealthDiagnostic}
  {row : DecisionRevision} {pair : Endpoints} {kept lost : Uuid}

theorem link_health (digest : Digest) (contract : ReferenceContract) (r : Runs.Run)
    (diagnostics : List DecisionHealthDiagnostic) (row : DecisionRevision) (pair : Endpoints) :
    healthOf digest contract r diagnostics row (.link pair) =
      if inputOf r.manifest pair.left = none ∨ inputOf r.manifest pair.right = none then
        .partnerUnavailable
      else if currentDigest digest r.workspace (heldInputs r.manifest (.link pair)) =
          row.reviewedEvidenceDigest then .unchanged
      else .evidenceChanged := by
  have hheld : heldInputs r.manifest (.link pair) =
      (inputOf r.manifest pair.left).toList ++ (inputOf r.manifest pair.right).toList := by
    unfold heldInputs DecisionAuthority.endpointIds inputOf
    cases hl : lookup (fun i : Runs.RunInput => i.logicalTransaction) r.manifest.inputs pair.left <;>
      cases hr : lookup (fun i : Runs.RunInput => i.logicalTransaction) r.manifest.inputs
        pair.right <;> simp [hl, hr]
  have havailable : endpointsAvailable r.manifest (.link pair) = true ↔
      ¬(inputOf r.manifest pair.left = none ∨ inputOf r.manifest pair.right = none) := by
    unfold endpointsAvailable
    rw [hheld]
    cases inputOf r.manifest pair.left <;> cases inputOf r.manifest pair.right <;>
      simp [DecisionAuthority.endpointIds]
  by_cases hno : inputOf r.manifest pair.left = none ∨ inputOf r.manifest pair.right = none
  · have hoff : endpointsAvailable r.manifest (.link pair) = false := by
      rw [Bool.eq_false_iff]
      exact fun hon => havailable.mp hon hno
    rw [if_pos hno]
    simp [healthOf, snapshotOf, projectDecisionHealth, healthEvidence, hoff]
  · have hon := havailable.mpr hno
    rw [if_neg hno]
    by_cases hsame : currentDigest digest r.workspace (heldInputs r.manifest (.link pair)) =
        row.reviewedEvidenceDigest
    · simp [healthOf, snapshotOf, projectDecisionHealth, healthEvidence, evidenceChanged, hon, hsame]
    · simp [healthOf, snapshotOf, projectDecisionHealth, healthEvidence, evidenceChanged, hon, hsame]

end Health

end Outcomes

section Links
variable (digest : Digest) (matching : MatchingPolicy) (comparison : ComparisonPolicy)
  (solver : AssignmentSolver) (observations : List Observation) (r : Runs.Run)

/-- A link with one endpoint left is flagged alike whether its partner is
absent or cancelled. -/
def FlaggedAlike : Prop :=
  ∀ result, computeRun digest matching comparison solver observations r = .ok result →
    ∀ row ∈ r.manifest.decisions, ∀ pair, row.authority = some (.link pair) →
      ∀ kept lost i, Ends pair kept lost → Standing observations r.manifest kept i →
        Absent r.manifest lost ∨ Withdrawn observations r.manifest lost →
          Unpaired result i .manualAttention ∧
            healthOf digest matching.referenceContract r result.diagnostics row (.link pair) =
              .partnerUnavailable

/-- An absent partner makes the decision unavailable and the record reserved; a
cancelled one asks for attention, and the health compares the evidence. -/
def FlaggedApart : Prop :=
  ∀ result, computeRun digest matching comparison solver observations r = .ok result →
    ∀ row ∈ r.manifest.decisions, ∀ pair, row.authority = some (.link pair) →
      ∀ kept lost i, Ends pair kept lost → Standing observations r.manifest kept i →
        (Absent r.manifest lost → Unpaired result i .reviewerReserved ∧
          healthOf digest matching.referenceContract r result.diagnostics row (.link pair) =
            .partnerUnavailable) ∧
        (Withdrawn observations r.manifest lost → Unpaired result i .manualAttention ∧
          healthOf digest matching.referenceContract r result.diagnostics row (.link pair) =
            if currentDigest digest r.workspace (heldInputs r.manifest (.link pair)) =
              row.reviewedEvidenceDigest then .unchanged else .evidenceChanged)

/-- In every run the one endpoint left of a link is in no pair. It is reserved
when its partner is absent and asks for attention when its partner is
cancelled, and only absence makes the decision unavailable. -/
theorem lone_endpoint_flagged :
    FlaggedApart digest matching comparison solver observations r := by
  intro result h row hrow pair ha kept lost i hends hkept
  have hinput : inputOf r.manifest kept = some i := hkept.1
  constructor
  · intro hlost
    refine ⟨absent_reserved h hrow ha hends hkept hlost, ?_⟩
    rw [link_health, if_pos]
    rcases hends with ⟨rfl, rfl⟩ | ⟨rfl, rfl⟩
    · exact Or.inr hlost
    · exact Or.inl hlost
  · intro hlost
    refine ⟨withdrawn_attention h hrow ha hends hkept hlost, ?_⟩
    obtain ⟨j, o, hother, -, -⟩ := hlost
    rw [link_health, if_neg]
    rcases hends with ⟨rfl, rfl⟩ | ⟨rfl, rfl⟩
    · simp [hinput, hother]
    · simp [hinput, hother]

end Links

def keptId : Uuid := ⟨"00000000-0000-0000-0000-00000000001a", by decide, by decide⟩

def lostId : Uuid := ⟨"00000000-0000-0000-0000-00000000001b", by decide, by decide⟩

def keptSeen : Uuid := ⟨"00000000-0000-0000-0000-0000000001aa", by decide, by decide⟩

def lostSeen : Uuid := ⟨"00000000-0000-0000-0000-0000000001bb", by decide, by decide⟩

def linkedEnds : Endpoints := ⟨keptId, lostId, by decide⟩

def keptRow : Observation :=
  ⟨⟨none, noon, "ACME", .buy, ofInt 5, ofInt 7, ofInt 35, "EUR", .settled⟩, keptSeen, keptId, "K1"⟩

def lostRow : Observation :=
  ⟨⟨none, noon, "ACME", .buy, ofInt 5, ofInt 7, ofInt 35, "EUR", .cancelled⟩, lostSeen, lostId,
    "K2"⟩

def keptInput : Runs.RunInput := ⟨⟨keptId, keptSeen, "k1", none, .none⟩, .left⟩

def lostInput : Runs.RunInput := ⟨⟨lostId, lostSeen, "k2", none, .none⟩, .right⟩

def linkRow : DecisionRevision :=
  ⟨keptId, 1, keptId, none, 1, .link, some (.link linkedEnds), "same trade", "reviewer",
    [keptSeen, lostSeen], none, noon⟩

/-- A run of one link. -/
def linkedRun (inputs : List Runs.RunInput) : Runs.Run :=
  ⟨0, 1, 1, 1, ⟨1, 2, 1, "policy", 1, 1, 1, "engine-1", "exhaustive-1", inputs, [linkRow]⟩, .running,
    .pending, none, none, none, none, none⟩

def linkedResult (inputs : List Runs.RunInput) : Except ComputeFailure EngineResult :=
  computeRun checksum (samplePolicy sampleLimits) sampleComparison sampleSolver [keptRow, lostRow]
    (linkedRun inputs)

/-- Without its partner the linked record is only reserved; with a cancelled one
the decision is not unavailable. -/
theorem partners_told_apart :
    ¬FlaggedAlike checksum (samplePolicy sampleLimits) sampleComparison sampleSolver
        [keptRow, lostRow] (linkedRun [keptInput]) ∧
      ¬FlaggedAlike checksum (samplePolicy sampleLimits) sampleComparison sampleSolver
        [keptRow, lostRow] (linkedRun [keptInput, lostInput]) := by
  have hends : Ends linkedEnds keptId lostId := Or.inl ⟨rfl, rfl⟩
  have hsome : ∀ inputs, (linkedResult inputs).toOption.isSome = true →
      ∃ result, linkedResult inputs = .ok result := by
    intro inputs hs
    cases hr : linkedResult inputs with
    | error e => rw [hr] at hs; cases hs
    | ok result => exact ⟨result, rfl⟩
  constructor
  · intro h
    have hdone : (linkedResult [keptInput]).toOption.isSome = true := by decide +kernel
    obtain ⟨result, hresult⟩ := hsome _ hdone
    have hkept : Standing [keptRow, lostRow] (linkedRun [keptInput]).manifest keptId keptInput :=
      ⟨rfl, keptRow, rfl, by decide⟩
    have hlost : Absent (linkedRun [keptInput]).manifest lostId := rfl
    have hwanted := (h result hresult linkRow (List.mem_singleton_self _) linkedEnds rfl keptId
      lostId keptInput hends hkept (Or.inl hlost)).1
    have hgot := absent_reserved hresult (List.mem_singleton_self _) rfl hends hkept hlost
    obtain ⟨u, hu, hreserved⟩ := hgot.listed
    obtain ⟨v, hv, hattention⟩ := hwanted.listed
    have hsame : u = v := List.singleton_inj.mp (hu.symm.trans hv)
    rw [hsame, hattention] at hreserved
    cases hreserved
  · intro h
    have hdone : (linkedResult [keptInput, lostInput]).toOption.isSome = true := by decide +kernel
    obtain ⟨result, hresult⟩ := hsome _ hdone
    have hkept : Standing [keptRow, lostRow] (linkedRun [keptInput, lostInput]).manifest keptId
        keptInput := ⟨rfl, keptRow, rfl, by decide⟩
    have hlost : Withdrawn [keptRow, lostRow] (linkedRun [keptInput, lostInput]).manifest lostId :=
      ⟨lostInput, lostRow, rfl, rfl, rfl⟩
    have hwanted := (h result hresult linkRow (List.mem_singleton_self _) linkedEnds rfl keptId
      lostId keptInput hends hkept (Or.inr hlost)).2
    rw [link_health, if_neg (by decide)] at hwanted
    split at hwanted <;> cases hwanted

end Workbench.Partners
