import Workbench.DecisionLaws
import Workbench.Raising

/-!
# Decisions frozen for a run

A run is computed from the active decisions of its book. A decision refers to
logical records; a run names the observation each has in its datasets.
-/

set_option autoImplicit false

namespace Workbench.FrozenDecisions
open Workbench.Listing Workbench.Tables Workbench.Calendar Workbench.Workspaces Workbench.Records
open Workbench.Json Workbench.Decisions Workbench.DecisionStore Workbench.DecisionLaws
open Workbench.Raising

structure RunInput where
  side : RecordSide
  logicalTransaction : Uuid
  observation : Uuid
deriving DecidableEq

structure RunInputs where
  rows : List RunInput
  logicals_unique : (rows.map (·.logicalTransaction)).Nodup
  observations_unique : (rows.map (·.observation)).Nodup

/-- `_active_decisions`: the current revisions that are in force. -/
def activeDecisions (workspace book : ℕ) (s : Store) : List DecisionRevision :=
  sortOn (·.id.text) ((s.decisions.filter fun d => d.workspace = workspace && d.book = book).filterMap
    fun d => (revisionOf s d.currentRevision).filter (live s))

def observationOf (inputs : RunInputs) (logical : Uuid) : Option Uuid :=
  (lookup RunInput.logicalTransaction inputs.rows logical).map (·.observation)

inductive Contribution where
  | manual (link : ManualLink)
  | accepted (record : AcceptedUnmatched)
  | rejected (relationship : RejectedRelationship)
  | reserved (record : ReservedIdentity)
deriving DecidableEq

def relationship (row : DecisionRevision) (left right : Uuid) : Relationship :=
  ⟨row.decision.text, row.id.text, left.text, right.text, row.decision.text_nonblank,
    row.id.text_nonblank, left.text_nonblank, right.text_nonblank⟩

def single (row : DecisionRevision) (record : Uuid) : SingleReservation :=
  ⟨row.decision.text, row.id.text, record.text, row.decision.text_nonblank,
    row.id.text_nonblank, record.text_nonblank⟩

def contribution (inputs : RunInputs) (row : DecisionRevision) : Option Contribution :=
  match row.authority with
  | some (.link pair) =>
    match observationOf inputs pair.left, observationOf inputs pair.right with
    | some left, some right => some (.manual (relationship row left right))
    | some left, none => some (.reserved (single row left))
    | none, some right => some (.reserved (single row right))
    | none, none => none
  | some (.acceptUnmatched record _) =>
    (observationOf inputs record).map fun found => .accepted (single row found)
  | some (.rejectCandidate pair) =>
    match observationOf inputs pair.left, observationOf inputs pair.right with
    | some left, some right => some (.rejected (relationship row left right))
    | _, _ => none
  | none => none

def manualOf : Contribution → Option ManualLink
  | .manual link => some link
  | _ => none

def acceptedOf : Contribution → Option AcceptedUnmatched
  | .accepted record => some record
  | _ => none

def rejectedOf : Contribution → Option RejectedRelationship
  | .rejected r => some r
  | _ => none

def reservedOf : Contribution → Option ReservedIdentity
  | .reserved record => some record
  | _ => none

/-- The sorting and the checks of a new `DecisionInputs`. -/
def createDecisionInputs (manual : List ManualLink) (accepted : List AcceptedUnmatched)
    (rejected : List RejectedRelationship) (reserved : List ReservedIdentity) :
    Outcome DecisionInputs := do
  let manualLinks := sortOn Relationship.order manual
  let acceptedUnmatched := sortOn SingleReservation.order accepted
  let rejectedRelationships := sortOn Relationship.order rejected
  let reservedIdentities := sortOn SingleReservation.order reserved
  let decisions ← check (manualLinks.map (·.decisionId) ++ acceptedUnmatched.map (·.decisionId) ++
    rejectedRelationships.map (·.decisionId) ++ reservedIdentities.map (·.decisionId)).Nodup
    "active decision identities must be unique"
  let left ← check (manualLinks.map (·.leftId)).Nodup "manual-link left identities must be unique"
  let right ← check (manualLinks.map (·.rightId)).Nodup
    "manual-link right identities must be unique"
  let singles ← check (acceptedUnmatched.map (·.recordId) ++
    reservedIdentities.map (·.recordId)).Nodup
    "single-record reservation identities must be unique"
  let apart ← check (∀ i ∈ manualLinks.map (·.leftId) ++ manualLinks.map (·.rightId),
    i ∉ acceptedUnmatched.map (·.recordId) ++ reservedIdentities.map (·.recordId))
    "an identity cannot be both manually linked and singly reserved"
  let edges ← check (rejectedRelationships.map fun r => edgeText r.edge).Nodup
    "rejected relationships must be unique"
  .ok ⟨manualLinks, acceptedUnmatched, rejectedRelationships, reservedIdentities,
    sortOn_pairwise _ _, sortOn_pairwise _ _, sortOn_pairwise _ _, sortOn_pairwise _ _,
    decisions.down, left.down, right.down, singles.down, apart.down, edges.down⟩

/-- `_decision_inputs`. -/
def decisionInputs (inputs : RunInputs) (rows : List DecisionRevision) :
    Outcome DecisionInputs :=
  let found := rows.filterMap (contribution inputs)
  createDecisionInputs (found.filterMap manualOf) (found.filterMap acceptedOf)
    (found.filterMap rejectedOf) (found.filterMap reservedOf)

/-- Whatever the datasets of a run are, its engine inputs can be built. -/
def Builds (s : Store) : Prop :=
  ∀ workspace book inputs,
    ∃ d, decisionInputs inputs (activeDecisions workspace book s) = .ok d

section Checks
variable {manual : List ManualLink} {accepted : List AcceptedUnmatched}
  {rejected : List RejectedRelationship} {reserved : List ReservedIdentity}

structure Valid (manual : List ManualLink) (accepted : List AcceptedUnmatched)
    (rejected : List RejectedRelationship) (reserved : List ReservedIdentity) : Prop where
  decisions : (manual.map (·.decisionId) ++ accepted.map (·.decisionId) ++
    rejected.map (·.decisionId) ++ reserved.map (·.decisionId)).Nodup
  left : (manual.map (·.leftId)).Nodup
  right : (manual.map (·.rightId)).Nodup
  singles : (accepted.map (·.recordId) ++ reserved.map (·.recordId)).Nodup
  apart : ∀ i ∈ manual.map (·.leftId) ++ manual.map (·.rightId),
    i ∉ accepted.map (·.recordId) ++ reserved.map (·.recordId)
  edges : (rejected.map fun r => edgeText r.edge).Nodup

theorem createDecisionInputs_ok :
    (∃ d, createDecisionInputs manual accepted rejected reserved = .ok d) ↔
      Valid manual accepted rejected reserved := by
  have hm := sortOn_perm Relationship.order manual
  have ha := sortOn_perm SingleReservation.order accepted
  have hj := sortOn_perm Relationship.order rejected
  have hr := sortOn_perm SingleReservation.order reserved
  have hdecisions := ((((hm.map (·.decisionId)).append (ha.map (·.decisionId))).append
    (hj.map (·.decisionId))).append (hr.map (·.decisionId))).nodup_iff
  have hsingles := ((ha.map (·.recordId)).append (hr.map (·.recordId)))
  have hmanual := (hm.map (·.leftId)).append (hm.map (·.rightId))
  constructor
  · intro h
    obtain ⟨d, h⟩ := h
    simp only [createDecisionInputs, bind_ok] at h
    obtain ⟨h1, _, h2, _, h3, _, h4, _, h5, _, h6, _⟩ := h
    exact ⟨hdecisions.mp h1.down, (nodup_map_sortOn _ _ _).mp h2.down,
      (nodup_map_sortOn _ _ _).mp h3.down, hsingles.nodup_iff.mp h4.down,
      fun i hi hs => h5.down i (hmanual.mem_iff.mpr hi) (hsingles.mem_iff.mpr hs),
      (nodup_map_sortOn _ _ _).mp h6.down⟩
  · intro h
    have h5 : ∀ i ∈ (sortOn Relationship.order manual).map (·.leftId) ++
        (sortOn Relationship.order manual).map (·.rightId),
        i ∉ (sortOn SingleReservation.order accepted).map (·.recordId) ++
          (sortOn SingleReservation.order reserved).map (·.recordId) :=
      fun i hi hs => h.apart i (hmanual.mem_iff.mp hi) (hsingles.mem_iff.mp hs)
    unfold createDecisionInputs
    simp only [check_true (hdecisions.mpr h.decisions),
      check_true ((nodup_map_sortOn _ _ _).mpr h.left),
      check_true ((nodup_map_sortOn _ _ _).mpr h.right),
      check_true (hsingles.nodup_iff.mpr h.singles), check_true h5,
      check_true ((nodup_map_sortOn _ _ _).mpr h.edges), ok_bind]
    exact ⟨_, rfl⟩

end Checks

end Workbench.FrozenDecisions
