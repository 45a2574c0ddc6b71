import Workbench.Evidence

/-!
# Reservation, exclusion and authoritative references

Cancelled records leave first, then manual links and single reservations,
then records whose trusted reference is not unique, then the pairs that a
unique trusted reference establishes. What remains is open to candidate
generation.
-/

set_option autoImplicit false

namespace Workbench.References
open Workbench.Listing Workbench.Raising Workbench.Records Workbench.Evidence

structure ReferenceConflict where
  referenceKey : String
  leftIds : List String
  rightIds : List String
deriving DecidableEq

def ReferenceConflict.create (c : ReferenceConflict) : Outcome ReferenceConflict := do
  require (nonblank c.referenceKey = true) "reference conflict key must not be blank"
  require (c.leftIds.Nodup ∧ c.rightIds.Nodup) "reference conflict identities must be unique"
  require (¬(c.leftIds.length ≤ 1 ∧ c.rightIds.length ≤ 1))
    "reference conflict requires a duplicate on at least one side"
  return { c with leftIds := sortOn id c.leftIds, rightIds := sortOn id c.rightIds }

structure ReferencePreprocessingResult where
  inputLeftIds : List String
  inputRightIds : List String
  pairs : List PairOutcome
  terminalUnpaired : List UnpairedOutcome
  remainingLeft : List MatchRecord
  remainingRight : List MatchRecord
  prohibitedRelationships : List ProhibitedRelationship
  referenceConflicts : List ReferenceConflict

def ReferencePreprocessingResult.remaining (p : ReferencePreprocessingResult) :
    RecordSide → List MatchRecord
  | .left => p.remainingLeft
  | .right => p.remainingRight

def partUnique (values : List String) (name : String) : Outcome Unit :=
  require values.Nodup ("preprocessing " ++ name ++ " identities must be unique")

def ReferencePreprocessingResult.ordered (p : ReferencePreprocessingResult) :
    ReferencePreprocessingResult where
  inputLeftIds := sortOn id p.inputLeftIds
  inputRightIds := sortOn id p.inputRightIds
  pairs := sortOn (fun q => edgeOrder q.edge) p.pairs
  terminalUnpaired := sortOn (·.order) p.terminalUnpaired
  remainingLeft := sortOn (·.observationId) p.remainingLeft
  remainingRight := sortOn (·.observationId) p.remainingRight
  prohibitedRelationships := sortOn (·.order) p.prohibitedRelationships
  referenceConflicts := sortOn (·.referenceKey) p.referenceConflicts

def ReferencePreprocessingResult.create (p : ReferencePreprocessingResult) :
    Outcome ReferencePreprocessingResult := do
  require (p.inputLeftIds.Nodup ∧ p.inputRightIds.Nodup)
    "preprocessing input identities must be unique"
  require (Apart p.inputLeftIds p.inputRightIds)
    "preprocessing input identities must be unique across sides"
  partUnique (p.pairs.map (·.leftId)) "paired left"
  partUnique (p.pairs.map (·.rightId)) "paired right"
  partUnique (on .left p.terminalUnpaired) "terminal left"
  partUnique (on .right p.terminalUnpaired) "terminal right"
  partUnique (ids p.remainingLeft) "remaining left"
  partUnique (ids p.remainingRight) "remaining right"
  require (SameMembers (p.pairs.map (·.leftId) ++ on .left p.terminalUnpaired ++
    ids p.remainingLeft) p.inputLeftIds) "preprocessing must partition every left input"
  require (SameMembers (p.pairs.map (·.rightId) ++ on .right p.terminalUnpaired ++
    ids p.remainingRight) p.inputRightIds) "preprocessing must partition every right input"
  require (Apart (p.pairs.map (·.leftId)) (on .left p.terminalUnpaired) ∧
      Apart (p.pairs.map (·.leftId)) (ids p.remainingLeft) ∧
      Apart (on .left p.terminalUnpaired) (ids p.remainingLeft) ∧
      Apart (p.pairs.map (·.rightId)) (on .right p.terminalUnpaired) ∧
      Apart (p.pairs.map (·.rightId)) (ids p.remainingRight) ∧
      Apart (on .right p.terminalUnpaired) (ids p.remainingRight))
    "preprocessing partitions cannot overlap"
  return p.ordered

structure Reservation where
  remainingLeft : List String
  remainingRight : List String
  pairs : List PairOutcome
  terminal : List UnpairedOutcome

def Reservation.remaining (st : Reservation) : RecordSide → List String
  | .left => st.remainingLeft
  | .right => st.remainingRight

def Reservation.discard (st : Reservation) (side : RecordSide) (recordId : String) :
    Reservation :=
  match side with
  | .left => { st with remainingLeft := st.remainingLeft.filter (· ≠ recordId) }
  | .right => { st with remainingRight := st.remainingRight.filter (· ≠ recordId) }

def Reservation.remove (st : Reservation) (side : RecordSide) (recordId : String) :
    Outcome Reservation :=
  if recordId ∈ st.remaining side then .ok (st.discard side recordId) else .error .missingKey

def Reservation.put (st : Reservation) (u : UnpairedOutcome) : Reservation :=
  { st with terminal := st.terminal.filter (·.recordId ≠ u.recordId) ++ [u] }

def cancelledText : String :=
  "The source marked this record cancelled, so automatic matching excluded it."

def attentionText : String :=
  "Its saved manual counterpart is absent or excluded in this snapshot; reviewer attention is required."

def acceptedText : String :=
  "A reviewer accepted this record as unmatched; it remains reserved from automatic matching."

def reservedText : String :=
  "A reviewer decision reserves this identity from automatic matching."

def duplicateText : String :=
  "This trusted reference is not unique in the current scope, so it cannot establish an authoritative pair."

def excludeCancelled (side : RecordSide) (st : Reservation) (r : MatchRecord) :
    Outcome Reservation :=
  if r.eligible then .ok st
  else do
    let u ← UnpairedOutcome.create ⟨r.observationId, side, .cancelledExcluded, cancelledText, []⟩
    return (st.put u).discard side r.observationId

def settle (side : RecordSide) (reason : UnpairedReason) (explanation : String)
    (related : List String) (st : Reservation) (recordId : String) : Outcome Reservation := do
  let u ← UnpairedOutcome.create ⟨recordId, side, reason, explanation, related⟩
  (st.put u).remove side recordId

def join (origin : PairOrigin) (st : Reservation) (leftId rightId : String) :
    Outcome Reservation := do
  let pair ← PairOutcome.create ⟨leftId, rightId, origin, none, none, []⟩
  let st ← Reservation.remove { st with pairs := st.pairs ++ [pair] } .left leftId
  st.remove .right rightId

def reserveManualLink (st : Reservation) (link : ManualLink) : Outcome Reservation :=
  if link.leftId ∈ st.remainingLeft ∧ link.rightId ∈ st.remainingRight then
    join .manual st link.leftId link.rightId
  else if link.leftId ∈ st.remainingLeft then
    settle .left .manualAttention attentionText [link.rightId] st link.leftId
  else if link.rightId ∈ st.remainingRight then
    settle .right .manualAttention attentionText [link.leftId] st link.rightId
  else .ok st

def reserveSingle (reason : UnpairedReason) (explanation : String) (st : Reservation)
    (decision : SingleReservation) : Outcome Reservation :=
  if decision.recordId ∈ st.remainingLeft then
    settle .left reason explanation [] st decision.recordId
  else if decision.recordId ∈ st.remainingRight then
    settle .right reason explanation [] st decision.recordId
  else .ok st

def referenceKey (contract : ReferenceContract) (r : MatchRecord) : Option String :=
  match contract with
  | .sharedMustAgree => r.referenceValue
  | .sourceLocalOrAlias => r.sharedReferenceAlias

def referenceIndex (contract : ReferenceContract) (records : List MatchRecord) (key : String) :
    List String :=
  sortOn id (ids (records.filter (referenceKey contract · = some key)))

def referenceKeys (contract : ReferenceContract) (records : List MatchRecord) : List String :=
  records.filterMap (referenceKey contract)

def Conflicting (left right : String → List String) (key : String) : Prop :=
  ¬((left key).length ≤ 1 ∧ (right key).length ≤ 1)

instance (left right : String → List String) (key : String) :
    Decidable (Conflicting left right key) :=
  inferInstanceAs (Decidable (¬_))

def resolveConflict (left right : String → List String)
    (acc : Reservation × List ReferenceConflict) (key : String) :
    Outcome (Reservation × List ReferenceConflict) :=
  if Conflicting left right key then do
    let conflict ← ReferenceConflict.create ⟨key, left key, right key⟩
    let all := sortOn id (left key ++ right key)
    let st ← (left key).foldlM (settle .left .duplicateReference duplicateText all) acc.1
    let st ← (right key).foldlM (settle .right .duplicateReference duplicateText all) st
    return (st, acc.2 ++ [conflict])
  else .ok acc

def establish (prohibited : List Edge) (left right : String → List String) (st : Reservation)
    (key : String) : Outcome Reservation :=
  match left key, right key with
  | [leftId], [rightId] =>
    if leftId ∈ st.remainingLeft ∧ rightId ∈ st.remainingRight ∧
        (leftId, rightId) ∉ prohibited then
      join .authoritativeReference st leftId rightId
    else .ok st
  | _, _ => .ok st

def validateRelationshipOrientation (snapshot : EngineSnapshot) (decisions : DecisionInputs) :
    Outcome Unit :=
  (decisions.manualLinks ++ decisions.rejectedRelationships).forM fun r => do
    require (r.leftId ∉ ids snapshot.right)
      ("decision " ++ r.decisionId ++ " uses a right-side record as left_id")
    require (r.rightId ∉ ids snapshot.left)
      ("decision " ++ r.decisionId ++ " uses a left-side record as right_id")

def reserveDecisions (snapshot : EngineSnapshot) (decisions : DecisionInputs) :
    Outcome Reservation := do
  let st : Reservation := ⟨ids snapshot.left, ids snapshot.right, [], []⟩
  let st ← snapshot.left.foldlM (excludeCancelled .left) st
  let st ← snapshot.right.foldlM (excludeCancelled .right) st
  let st ← decisions.manualLinks.foldlM reserveManualLink st
  let st ← decisions.acceptedUnmatched.foldlM (reserveSingle .acceptedUnmatched acceptedText) st
  decisions.reservedIdentities.foldlM (reserveSingle .reviewerReserved reservedText) st

def prohibitedRelationships (snapshot : EngineSnapshot) (decisions : DecisionInputs) :
    List ProhibitedRelationship :=
  decisions.rejectedRelationships.filter fun r =>
    r.leftId ∈ ids snapshot.left ∧ r.rightId ∈ ids snapshot.right

def collect (snapshot : EngineSnapshot) (st : Reservation)
    (prohibited : List ProhibitedRelationship) (conflicts : List ReferenceConflict) :
    ReferencePreprocessingResult where
  inputLeftIds := ids snapshot.left
  inputRightIds := ids snapshot.right
  pairs := st.pairs
  terminalUnpaired := st.terminal
  remainingLeft := snapshot.left.filter (·.observationId ∈ st.remainingLeft)
  remainingRight := snapshot.right.filter (·.observationId ∈ st.remainingRight)
  prohibitedRelationships := prohibited
  referenceConflicts := conflicts

def preprocessReferences (snapshot : EngineSnapshot) (decisions : DecisionInputs)
    (contract : ReferenceContract) : Outcome ReferencePreprocessingResult := do
  validateRelationshipOrientation snapshot decisions
  let st ← reserveDecisions snapshot decisions
  let prohibited := prohibitedRelationships snapshot decisions
  let freeLeft := snapshot.left.filter (·.observationId ∈ st.remainingLeft)
  let freeRight := snapshot.right.filter (·.observationId ∈ st.remainingRight)
  let left := referenceIndex contract freeLeft
  let right := referenceIndex contract freeRight
  let keys := sortedSet (referenceKeys contract freeLeft ++ referenceKeys contract freeRight)
  let (st, conflicts) ← keys.foldlM (resolveConflict left right) (st, [])
  let st ← keys.foldlM (establish (prohibited.map (·.edge)) left right) st
  (collect snapshot st prohibited conflicts).create

end Workbench.References
