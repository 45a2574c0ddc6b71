import Workbench.References
import Workbench.Flood
import Workbench.Json
import Mathlib.Order.WithBot

/-!
# Bounded candidate generation

Every blocking pass groups the remaining records of both sides by a key and
joins the groups that share one, inside a time window when the pass has one.
Caps bound what is kept. A partition that a cap cuts short is marked, and so
is every partition connected to it through a common record.
-/

set_option autoImplicit false

namespace Workbench.Candidates
open Workbench.Listing Workbench.Calendar Workbench.Raising Workbench.Records
open Workbench.Evidence Workbench.References Workbench.Json

inductive CandidateLimitReason where
  | perRecordLimit
  | runEdgeLimit
  | connectedToIncompletePartition
deriving DecidableEq

structure CandidateEdge where
  leftId : String
  rightId : String
  blockingReasons : List String
deriving DecidableEq

def CandidateEdge.edge (c : CandidateEdge) : Edge := (c.leftId, c.rightId)

def CandidateEdge.create (c : CandidateEdge) : Outcome CandidateEdge := do
  require (nonblank c.leftId = true) "candidate edge left_id must be nonblank text"
  require (nonblank c.rightId = true) "candidate edge right_id must be nonblank text"
  require (c.blockingReasons ≠ [] ∧ ∀ s ∈ c.blockingReasons, nonblank s = true)
    "candidate edge requires nonblank blocking reasons"
  return { c with blockingReasons := sortedSet c.blockingReasons }

structure CandidatePartitionEvidence where
  partitionId : String
  blockingPass : String
  leftIds : List String
  rightIds : List String
  enumeratedEdgeCount : ℕ
  complete : Bool
  limitReason : Option CandidateLimitReason
deriving DecidableEq

def CandidatePartitionEvidence.members (p : CandidatePartitionEvidence) : List String :=
  p.leftIds ++ p.rightIds

def CandidatePartitionEvidence.create (p : CandidatePartitionEvidence) :
    Outcome CandidatePartitionEvidence := do
  require (nonblank p.partitionId = true) "candidate partition partition_id must be nonblank text"
  require (nonblank p.blockingPass = true)
    "candidate partition blocking_pass must be nonblank text"
  require (p.leftIds ≠ [] ∧ p.rightIds ≠ []) "candidate partition requires records on both sides"
  require (p.leftIds.Nodup ∧ p.rightIds.Nodup) "candidate partition identities must be unique"
  require (¬(p.complete = true ∧ p.limitReason ≠ none))
    "a complete candidate partition cannot have a limit reason"
  require (¬(p.complete = false ∧ p.limitReason = none))
    "an incomplete candidate partition requires a limit reason"
  return { p with leftIds := sortOn id p.leftIds, rightIds := sortOn id p.rightIds }

structure CandidateGenerationResult where
  candidates : List CandidateEdge
  partitions : List CandidatePartitionEvidence
  limitedRecordIds : List String
  complete : Bool
deriving DecidableEq

def limitedIds (partitions : List CandidatePartitionEvidence) : List String :=
  (partitions.filter (!·.complete)).flatMap (·.members)

def CandidateGenerationResult.create (g : CandidateGenerationResult) :
    Outcome CandidateGenerationResult := do
  require (g.candidates.map (·.edge)).Nodup "candidate generation edges must be unique"
  require (g.partitions.map (·.partitionId)).Nodup
    "candidate partition identities must be unique"
  require g.limitedRecordIds.Nodup "limited record identities must be unique"
  require (SameMembers g.limitedRecordIds (limitedIds g.partitions))
    "limited identities must equal the members of incomplete partitions"
  require (g.complete = g.partitions.all (·.complete))
    "candidate generation completeness must match its partitions"
  return { g with
    candidates := sortOn (fun c => edgeOrder c.edge) g.candidates
    partitions := sortOn (·.partitionId) g.partitions
    limitedRecordIds := sortOn id g.limitedRecordIds }

abbrev Key := Option String × Option String × Option String × Option String

/-- The key a record is grouped under; a record that lacks a required value
is in no group. -/
def blockingKey (pass : BlockingPassPolicy) (r : MatchRecord) : Option Key :=
  if pass.timeWindow.isSome ∧ r.executedAt = none then none
  else if pass.requireInstrument ∧ r.instrument = none then none
  else if pass.requireSide ∧ r.side = none then none
  else if pass.requireCurrency ∧ r.currency = none then none
  else if pass.useSharedAlias ∧ r.sharedReferenceAlias = none then none
  else some (if pass.requireInstrument then r.instrument else none,
    if pass.requireSide then r.side.map (·.value) else none,
    if pass.requireCurrency then r.currency else none,
    if pass.useSharedAlias then r.sharedReferenceAlias else none)

def groupOrder (pass : BlockingPassPolicy) (r : MatchRecord) : WithBot Instant ×ₗ String :=
  toLex (if pass.timeWindow.isSome then r.executedAt else none, r.observationId)

def group (pass : BlockingPassPolicy) (records : List MatchRecord) (key : Key) :
    List MatchRecord :=
  sortOn (groupOrder pass) (records.filter (blockingKey pass · = some key))

def textOrNull : Option String → Value
  | some s => .text s
  | none => .null

def keyValue (key : Key) : Value :=
  .array [textOrNull key.1, textOrNull key.2.1, textOrNull key.2.2.1, textOrNull key.2.2.2]

def keySortValue (key : Key) : String := dumps (keyValue key)

def sharedKeys (pass : BlockingPassPolicy) (left right : List MatchRecord) : List Key :=
  sortOn keySortValue ((left.filterMap (blockingKey pass)).dedup.filter
    (· ∈ right.filterMap (blockingKey pass)))

def requiredTime (r : MatchRecord) : Outcome Instant :=
  match r.executedAt with
  | some t => .ok t
  | none => .error (.domainValidation "candidate partition record is missing executed_at")

def blockingReason (pass : BlockingPassPolicy) : String := pass.passId ++ "@" ++ pass.version

def partitionPayload (reason : String) (key : Key) : String :=
  dumps (.object [("blocking_pass", .text reason), ("key", keyValue key)])

def partitionId (digest : Digest) (reason : String) (key : Key) : String :=
  "partition-" ++ digest.short (partitionPayload reason key)

structure Partition where
  partitionId : String
  blockingPass : String
  leftIds : List String
  rightIds : List String
  enumeratedEdgeCount : ℕ
  limitReason : Option CandidateLimitReason
deriving DecidableEq

def Partition.counted (p : Partition) : Partition :=
  { p with enumeratedEdgeCount := p.enumeratedEdgeCount+1 }

def Partition.limited (p : Partition) (reason : CandidateLimitReason) : Partition :=
  { p with limitReason := some reason }

structure Search where
  edges : List (Edge × List String)
  leftDegree : String → ℕ
  rightDegree : String → ℕ
  runLimited : Bool

def Search.start : Search := ⟨[], fun _ => 0, fun _ => 0, false⟩

def Search.addReason (st : Search) (e : Edge) (reason : String) : Search :=
  { st with edges := st.edges.map fun x =>
      if x.1 = e ∧ reason ∉ x.2 then (x.1, x.2 ++ [reason]) else x }

def Search.addEdge (st : Search) (e : Edge) (reason : String) : Search :=
  { st with
    edges := st.edges ++ [(e, [reason])]
    leftDegree := Function.update st.leftDegree e.1 (st.leftDegree e.1+1)
    rightDegree := Function.update st.rightDegree e.2 (st.rightDegree e.2+1) }

def bisectLeft (times : List Instant) (t : Instant) : ℕ := (times.takeWhile (· < t)).length

def bisectRight (times : List Instant) (t : Instant) : ℕ := (times.takeWhile (· ≤ t)).length

/-- The right records a left record is compared with. Moving its time by the
window may leave the range of years. -/
def span (pass : BlockingPassPolicy) (rights : List MatchRecord) (left : MatchRecord) :
    Outcome (List MatchRecord) :=
  match pass.timeWindow with
  | none => .ok rights
  | some window => do
    let times ← rights.mapM requiredTime
    let executedAt ← requiredTime left
    let low ← fetch .overflow (shift executedAt (-window.microseconds))
    let high ← fetch .overflow (shift executedAt window.microseconds)
    return (rights.drop (bisectLeft times low)).take (bisectRight times high-bisectLeft times low)

def enumerateRights (prohibited : List Edge) (limits : CapacityLimits) (reason leftId : String) :
    List MatchRecord → Search → Partition → Search × Partition × Bool
  | [], st, p => (st, p, false)
  | right::rest, st, p =>
    if (leftId, right.observationId) ∈ prohibited then
      enumerateRights prohibited limits reason leftId rest st p
    else if (leftId, right.observationId) ∈ st.edges.map Prod.fst then
      enumerateRights prohibited limits reason leftId rest
        (st.addReason (leftId, right.observationId) reason) p.counted
    else if limits.maxCandidatesPerRecord ≤ st.leftDegree leftId ∨
        limits.maxCandidatesPerRecord ≤ st.rightDegree right.observationId then
      (st, p.limited .perRecordLimit, true)
    else if limits.maxRunCandidateEdges ≤ st.edges.length then
      ({ st with runLimited := true }, p.limited .runEdgeLimit, true)
    else
      enumerateRights prohibited limits reason leftId rest
        (st.addEdge (leftId, right.observationId) reason) p.counted

def enumerateLefts (prohibited : List Edge) (limits : CapacityLimits)
    (pass : BlockingPassPolicy) (rights : List MatchRecord) :
    List MatchRecord → Search → Partition → Outcome (Search × Partition)
  | [], st, p => .ok (st, p)
  | left::rest, st, p => do
    let near ← span pass rights left
    let (st, p, stop) := enumerateRights prohibited limits (blockingReason pass)
      left.observationId near st p
    if stop then .ok (st, p) else enumerateLefts prohibited limits pass rights rest st p

def freshPartition (digest : Digest) (pass : BlockingPassPolicy) (key : Key)
    (lefts rights : List MatchRecord) : Partition :=
  ⟨partitionId digest (blockingReason pass) key, blockingReason pass, ids lefts, ids rights, 0,
    none⟩

def prohibitedEdges (pre : ReferencePreprocessingResult) : List Edge :=
  pre.prohibitedRelationships.map (·.edge)

def searchPartition (digest : Digest) (pre : ReferencePreprocessingResult)
    (limits : CapacityLimits) (pass : BlockingPassPolicy) (acc : Search × List Partition)
    (key : Key) : Outcome (Search × List Partition) :=
  let lefts := group pass pre.remainingLeft key
  let rights := group pass pre.remainingRight key
  let partition := freshPartition digest pass key lefts rights
  if acc.1.runLimited then .ok (acc.1, acc.2 ++ [partition.limited .runEdgeLimit])
  else do
    let (st, p) ← enumerateLefts (prohibitedEdges pre) limits pass rights lefts acc.1 partition
    return (st, acc.2 ++ [p])

def searchPass (digest : Digest) (pre : ReferencePreprocessingResult) (limits : CapacityLimits)
    (acc : Search × List Partition) (pass : BlockingPassPolicy) :
    Outcome (Search × List Partition) :=
  (sharedKeys pass pre.remainingLeft pre.remainingRight).foldlM
    (searchPartition digest pre limits pass) acc

def search (digest : Digest) (pre : ReferencePreprocessingResult) (policy : MatchingPolicy) :
    Outcome (Search × List Partition) :=
  policy.blockingPasses.foldlM (searchPass digest pre policy.limits) (Search.start, [])

def Partition.members (p : Partition) : List String := p.leftIds ++ p.rightIds

def touching (partitions : List Partition) (i : ℕ) : List ℕ :=
  (List.range partitions.length).filter fun j =>
    match partitions[i]?, partitions[j]? with
    | some p, some q => p.members.any (· ∈ q.members)
    | _, _ => false

def limitedIndices (partitions : List Partition) : List ℕ :=
  (List.range partitions.length).filter fun i =>
    match partitions[i]? with
    | some p => p.limitReason.isSome
    | none => false

def connectedIndices (partitions : List Partition) : List ℕ :=
  Flood.flood (touching partitions)
    ((limitedIndices partitions).length+Flood.budget (touching partitions)
      (List.range partitions.length)) (limitedIndices partitions) []

def propagateIncompletePartitions (partitions : List Partition) : List Partition :=
  partitions.zipIdx.map fun x =>
    if x.1.limitReason = none ∧ x.2 ∈ connectedIndices partitions then
      x.1.limited .connectedToIncompletePartition
    else x.1

def partitionEvidence (p : Partition) : Outcome CandidatePartitionEvidence :=
  CandidatePartitionEvidence.create ⟨p.partitionId, p.blockingPass, p.leftIds, p.rightIds,
    p.enumeratedEdgeCount, p.limitReason.isNone, p.limitReason⟩

def candidateEdge (x : Edge × List String) : Outcome CandidateEdge :=
  CandidateEdge.create ⟨x.1.1, x.1.2, x.2⟩

def generateCandidates (digest : Digest) (pre : ReferencePreprocessingResult)
    (policy : MatchingPolicy) : Outcome CandidateGenerationResult := do
  let (st, partitions) ← search digest pre policy
  let evidence ← (propagateIncompletePartitions partitions).mapM partitionEvidence
  let candidates ← st.edges.mapM candidateEdge
  CandidateGenerationResult.create {
    candidates := candidates
    partitions := evidence
    limitedRecordIds := (limitedIds evidence).dedup
    complete := evidence.all (·.complete) }

end Workbench.Candidates
