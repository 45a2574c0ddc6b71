import Workbench.Totality
import Workbench.Overrides

/-!
# Runs that do not read a value

A map of records that changes no value a stage reads changes nothing that the
stage returns, but for the records it passes on. Under a policy that matches
shared aliases the stages up to the pairing never read a reference value.
-/

set_option autoImplicit false

namespace Workbench.Blinded
open Workbench.Listing Workbench.Raising Workbench.Calendar Workbench.Records Workbench.Evidence
open Workbench.References Workbench.Candidates Workbench.Scoring Workbench.Assignment
open Workbench.Gating Workbench.Diagnostics Workbench.Engine Workbench.Results
open Workbench.Comparison Workbench.Reconciled Workbench.Json

structure Blind (f : MatchRecord → MatchRecord) : Prop where
  observationId : ∀ r, (f r).observationId = r.observationId
  state : ∀ r, (f r).state = r.state
  instrument : ∀ r, (f r).instrument = r.instrument
  side : ∀ r, (f r).side = r.side
  currency : ∀ r, (f r).currency = r.currency
  quantity : ∀ r, (f r).quantity = r.quantity
  executedAt : ∀ r, (f r).executedAt = r.executedAt
  unitPrice : ∀ r, (f r).unitPrice = r.unitPrice
  grossAmount : ∀ r, (f r).grossAmount = r.grossAmount
  sharedReferenceAlias : ∀ r, (f r).sharedReferenceAlias = r.sharedReferenceAlias

theorem sortOn_map {α β κ : Type*} [LinearOrder κ] {k : β → κ} {k' : α → κ} {f : α → β}
    (h : ∀ a, k (f a) = k' a) (l : List α) : sortOn k (l.map f) = (sortOn k' l).map f := by
  refine (List.map_insertionSort (fun a b => k' a ≤ k' b) (fun a b => k a ≤ k b) f l ?_).symm
  intro a _ b _
  rw [h, h]

theorem lookup_map {α κ : Type*} [DecidableEq κ] {k : α → κ} {f : α → α}
    (h : ∀ a, k (f a) = k a) (l : List α) (x : κ) :
    lookup k (l.map f) x = (lookup k l x).map f := by
  unfold lookup
  rw [List.find?_map]
  congr 1
  exact congrArg (fun p => l.find? p) (funext fun a => by simp only [Function.comp, h])

theorem filter_map {α : Type*} {p : α → Bool} {f : α → α} (h : ∀ a, p (f a) = p a)
    (l : List α) : (l.map f).filter p = (l.filter p).map f := by
  rw [List.filter_map]
  exact congrArg (fun q => (l.filter q).map f) (funext h)

theorem foldlM_map_same {ε α σ : Type} {step : σ → α → Except ε σ} {f : α → α}
    (h : ∀ st a, step st (f a) = step st a) (l : List α) (st : σ) :
    (l.map f).foldlM step st = l.foldlM step st := by
  rw [List.foldlM_map]
  exact congrArg (fun g => l.foldlM g st) (funext fun st => funext (h st))

theorem mapM_mapped {ε α β : Type} {f g : α → Except ε β} {k : β → β} {l : List α} {m : List β}
    (h : l.mapM f = .ok m) (hk : ∀ a ∈ l, ∀ b, f a = .ok b → g a = .ok (k b)) :
    l.mapM g = .ok (m.map k) := by
  have h2 := mapM_ok.mp h
  clear h
  induction h2 with
  | nil => rfl
  | @cons x y l m hxy _ ih =>
    have htail := ih fun a ha => hk a (List.mem_cons_of_mem x ha)
    rw [List.mapM_cons, hk x List.mem_cons_self y hxy, htail]
    rfl

section Blinding
variable {f : MatchRecord → MatchRecord} (hf : Blind f)

include hf

theorem ids_map (l : List MatchRecord) : ids (l.map f) = ids l := by
  rw [ids, ids, List.map_map]
  exact List.map_congr_left fun r _ => hf.observationId r

theorem eligible_map (r : MatchRecord) : (f r).eligible = r.eligible := by
  rw [MatchRecord.eligible, MatchRecord.eligible, hf.state]

theorem blindSorted (s : EngineSnapshot) (side : RecordSide) :
    (ids ((s.records side).map f)).Pairwise (· < ·) := by
  rw [ids_map hf]
  exact s.sorted side

theorem blindApart (s : EngineSnapshot) : ∀ i ∈ ids (s.left.map f), i ∉ ids (s.right.map f) := by
  rw [ids_map hf, ids_map hf]
  exact s.apart

omit hf in
def blindSnapshot (f : MatchRecord → MatchRecord) (hf : Blind f) (s : EngineSnapshot) :
    EngineSnapshot :=
  { s with
    left := s.left.map f
    right := s.right.map f
    left_sorted := blindSorted hf s .left
    right_sorted := blindSorted hf s .right
    apart := blindApart hf s }

omit hf in
def blindResult (f : MatchRecord → MatchRecord) (p : ReferencePreprocessingResult) :
    ReferencePreprocessingResult :=
  { p with
    remainingLeft := p.remainingLeft.map f
    remainingRight := p.remainingRight.map f }

theorem referenceKey_map (r : MatchRecord) :
    referenceKey .sourceLocalOrAlias (f r) = referenceKey .sourceLocalOrAlias r :=
  hf.sharedReferenceAlias r

theorem referenceIndex_map (l : List MatchRecord) :
    referenceIndex .sourceLocalOrAlias (l.map f) = referenceIndex .sourceLocalOrAlias l := by
  funext key
  unfold referenceIndex
  rw [filter_map fun r => by rw [referenceKey_map hf], ids_map hf]

theorem referenceKeys_map (l : List MatchRecord) :
    referenceKeys .sourceLocalOrAlias (l.map f) = referenceKeys .sourceLocalOrAlias l := by
  unfold referenceKeys
  rw [List.filterMap_map]
  exact congrArg (fun g => l.filterMap g) (funext (referenceKey_map hf))

theorem excludeCancelled_map (side : RecordSide) (st : Reservation) (r : MatchRecord) :
    excludeCancelled side st (f r) = excludeCancelled side st r := by
  unfold excludeCancelled
  rw [eligible_map hf, hf.observationId]

theorem reserveDecisions_map (s : EngineSnapshot) (d : DecisionInputs) :
    reserveDecisions (blindSnapshot f hf s) d = reserveDecisions s d := by
  simp only [reserveDecisions, blindSnapshot, ids_map hf,
    foldlM_map_same (excludeCancelled_map hf _)]

theorem ordered_map (p : ReferencePreprocessingResult) :
    (blindResult f p).ordered = blindResult f p.ordered := by
  simp only [ReferencePreprocessingResult.ordered, blindResult, sortOn_map hf.observationId]

theorem create_map (p : ReferencePreprocessingResult) :
    (blindResult f p).create = blindResult f <$> p.create := by
  simp only [ReferencePreprocessingResult.create, partUnique, ordered_map hf, map_bind, map_pure]
  simp only [blindResult, ids_map hf]
  rfl

theorem kept_map (l : List MatchRecord) (taken : List String) :
    (l.map f).filter (fun r => decide (r.observationId ∈ taken)) =
      (l.filter fun r => decide (r.observationId ∈ taken)).map f :=
  filter_map (fun r => by rw [hf.observationId]) l

theorem collect_map (s : EngineSnapshot) (st : Reservation)
    (prohibited : List ProhibitedRelationship) (conflicts : List ReferenceConflict) :
    collect (blindSnapshot f hf s) st prohibited conflicts =
      blindResult f (collect s st prohibited conflicts) := by
  simp only [collect, blindSnapshot, blindResult, ids_map hf, kept_map hf]

theorem preprocess_map (s : EngineSnapshot) (d : DecisionInputs) :
    preprocessReferences (blindSnapshot f hf s) d .sourceLocalOrAlias =
      blindResult f <$> preprocessReferences s d .sourceLocalOrAlias := by
  have hleft : ids (blindSnapshot f hf s).left = ids s.left := ids_map hf s.left
  have hright : ids (blindSnapshot f hf s).right = ids s.right := ids_map hf s.right
  have horientation : validateRelationshipOrientation (blindSnapshot f hf s) d =
      validateRelationshipOrientation s d := by
    simp only [validateRelationshipOrientation, hleft, hright]
  have hprohibited : prohibitedRelationships (blindSnapshot f hf s) d =
      prohibitedRelationships s d := by
    simp only [prohibitedRelationships, hleft, hright]
  simp only [preprocessReferences, horientation, reserveDecisions_map hf, hprohibited,
    collect_map hf, create_map hf, map_bind]
  simp only [blindSnapshot, kept_map hf, referenceIndex_map hf, referenceKeys_map hf]

theorem blockingKey_map (pass : BlockingPassPolicy) (r : MatchRecord) :
    blockingKey pass (f r) = blockingKey pass r := by
  simp only [blockingKey, hf.executedAt, hf.instrument, hf.side, hf.currency,
    hf.sharedReferenceAlias]

theorem group_map (pass : BlockingPassPolicy) (l : List MatchRecord) (key : Key) :
    group pass (l.map f) key = (group pass l key).map f := by
  have horder : ∀ r, groupOrder pass (f r) = groupOrder pass r := by
    intro r
    rw [groupOrder, groupOrder, hf.executedAt, hf.observationId]
  unfold group
  rw [filter_map (fun r => by rw [blockingKey_map hf]), sortOn_map horder]

theorem sharedKeys_map (pass : BlockingPassPolicy) (left right : List MatchRecord) :
    sharedKeys pass (left.map f) (right.map f) = sharedKeys pass left right := by
  have hkeys : ∀ l : List MatchRecord,
      (l.map f).filterMap (blockingKey pass) = l.filterMap (blockingKey pass) := by
    intro l
    rw [List.filterMap_map]
    exact congrArg (fun g => l.filterMap g) (funext (blockingKey_map hf pass))
  rw [sharedKeys, sharedKeys, hkeys, hkeys]

theorem span_map (pass : BlockingPassPolicy) (rights : List MatchRecord) (left : MatchRecord) :
    span pass (rights.map f) (f left) = List.map f <$> span pass rights left := by
  have htime : ∀ r, requiredTime (f r) = requiredTime r := by
    intro r
    rw [requiredTime, requiredTime, hf.executedAt]
  have htimes : (rights.map f).mapM requiredTime = rights.mapM requiredTime := by
    rw [List.mapM_map]
    exact congrArg (fun g => rights.mapM g) (funext htime)
  unfold span
  cases pass.timeWindow with
  | none => rfl
  | some window =>
    simp only [htimes, htime, map_bind, map_pure, List.map_take, List.map_drop]

theorem enumerateRights_map (prohibited : List Edge) (limits : CapacityLimits)
    (reason leftId : String) (rights : List MatchRecord) (st : Search) (p : Partition) :
    enumerateRights prohibited limits reason leftId (rights.map f) st p =
      enumerateRights prohibited limits reason leftId rights st p := by
  induction rights generalizing st p with
  | nil => rfl
  | cons r rest ih => simp only [List.map_cons, enumerateRights, hf.observationId, ih]

theorem enumerateLefts_map (prohibited : List Edge) (limits : CapacityLimits)
    (pass : BlockingPassPolicy) (rights lefts : List MatchRecord) (st : Search) (p : Partition) :
    enumerateLefts prohibited limits pass (rights.map f) (lefts.map f) st p =
      enumerateLefts prohibited limits pass rights lefts st p := by
  induction lefts generalizing st p with
  | nil => rfl
  | cons l rest ih =>
    simp only [List.map_cons, enumerateLefts, span_map hf, hf.observationId]
    cases span pass rights l with
    | error e => rfl
    | ok near =>
      simp only [Functor.map, Except.map, bind, Except.bind, enumerateRights_map hf, ih]

theorem generate_map (digest : Digest) (pre : ReferencePreprocessingResult)
    (policy : MatchingPolicy) :
    generateCandidates digest (blindResult f pre) policy =
      generateCandidates digest pre policy := by
  have hpartition : ∀ pass, searchPartition digest (blindResult f pre) policy.limits pass =
      searchPartition digest pre policy.limits pass := by
    intro pass
    funext acc key
    simp only [searchPartition, blindResult, group_map hf, freshPartition, ids_map hf,
      enumerateLefts_map hf, prohibitedEdges]
  have hpass : searchPass digest (blindResult f pre) policy.limits =
      searchPass digest pre policy.limits := by
    funext acc pass
    rw [searchPass, searchPass, hpartition]
    simp only [blindResult, sharedKeys_map hf]
  simp only [generateCandidates, search, hpass]

theorem features_map (left right : MatchRecord) (policy : MatchingPolicy) :
    features (f left) (f right) policy = features left right policy := by
  simp only [features, hf.quantity, hf.executedAt, hf.unitPrice, hf.grossAmount]

theorem contradictions_map (left right : MatchRecord) :
    contradictions (f left) (f right) .sourceLocalOrAlias =
      contradictions left right .sourceLocalOrAlias := by
  simp only [contradictions, hf.instrument, hf.side, hf.currency, hf.sharedReferenceAlias]

theorem coverageFailures_map (left right : MatchRecord) :
    coverageFailures (f left) (f right) = coverageFailures left right := by
  simp only [coverageFailures, hf.instrument, hf.side, hf.currency, hf.quantity, hf.executedAt,
    hf.unitPrice, hf.grossAmount]

theorem scoreCandidate_map (left right : MatchRecord) (reasons : List String) (complete : Bool)
    {policy : MatchingPolicy} (hc : policy.referenceContract = .sourceLocalOrAlias) :
    scoreCandidate (f left) (f right) reasons complete policy =
      scoreCandidate left right reasons complete policy := by
  rw [scoreCandidate, scoreCandidate, hc, features_map hf, contradictions_map hf,
    coverageFailures_map hf, hf.observationId, hf.observationId]

theorem scoreCandidates_map (pre : ReferencePreprocessingResult) (g : CandidateGenerationResult)
    {policy : MatchingPolicy} (hc : policy.referenceContract = .sourceLocalOrAlias) :
    scoreCandidates (blindResult f pre) g policy = scoreCandidates pre g policy := by
  have hedge : scoreEdge (blindResult f pre) g.limitedRecordIds policy =
      scoreEdge pre g.limitedRecordIds policy := by
    funext x
    simp only [scoreEdge, blindResult, lookup_map hf.observationId]
    cases lookup (·.observationId) pre.remainingLeft x.leftId with
    | none => rfl
    | some l =>
      cases lookup (·.observationId) pre.remainingRight x.rightId with
      | none => rfl
      | some r => simp only [Option.map_some, scoreCandidate_map hf l r _ _ hc]
  rw [scoreCandidates, scoreCandidates, hedge]

theorem automaticUnpaired_map (cs : List CandidateEvidence)
    (prohibited : List ProhibitedRelationship) (limited : List String) (floorBp : ℕ)
    (side : RecordSide) (r : MatchRecord) :
    automaticUnpaired cs prohibited limited floorBp side (f r) =
      automaticUnpaired cs prohibited limited floorBp side r := by
  simp only [automaticUnpaired, hf.observationId]

theorem unpairedOutcomes_map (pre : ReferencePreprocessingResult) (cs : List CandidateEvidence)
    (limited : List String) (floorBp : ℕ) (pairs : List PairOutcome) :
    unpairedOutcomes (blindResult f pre) cs limited floorBp pairs =
      unpairedOutcomes pre cs limited floorBp pairs := by
  have hleftover : ∀ side, leftover (blindResult f pre) pairs side =
      (leftover pre pairs side).map f := by
    intro side
    cases side
    · exact filter_map (fun r => by rw [hf.observationId]) pre.remainingLeft
    · exact filter_map (fun r => by rw [hf.observationId]) pre.remainingRight
  have hautomatic : ∀ side (l : List MatchRecord),
      (l.map f).mapM (automaticUnpaired cs pre.prohibitedRelationships limited floorBp side) =
        l.mapM (automaticUnpaired cs pre.prohibitedRelationships limited floorBp side) := by
    intro side l
    rw [List.mapM_map]
    exact congrArg (fun g => l.mapM g)
      (funext (automaticUnpaired_map hf cs _ limited floorBp side))
  have hprohibited : (blindResult f pre).prohibitedRelationships = pre.prohibitedRelationships :=
    rfl
  have hterminal : (blindResult f pre).terminalUnpaired = pre.terminalUnpaired := rfl
  simp only [unpairedOutcomes, hleftover, hprohibited, hterminal, hautomatic]

theorem comparePairFields_map (left right : MatchRecord) (origin : PairOrigin)
    (policy : ComparisonPolicy) :
    comparePairFields (f left) (f right) origin policy .sourceLocalOrAlias =
      comparePairFields left right origin policy .sourceLocalOrAlias := by
  simp only [comparePairFields, referenceComparison, referenceKey_map hf, hf.instrument, hf.side,
    hf.quantity, hf.executedAt, hf.unitPrice, hf.grossAmount, hf.currency, hf.state]

theorem comparePair_map (s : EngineSnapshot) {mp : MatchingPolicy} (cp : ComparisonPolicy)
    (hc : mp.referenceContract = .sourceLocalOrAlias) :
    comparePair (blindSnapshot f hf s) mp cp = comparePair s mp cp := by
  funext p
  simp only [comparePair, blindSnapshot, lookup_map hf.observationId, hc]
  cases lookup (·.observationId) s.left p.leftId with
  | none => rfl
  | some l =>
    cases lookup (·.observationId) s.right p.rightId with
    | none => rfl
    | some r => simp only [Option.map_some, comparePairFields_map hf]

theorem opposite_map (s : EngineSnapshot) (side : RecordSide) :
    opposite (blindSnapshot f hf s) side = (opposite s side).map f := by
  cases side
  · exact filter_map (eligible_map hf) s.right
  · exact filter_map (eligible_map hf) s.left

omit hf in
theorem diagnosticRecords_map (record : MatchRecord) (side : RecordSide)
    (others : List MatchRecord) (t : RecordSide) :
    diagnosticRecords (f record) side (others.map f) t =
      (diagnosticRecords record side others t).map f := by
  unfold diagnosticRecords
  split <;> rfl

theorem diagnosticPreprocessing_map (record : MatchRecord) (side : RecordSide)
    (others : List MatchRecord) (prohibited : List ProhibitedRelationship) :
    diagnosticPreprocessing (f record) side (others.map f) prohibited =
      blindResult f <$> diagnosticPreprocessing record side others prohibited := by
  have hinput : diagnosticInput (f record) side (others.map f) prohibited =
      blindResult f (diagnosticInput record side others prohibited) := by
    simp only [diagnosticInput, blindResult, diagnosticRecords_map, ids_map hf]
  rw [diagnosticPreprocessing, diagnosticPreprocessing, hinput, create_map hf]

theorem acceptedRecord_map (s : EngineSnapshot) (i : String) :
    acceptedRecord (blindSnapshot f hf s) i =
      ((acceptedRecord s i).1, (acceptedRecord s i).2.map f) := by
  simp only [acceptedRecord, blindSnapshot, lookup_map hf.observationId]
  cases lookup (·.observationId) s.left i with
  | some l => rfl
  | none =>
    cases lookup (·.observationId) s.right i with
    | some r => rfl
    | none => rfl

theorem diagnoseRecord_map (digest : Digest) (s : EngineSnapshot) (d : DecisionInputs)
    {mp : MatchingPolicy} (hc : mp.referenceContract = .sourceLocalOrAlias)
    (pairs : List PairOutcome) (side : RecordSide) (record : MatchRecord) (acc : Diagnosis)
    (h : 0 < acc.remainingRunEdges) :
    diagnoseRecord digest (blindSnapshot f hf s) d mp pairs side (f record) acc h =
      diagnoseRecord digest s d mp pairs side record acc h := by
  have hprohibited : prohibitedRelationships (blindSnapshot f hf s) d =
      prohibitedRelationships s d := by
    simp only [prohibitedRelationships, blindSnapshot, ids_map hf]
  have hlimits : ∀ limits, (mp.withLimits limits).referenceContract = .sourceLocalOrAlias :=
    fun _ => hc
  simp only [diagnoseRecord, opposite_map hf, hprohibited, diagnosticPreprocessing_map hf,
    hf.observationId]
  cases diagnosticPreprocessing record side (opposite s side) (prohibitedRelationships s d) with
  | error e => rfl
  | ok pre =>
    simp only [Functor.map, Except.map, ok_bind, generate_map hf,
      scoreCandidates_map hf _ _ (hlimits _)]

theorem diagnoseAcceptedUnmatched_map (digest : Digest) (s : EngineSnapshot) (d : DecisionInputs)
    {mp : MatchingPolicy} (hc : mp.referenceContract = .sourceLocalOrAlias)
    (pairs : List PairOutcome) :
    diagnoseAcceptedUnmatched digest (blindSnapshot f hf s) d mp pairs =
      diagnoseAcceptedUnmatched digest s d mp pairs := by
  have hstep : diagnoseAccepted digest (blindSnapshot f hf s) d mp pairs =
      diagnoseAccepted digest s d mp pairs := by
    funext acc accepted
    unfold diagnoseAccepted
    rw [acceptedRecord_map hf]
    rcases acceptedRecord s accepted.recordId with ⟨side, _ | record⟩
    · rfl
    · simp only [Option.map_some, eligible_map hf, diagnoseRecord_map hf digest s d hc]
  rw [diagnoseAcceptedUnmatched, diagnoseAcceptedUnmatched, hstep]

theorem acceptPair_map (s : EngineSnapshot) {mp : MatchingPolicy} (cp : ComparisonPolicy)
    (hc : mp.referenceContract = .sourceLocalOrAlias) :
    acceptPair (blindSnapshot f hf s) mp cp = acceptPair s mp cp := by
  funext p
  rw [acceptPair, acceptPair, comparePair_map hf s cp hc]

/-- Under a policy that matches shared aliases a run depends on no reference
value. -/
theorem reconcile_blind (digest : Digest) (s : EngineSnapshot) {mp : MatchingPolicy}
    (cp : ComparisonPolicy) (d : DecisionInputs) (solver : AssignmentSolver)
    (hc : mp.referenceContract = .sourceLocalOrAlias) :
    reconcile digest (blindSnapshot f hf s) mp cp d solver = reconcile digest s mp cp d solver := by
  have hprimary : ∀ cs components pairs unpaired,
      primaryResult (blindSnapshot f hf s) mp cp cs components pairs unpaired =
        primaryResult s mp cp cs components pairs unpaired := by
    intro cs components pairs unpaired
    simp only [primaryResult, blindSnapshot, ids_map hf]
  have hpairs : ∀ pre, (blindResult f pre).pairs = pre.pairs := fun _ => rfl
  simp only [reconcile, hc, preprocess_map hf, bind_map_left, comparePair_map hf s cp hc,
    acceptPair_map hf s cp hc, generate_map hf, scoreCandidates_map hf _ _ hc,
    unpairedOutcomes_map hf, hprimary, diagnoseAcceptedUnmatched_map hf digest s d hc, hpairs]

end Blinding

end Workbench.Blinded
