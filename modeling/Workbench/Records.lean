import Workbench.Listing
import Workbench.Decimals
import Workbench.Calendar
import Workbench.Raising

/-!
# Records, decisions and policies

The values a reconciliation run starts from. Their constructors in the code
raise on anything that breaks an invariant and sort what is unordered; here
the invariants are fields.
-/

set_option autoImplicit false

namespace Workbench.Records
open Workbench.Listing Workbench.Decimals Workbench.Calendar Workbench.Raising

def scoreScaleBp : ℕ := 10000

def isSpace (c : Char) : Bool :=
  c.toNat ∈ [9, 10, 11, 12, 13, 28, 29, 30, 31, 32, 133, 160, 5760, 8192, 8193, 8194, 8195,
    8196, 8197, 8198, 8199, 8200, 8201, 8202, 8232, 8233, 8239, 8287, 12288]

def nonblank (s : String) : Bool := s.toList.any fun c => !isSpace c

def strip (s : String) : String :=
  String.ofList ((s.toList.dropWhile isSpace).reverse.dropWhile isSpace).reverse

theorem nonblank_append_left {s t : String} (h : nonblank s = true) : nonblank (s ++ t) = true := by
  simp only [nonblank, String.toList_append, List.any_append, Bool.or_eq_true] at h ⊢
  exact .inl h

theorem nonblank_append_right {s t : String} (h : nonblank t = true) :
    nonblank (s ++ t) = true := by
  simp only [nonblank, String.toList_append, List.any_append, Bool.or_eq_true] at h ⊢
  exact .inr h

def requiredText (value name : String) : Outcome Unit :=
  require (nonblank value) (name ++ " must be nonblank text")

def optionalText (value : Option String) (name : String) : Outcome Unit :=
  match value with
  | none => .ok ()
  | some s => requiredText s name

def unique (values : List String) (name : String) : Outcome Unit :=
  require values.Nodup (name ++ " must be unique")

inductive RecordSide where
  | left
  | right
deriving DecidableEq

def RecordSide.other : RecordSide → RecordSide
  | .left => .right
  | .right => .left

def RecordSide.value : RecordSide → String
  | .left => "LEFT"
  | .right => "RIGHT"

inductive ReferenceContract where
  | sharedMustAgree
  | sourceLocalOrAlias
deriving DecidableEq

def ReferenceContract.value : ReferenceContract → String
  | .sharedMustAgree => "SHARED_MUST_AGREE"
  | .sourceLocalOrAlias => "SOURCE_LOCAL_OR_ALIAS"

inductive CanonicalSide where
  | buy
  | sell
deriving DecidableEq

def CanonicalSide.value : CanonicalSide → String
  | .buy => "BUY"
  | .sell => "SELL"

inductive CanonicalState where
  | settled
  | cancelled
deriving DecidableEq

def CanonicalState.value : CanonicalState → String
  | .settled => "SETTLED"
  | .cancelled => "CANCELLED"

theorem CanonicalState.value_injective : Function.Injective CanonicalState.value := by
  intro a b h
  cases a <;> cases b <;> first | rfl | exact absurd h (by decide)

inductive MatchFeature where
  | quantity
  | timestamp
  | unitPrice
  | grossAmount
deriving DecidableEq

def MatchFeature.value : MatchFeature → String
  | .quantity => "QUANTITY"
  | .timestamp => "TIMESTAMP"
  | .unitPrice => "UNIT_PRICE"
  | .grossAmount => "GROSS_AMOUNT"

theorem MatchFeature.value_injective : Function.Injective MatchFeature.value := by
  intro f g h
  cases f <;> cases g <;> first | rfl | exact absurd h (by decide)

def MatchFeature.all : List MatchFeature := [.quantity, .timestamp, .unitPrice, .grossAmount]

def OptionalText (value : Option String) : Prop := ∀ s ∈ value, nonblank s = true

instance (value : Option String) : Decidable (OptionalText value) :=
  inferInstanceAs (Decidable (∀ s ∈ value, nonblank s = true))

def Nonnegative (value : Option Decimal) : Prop := ∀ d ∈ value, ofInt 0 ≤ d

instance (value : Option Decimal) : Decidable (Nonnegative value) :=
  inferInstanceAs (Decidable (∀ d ∈ value, ofInt 0 ≤ d))

structure MatchRecord where
  observationId : String
  logicalTransactionId : String
  sourceRecordKey : String
  state : CanonicalState
  instrument : Option String
  side : Option CanonicalSide
  currency : Option String
  quantity : Option Decimal
  executedAt : Option Instant
  unitPrice : Option Decimal
  grossAmount : Option Decimal
  referenceValue : Option String
  sharedReferenceAlias : Option String
  observationId_text : nonblank observationId = true
  logicalTransactionId_text : nonblank logicalTransactionId = true
  sourceRecordKey_text : nonblank sourceRecordKey = true
  instrument_text : OptionalText instrument
  currency_text : OptionalText currency
  referenceValue_text : OptionalText referenceValue
  sharedReferenceAlias_text : OptionalText sharedReferenceAlias
  quantity_nonneg : Nonnegative quantity
  unitPrice_nonneg : Nonnegative unitPrice
  grossAmount_nonneg : Nonnegative grossAmount
deriving DecidableEq

def MatchRecord.eligible (r : MatchRecord) : Bool := r.state ≠ .cancelled

def ids (records : List MatchRecord) : List String := records.map (·.observationId)

/-- The records of both sides, each sorted by its identity; no identity
occurs twice. -/
structure EngineSnapshot where
  leftRevisionId : String
  rightRevisionId : String
  left : List MatchRecord
  right : List MatchRecord
  leftRevisionId_text : nonblank leftRevisionId = true
  rightRevisionId_text : nonblank rightRevisionId = true
  left_sorted : (ids left).Pairwise (· < ·)
  right_sorted : (ids right).Pairwise (· < ·)
  apart : ∀ i ∈ ids left, i ∉ ids right

def EngineSnapshot.records (s : EngineSnapshot) : RecordSide → List MatchRecord
  | .left => s.left
  | .right => s.right

theorem nodup_of_sorted {l : List String} (h : l.Pairwise (· < ·)) : l.Nodup :=
  h.imp fun hab => ne_of_lt hab

theorem EngineSnapshot.left_nodup (s : EngineSnapshot) : (ids s.left).Nodup :=
  nodup_of_sorted s.left_sorted

theorem EngineSnapshot.right_nodup (s : EngineSnapshot) : (ids s.right).Nodup :=
  nodup_of_sorted s.right_sorted

theorem EngineSnapshot.sorted (s : EngineSnapshot) (side : RecordSide) :
    (ids (s.records side)).Pairwise (· < ·) := by
  cases side
  · exact s.left_sorted
  · exact s.right_sorted

theorem EngineSnapshot.nodup (s : EngineSnapshot) (side : RecordSide) :
    (ids (s.records side)).Nodup := nodup_of_sorted (s.sorted side)

theorem EngineSnapshot.apart_other (s : EngineSnapshot) (side : RecordSide) :
    ∀ i ∈ ids (s.records side), i ∉ ids (s.records side.other) := by
  cases side
  · exact s.apart
  · exact fun i hi hl => s.apart i hl hi

theorem EngineSnapshot.record_eq (s : EngineSnapshot) {side : RecordSide} {q r : MatchRecord}
    (hq : q ∈ s.records side) (hr : r ∈ s.records side)
    (h : q.observationId = r.observationId) : q = r :=
  List.inj_on_of_nodup_map (s.nodup side) hq hr h

/-- A decision about two records: a manual link, a rejected relationship or
the prohibition made from one. -/
structure Relationship where
  decisionId : String
  revisionId : String
  leftId : String
  rightId : String
  decisionId_text : nonblank decisionId = true
  revisionId_text : nonblank revisionId = true
  leftId_text : nonblank leftId = true
  rightId_text : nonblank rightId = true
deriving DecidableEq

abbrev ManualLink := Relationship

abbrev RejectedRelationship := Relationship

abbrev ProhibitedRelationship := Relationship

structure SingleReservation where
  decisionId : String
  revisionId : String
  recordId : String
  decisionId_text : nonblank decisionId = true
  revisionId_text : nonblank revisionId = true
  recordId_text : nonblank recordId = true
deriving DecidableEq

abbrev AcceptedUnmatched := SingleReservation

abbrev ReservedIdentity := SingleReservation

def Relationship.endId (r : Relationship) : RecordSide → String
  | .left => r.leftId
  | .right => r.rightId

def Relationship.edge (r : Relationship) : String × String := (r.leftId, r.rightId)

/-- The text that stands for an edge where edges are compared as strings. -/
def edgeText (e : String × String) : String := e.1 ++ String.ofList [Char.ofNat 0] ++ e.2

def NulFree (s : String) : Prop := Char.ofNat 0 ∉ s.toList

instance (s : String) : Decidable (NulFree s) := inferInstanceAs (Decidable (_ ∉ s.toList))

theorem append_cons_inj {α : Type} {z : α} {a b c d : List α} (ha : z ∉ a) (hc : z ∉ c)
    (h : a ++ z :: b = c ++ z :: d) : a = c ∧ b = d := by
  induction a generalizing c with
  | nil =>
    cases c with
    | nil => exact ⟨rfl, (List.cons.inj h).2⟩
    | cons y c => exact absurd (List.cons.inj h).1 (by simp at hc; tauto)
  | cons x a ih =>
    cases c with
    | nil => exact absurd (List.cons.inj h).1 (by simp at ha; tauto)
    | cons y c =>
      obtain ⟨hxy, htail⟩ := List.cons.inj h
      obtain ⟨hac, hbd⟩ := ih (by simp at ha; tauto) (by simp at hc; tauto) htail
      exact ⟨by rw [hxy, hac], hbd⟩

theorem nul_append_inj {a b c d : String} (ha : NulFree a) (hc : NulFree c)
    (h : a ++ String.ofList [Char.ofNat 0] ++ b = c ++ String.ofList [Char.ofNat 0] ++ d) :
    a = c ∧ b = d := by
  have hlist := congrArg String.toList h
  simp only [String.toList_append, String.toList_ofList, List.append_assoc, List.cons_append,
    List.nil_append] at hlist
  obtain ⟨h1, h2⟩ := append_cons_inj ha hc hlist
  exact ⟨String.toList_injective h1, String.toList_injective h2⟩

theorem edgeText_inj {e f : String × String} (he : NulFree e.1) (hf : NulFree f.1)
    (h : edgeText e = edgeText f) : e = f := by
  obtain ⟨h1, h2⟩ := nul_append_inj he hf h
  exact Prod.ext h1 h2

def Relationship.order (r : Relationship) : String ×ₗ String ×ₗ String :=
  toLex (r.leftId, toLex (r.rightId, r.decisionId))

def SingleReservation.order (r : SingleReservation) : String ×ₗ String :=
  toLex (r.recordId, r.decisionId)

structure DecisionInputs where
  manualLinks : List ManualLink
  acceptedUnmatched : List AcceptedUnmatched
  rejectedRelationships : List RejectedRelationship
  reservedIdentities : List ReservedIdentity
  manual_sorted : manualLinks.Pairwise fun a b => a.order ≤ b.order
  accepted_sorted : acceptedUnmatched.Pairwise fun a b => a.order ≤ b.order
  rejected_sorted : rejectedRelationships.Pairwise fun a b => a.order ≤ b.order
  reserved_sorted : reservedIdentities.Pairwise fun a b => a.order ≤ b.order
  decisions_unique : (manualLinks.map (·.decisionId) ++ acceptedUnmatched.map (·.decisionId) ++
    rejectedRelationships.map (·.decisionId) ++ reservedIdentities.map (·.decisionId)).Nodup
  manualLeft_unique : (manualLinks.map (·.leftId)).Nodup
  manualRight_unique : (manualLinks.map (·.rightId)).Nodup
  singles_unique : (acceptedUnmatched.map (·.recordId) ++
    reservedIdentities.map (·.recordId)).Nodup
  singles_apart : ∀ i ∈ manualLinks.map (·.leftId) ++ manualLinks.map (·.rightId),
    i ∉ acceptedUnmatched.map (·.recordId) ++ reservedIdentities.map (·.recordId)
  rejected_unique : (rejectedRelationships.map fun r => edgeText r.edge).Nodup

def DecisionInputs.manualIds (d : DecisionInputs) : List String :=
  d.manualLinks.map (·.leftId) ++ d.manualLinks.map (·.rightId)

def DecisionInputs.singleIds (d : DecisionInputs) : List String :=
  d.acceptedUnmatched.map (·.recordId) ++ d.reservedIdentities.map (·.recordId)

def DecisionInputs.rejectedEdges (d : DecisionInputs) : List (String × String) :=
  d.rejectedRelationships.map (·.edge)

/-- No relationship names a right record as its left end or a left record as
its right end. -/
def Oriented (s : EngineSnapshot) (d : DecisionInputs) : Prop :=
  ∀ r ∈ d.manualLinks ++ d.rejectedRelationships,
    r.leftId ∉ ids s.right ∧ r.rightId ∉ ids s.left

instance (s : EngineSnapshot) (d : DecisionInputs) : Decidable (Oriented s d) :=
  inferInstanceAs (Decidable (∀ r ∈ d.manualLinks ++ d.rejectedRelationships, _))

structure BlockingPassPolicy where
  passId : String
  version : String
  timeWindow : Option Duration
  requireInstrument : Bool
  requireSide : Bool
  requireCurrency : Bool
  useSharedAlias : Bool
  passId_text : nonblank passId = true
  version_text : nonblank version = true
  timeWindow_pos : ∀ w ∈ timeWindow, 0 < w.microseconds
deriving DecidableEq

structure NumericSimilarityPolicy where
  absoluteBand : Decimal
  relativeBand : Decimal
  absolute_constructible : Constructible absoluteBand
  relative_constructible : Constructible relativeBand
  absolute_nonneg : ofInt 0 ≤ absoluteBand
  relative_nonneg : ofInt 0 ≤ relativeBand
  relative_le : relativeBand ≤ ofInt 1

structure TimestampSimilarityPolicy where
  band : Duration
  band_nonneg : 0 ≤ band.microseconds

structure CapacityLimits where
  maxComponentNodes : ℕ
  maxComponentEdges : ℕ
  maxRunCandidateEdges : ℕ
  maxCandidatesPerRecord : ℕ
  nodes_pos : 0 < maxComponentNodes
  edges_pos : 0 < maxComponentEdges
  run_pos : 0 < maxRunCandidateEdges
  record_pos : 0 < maxCandidatesPerRecord

def BlockingPassPolicy.order (p : BlockingPassPolicy) : String ×ₗ String :=
  toLex (p.passId, p.version)

/-- The passes are sorted and each has its own identity; every feature has
one weight and the weights add up to the whole scale. -/
structure MatchingPolicy where
  policyVersion : String
  engineVersion : String
  solverVersion : String
  referenceContract : ReferenceContract
  blockingPasses : List BlockingPassPolicy
  weightBp : MatchFeature → ℕ
  quantitySimilarity : NumericSimilarityPolicy
  timestampSimilarity : TimestampSimilarityPolicy
  unitPriceSimilarity : NumericSimilarityPolicy
  grossAmountSimilarity : NumericSimilarityPolicy
  assignmentFloorBp : ℕ
  automaticThresholdBp : ℕ
  minimumGlobalGapBp : ℕ
  limits : CapacityLimits
  policyVersion_text : nonblank policyVersion = true
  engineVersion_text : nonblank engineVersion = true
  solverVersion_text : nonblank solverVersion = true
  passes_nonempty : blockingPasses ≠ []
  passes_sorted : blockingPasses.Pairwise fun a b => a.order ≤ b.order
  passes_unique : (blockingPasses.map (·.passId)).Nodup
  weights_total : (MatchFeature.all.map weightBp).sum = scoreScaleBp
  threshold_le : automaticThresholdBp ≤ scoreScaleBp
  floor_lt : assignmentFloorBp < automaticThresholdBp
  gap_le : minimumGlobalGapBp ≤ automaticThresholdBp

def MatchingPolicy.withLimits (p : MatchingPolicy) (limits : CapacityLimits) : MatchingPolicy :=
  { p with limits := limits }

theorem MatchingPolicy.weight_le (p : MatchingPolicy) (f : MatchFeature) :
    p.weightBp f ≤ scoreScaleBp := by
  have h := p.weights_total
  simp only [MatchFeature.all, List.map_cons, List.map_nil, List.sum_cons, List.sum_nil] at h
  cases f <;> omega

structure DecimalTolerance where
  absolute : Decimal
  relative : Decimal
  absolute_constructible : Constructible absolute
  relative_constructible : Constructible relative
  absolute_nonneg : ofInt 0 ≤ absolute
  relative_nonneg : ofInt 0 ≤ relative
  relative_le : relative ≤ ofInt 1

structure ComparisonPolicy where
  policyVersion : String
  timestampTolerance : Duration
  quantityTolerance : DecimalTolerance
  unitPriceTolerance : DecimalTolerance
  grossAmountTolerance : DecimalTolerance
  compatibleStatePairs : List (CanonicalState × CanonicalState)
  policyVersion_text : nonblank policyVersion = true
  timestampTolerance_nonneg : 0 ≤ timestampTolerance.microseconds

def sampleRecord (observationId instrument : String) (h : nonblank observationId = true)
    (hi : nonblank instrument = true) (time : Instant) : MatchRecord where
  observationId := observationId
  logicalTransactionId := observationId
  sourceRecordKey := observationId
  state := .settled
  instrument := some instrument
  side := some .buy
  currency := some "EUR"
  quantity := some (ofInt 5)
  executedAt := some time
  unitPrice := some (ofInt 7)
  grossAmount := none
  referenceValue := none
  sharedReferenceAlias := none
  observationId_text := h
  logicalTransactionId_text := h
  sourceRecordKey_text := h
  instrument_text := by rintro _ ⟨⟩; exact hi
  currency_text := by decide
  referenceValue_text := by simp [OptionalText]
  sharedReferenceAlias_text := by simp [OptionalText]
  quantity_nonneg := by decide
  unitPrice_nonneg := by decide
  grossAmount_nonneg := by simp [Nonnegative]

def hour : Duration := ⟨3600000000, by norm_num, by norm_num⟩

def samplePass : BlockingPassPolicy where
  passId := "time"
  version := "1"
  timeWindow := some hour
  requireInstrument := true
  requireSide := false
  requireCurrency := false
  useSharedAlias := false
  passId_text := by decide
  version_text := by decide
  timeWindow_pos := by rintro _ ⟨⟩; decide

def sampleBand : NumericSimilarityPolicy :=
  ⟨ofInt 1, ofInt 0, by decide, by decide, by decide, by decide, by decide⟩

def sampleLimits : CapacityLimits := ⟨10, 10, 10, 10, by decide, by decide, by decide, by decide⟩

def samplePolicy (limits : CapacityLimits) : MatchingPolicy where
  policyVersion := "policy-1"
  engineVersion := "engine-1"
  solverVersion := "exhaustive-1"
  referenceContract := .sharedMustAgree
  blockingPasses := [samplePass]
  weightBp
    | .quantity => 4000
    | .timestamp => 3000
    | .unitPrice => 3000
    | .grossAmount => 0
  quantitySimilarity := sampleBand
  timestampSimilarity := ⟨hour, by decide⟩
  unitPriceSimilarity := sampleBand
  grossAmountSimilarity := sampleBand
  assignmentFloorBp := 5000
  automaticThresholdBp := 9000
  minimumGlobalGapBp := 100
  limits := limits
  policyVersion_text := by decide
  engineVersion_text := by decide
  solverVersion_text := by decide
  passes_nonempty := by simp
  passes_sorted := by simp
  passes_unique := by simp
  weights_total := by decide
  threshold_le := by decide
  floor_lt := by decide
  gap_le := by decide

def sampleTolerance : DecimalTolerance :=
  ⟨ofInt 0, ofInt 0, by decide, by decide, by decide, by decide, by decide⟩

def sampleComparison : ComparisonPolicy where
  policyVersion := "comparison-1"
  timestampTolerance := hour
  quantityTolerance := sampleTolerance
  unitPriceTolerance := sampleTolerance
  grossAmountTolerance := sampleTolerance
  compatibleStatePairs := []
  policyVersion_text := by decide
  timestampTolerance_nonneg := by decide

def noDecisions : DecisionInputs where
  manualLinks := []
  acceptedUnmatched := []
  rejectedRelationships := []
  reservedIdentities := []
  manual_sorted := by simp
  accepted_sorted := by simp
  rejected_sorted := by simp
  reserved_sorted := by simp
  decisions_unique := by simp
  manualLeft_unique := by simp
  manualRight_unique := by simp
  singles_unique := by simp
  singles_apart := by simp
  rejected_unique := by simp

def noon : Instant := 63000000000000000

/-- One record on each side, both at the given time. -/
def sampleSnapshot (time : Instant) : EngineSnapshot where
  leftRevisionId := "left-1"
  rightRevisionId := "right-1"
  left := [sampleRecord "L1" "ACME" (by decide) (by decide) time]
  right := [sampleRecord "R1" "ACME" (by decide) (by decide) time]
  leftRevisionId_text := by decide
  rightRevisionId_text := by decide
  left_sorted := by simp [ids]
  right_sorted := by simp [ids]
  apart := by simp [ids, sampleRecord]

theorem leftRevision_text : nonblank "left-1" = true := rfl

theorem rightRevision_text : nonblank "right-1" = true := rfl

theorem left_text : nonblank "L1" = true := rfl

theorem l2_text : nonblank "L2" = true := rfl

theorem l3_text : nonblank "L3" = true := rfl

theorem right_text : nonblank "R1" = true := rfl

theorem r2_text : nonblank "R2" = true := rfl

theorem acme_text : nonblank "ACME" = true := rfl

theorem zeta_text : nonblank "ZETA" = true := rfl

theorem accepted_none : ([] : List AcceptedUnmatched).Pairwise fun a b => a.order ≤ b.order :=
  List.Pairwise.nil

theorem reserved_none : ([] : List ReservedIdentity).Pairwise fun a b => a.order ≤ b.order :=
  List.Pairwise.nil

theorem twoRights_sorted : ["R1", "R2"].Pairwise (· < ·) := by decide

end Workbench.Records
