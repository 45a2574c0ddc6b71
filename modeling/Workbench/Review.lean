import Workbench.Decisions
import Workbench.Ingestion

/-!
# Review

How the health of a decision is classified, how an investigation case is
identified, and how the cases before a publication lead to those after it.
-/

set_option autoImplicit false

namespace Workbench.Review
open Workbench.Listing Workbench.Tables Workbench.Records Workbench.Json Workbench.Ingestion
open Workbench.Decisions
open Workbench.Raising (Outcome require fetch)

inductive DecisionAuthorityKind where
  | link
  | acceptUnmatched
  | rejectCandidate
deriving DecidableEq, Repr

def authorityKind : DecisionAuthority → DecisionAuthorityKind
  | .link _ => .link
  | .acceptUnmatched _ _ => .acceptUnmatched
  | .rejectCandidate _ => .rejectCandidate

inductive DecisionHealth where
  | unchanged
  | evidenceChanged
  | partnerUnavailable
  | newCandidate
deriving DecidableEq, Repr

inductive DecisionAttention where
  | comparisonChanged
  | authoritativeReferenceConflict
  | diagnosticIncomplete
deriving DecidableEq, Repr

def DecisionAttention.value : DecisionAttention → String
  | .comparisonChanged => "COMPARISON_CHANGED"
  | .authoritativeReferenceConflict => "AUTHORITATIVE_REFERENCE_CONFLICT"
  | .diagnosticIncomplete => "DIAGNOSTIC_INCOMPLETE"

structure DecisionHealthEvidence where
  authorityKind : DecisionAuthorityKind
  endpointsAvailable : Bool
  evidenceChanged : Bool
  newCandidate : Bool
  diagnosticComplete : Bool
  comparisonChanged : Bool
  authoritativeReferenceConflict : Bool
  diagnostics_accepted : authorityKind ≠ .acceptUnmatched →
    newCandidate = false ∧ diagnosticComplete = true
  comparison_link : authorityKind ≠ .link → comparisonChanged = false
  conflict_rejected : authorityKind ≠ .rejectCandidate → authoritativeReferenceConflict = false

structure DecisionHealthProjection where
  health : DecisionHealth
  attention : List DecisionAttention
deriving DecidableEq

def attentionOf (e : DecisionHealthEvidence) : List DecisionAttention :=
  (if e.comparisonChanged then [.comparisonChanged] else []) ++
    ((if e.authoritativeReferenceConflict then [.authoritativeReferenceConflict] else []) ++
      if e.diagnosticComplete then [] else [.diagnosticIncomplete])

def projectDecisionHealth (e : DecisionHealthEvidence) : DecisionHealthProjection where
  health :=
    if e.endpointsAvailable = false then .partnerUnavailable
    else if e.authorityKind = .acceptUnmatched ∧ e.newCandidate = true then .newCandidate
    else if e.evidenceChanged = true ∨ e.comparisonChanged = true then .evidenceChanged
    else .unchanged
  attention := sortOn DecisionAttention.value (attentionOf e)

@[simp] theorem mem_attention (e : DecisionHealthEvidence) (a : DecisionAttention) :
    a ∈ (projectDecisionHealth e).attention ↔
      a = .comparisonChanged ∧ e.comparisonChanged = true ∨
      a = .authoritativeReferenceConflict ∧ e.authoritativeReferenceConflict = true ∨
      a = .diagnosticIncomplete ∧ e.diagnosticComplete = false := by
  simp only [projectDecisionHealth, mem_sortOn, attentionOf, List.mem_append]
  cases e.comparisonChanged <;> cases e.authoritativeReferenceConflict <;>
    cases e.diagnosticComplete <;> simp

inductive CaseKind where
  | pair
  | unpaired
  | ambiguity
deriving DecidableEq, Repr

def CaseKind.value : CaseKind → String
  | .pair => "PAIR"
  | .unpaired => "UNPAIRED"
  | .ambiguity => "AMBIGUITY"

theorem CaseKind.value_injective : Function.Injective CaseKind.value := by
  intro a b h
  cases a <;> cases b <;> first | rfl | exact absurd h (by decide)

def HexDigest (s : String) : Prop := s.toList.length = 64 ∧ ∀ c ∈ s.toList, c ∈ hexDigits

structure CaseKey where
  kind : CaseKind
  digest : String
  digest_hex : HexDigest digest

theorem CaseKey.ext_iff {a b : CaseKey} : a = b ↔ a.kind = b.kind ∧ a.digest = b.digest := by
  cases a
  cases b
  simp

instance caseKey_decidableEq : DecidableEq CaseKey := fun _ _ =>
  decidable_of_iff _ CaseKey.ext_iff.symm

def CaseKey.order (k : CaseKey) : String ×ₗ String := toLex (k.kind.value, k.digest)

def caseKeyVersion : String := "stable-case-key-v1"

/-- The bytes `_case_key` hashes: every text after its length. -/
def caseKeyBytes (kind : CaseKind) (parts : List (String × String)) : Option (List ℕ) := do
  let framed ← ([caseKeyVersion, kind.value] ++ parts.flatMap fun p => [p.1, p.2]).mapM
    fun text => lengthPrefix (utf8 text)
  some framed.flatten

def caseKey (sha : Sha256) (kind : CaseKind) (parts : List (String × String)) :
    Option CaseKey :=
  (caseKeyBytes kind parts).map fun bytes =>
    ⟨kind, sha.hexdigest bytes, sha.hex_length bytes, sha.hex_digits bytes⟩

def validateSha256 (value name : String) : Outcome Unit :=
  require (validDigest value = true) (name ++ " must be a lowercase SHA-256 digest")

/-- `_canonical_texts`. -/
def canonicalTexts (values : List String) (name : String) : Outcome (List String) := do
  values.forM fun value => requiredText value name
  require values.Nodup (name ++ " values must be unique")
  return sortOn id values

def pairParts (bookId leftId rightId : String) : Outcome (List (String × String)) := do
  requiredText bookId "book_id"
  requiredText leftId "left_id"
  requiredText rightId "right_id"
  return [("book", bookId), ("left", leftId), ("right", rightId)]

def unpairedParts (bookId : String) (side : RecordSide) (recordId : String) :
    Outcome (List (String × String)) := do
  requiredText bookId "book_id"
  requiredText recordId "record_id"
  return [("book", bookId), ("side", side.value), ("record", recordId)]

def memberParts (bookId scopeId policyDigest : String) (left right : List String) :
    List (String × String) :=
  [("book", bookId), ("scope", scopeId), ("policy", policyDigest),
    ("left-count", toString left.length)] ++ left.map (("left-member", ·)) ++
    [("right-count", toString right.length)] ++ right.map (("right-member", ·))

def ambiguityParts (bookId scopeId policyDigest : String) (leftIds rightIds : List String) :
    Outcome (List (String × String)) := do
  validateSha256 policyDigest "policy_digest"
  let left ← canonicalTexts leftIds "ambiguity left identity"
  let right ← canonicalTexts rightIds "ambiguity right identity"
  require (left ≠ [] ∧ right ≠ []) "ambiguity case requires complete members on both sides"
  require (∀ s ∈ left, s ∉ right) "ambiguity member identities must be unique across sides"
  requiredText bookId "book_id"
  requiredText scopeId "scope_id"
  return memberParts bookId scopeId policyDigest left right

def hashedBytes (kind : CaseKind) (parts : List (String × String)) : Outcome (List ℕ) :=
  fetch .overflow (caseKeyBytes kind parts)

def keyOf (sha : Sha256) (kind : CaseKind) (parts : List (String × String)) : Outcome CaseKey :=
  fetch .overflow (caseKey sha kind parts)

section Builders
variable (sha : Sha256)

def pairCaseKey (bookId leftId rightId : String) : Outcome CaseKey := do
  let parts ← pairParts bookId leftId rightId
  keyOf sha .pair parts

def unpairedCaseKey (bookId : String) (side : RecordSide) (recordId : String) :
    Outcome CaseKey := do
  let parts ← unpairedParts bookId side recordId
  keyOf sha .unpaired parts

def ambiguityCaseKey (bookId scopeId policyDigest : String) (leftIds rightIds : List String) :
    Outcome CaseKey := do
  let parts ← ambiguityParts bookId scopeId policyDigest leftIds rightIds
  keyOf sha .ambiguity parts

end Builders

/-- An edge between two different cases. -/
structure CaseLineageEdge where
  predecessor : CaseKey
  successor : CaseKey
  distinct : predecessor ≠ successor

theorem CaseLineageEdge.ext_iff {a b : CaseLineageEdge} :
    a = b ↔ a.predecessor = b.predecessor ∧ a.successor = b.successor := by
  cases a
  cases b
  simp

instance lineageEdge_decidableEq : DecidableEq CaseLineageEdge := fun _ _ =>
  decidable_of_iff _ CaseLineageEdge.ext_iff.symm

def CaseLineageEdge.order (e : CaseLineageEdge) : (String ×ₗ String) ×ₗ String ×ₗ String :=
  toLex (e.predecessor.order, e.successor.order)

structure CaseTransitionNode where
  caseKey : CaseKey
  memberIds : List String
  members_text : ∀ s ∈ memberIds, nonblank s = true
  members_sorted : memberIds.Pairwise (· ≤ ·)
  members_unique : memberIds.Nodup
  members_some : memberIds ≠ []

def CaseTransitionNode.create (key : CaseKey) (memberIds : List String) :
    Option CaseTransitionNode :=
  if h : ((∀ s ∈ memberIds, nonblank s = true) ∧ memberIds.Nodup) ∧ memberIds ≠ [] then
    some ⟨key, sortOn id memberIds,
      fun s hs => h.1.1 s ((mem_sortOn id memberIds s).mp hs),
      sortOn_pairwise id memberIds,
      (sortOn_perm id memberIds).nodup_iff.mpr h.1.2,
      fun h0 => h.2 ((sortOn_eq_nil id memberIds).mp h0)⟩
  else none

def CaseTransitionNode.Overlap (p s : CaseTransitionNode) : Prop :=
  ∃ m ∈ p.memberIds, m ∈ s.memberIds

instance overlap_decidable (p s : CaseTransitionNode) : Decidable (p.Overlap s) :=
  inferInstanceAs (Decidable (∃ m ∈ p.memberIds, m ∈ s.memberIds))

def edgeBetween (old new : CaseTransitionNode) : Option CaseLineageEdge :=
  if h : old.caseKey ≠ new.caseKey then
    if old.Overlap new then some ⟨old.caseKey, new.caseKey, h⟩ else none
  else none

/-- `CaseTransitionPlan`: sorted edges, none twice. -/
def createPlan (edges : List CaseLineageEdge) : Option (List CaseLineageEdge) :=
  if edges.Nodup then some (sortOn CaseLineageEdge.order edges) else none

def planCaseTransitions (previous current : List CaseTransitionNode) :
    Option (List CaseLineageEdge) :=
  let before := sortOn (·.caseKey.order) previous
  let after := sortOn (·.caseKey.order) current
  createPlan (before.flatMap fun old => after.filterMap (edgeBetween old))

end Workbench.Review
