import Workbench.Blinded
import Workbench.Partners
import Workbench.Reasons

/-!
# References that no contract trusts

A record reaches the engine with its business reference whatever its contract
declares, and with an alias only when the contract trusts it. Under a policy
that matches aliases, and on runs whose references are all trusted, only
trusted records share a reference; a policy that matches references pairs
others too.
-/

set_option autoImplicit false

namespace Workbench.TrustedReferences
open Workbench.Listing Workbench.Tables Workbench.Decimals Workbench.Calendar Workbench.Raising
open Workbench.Records Workbench.Evidence Workbench.Json Workbench.Decisions
open Workbench.References Workbench.Reservations Workbench.Terminals Workbench.Candidates
open Workbench.Scoring Workbench.Observations Workbench.Assignment Workbench.Engine
open Workbench.Results Workbench.Reconciled Workbench.Comparison Workbench.Partners Workbench.Blinded

def Trusted (r : Runs.Run) (recordId : String) : Prop :=
  ∃ i ∈ r.manifest.inputs, i.observation.text = recordId ∧ i.referenceSemantics = .trustedShared

/-- The references that the engine matches by are trusted. -/
def MatchedTrusted (matching : MatchingPolicy) (observations : List Observation) (r : Runs.Run) :
    Prop :=
  matching.referenceContract = .sourceLocalOrAlias ∨
    ∀ i ∈ r.manifest.inputs, ∀ o, observed observations i = some o → o.businessReference ≠ none →
      i.referenceSemantics = .trustedShared

def forget (hidden : Uuid → Bool) (o : Observation) : Observation :=
  if hidden o.id then { o with businessReference := none } else o

def ReferencesContradict (c : CandidateEvidence) : Prop :=
  ContradictionCode.sharedReferenceMismatch.value ∈ c.contradictions ∨
    ContradictionCode.sharedAliasMismatch.value ∈ c.contradictions

/-- Pairs by reference, conflicts and contradictions of references are of
trusted records, and the references of others have no part in the result. -/
structure TrustedOnly (digest : Digest) (matching : MatchingPolicy) (comparison : ComparisonPolicy)
    (solver : AssignmentSolver) (observations : List Observation) (r : Runs.Run)
    (result : EngineResult) : Prop where
  authoritative : ∀ p ∈ result.pairs, p.origin = .authoritativeReference →
    Trusted r p.leftId ∧ Trusted r p.rightId
  conflicts : ∀ s d pre, engineInputs observations r = .ok (s, d) →
    preprocessReferences s d matching.referenceContract = .ok pre →
      ∀ c ∈ pre.referenceConflicts, ∀ side, ∀ i ∈ memberIds c side, Trusted r i
  duplicates : ∀ u ∈ result.unpaired, u.reason = .duplicateReference → Trusted r u.recordId
  contradictions : ∀ c ∈ result.candidates, ReferencesContradict c →
    Trusted r c.leftId ∧ Trusted r c.rightId
  forgotten : ∀ hidden : Uuid → Bool, (∀ i ∈ r.manifest.inputs, hidden i.observation = true →
    i.referenceSemantics ≠ .trustedShared) →
      computeRun digest matching comparison solver (observations.map (forget hidden)) r =
        .ok result

section Results
variable {digest : Digest} {s : EngineSnapshot} {mp : MatchingPolicy} {cp : ComparisonPolicy}
  {d : DecisionInputs} {solver : AssignmentSolver} {result : EngineResult}

theorem automatic_undisputed {cs : List CandidateEvidence}
    {prohibited : List ProhibitedRelationship} {limited : List String} {floorBp : ℕ}
    {side : RecordSide} {record : MatchRecord} {u : UnpairedOutcome}
    (h : automaticUnpaired cs prohibited limited floorBp side record = .ok u) :
    u.reason ≠ .duplicateReference := by
  unfold automaticUnpaired at h
  simp only at h
  split_ifs at h
  all_goals
    rw [Reasons.created_reason h]
    simp

/-- Where a result takes its references from. -/
theorem reconcile_references (h : reconcile digest s mp cp d solver = .ok result) :
    ∃ pre g cs, preprocessReferences s d mp.referenceContract = .ok pre ∧
      scoreCandidates pre g mp = .ok cs ∧ result.candidates.Perm cs ∧
      (∀ p ∈ result.pairs, p.origin = .authoritativeReference →
        ∃ q ∈ pre.pairs, q.edge = p.edge ∧ q.origin = .authoritativeReference) ∧
      ∀ u ∈ result.unpaired, u.reason = .duplicateReference → u ∈ pre.terminalUnpaired := by
  simp only [reconcile, unpairedOutcomes, bind_ok, pure_ok] at h
  obtain ⟨pre, hpre, g, -, cs, hcs, a, -, gated, -, est, hest, acc, hacc, us,
    ⟨left, hleft, right, hright, rfl⟩, primary, hprimary, ds, -, hr⟩ := h
  obtain ⟨-, -, rfl⟩ := create_ok.mp hprimary
  obtain ⟨-, -, rfl⟩ := create_ok.mp hr
  refine ⟨pre, g, cs, hpre, hcs, (sortOn_perm _ _).trans (sortOn_perm _ _), ?_, ?_⟩
  · intro p hp ho
    rcases List.mem_append.mp ((mem_sortOn _ _ _).mp ((mem_sortOn _ _ _).mp hp)) with hp | hp
    · have hb : bare p ∈ pre.pairs.map bare := established_bare hest ▸ List.mem_map_of_mem hp
      obtain ⟨q, hq, hqp⟩ := List.mem_map.mp hb
      have hedge : (bare q).edge = (bare p).edge := congrArg PairOutcome.edge hqp
      have horigin : (bare q).origin = (bare p).origin := congrArg PairOutcome.origin hqp
      exact ⟨q, hq, hedge, horigin.trans ho⟩
    · have hb : bare p ∈ gated.acceptedProposals.map proposedPair :=
        acceptPairs_bare hacc ▸ List.mem_map_of_mem hp
      obtain ⟨q, -, hqp⟩ := List.mem_map.mp hb
      have horigin : (proposedPair q).origin = (bare p).origin := congrArg PairOutcome.origin hqp
      have hweighted : PairOrigin.weightedGlobal = p.origin := horigin
      exact absurd (hweighted.trans ho) (by decide)
  · intro u hu hreason
    rcases List.mem_append.mp ((mem_sortOn _ _ _).mp ((mem_sortOn _ _ _).mp hu)) with hu | hu
    · exact hu
    · rcases List.mem_append.mp hu with hu | hu
      · obtain ⟨q, -, hq⟩ := mapM_mem_right hleft hu
        exact absurd hreason (automatic_undisputed hq)
      · obtain ⟨q, -, hq⟩ := mapM_mem_right hright hu
        exact absurd hreason (automatic_undisputed hq)

theorem contradicting_references {left right : MatchRecord} {contract : ReferenceContract}
    {code : ContradictionCode} (h : code ∈ contradictions left right contract)
    (hcode : code = .sharedReferenceMismatch ∨ code = .sharedAliasMismatch) :
    referenceKey contract left ≠ none ∧ referenceKey contract right ≠ none := by
  have hboth : ∀ {a b : Option String}, differ a b = true → a ≠ none ∧ b ≠ none := by
    intro a b hd
    simp only [differ, Bool.and_eq_true, Option.isSome_iff_ne_none] at hd
    exact hd.1
  have hdiffer : differ (referenceKey contract left) (referenceKey contract right) = true := by
    unfold Scoring.contradictions at h
    rw [mem_sortOn] at h
    rcases hcode with rfl | rfl <;> cases contract <;> simp_all [referenceKey]
  exact hboth hdiffer

theorem scored_contradictions {pre : ReferencePreprocessingResult}
    {g : CandidateGenerationResult} {cs : List CandidateEvidence}
    (h : scoreCandidates pre g mp = .ok cs) {c : CandidateEvidence} (hc : c ∈ cs)
    (hd : ReferencesContradict c) : ∃ l ∈ pre.remainingLeft, ∃ r ∈ pre.remainingRight,
      c.leftId = l.observationId ∧ c.rightId = r.observationId ∧
        referenceKey mp.referenceContract l ≠ none ∧ referenceKey mp.referenceContract r ≠ none := by
  simp only [scoreCandidates, bind_ok, pure_ok] at h
  obtain ⟨scored, hscored, rfl⟩ := h
  obtain ⟨x, -, hx⟩ := mapM_mem_right hscored ((mem_sortOn _ _ _).mp hc)
  unfold scoreEdge at hx
  split at hx
  · rename_i l r hl hr
    simp only [scoreCandidate, bind_ok, Scores.candidate_create_ok] at hx
    obtain ⟨fs, -, hcreated⟩ := hx
    obtain ⟨-, -, -, -, -, -, -, -, -, -, -, -, rfl⟩ := hcreated
    refine ⟨l, (lookup_some hl).1, r, (lookup_some hr).1, rfl, rfl, ?_⟩
    have hcode : ∀ code : ContradictionCode,
        code.value ∈ sortedSet ((contradictions l r mp.referenceContract).map (·.value)) →
          code ∈ contradictions l r mp.referenceContract := by
      intro code hcode
      obtain ⟨code', hcode', he⟩ := List.mem_map.mp ((mem_sortedSet _ _).mp hcode)
      have hsame : code' = code := by
        cases code' <;> cases code <;> first | rfl | exact absurd he (by decide)
      exact hsame ▸ hcode'
    rcases hd with hd | hd
    · exact contradicting_references (hcode _ hd) (Or.inl rfl)
    · exact contradicting_references (hcode _ hd) (Or.inr rfl)
  · simp at hx

end Results

section Inputs
variable {observations : List Observation} {r : Runs.Run} {s : EngineSnapshot}
  {d : DecisionInputs} {matching : MatchingPolicy}

theorem matchRecord_references {semantics : Ingestion.ReferenceSemantics} {o : Observation}
    {q : MatchRecord} (h : matchRecord semantics o = .ok q) :
    q.referenceValue = o.businessReference ∧
      q.sharedReferenceAlias =
        if semantics = .trustedShared then o.businessReference else none := by
  simp only [matchRecord, bind_ok, Except.ok.injEq] at h
  obtain ⟨_, _, _, _, _, _, _, _, _, _, _, _, _, _, _, _, _, _, _, _, rfl⟩ := h
  exact ⟨rfl, rfl⟩

/-- A record that carries a reference to match by is trusted: an alias by the
way records are built, a plain reference by the condition. -/
theorem carrier_trusted (hm : MatchedTrusted matching observations r)
    (h : engineInputs observations r = .ok (s, d)) {side : RecordSide} {q : MatchRecord}
    (hq : q ∈ s.records side) (hk : referenceKey matching.referenceContract q ≠ none) :
    Trusted r q.observationId := by
  obtain ⟨i, hi, -, hrecord⟩ := mem_records h hq
  refine ⟨i, hi, (inputRecord_columns hrecord).1.symm, ?_⟩
  simp only [inputRecord, bind_ok, fetch_ok] at hrecord
  obtain ⟨o, ho, hrecord⟩ := hrecord
  obtain ⟨hvalue, halias⟩ := matchRecord_references hrecord
  cases hcontract : matching.referenceContract with
  | sharedMustAgree =>
    rw [hcontract, referenceKey, hvalue] at hk
    rcases hm with hm | hm
    · rw [hcontract] at hm
      cases hm
    · exact hm i hi o ho hk
  | sourceLocalOrAlias =>
    rw [hcontract, referenceKey, halias] at hk
    by_contra huntrusted
    exact hk (if_neg huntrusted)

theorem conflict_trusted (hm : MatchedTrusted matching observations r)
    (h : engineInputs observations r = .ok (s, d)) {side : RecordSide} {i : String}
    (hi : i ∈ conflictIds s d matching.referenceContract side) : Trusted r i := by
  obtain ⟨key, -, hshared⟩ := mem_conflictIds.mp hi
  obtain ⟨q, hq, hkey, rfl⟩ := mem_sharing.mp hshared
  exact carrier_trusted hm h (mem_freeRecords.mp hq).1 (hkey ▸ Option.some_ne_none key)

theorem established_trusted (hm : MatchedTrusted matching observations r)
    (h : engineInputs observations r = .ok (s, d)) {pre : ReferencePreprocessingResult}
    (hpre : preprocessReferences s d matching.referenceContract = .ok pre) {p : PairOutcome}
    (hp : p ∈ pre.pairs) (ho : p.origin = .authoritativeReference) :
    Trusted r p.leftId ∧ Trusted r p.rightId := by
  obtain ⟨-, hspec⟩ := preprocess_spec hpre
  have hmem : p ∈ ofOrigin .authoritativeReference pre.pairs :=
    List.mem_filter.mpr ⟨hp, decide_eq_true ho⟩
  obtain ⟨key, hkey⟩ :=
    mem_referencePairs.mp ((Preprocessed.references hspec).mem_iff.mp hmem)
  obtain ⟨hleft, hright, -, -⟩ := mem_established.mp hkey
  have hend : ∀ side i, sharing s d matching.referenceContract side key = [i] → Trusted r i := by
    intro side i hsole
    obtain ⟨q, hq, hk, rfl⟩ := mem_sharing.mp (hsole ▸ List.mem_singleton_self i)
    exact carrier_trusted hm h (mem_freeRecords.mp hq).1 (hk ▸ Option.some_ne_none key)
  exact ⟨hend .left _ hleft, hend .right _ hright⟩

end Inputs

section Forgotten
variable {observations : List Observation} {r : Runs.Run} {s : EngineSnapshot}
  {d : DecisionInputs} {matching : MatchingPolicy} {hidden : Uuid → Bool}

variable (hidden r) in
def Hides (recordId : String) : Prop :=
  ∃ i ∈ r.manifest.inputs, i.observation.text = recordId ∧ hidden i.observation = true

instance (recordId : String) : Decidable (Hides r hidden recordId) :=
  inferInstanceAs (Decidable (∃ i ∈ r.manifest.inputs, _))

theorem absent_text : OptionalText none := fun _ h => (Option.not_mem_none _ h).elim

def dropReference (q : MatchRecord) : MatchRecord :=
  { q with referenceValue := none, referenceValue_text := absent_text }

variable (hidden r) in
def forgetRecord (q : MatchRecord) : MatchRecord :=
  if Hides r hidden q.observationId then dropReference q else q

theorem forget_blind : Blind (forgetRecord r hidden) := by
  constructor <;> intro q <;> unfold forgetRecord <;> split <;> rfl

theorem forget_id (o : Observation) : (forget hidden o).id = o.id := by
  unfold forget
  split <;> rfl

theorem matchRecord_forgotten {semantics : Ingestion.ReferenceSemantics} {o : Observation}
    {q : MatchRecord} (hs : semantics ≠ .trustedShared) (h : matchRecord semantics o = .ok q) :
    matchRecord semantics { o with businessReference := none } = .ok (dropReference q) := by
  simp only [matchRecord, bind_ok, Except.ok.injEq] at h ⊢
  obtain ⟨a, ha, b, hb, c, hc, e, he, g, hg, x, -, k, -, m, hm, n, hn, u, hu, rfl⟩ := h
  have halias : (if semantics = .trustedShared then none else none : Option String) = none :=
    ite_self none
  refine ⟨a, ha, b, hb, c, hc, e, he, g, hg, _, check_true absent_text, _,
    check_true (halias.symm ▸ absent_text), m, hm, n, hn, u, hu, ?_⟩
  simp only [dropReference, if_neg hs]

theorem inputRecord_forgotten (hh : ∀ i ∈ r.manifest.inputs, hidden i.observation = true →
    i.referenceSemantics ≠ .trustedShared) {i : Runs.RunInput} (hi : i ∈ r.manifest.inputs)
    {q : MatchRecord} (h : inputRecord observations i = .ok q) :
    inputRecord (observations.map (forget hidden)) i = .ok (forgetRecord r hidden q) := by
  have hid := (inputRecord_columns h).1
  simp only [inputRecord, bind_ok, fetch_ok] at h ⊢
  obtain ⟨o, ho, hq⟩ := h
  have hobserved : observed (observations.map (forget hidden)) i = some (forget hidden o) := by
    rw [observed, lookup_map forget_id]
    exact congrArg (Option.map (forget hidden)) ho
  have hown : o.id = i.observation := (lookup_some ho).2
  refine ⟨_, hobserved, ?_⟩
  cases hcase : hidden i.observation with
  | true =>
    have hhides : Hides r hidden q.observationId := ⟨i, hi, hid.symm, hcase⟩
    rw [forgetRecord, if_pos hhides, forget, if_pos (hown ▸ hcase)]
    exact matchRecord_forgotten (hh i hi hcase) hq
  | false =>
    have hkept : ¬Hides r hidden q.observationId := by
      rintro ⟨j, -, hj, hjhidden⟩
      rw [Uuid.text_injective (hj.trans hid), hcase] at hjhidden
      cases hjhidden
    have hshown : ¬hidden o.id = true := by
      rw [hown, hcase]
      exact Bool.false_ne_true
    rw [forgetRecord, if_neg hkept, forget, if_neg hshown]
    exact hq

theorem createSnapshot_map {f : MatchRecord → MatchRecord} (hf : Blind f)
    {leftRevisionId rightRevisionId : String} {left right : List MatchRecord}
    (h : createSnapshot leftRevisionId rightRevisionId left right = .ok s) :
    createSnapshot leftRevisionId rightRevisionId (left.map f) (right.map f) =
      .ok (blindSnapshot f hf s) := by
  have hsorted : ∀ l : List MatchRecord, sortOn (·.observationId) (l.map f) =
      (sortOn (·.observationId) l).map f := sortOn_map hf.observationId
  have hids : ∀ l : List MatchRecord, ids (sortOn (·.observationId) (l.map f)) =
      ids (sortOn (·.observationId) l) := fun l => by rw [hsorted, ids_map hf]
  simp only [createSnapshot, bind_ok, Except.ok.injEq] at h
  obtain ⟨a, ha, b, hb, c, -, e, -, g, -, rfl⟩ := h
  have hleft : (ids (sortOn (·.observationId) (left.map f))).Nodup := hids left ▸ c.down
  have hright : (ids (sortOn (·.observationId) (right.map f))).Nodup := hids right ▸ e.down
  have hapart : ∀ i ∈ ids (sortOn (·.observationId) (left.map f)),
      i ∉ ids (sortOn (·.observationId) (right.map f)) := by
    rw [hids, hids]
    exact g.down
  refine bind_ok.mpr ⟨a, ha, bind_ok.mpr ⟨b, hb, bind_ok.mpr ⟨_, check_true hleft,
    bind_ok.mpr ⟨_, check_true hright, bind_ok.mpr ⟨_, check_true hapart, ?_⟩⟩⟩⟩⟩
  simp only [hsorted, blindSnapshot]

theorem engineInputs_forgotten (hh : ∀ i ∈ r.manifest.inputs, hidden i.observation = true →
    i.referenceSemantics ≠ .trustedShared) (h : engineInputs observations r = .ok (s, d)) :
    engineInputs (observations.map (forget hidden)) r =
      .ok (blindSnapshot (forgetRecord r hidden) forget_blind s, d) := by
  have hside : ∀ {side : RecordSide} {records : List MatchRecord},
      sideRecords observations r.manifest side = .ok records →
        sideRecords (observations.map (forget hidden)) r.manifest side =
          .ok (records.map (forgetRecord r hidden)) := by
    intro side records hrecords
    refine mapM_mapped hrecords fun i hi q hq => inputRecord_forgotten hh ?_ hq
    exact (mem_sortOn _ _ _).mp (List.mem_of_mem_filter hi)
  simp only [engineInputs, bind_ok, pure_ok, Prod.mk.injEq] at h ⊢
  obtain ⟨left, hleft, right, hright, s', hs, inputs, hinputs, d', hd, rfl, rfl⟩ := h
  exact ⟨_, hside hleft, _, hside hright, _, createSnapshot_map forget_blind hs, inputs, hinputs,
    d', hd, rfl, rfl⟩

/-- Where every reference is trusted, a record without trust has none to
forget. -/
theorem forgetRecord_same (hm : MatchedTrusted matching observations r)
    (hh : ∀ i ∈ r.manifest.inputs, hidden i.observation = true →
      i.referenceSemantics ≠ .trustedShared)
    (h : engineInputs observations r = .ok (s, d))
    (hc : matching.referenceContract = .sharedMustAgree) {side : RecordSide} {q : MatchRecord}
    (hq : q ∈ s.records side) : forgetRecord r hidden q = q := by
  unfold forgetRecord
  split
  · rename_i hhides
    obtain ⟨i, hi, hid, hhidden⟩ := hhides
    have hnone : q.referenceValue = none := by
      by_contra hsome
      have hkey : referenceKey matching.referenceContract q ≠ none := by
        rw [hc]
        exact hsome
      obtain ⟨j, hj, hjid, htrusted⟩ := carrier_trusted hm h hq hkey
      obtain rfl := input_unique h hi hj (hid.trans hjid.symm)
      exact hh i hi hhidden htrusted
    cases q
    cases hnone
    rfl
  · rfl

theorem forgotten_result {digest : Digest} {comparison : ComparisonPolicy}
    {solver : AssignmentSolver} {result : EngineResult}
    (hm : MatchedTrusted matching observations r)
    (hh : ∀ i ∈ r.manifest.inputs, hidden i.observation = true →
      i.referenceSemantics ≠ .trustedShared)
    (h : computeRun digest matching comparison solver observations r = .ok result) :
    computeRun digest matching comparison solver (observations.map (forget hidden)) r =
      .ok result := by
  simp only [computeRun, bind_ok, raising_ok] at h ⊢
  obtain ⟨u, hu, ⟨s, d⟩, hs, v, hv, hr⟩ := h
  refine ⟨u, hu, _, engineInputs_forgotten hh hs, v, hv, ?_⟩
  cases hc : matching.referenceContract with
  | sourceLocalOrAlias =>
    show reconcile digest (blindSnapshot _ forget_blind s) matching comparison d solver = _
    rw [reconcile_blind forget_blind digest s comparison d solver hc]
    exact hr
  | sharedMustAgree =>
    have hsame : blindSnapshot (forgetRecord r hidden) forget_blind s = s := by
      have hleft : s.left.map (forgetRecord r hidden) = s.left :=
        (List.map_congr_left fun q hq =>
          forgetRecord_same hm hh hs hc (show q ∈ s.records .left from hq)).trans (List.map_id _)
      have hright : s.right.map (forgetRecord r hidden) = s.right :=
        (List.map_congr_left fun q hq =>
          forgetRecord_same hm hh hs hc (show q ∈ s.records .right from hq)).trans (List.map_id _)
      simp only [blindSnapshot, hleft, hright]
    exact hsame.symm ▸ hr

end Forgotten

section Main
variable {digest : Digest} {matching : MatchingPolicy} {comparison : ComparisonPolicy}
  {solver : AssignmentSolver} {observations : List Observation} {r : Runs.Run}
  {result : EngineResult}

/-- A run matches by trusted references only, whatever its records carry. -/
theorem trusted_references_only (hm : MatchedTrusted matching observations r)
    (h : computeRun digest matching comparison solver observations r = .ok result) :
    TrustedOnly digest matching comparison solver observations r result := by
  obtain ⟨s, d, hs, hr⟩ := computeRun_ok h
  obtain ⟨pre, g, cs, hpre, hcs, hcandidates, hpairs, hunpaired⟩ := reconcile_references hr
  obtain ⟨-, hspec⟩ := preprocess_spec hpre
  have hrecord : ∀ side q, q ∈ pre.remaining side → q ∈ s.records side := by
    intro side q hq
    rw [hspec.remaining side] at hq
    exact List.mem_of_mem_filter hq
  refine ⟨?_, ?_, ?_, ?_, fun hidden hh => forgotten_result hm hh h⟩
  · intro p hp ho
    obtain ⟨q, hq, hedge, horigin⟩ := hpairs p hp ho
    have hleft : q.leftId = p.leftId := congrArg Prod.fst hedge
    have hright : q.rightId = p.rightId := congrArg Prod.snd hedge
    rw [← hleft, ← hright]
    exact established_trusted hm hs hpre hq horigin
  · intro s' d' pre' hs' hpre' c hc side i hi
    exact conflict_trusted hm hs' ((mem_conflict_member hpre').mp ⟨c, hc, hi⟩)
  · intro u hu hreason
    have hjustified := (preprocess_lists hpre).1 u (hunpaired u hu hreason)
    unfold Justified at hjustified
    simp only [hreason] at hjustified
    exact conflict_trusted hm hs hjustified
  · intro c hc hd
    obtain ⟨l, hl, q, hq, hleft, hright, hlkey, hqkey⟩ :=
      scored_contradictions hcs (hcandidates.mem_iff.mp hc) hd
    rw [hleft, hright]
    exact ⟨carrier_trusted hm hs (hrecord .left l hl) hlkey,
      carrier_trusted hm hs (hrecord .right q hq) hqkey⟩

end Main

def localLeft : Observation :=
  ⟨⟨some "REF-7", noon, "ACME", .buy, ofInt 5, ofInt 7, ofInt 35, "EUR", .settled⟩, keptSeen,
    keptId, "K1"⟩

def localRight : Observation :=
  ⟨⟨some "REF-7", noon, "OTHER", .sell, ofInt 9, ofInt 1, ofInt 9, "USD", .settled⟩, lostSeen,
    lostId, "K2"⟩

def localInputs : List Runs.RunInput :=
  [⟨⟨keptId, keptSeen, "k1", some "REF-7", .secondary⟩, .left⟩,
    ⟨⟨lostId, lostSeen, "k2", some "REF-7", .secondary⟩, .right⟩]

/-- A run of two records whose contracts trust no reference. -/
def localRun : Runs.Run :=
  ⟨0, 1, 1, 1, ⟨1, 2, 1, "policy", 1, 1, 1, "engine-1", "exhaustive-1", localInputs, []⟩, .running,
    .pending, none, none, none, none, none⟩

def aliased (policy : MatchingPolicy) : MatchingPolicy :=
  { policy with referenceContract := .sourceLocalOrAlias }

def aliasPolicy : MatchingPolicy := aliased (samplePolicy sampleLimits)

def localResult (matching : MatchingPolicy) : Except ComputeFailure EngineResult :=
  computeRun checksum matching sampleComparison sampleSolver [localLeft, localRight] localRun

theorem local_returned : (localResult aliasPolicy).toOption.isSome = true := by decide +kernel

theorem trusted_references_only_sample : ∃ result, localResult aliasPolicy = .ok result ∧
    TrustedOnly checksum aliasPolicy sampleComparison sampleSolver [localLeft, localRight] localRun
      result := by
  obtain ⟨result, hresult⟩ := Option.isSome_iff_exists.mp local_returned
  have hok := toOption_ok hresult
  exact ⟨result, hok, trusted_references_only (Or.inl rfl) hok⟩

theorem local_paired : (localResult (samplePolicy sampleLimits)).toOption.map
    (fun result => result.pairs.map fun p => (p.edge, p.origin)) =
      some [((keptSeen.text, lostSeen.text), .authoritativeReference)] := by
  decide +kernel

/-- A policy that matches references pairs two records by a reference that
neither contract trusts. -/
theorem untrusted_reference_pairs : ¬∀ digest matching comparison solver observations r result,
    computeRun digest matching comparison solver observations r = .ok result →
      TrustedOnly digest matching comparison solver observations r result := by
  intro hall
  obtain ⟨result, hresult, hpairs⟩ := Option.map_eq_some_iff.mp local_paired
  have honly := hall _ _ _ _ _ _ result (toOption_ok hresult)
  obtain ⟨p, hp, hpair⟩ : ∃ p ∈ result.pairs,
      (p.edge, p.origin) = ((keptSeen.text, lostSeen.text), .authoritativeReference) :=
    List.mem_map.mp (hpairs ▸ List.mem_singleton_self _)
  obtain ⟨⟨i, hi, -, htrusted⟩, -⟩ := honly.authoritative p hp (congrArg Prod.snd hpair)
  have hsecondary : ∀ i ∈ localInputs, i.referenceSemantics = .secondary := by decide
  rw [hsecondary i hi] at htrusted
  cases htrusted

end Workbench.TrustedReferences
