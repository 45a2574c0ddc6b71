import Workbench.Scoring
import Workbench.Generation

/-!
# What a score says

Which record pairs have no contradiction and no coverage failure, what a
score depends on, and that ordinary numbers can always be scored.
-/

set_option autoImplicit false

namespace Workbench.Scores
open Workbench.Listing Workbench.Decimals Workbench.Calendar Workbench.Raising
open Workbench.Records Workbench.Evidence Workbench.References Workbench.Candidates
open Workbench.Scoring

theorem differ_eq_false {α : Type} [DecidableEq α] {a b : Option α} :
    differ a b = false ↔ ∀ x ∈ a, ∀ y ∈ b, x = y := by
  cases a <;> cases b <;> simp [differ]

theorem missing_eq_false {α : Type} {a b : Option α} :
    missing a b = false ↔ (∃ x, a = some x) ∧ ∃ y, b = some y := by
  cases a <;> cases b <;> simp [missing]

theorem contradictions_nil {left right : MatchRecord} {contract : ReferenceContract} :
    contradictions left right contract = [] ↔
      differ left.instrument right.instrument = false ∧ differ left.side right.side = false ∧
      differ left.currency right.currency = false ∧
      differ (referenceKey contract left) (referenceKey contract right) = false := by
  cases contract <;> simp [contradictions, referenceKey]

theorem coverageFailures_nil {left right : MatchRecord} :
    coverageFailures left right = [] ↔
      missing left.instrument right.instrument = false ∧ missing left.side right.side = false ∧
      missing left.currency right.currency = false ∧
      missing left.quantity right.quantity = false ∧
      missing left.executedAt right.executedAt = false ∧
      (missing left.unitPrice right.unitPrice = false ∨
        missing left.grossAmount right.grossAmount = false) := by
  simp [coverageFailures, imp_iff_not_or]

/-- The evidence says about its two records what they determine, whatever
the blocking reasons are. -/
structure Scored (policy : MatchingPolicy) (left right : MatchRecord) (c : CandidateEvidence) :
    Prop where
  leftId : c.leftId = left.observationId
  rightId : c.rightId = right.observationId
  contradictions : c.contradictions = [] ↔
    contradictions left right policy.referenceContract = []
  coverage : c.coverageSufficient = true ↔ coverageFailures left right = []
  score : ∃ fs, features left right policy = .ok fs ∧
    c.scoreBp = (fs.map (·.contributionBp)).sum
  score_le : c.scoreBp ≤ scoreScaleBp

theorem sortedSet_eq_nil {l : List String} : sortedSet l = [] ↔ l = [] := by
  simp only [List.eq_nil_iff_forall_not_mem, mem_sortedSet]

theorem scoreBp_ok {value : ℤ} {name : String} {u : Unit} :
    Evidence.scoreBp value name = .ok u ↔ 0 ≤ value ∧ value ≤ scoreScaleBp := by
  simp [Evidence.scoreBp]

theorem requiredText_ok {value name : String} {u : Unit} :
    requiredText value name = .ok u ↔ nonblank value = true := require_ok

theorem unique_ok {values : List String} {name : String} {u : Unit} :
    unique values name = .ok u ↔ values.Nodup := require_ok

theorem candidate_create_ok {x c : CandidateEvidence} :
    x.create = .ok c ↔
      nonblank x.leftId = true ∧ nonblank x.rightId = true ∧ x.blockingReasons ≠ [] ∧
      (∀ s ∈ x.blockingReasons, nonblank s = true) ∧
      (∀ s ∈ x.contradictions, nonblank s = true) ∧
      (∀ s ∈ x.coverageFailures, nonblank s = true) ∧
      (x.features.map (·.feature.value)).Nodup ∧
      SameMembers (x.features.map (·.feature)) MatchFeature.all ∧
      x.scoreBp ≤ scoreScaleBp ∧ x.scoreBp = (x.features.map (·.contributionBp)).sum ∧
      x.coverageSufficient = decide (x.coverageFailures = []) ∧ x.scoreLabel = "Rule score" ∧
      { x with
        blockingReasons := sortedSet x.blockingReasons
        features := sortOn (·.feature.value) x.features
        contradictions := sortedSet x.contradictions
        coverageFailures := sortedSet x.coverageFailures } = c := by
  simp only [CandidateEvidence.create, bind_ok, exists_require, pure_ok, requiredText_ok,
    unique_ok, scoreBp_ok, exists_const, Int.natCast_nonneg, true_and, Nat.cast_le]

theorem scoreCandidate_spec {left right : MatchRecord} {reasons : List String} {complete : Bool}
    {policy : MatchingPolicy} {c : CandidateEvidence}
    (h : scoreCandidate left right reasons complete policy = .ok c) :
    Scored policy left right c ∧ c.completeComputation = complete ∧
      c.blockingReasons = sortedSet reasons := by
  simp only [scoreCandidate, bind_ok, candidate_create_ok] at h
  obtain ⟨fs, hfs, -, -, -, -, -, -, -, -, hscore, -, -, -, rfl⟩ := h
  refine ⟨⟨rfl, rfl, ?_, by simp, ⟨fs, hfs, rfl⟩, hscore⟩, rfl, rfl⟩
  simp only [sortedSet_eq_nil, List.map_eq_nil_iff]

theorem Scored.agree {policy : MatchingPolicy} {left right : MatchRecord}
    {c d : CandidateEvidence} (hc : Scored policy left right c) (hd : Scored policy left right d) :
    c.scoreBp = d.scoreBp ∧ (c.contradictions = [] ↔ d.contradictions = []) ∧
      c.coverageSufficient = d.coverageSufficient := by
  obtain ⟨fs, hfs, hcs⟩ := hc.score
  obtain ⟨gs, hgs, hds⟩ := hd.score
  rw [hfs, Except.ok.injEq] at hgs
  subst hgs
  refine ⟨hcs.trans hds.symm, hc.contradictions.trans hd.contradictions.symm, ?_⟩
  exact Bool.eq_iff_iff.mpr (hc.coverage.trans hd.coverage.symm)

def Scorable (policy : MatchingPolicy) (left right : MatchRecord) : Prop :=
  ∃ fs, features left right policy = .ok fs

theorem feature_create {feature : MatchFeature} {left right : ScalarValue}
    {difference : DifferenceValue} {band : Band} {present : Bool}
    {similarity weight contribution : ℤ} {rule : String} {e : FeatureEvidence}
    (h : FeatureEvidence.create feature left right difference band present similarity weight
      contribution rule = .ok e) :
    e.feature = feature ∧ (e.contributionBp : ℤ) ≤ weight := by
  simp only [FeatureEvidence.create, bind_ok, exists_require, pure_ok, requiredText_ok,
    scoreBp_ok, exists_const] at h
  obtain ⟨-, -, hcontribution, -, -, hle, -, -, -, rfl⟩ := h
  refine ⟨rfl, ?_⟩
  simp only
  omega

theorem numericEvidence_spec {feature : MatchFeature} {left right : Option Decimal}
    {policy : NumericSimilarityPolicy} {weight : ℕ} {e : FeatureEvidence}
    (h : numericEvidence feature left right policy weight = .ok e) :
    e.feature = feature ∧ e.contributionBp ≤ weight := by
  unfold numericEvidence at h
  split at h
  · simp only [bind_ok] at h
    obtain ⟨_, -, _, -, h⟩ := h
    exact_mod_cast feature_create h
  · exact_mod_cast feature_create h

theorem timestampEvidence_spec {left right : Option Instant} {band : Duration} {weight : ℕ}
    {e : FeatureEvidence} (h : timestampEvidence left right band weight = .ok e) :
    e.feature = .timestamp ∧ e.contributionBp ≤ weight := by
  unfold timestampEvidence at h
  split at h
  · simp only [bind_ok] at h
    obtain ⟨_, -, _, -, _, -, h⟩ := h
    exact_mod_cast feature_create h
  · exact_mod_cast feature_create h

theorem features_spec {policy : MatchingPolicy} {left right : MatchRecord}
    {fs : List FeatureEvidence} (h : features left right policy = .ok fs) :
    fs.map (·.feature) = MatchFeature.all ∧
      (fs.map (·.contributionBp)).sum ≤ scoreScaleBp := by
  simp only [features, bind_ok, pure_ok] at h
  obtain ⟨q, hq, t, ht, u, hu, g, hg, rfl⟩ := h
  obtain ⟨hq1, hq2⟩ := numericEvidence_spec hq
  obtain ⟨ht1, ht2⟩ := timestampEvidence_spec ht
  obtain ⟨hu1, hu2⟩ := numericEvidence_spec hu
  obtain ⟨hg1, hg2⟩ := numericEvidence_spec hg
  have htotal := policy.weights_total
  simp only [MatchFeature.all, List.map_cons, List.map_nil, List.sum_cons, List.sum_nil]
    at htotal ⊢
  refine ⟨by rw [hq1, ht1, hu1, hg1], ?_⟩
  omega

theorem contradictionCode_text (code : ContradictionCode) : nonblank code.value = true := by
  cases code <;> decide

theorem coverageFailure_text (code : CoverageFailure) : nonblank code.value = true := by
  cases code <;> decide

theorem scoreCandidate_total {policy : MatchingPolicy} {left right : MatchRecord}
    (h : Scorable policy left right) {reasons : List String} (hne : reasons ≠ [])
    (htext : ∀ s ∈ reasons, nonblank s = true) (complete : Bool) :
    ∃ c, scoreCandidate left right reasons complete policy = .ok c := by
  obtain ⟨fs, hfs⟩ := h
  obtain ⟨hall, hsum⟩ := features_spec hfs
  simp only [scoreCandidate, bind_ok, candidate_create_ok]
  refine ⟨_, fs, hfs, left.observationId_text, right.observationId_text, hne, htext, ?_, ?_, ?_,
    ?_, hsum, trivial, ?_, trivial, rfl⟩
  · intro s hs
    obtain ⟨code, -, rfl⟩ := List.mem_map.mp hs
    exact contradictionCode_text code
  · intro s hs
    obtain ⟨code, -, rfl⟩ := List.mem_map.mp hs
    exact coverageFailure_text code
  · have hvalues : fs.map (·.feature.value) = (fs.map (·.feature)).map (·.value) := by
      rw [List.map_map]
      rfl
    rw [hvalues, hall]
    decide
  · rw [hall]
    exact ⟨fun _ h => h, fun _ h => h⟩
  · simp

/-- The scored candidates are the generated edges, each scored from its two
records; a candidate is complete when neither record is limited. -/
structure ScoredAll (pre : ReferencePreprocessingResult) (g : CandidateGenerationResult)
    (policy : MatchingPolicy) (cs : List CandidateEvidence) : Prop where
  edges : (cs.map (·.edge)).Perm (g.candidates.map (·.edge))
  sorted : cs.Pairwise fun a b => edgeOrder a.edge ≤ edgeOrder b.edge
  scored : ∀ c ∈ cs, ∃ l ∈ pre.remainingLeft, ∃ r ∈ pre.remainingRight, Scored policy l r c
  complete : ∀ c ∈ cs, c.completeComputation = true ↔
    c.leftId ∉ g.limitedRecordIds ∧ c.rightId ∉ g.limitedRecordIds

theorem scoreEdge_spec {pre : ReferencePreprocessingResult} {limited : List String}
    {policy : MatchingPolicy} {x : CandidateEdge} {c : CandidateEvidence}
    (h : scoreEdge pre limited policy x = .ok c) :
    c.edge = x.edge ∧ (∃ l ∈ pre.remainingLeft, ∃ r ∈ pre.remainingRight, Scored policy l r c) ∧
      (c.completeComputation = true ↔ c.leftId ∉ limited ∧ c.rightId ∉ limited) := by
  unfold scoreEdge at h
  split at h
  · rename_i l r hl hr
    obtain ⟨hs, hcomplete, -⟩ := scoreCandidate_spec h
    obtain ⟨hl1, hl2⟩ := lookup_some hl
    obtain ⟨hr1, hr2⟩ := lookup_some hr
    have hleft : c.leftId = x.leftId := hs.leftId.trans hl2
    have hright : c.rightId = x.rightId := hs.rightId.trans hr2
    refine ⟨Prod.ext hleft hright, ⟨l, hl1, r, hr1, hs⟩, ?_⟩
    rw [hcomplete, hleft, hright, decide_eq_true_iff]
  · simp at h

theorem scoreCandidates_spec {pre : ReferencePreprocessingResult} {g : CandidateGenerationResult}
    {policy : MatchingPolicy} {cs : List CandidateEvidence}
    (h : scoreCandidates pre g policy = .ok cs) : ScoredAll pre g policy cs := by
  simp only [scoreCandidates, bind_ok, pure_ok] at h
  obtain ⟨scored, hscored, rfl⟩ := h
  have hmem : ∀ c ∈ scored, ∃ x ∈ g.candidates,
      scoreEdge pre g.limitedRecordIds policy x = .ok c := fun c hc => mapM_mem_right hscored hc
  refine ⟨?_, sortOn_pairwise _ _, ?_, ?_⟩
  · refine ((sortOn_perm _ scored).map _).trans ?_
    rw [mapM_map hscored fun x _ c hc => (scoreEdge_spec hc).1]
  · intro c hc
    obtain ⟨x, -, hx⟩ := hmem c ((mem_sortOn _ _ _).mp hc)
    exact (scoreEdge_spec hx).2.1
  · intro c hc
    obtain ⟨x, -, hx⟩ := hmem c ((mem_sortOn _ _ _).mp hc)
    exact (scoreEdge_spec hx).2.2

section Candidates
open Workbench.SearchSpace Workbench.Generation
variable {pre : ReferencePreprocessingResult} {policy : MatchingPolicy}
  {g : CandidateGenerationResult} {cs : List CandidateEvidence}

theorem distinct_eq (hd : Distinct pre) (side : RecordSide) {q o : MatchRecord}
    (hq : q ∈ pre.remaining side) (ho : o ∈ pre.remaining side)
    (h : q.observationId = o.observationId) : q = o :=
  List.inj_on_of_nodup_map (hd side) hq ho h

theorem scored_records (hd : Distinct pre) (hg : Generated pre policy g)
    (hcs : ScoredAll pre g policy cs) {c : CandidateEvidence} (hc : c ∈ cs) :
    ∃ l ∈ pre.remainingLeft, ∃ r ∈ pre.remainingRight, Scored policy l r c ∧
      (∃ pass ∈ policy.blockingPasses, Compatible pass l r) ∧
      (l.observationId, r.observationId) ∉ prohibitedEdges pre := by
  obtain ⟨l, hl, r, hr, hscored⟩ := hcs.scored c hc
  have hedge : c.edge = (l.observationId, r.observationId) :=
    Prod.ext hscored.leftId hscored.rightId
  obtain ⟨e, he, hec⟩ := List.mem_map.mp (hcs.edges.mem_iff.mp (List.mem_map_of_mem hc))
  obtain ⟨pass, hpass, l', hl', r', hr', hids, hcompatible⟩ := hg.compatible e he
  rw [hec, hedge, Prod.mk.injEq] at hids
  obtain rfl := distinct_eq hd .left hl hl' hids.1
  obtain rfl := distinct_eq hd .right hr hr' hids.2
  refine ⟨l, hl, r, hr, hscored, ⟨pass, hpass, hcompatible⟩, ?_⟩
  rw [← hedge, ← hec]
  exact hg.allowed e he

/-- Two compatible records that were not prohibited are a candidate, unless
both are limited. -/
theorem records_scored (hd : Distinct pre) (hg : Generated pre policy g)
    (hcs : ScoredAll pre g policy cs) {l r : MatchRecord} (hl : l ∈ pre.remainingLeft)
    (hr : r ∈ pre.remainingRight) (hc : ∃ pass ∈ policy.blockingPasses, Compatible pass l r)
    (hno : (l.observationId, r.observationId) ∉ prohibitedEdges pre) :
    (∃ c ∈ cs, Scored policy l r c) ∨
      l.observationId ∈ g.limitedRecordIds ∧ r.observationId ∈ g.limitedRecordIds := by
  obtain ⟨pass, hpass, hcompatible⟩ := hc
  refine (hg.full _ ⟨pass, hpass, l, hl, r, hr, rfl, hcompatible⟩ hno).imp_left fun hmem => ?_
  obtain ⟨c, hc, hedge⟩ := List.mem_map.mp (hcs.edges.mem_iff.mpr hmem)
  obtain ⟨l', hl', r', hr', hscored⟩ := hcs.scored c hc
  have hown : c.edge = (l'.observationId, r'.observationId) :=
    Prod.ext hscored.leftId hscored.rightId
  have hids := hown.symm.trans hedge
  rw [Prod.mk.injEq] at hids
  obtain rfl := distinct_eq hd .left hl' hl hids.1
  obtain rfl := distinct_eq hd .right hr' hr hids.2
  exact ⟨c, hc, hscored⟩

end Candidates

theorem scoreCandidates_total {pre : ReferencePreprocessingResult} {g : CandidateGenerationResult}
    {policy : MatchingPolicy} (hd : Generation.Distinct pre)
    (hg : Generation.Generated pre policy g)
    (h : ∀ l ∈ pre.remainingLeft, ∀ r ∈ pre.remainingRight,
      (l.observationId, r.observationId) ∈ g.candidates.map (·.edge) → Scorable policy l r) :
    ∃ cs, scoreCandidates pre g policy = .ok cs := by
  have heach : ∀ x ∈ g.candidates,
      ∃ c, scoreEdge pre g.limitedRecordIds policy x = .ok c := by
    intro x hx
    obtain ⟨_, _, l, hl, r, hr, he, -⟩ := hg.compatible x hx
    obtain ⟨hleft, hright⟩ := Prod.mk.inj he
    obtain ⟨hne, htext⟩ := hg.reasons x hx
    have hll : lookup (·.observationId) pre.remainingLeft x.leftId = some l := by
      rw [hleft]
      exact lookup_mem (hd .left) hl
    have hrr : lookup (·.observationId) pre.remainingRight x.rightId = some r := by
      rw [hright]
      exact lookup_mem (hd .right) hr
    simp only [scoreEdge, hll, hrr]
    exact scoreCandidate_total (h l hl r hr (he ▸ List.mem_map_of_mem hx)) hne htext _
  obtain ⟨scored, hscored⟩ := mapM_exists heach
  exact ⟨_, bind_ok.mpr ⟨scored, hscored, rfl⟩⟩

theorem size_ofInt {n k : ℕ} (h : n ≤ 10^k) : size (ofInt n) ≤ 10^k := by
  have hn : ((n : ℕ) : ℚ) ≤ 10^k := by exact_mod_cast h
  simpa [size, ofInt] using hn

theorem value_ofInt (n : ℕ) : value (ofInt n) = n := by
  simp [value, size, ofInt]

theorem nonneg_value {d : Decimal} (h : ofInt 0 ≤ d) : 0 ≤ value d := by
  have hz : value (ofInt 0) = 0 := by simpa using value_ofInt 0
  exact hz ▸ le_iff.mp h

theorem linearSimilarity_ok {difference band : Decimal} {k l : ℕ} (hk : k+l+2 < 999999)
    (hd0 : 0 ≤ value difference) (hd : size difference ≤ 10^k) (hb0 : 0 ≤ value band)
    (hb : -(l : ℤ) ≤ band.exponent) :
    ∃ f, linearSimilarity difference band = some f ∧ 0 ≤ value f ∧ value f ≤ 1 := by
  have hzero : value (ofInt 0) = 0 := by simpa using value_ofInt 0
  have hone : value (ofInt 1) = 1 := by simpa using value_ofInt 1
  unfold linearSimilarity
  by_cases hband : band.coefficient = 0
  · rw [if_pos hband]
    refine ⟨_, rfl, ?_⟩
    split_ifs
    · rw [hone]
      norm_num
    · rw [hzero]
      norm_num
  · rw [if_neg hband]
    have hp : 0 < precision := by decide
    obtain ⟨q, hq, hqs⟩ := div_bounded hp (by omega) hd hband (size_ge hband hb)
    have hq0 := div_nonneg_value hq hd0 hb0
    have hsize : size (ofInt 1) ≤ 10^(k+l+1) :=
      size_ofInt (n := 1) (Nat.one_le_pow _ _ (by norm_num))
    obtain ⟨s, hs, -⟩ := sub_bounded hp (by omega) hsize hqs
    have hs1 : value s ≤ 1 := by
      have hexact : value (exactSum (ofInt 1) (negate q)) ≤ (1 : ℕ)*10^0 := by
        rw [value_exactSum, value_negate, hone]
        push_cast
        linarith
      simpa using fix_value_le (one_lt_pow hp) hs hexact
    refine ⟨larger (ofInt 0) s, ?_, ?_, ?_⟩
    · simp only [hq, Option.bind_eq_bind, Option.bind_some, hs]
      rfl
    · exact hzero ▸ le_larger (ofInt 0) s
    · rcases larger_cases (ofInt 0) s with h | h
      · rw [h, hzero]
        norm_num
      · rw [h]
        exact hs1

theorem quantizeBp_ok {factor : Decimal} {m : ℕ} (hm : m ≤ scoreScaleBp) (h0 : 0 ≤ value factor)
    (h1 : value factor ≤ 1) :
    ∃ d z, mul precision (ofInt m) factor = some d ∧ quantizeBp d = some z ∧ 0 ≤ z ∧ z ≤ m := by
  have hp : 0 < precision := by decide
  have hbig : scoreScaleBp < 10^precision := by decide
  have hmp : m < 10^precision := lt_of_le_of_lt hm hbig
  have hsize : size factor ≤ 10^0 := by
    rw [size_of_nonneg h0]
    simpa using h1
  obtain ⟨d, hd, -⟩ := mul_bounded (k := precision) hp (by decide) (size_ofInt hmp.le) hsize
  have hd0 := mul_nonneg_value hd (by rw [value_ofInt]; positivity) h0
  have hdm := mul_value_le hmp hd (value_ofInt m) h0 h1
  obtain ⟨r, hr, hr0, hrm⟩ := quantize_toInt hp (by decide) hmp hd0 hdm
  exact ⟨d, toInt r, hd, by simp [quantizeBp, hr], hr0, hrm⟩

theorem weighted_ok {difference band : Decimal} {k l m : ℕ} (hk : k+l+2 < 999999)
    (hd0 : 0 ≤ value difference) (hd : size difference ≤ 10^k) (hb0 : 0 ≤ value band)
    (hb : -(l : ℤ) ≤ band.exponent) (hm : m ≤ scoreScaleBp) :
    ∃ s c, weighted difference band m = some (s, c) ∧
      (0 ≤ s ∧ s ≤ scoreScaleBp) ∧ 0 ≤ c ∧ c ≤ m := by
  obtain ⟨f, hf, hf0, hf1⟩ := linearSimilarity_ok hk hd0 hd hb0 hb
  obtain ⟨a, s, ha, hs, hs0, hsm⟩ := quantizeBp_ok (le_refl scoreScaleBp) hf0 hf1
  obtain ⟨b, c, hb', hc, hc0, hcm⟩ := quantizeBp_ok hm hf0 hf1
  refine ⟨s, c, ?_, ⟨hs0, hsm⟩, hc0, hcm⟩
  simp [weighted, hf, ha, hs, hb', hc]

structure OrdinaryRecord (r : MatchRecord) : Prop where
  quantity : ∀ d ∈ r.quantity, Ordinary d
  unitPrice : ∀ d ∈ r.unitPrice, Ordinary d
  grossAmount : ∀ d ∈ r.grossAmount, Ordinary d

structure OrdinaryBands (policy : NumericSimilarityPolicy) : Prop where
  absolute : Ordinary policy.absoluteBand
  relative : Ordinary policy.relativeBand

structure OrdinaryPolicy (policy : MatchingPolicy) : Prop where
  quantity : OrdinaryBands policy.quantitySimilarity
  unitPrice : OrdinaryBands policy.unitPriceSimilarity
  grossAmount : OrdinaryBands policy.grossAmountSimilarity

theorem larger_size {a b : Decimal} {k : ℕ} (ha : size a ≤ 10^k) (hb : size b ≤ 10^k) :
    size (larger a b) ≤ 10^k := by
  rcases larger_cases a b with h | h
  · rwa [h]
  · rwa [h]

theorem larger_exponent {a b : Decimal} {l : ℤ} (ha : l ≤ a.exponent) (hb : l ≤ b.exponent) :
    l ≤ (larger a b).exponent := by
  rcases larger_cases a b with h | h
  · rwa [h]
  · rwa [h]

theorem numericDifference_ok {left right : Decimal} {policy : NumericSimilarityPolicy}
    (hl : Ordinary left) (hr : Ordinary right) (hp : OrdinaryBands policy) :
    ∃ d b, numericDifference left right policy = some (d, b) ∧ 0 ≤ value d ∧ size d ≤ 10^39 ∧
      0 ≤ value b ∧ -24 ≤ b.exponent := by
  have hprec : 0 < precision := by decide
  obtain ⟨x, hx, hxs⟩ := sub_bounded hprec (by norm_num) hr.size_le hl.size_le
  obtain ⟨d, hd, hds⟩ := abs_bounded hprec (by norm_num) hxs
  obtain ⟨la, hla, hlas⟩ := abs_bounded hprec (by norm_num) hl.size_le
  obtain ⟨ra, hra, hras⟩ := abs_bounded hprec (by norm_num) hr.size_le
  obtain ⟨m, hm, -⟩ := mul_bounded hprec (by norm_num) hp.relative.size_le
    (larger_size hlas hras)
  have hle : (-12 : ℤ) ≤ 999999 := by norm_num
  have hme : -24 ≤ m.exponent := by
    have h := mul_exponent (k := -12) (l := -12) (by norm_num) hm hp.relative.1
      (larger_exponent (abs_exponent hle hla hl.1) (abs_exponent hle hra hr.1))
    omega
  refine ⟨d, larger policy.absoluteBand m, ?_, abs_nonneg hd, hds, ?_, ?_⟩
  · simp [numericDifference, hx, hd, hla, hra, hm]
  · exact (nonneg_value policy.absolute_nonneg).trans (le_larger _ _)
  · refine larger_exponent ?_ hme
    have := hp.absolute.1
    omega

theorem feature_create_total {feature : MatchFeature} {left right : ScalarValue}
    {difference : DifferenceValue} {band : Band} {present : Bool}
    {similarity weight contribution : ℤ} {rule : String}
    (hs : 0 ≤ similarity ∧ similarity ≤ scoreScaleBp) (hw : 0 ≤ weight ∧ weight ≤ scoreScaleBp)
    (hc : 0 ≤ contribution ∧ contribution ≤ weight) (hrule : nonblank rule = true)
    (hzero : present = true ∨ similarity = 0 ∧ contribution = 0) (hband : band.nonnegative = true)
    (hshape : shapeValid feature left right difference band = true)
    (hpresent : present = decide (left ≠ .none ∧ right ≠ .none) ∧
      present = decide (difference ≠ .none)) :
    ∃ e, FeatureEvidence.create feature left right difference band present similarity weight
      contribution rule = .ok e := by
  simp only [FeatureEvidence.create, bind_ok, exists_require, pure_ok, requiredText_ok,
    scoreBp_ok, exists_const]
  exact ⟨_, hs, hw, ⟨hc.1, hc.2.trans hw.2⟩, hrule, hzero, hc.2, hband, hshape, hpresent, rfl⟩

theorem featureName_text (feature : MatchFeature) (s : String) :
    nonblank (featureName feature ++ s) = true :=
  nonblank_append_left (by cases feature <;> decide)

theorem nonneg_band {b : Decimal} (h : 0 ≤ value b) : (Band.decimal b).nonnegative = true := by
  have hz : value (ofInt 0) = 0 := by simpa using value_ofInt 0
  simp only [Band.nonnegative, decide_eq_true_eq]
  exact le_iff.mpr (hz ▸ h)

theorem numericEvidence_total (feature : MatchFeature) (hf : feature ≠ .timestamp)
    {left right : Option Decimal} {policy : NumericSimilarityPolicy} {weight : ℕ}
    (hl : ∀ d ∈ left, Ordinary d) (hr : ∀ d ∈ right, Ordinary d) (hp : OrdinaryBands policy)
    (hw : weight ≤ scoreScaleBp) :
    ∃ e, numericEvidence feature left right policy weight = .ok e := by
  have hweight : (0 : ℤ) ≤ weight ∧ (weight : ℤ) ≤ scoreScaleBp :=
    ⟨Int.natCast_nonneg weight, by exact_mod_cast hw⟩
  have hmissing : ∀ a b : Option Decimal, a = none ∨ b = none →
      ∃ e, FeatureEvidence.create feature (.ofDecimal a) (.ofDecimal b) .none
        (.decimal policy.absoluteBand) false 0 weight 0
        (featureName feature ++ " is missing on one or both records; " ++
          "its contribution is zero and feature weights remain unchanged.") = .ok e := by
    intro a b hab
    refine feature_create_total ⟨le_rfl, by decide⟩ hweight ⟨le_rfl, hweight.1⟩ ?_
      (.inr ⟨rfl, rfl⟩) (nonneg_band (nonneg_value policy.absolute_nonneg)) ?_ ?_
    · rw [String.append_assoc]
      exact featureName_text feature _
    · cases feature <;> first | exact absurd rfl hf | cases a <;> cases b <;> rfl
    · rcases hab with rfl | rfl <;> simp [ScalarValue.ofDecimal]
  cases left with
  | none => exact hmissing none right (.inl rfl)
  | some l =>
    cases right with
    | none => exact hmissing (some l) none (.inr rfl)
    | some r =>
      obtain ⟨d, b, hdb, hd0, hd, hb0, hb⟩ := numericDifference_ok (hl l rfl) (hr r rfl) hp
      obtain ⟨s, c, hsc, hs, hc⟩ := weighted_ok (k := 39) (l := 24) (by norm_num) hd0 hd hb0 hb hw
      simp only [numericEvidence, hdb, hsc, fetch, ok_bind]
      refine feature_create_total hs hweight hc ?_ (.inl rfl) (nonneg_band hb0) ?_ (by simp)
      · simp only [String.append_assoc]
        exact featureName_text feature _
      · cases feature <;> first | exact absurd rfl hf | rfl

theorem timedeltaSeconds_ok {d : Duration} (h : 0 ≤ d.microseconds) :
    ∃ s, timedeltaSeconds d = some s ∧ 0 ≤ value s ∧ size s ≤ 10^39 ∧ -90 ≤ s.exponent := by
  have hp : 0 < precision := by decide
  have hfraction : d.fraction ≤ 10^6 := by
    unfold Duration.fraction
    omega
  obtain ⟨n, hn, hle⟩ : ∃ n : ℕ, d.days*86400+d.seconds = n ∧ n ≤ 10^38 := by
    refine ⟨(d.days*86400+d.seconds).toNat, ?_, ?_⟩
    · unfold Duration.days Duration.seconds
      omega
    · have := d.upper
      unfold Duration.days Duration.seconds
      omega
  have hmillion : (10 : ℚ)^(-((0 : ℕ) : ℤ)) ≤ size (ofInt 1000000) := by
    simp [size, ofInt]
  obtain ⟨f, hf, hfs⟩ := div_bounded (k := 6) (l := 0) hp (by norm_num) (size_ofInt hfraction)
    (by decide) hmillion
  have hf0 : 0 ≤ value f := by
    refine div_nonneg_value hf ?_ ?_
    · rw [value_ofInt]
      positivity
    · have hm := value_ofInt 1000000
      push_cast at hm
      rw [hm]
      norm_num
  have hfe : -90 ≤ f.exponent := by
    refine div_exponent (by norm_num) hf ?_
    have hdigits : digits (ofInt 1000000).coefficient = 7 := by decide
    rw [hdigits]
    simp [ofInt, precision]
  have hfs' : size f ≤ 10^38 := hfs.trans (by norm_num)
  obtain ⟨s, hs, hss⟩ := add_bounded (a := ofInt n) hp (by norm_num) (size_ofInt hle) hfs'
  refine ⟨s, ?_, ?_, hss, ?_⟩
  · simp only [timedeltaSeconds, hf, hn, Option.bind_eq_bind, Option.bind_some, hs]
  · refine fix_nonneg hs ?_
    rw [value_exactSum, value_ofInt]
    positivity
  · exact add_exponent (by norm_num) hs (by simp [ofInt]) hfe

theorem timestampEvidence_total (left right : Option Instant) {band : Duration} {weight : ℕ}
    (hband : 0 ≤ band.microseconds) (hw : weight ≤ scoreScaleBp) :
    ∃ e, timestampEvidence left right band weight = .ok e := by
  have hweight : (0 : ℤ) ≤ weight ∧ (weight : ℤ) ≤ scoreScaleBp :=
    ⟨Int.natCast_nonneg weight, by exact_mod_cast hw⟩
  have hnonneg : (Band.elapsed band).nonnegative = true := by simpa [Band.nonnegative] using hband
  have hmissing : ∀ a b : Option Instant, a = none ∨ b = none →
      ∃ e, FeatureEvidence.create .timestamp (.ofDatetime a) (.ofDatetime b) .none
        (.elapsed band) false 0 weight 0
        ("Timestamp is missing on one or both records; its contribution is zero " ++
          "and feature weights remain unchanged.") = .ok e := by
    intro a b hab
    refine feature_create_total ⟨le_rfl, by decide⟩ hweight ⟨le_rfl, hweight.1⟩ (by decide)
      (.inr ⟨rfl, rfl⟩) hnonneg ?_ ?_
    · cases a <;> cases b <;> rfl
    · rcases hab with rfl | rfl <;> simp [ScalarValue.ofDatetime]
  cases left with
  | none => exact hmissing none right (.inl rfl)
  | some l =>
    cases right with
    | none => exact hmissing (some l) none (.inr rfl)
    | some r =>
      obtain ⟨d, hd, hd0, hds, -⟩ := timedeltaSeconds_ok (between l r).microseconds_abs
      obtain ⟨b, hb, hb0, -, hbe⟩ := timedeltaSeconds_ok hband
      obtain ⟨s, c, hsc, hs, hc⟩ :=
        weighted_ok (k := 39) (l := 90) (by norm_num) hd0 hds hb0 hbe hw
      simp only [timestampEvidence, hd, hb, hsc, fetch, ok_bind]
      refine feature_create_total hs hweight hc ?_ (.inl rfl) hnonneg rfl (by simp)
      simp only [String.append_assoc]
      exact nonblank_append_left (by decide)

theorem scorable {policy : MatchingPolicy} {left right : MatchRecord} (hl : OrdinaryRecord left)
    (hr : OrdinaryRecord right) (hp : OrdinaryPolicy policy) : Scorable policy left right := by
  obtain ⟨q, hq⟩ := numericEvidence_total .quantity (by decide) hl.quantity
    hr.quantity hp.quantity (policy.weight_le .quantity)
  obtain ⟨t, ht⟩ := timestampEvidence_total left.executedAt right.executedAt
    policy.timestampSimilarity.band_nonneg (policy.weight_le .timestamp)
  obtain ⟨u, hu⟩ := numericEvidence_total .unitPrice (by decide) hl.unitPrice
    hr.unitPrice hp.unitPrice (policy.weight_le .unitPrice)
  obtain ⟨g, hg⟩ := numericEvidence_total .grossAmount (by decide) hl.grossAmount
    hr.grossAmount hp.grossAmount (policy.weight_le .grossAmount)
  exact ⟨[q, t, u, g], by simp [features, hq, ht, hu, hg]⟩

end Workbench.Scores
