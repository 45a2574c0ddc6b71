import Workbench.Review
import Workbench.StateHashes

/-!
# What a case key tells apart

A case key is the digest of a kind and of labelled texts, each after its length.
The texts can be read back from the hashed bytes, so two cases share a key only
when they are of one kind and of one identity; the order in which members are
listed does not count.
-/

set_option autoImplicit false

namespace Workbench.CaseKeys
open Workbench.Listing Workbench.Raising Workbench.Records Workbench.Json Workbench.Ingestion
open Workbench.StateHashes Workbench.Review

/-- What a case is about, as a caller gives it. -/
inductive Subject where
  | pair (bookId leftId rightId : String)
  | unpaired (bookId : String) (side : RecordSide) (recordId : String)
  | ambiguity (bookId scopeId policyDigest : String) (leftIds rightIds : List String)

def Subject.kind : Subject → CaseKind
  | .pair .. => .pair
  | .unpaired .. => .unpaired
  | .ambiguity .. => .ambiguity

def Subject.parts : Subject → Outcome (List (String × String))
  | .pair bookId leftId rightId => pairParts bookId leftId rightId
  | .unpaired bookId side recordId => unpairedParts bookId side recordId
  | .ambiguity bookId scopeId policyDigest leftIds rightIds =>
    ambiguityParts bookId scopeId policyDigest leftIds rightIds

def Subject.key (sha : Sha256) : Subject → Outcome CaseKey
  | .pair bookId leftId rightId => pairCaseKey sha bookId leftId rightId
  | .unpaired bookId side recordId => unpairedCaseKey sha bookId side recordId
  | .ambiguity bookId scopeId policyDigest leftIds rightIds =>
    ambiguityCaseKey sha bookId scopeId policyDigest leftIds rightIds

/-- The bytes under the key. -/
def Subject.hashed (a : Subject) : Outcome (List ℕ) := do
  let parts ← a.parts
  hashedBytes a.kind parts

/-- One kind and one identity; members count as sets. -/
inductive Same : Subject → Subject → Prop
  | pair (bookId leftId rightId : String) :
    Same (.pair bookId leftId rightId) (.pair bookId leftId rightId)
  | unpaired (bookId : String) (side : RecordSide) (recordId : String) :
    Same (.unpaired bookId side recordId) (.unpaired bookId side recordId)
  | ambiguity (bookId scopeId policyDigest : String) {leftIds rightIds leftIds' rightIds' :
      List String} (left : ∀ i, i ∈ leftIds ↔ i ∈ leftIds') (right : ∀ i, i ∈ rightIds ↔
      i ∈ rightIds') : Same (.ambiguity bookId scopeId policyDigest leftIds rightIds)
        (.ambiguity bookId scopeId policyDigest leftIds' rightIds')

theorem key_hashed (sha : Sha256) (a : Subject) {k : CaseKey} : a.key sha = .ok k ↔
    ∃ x, a.hashed = .ok x ∧ k.kind = a.kind ∧ k.digest = sha.hexdigest x := by
  have hkey : ∀ kind parts, keyOf sha kind parts = .ok k ↔
      ∃ x, hashedBytes kind parts = .ok x ∧ k.kind = kind ∧ k.digest = sha.hexdigest x := by
    intro kind parts
    simp only [keyOf, hashedBytes, fetch_ok, caseKey, Option.map_eq_some_iff]
    refine exists_congr fun x => and_congr_right fun _ => ?_
    rw [eq_comm, CaseKey.ext_iff]
  have hbind : a.key sha = a.parts >>= keyOf sha a.kind := by cases a <;> rfl
  rw [hbind, Subject.hashed]
  simp only [bind_ok, hkey]
  constructor
  · rintro ⟨parts, hparts, x, hx, hk⟩
    exact ⟨x, ⟨parts, hparts, hx⟩, hk⟩
  · rintro ⟨x, ⟨parts, hparts, hx⟩, hk⟩
    exact ⟨parts, hparts, x, hx, hk⟩

/-- The keys under which a run publishes its cases. -/
def Subject.published (sha : Sha256) (a : Subject) : Option CaseKey := (a.key sha).toOption

theorem labelled_inj {parts parts' : List (String × String)}
    (h : (parts.flatMap fun p => [p.1, p.2]) = parts'.flatMap fun p => [p.1, p.2]) :
    parts = parts' := by
  induction parts generalizing parts' with
  | nil =>
    cases parts' with
    | nil => rfl
    | cons q qs => simp at h
  | cons p ps ih =>
    cases parts' with
    | nil => simp at h
    | cons q qs =>
      simp only [List.flatMap_cons, List.cons_append, List.nil_append, List.cons.injEq] at h
      rw [Prod.ext h.1 h.2.1, ih h.2.2]

theorem hashedBytes_inj {kind kind' : CaseKind} {parts parts' : List (String × String)}
    {x : List ℕ} (h : hashedBytes kind parts = .ok x) (h' : hashedBytes kind' parts' = .ok x) :
    kind = kind' ∧ parts = parts' := by
  simp only [hashedBytes, fetch_ok, caseKeyBytes, Option.bind_eq_bind, Option.bind_eq_some_iff,
    Option.some.injEq] at h h'
  obtain ⟨framed, hf, hx⟩ := h
  obtain ⟨framed', hf', hx'⟩ := h'
  have hmap : ∀ texts : List String, (texts.mapM fun text => lengthPrefix (utf8 text)) =
      (texts.map utf8).mapM lengthPrefix := by
    intro texts
    rw [List.mapM_map]
    rfl
  rw [hmap] at hf hf'
  have htexts := List.map_injective_iff.mpr utf8_injective
    (frames_inj hf hf' (hx.trans hx'.symm))
  simp only [List.cons_append, List.nil_append, List.cons.injEq, true_and] at htexts
  exact ⟨CaseKind.value_injective htexts.1, labelled_inj htexts.2⟩

def labelled (label : String) (parts : List (String × String)) : List String :=
  parts.filterMap fun p => if p.1 = label then some p.2 else none

theorem labelled_members (label : String) (l : List String) :
    labelled label (l.map ((label, ·))) = l := by
  induction l with
  | nil => rfl
  | cons s l ih =>
    simp only [labelled, List.map_cons, List.filterMap_cons, if_true] at ih ⊢
    rw [ih]

theorem labelled_others {label other : String} (h : other ≠ label) (l : List String) :
    labelled label (l.map ((other, ·))) = [] := by
  refine List.filterMap_eq_nil_iff.mpr fun p hp => ?_
  obtain ⟨s, -, rfl⟩ := List.mem_map.mp hp
  exact if_neg h

theorem labelled_append (label : String) (parts parts' : List (String × String)) :
    labelled label (parts ++ parts') = labelled label parts ++ labelled label parts' :=
  List.filterMap_append

theorem memberParts_left (bookId scopeId policyDigest : String) (left right : List String) :
    labelled "left-member" (memberParts bookId scopeId policyDigest left right) = left := by
  simp only [memberParts, labelled_append, labelled_members,
    labelled_others (by decide : "right-member" ≠ "left-member")]
  simp [labelled]

theorem memberParts_right (bookId scopeId policyDigest : String) (left right : List String) :
    labelled "right-member" (memberParts bookId scopeId policyDigest left right) = right := by
  simp only [memberParts, labelled_append, labelled_members,
    labelled_others (by decide : "left-member" ≠ "right-member")]
  simp [labelled]

theorem memberParts_inj {bookId scopeId policyDigest bookId' scopeId' policyDigest' : String}
    {left right left' right' : List String}
    (h : memberParts bookId scopeId policyDigest left right =
      memberParts bookId' scopeId' policyDigest' left' right') :
    bookId = bookId' ∧ scopeId = scopeId' ∧ policyDigest = policyDigest' ∧ left = left' ∧
      right = right' := by
  have hleft := congrArg (labelled "left-member") h
  have hright := congrArg (labelled "right-member") h
  rw [memberParts_left, memberParts_left] at hleft
  rw [memberParts_right, memberParts_right] at hright
  simp only [memberParts, List.cons_append, List.nil_append, List.cons.injEq, Prod.mk.injEq,
    true_and] at h
  exact ⟨h.1, h.2.1, h.2.2.1, hleft, hright⟩

theorem require_congr {p q : Prop} [Decidable p] [Decidable q] (h : p ↔ q) (message : String) :
    require p message = require q message := by
  by_cases hp : p
  · rw [require, require, demand, demand, if_pos hp, if_pos (h.mp hp)]
  · rw [require, require, demand, demand, if_neg hp, if_neg fun hq => hp (h.mpr hq)]

theorem forM_requiredText (values : List String) (name : String) :
    (values.forM fun value => requiredText value name) =
      require (∀ value ∈ values, nonblank value = true) (name ++ " must be nonblank text") := by
  induction values with
  | nil =>
    have hall : ∀ value ∈ ([] : List String), nonblank value = true :=
      fun _ h => absurd h List.not_mem_nil
    exact (require_ok.mpr hall).symm
  | cons value values ih =>
    have hstep : ((value :: values).forM fun value => requiredText value name) =
        requiredText value name >>= fun _ => values.forM fun value => requiredText value name := rfl
    rw [hstep, ih]
    by_cases hv : nonblank value = true
    · have hfirst : requiredText value name = .ok () := if_pos hv
      rw [hfirst, ok_bind]
      exact require_congr (by rw [List.forall_mem_cons, and_iff_right hv]) _
    · have hfirst : requiredText value name =
          .error (.domainValidation (name ++ " must be nonblank text")) := if_neg hv
      have hsome : ¬∀ v ∈ value :: values, nonblank v = true :=
        fun h => hv (h value List.mem_cons_self)
      rw [hfirst]
      simp only [require, demand, if_neg hsome]
      rfl

theorem canonicalTexts_ok {values l : List String} {name : String}
    (h : canonicalTexts values name = .ok l) : values.Nodup ∧ l = sortOn id values := by
  rw [canonicalTexts, forM_requiredText] at h
  simp only [bind_ok, exists_require, pure_ok] at h
  exact ⟨h.2.1, h.2.2.symm⟩

theorem ambiguityParts_ok {bookId scopeId policyDigest : String} {leftIds rightIds : List String}
    {parts : List (String × String)}
    (h : ambiguityParts bookId scopeId policyDigest leftIds rightIds = .ok parts) :
    leftIds.Nodup ∧ rightIds.Nodup ∧ parts =
      memberParts bookId scopeId policyDigest (sortOn id leftIds) (sortOn id rightIds) := by
  simp only [ambiguityParts, validateSha256, requiredText, bind_ok, exists_require, pure_ok] at h
  obtain ⟨-, left, hl, right, hr, -, -, -, -, rfl⟩ := h
  obtain ⟨hleft, rfl⟩ := canonicalTexts_ok hl
  obtain ⟨hright, rfl⟩ := canonicalTexts_ok hr
  exact ⟨hleft, hright, rfl⟩

theorem same_sorted {l l' : List String} (hd : l.Nodup) (hd' : l'.Nodup) :
    sortOn id l = sortOn id l' ↔ ∀ i, i ∈ l ↔ i ∈ l' := by
  constructor
  · intro h i
    rw [← mem_sortOn id l, h, mem_sortOn]
  · intro h
    exact sortOn_eq_of_perm id ((List.perm_ext_iff_of_nodup hd hd').mpr h) (by rwa [List.map_id])

/-- Subjects with the same kind and the same texts are the same. -/
theorem parts_same {a b : Subject} {parts parts' : List (String × String)}
    (ha : a.parts = .ok parts) (hb : b.parts = .ok parts') :
    a.kind = b.kind ∧ parts = parts' ↔ Same a b := by
  constructor
  · rintro ⟨hkind, rfl⟩
    cases a <;> cases b <;> first | (cases hkind; done) | skip
    case pair.pair =>
      simp only [Subject.parts, pairParts, requiredText, bind_ok, exists_require, pure_ok] at ha hb
      obtain ⟨-, -, -, rfl⟩ := ha
      obtain ⟨-, -, -, h⟩ := hb
      simp only [List.cons.injEq, Prod.mk.injEq, true_and, and_true] at h
      obtain ⟨rfl, rfl, rfl⟩ := h
      exact .pair _ _ _
    case unpaired.unpaired book side record book' side' record' =>
      simp only [Subject.parts, unpairedParts, requiredText, bind_ok, exists_require, pure_ok]
        at ha hb
      obtain ⟨-, -, rfl⟩ := ha
      obtain ⟨-, -, h⟩ := hb
      simp only [List.cons.injEq, Prod.mk.injEq, true_and, and_true] at h
      obtain ⟨rfl, hside, rfl⟩ := h
      have hsame : side' = side := by
        cases side' <;> cases side <;> first | rfl | exact absurd hside (by decide)
      exact hsame ▸ .unpaired _ _ _
    case ambiguity.ambiguity =>
      obtain ⟨hl, hr, rfl⟩ := ambiguityParts_ok ha
      obtain ⟨hl', hr', h⟩ := ambiguityParts_ok hb
      obtain ⟨rfl, rfl, rfl, hleft, hright⟩ := memberParts_inj h
      exact .ambiguity _ _ _ ((same_sorted hl hl').mp hleft) ((same_sorted hr hr').mp hright)
  · intro h
    cases h with
    | pair => exact ⟨rfl, Except.ok.inj (ha.symm.trans hb)⟩
    | unpaired => exact ⟨rfl, Except.ok.inj (ha.symm.trans hb)⟩
    | ambiguity book scope policy hleft hright =>
      obtain ⟨hl, hr, rfl⟩ := ambiguityParts_ok ha
      obtain ⟨hl', hr', rfl⟩ := ambiguityParts_ok hb
      rw [(same_sorted hl hl').mpr hleft, (same_sorted hr hr').mpr hright]
      exact ⟨rfl, rfl⟩

theorem hashed_same {a b : Subject} {x y : List ℕ} (ha : a.hashed = .ok x)
    (hb : b.hashed = .ok y) : x = y ↔ Same a b := by
  simp only [Subject.hashed, bind_ok] at ha hb
  obtain ⟨parts, hparts, hx⟩ := ha
  obtain ⟨parts', hparts', hy⟩ := hb
  rw [← parts_same hparts hparts']
  constructor
  · rintro rfl
    exact hashedBytes_inj hx hy
  · rintro ⟨hkind, rfl⟩
    rw [hkind] at hx
    exact Except.ok.inj (hx.symm.trans hy)

/-- The hashed bytes name the kind and the identity of a case, and so does its
key as far as the hash tells the bytes apart. -/
theorem case_keys_identify (sha : Sha256) {a b : Subject} {k k' : CaseKey}
    (ha : a.key sha = .ok k) (hb : b.key sha = .ok k') : ∃ x y, a.hashed = .ok x ∧
      b.hashed = .ok y ∧ (x = y ↔ Same a b) ∧ (Same a b → k = k') ∧
        (sha.Apart x y → (k = k' ↔ Same a b)) := by
  obtain ⟨x, hx, hkind, hdigest⟩ := (key_hashed sha a).mp ha
  obtain ⟨y, hy, hkind', hdigest'⟩ := (key_hashed sha b).mp hb
  have hsame := hashed_same hx hy
  have hforth : Same a b → k = k' := by
    intro h
    have hkinds : a.kind = b.kind := by cases h <;> rfl
    rw [CaseKey.ext_iff, hkind, hkind', hdigest, hdigest', hsame.mpr h]
    exact ⟨hkinds, rfl⟩
  refine ⟨x, y, hx, hy, hsame, hforth, fun hapart => ⟨fun h => ?_, hforth⟩⟩
  have hdigests := (CaseKey.ext_iff.mp h).2
  rw [hdigest, hdigest'] at hdigests
  exact hsame.mp (hapart hdigests)

def openSubject (leftIds : List String) : Subject :=
  .ambiguity "7" "3" "00000000000000000000000000000000000000000000000000000000000000aa" leftIds ["R1"]

theorem open_keyed : ∀ leftIds ∈ [["L1", "L2"], ["L2", "L1"], ["L1", "L3"]],
    ((openSubject leftIds).key (endingIn List.sum)).toOption.isSome = true := by
  decide +kernel

theorem open_apart :
    ((openSubject ["L1", "L2"]).hashed.toOption.map (endingIn List.sum).hexdigest) ≠
      ((openSubject ["L1", "L3"]).hashed.toOption.map (endingIn List.sum).hexdigest) := by
  decide +kernel

/-- Two listings of one ambiguity, and another one. -/
theorem case_keys_identify_sample : ∃ k k' k'',
    (openSubject ["L1", "L2"]).key (endingIn List.sum) = .ok k ∧
    (openSubject ["L2", "L1"]).key (endingIn List.sum) = .ok k' ∧
    (openSubject ["L1", "L3"]).key (endingIn List.sum) = .ok k'' ∧ k = k' ∧ k ≠ k'' := by
  obtain ⟨k, hk⟩ := Option.isSome_iff_exists.mp (open_keyed ["L1", "L2"] (by simp))
  obtain ⟨k', hk'⟩ := Option.isSome_iff_exists.mp (open_keyed ["L2", "L1"] (by simp))
  obtain ⟨k'', hk''⟩ := Option.isSome_iff_exists.mp (open_keyed ["L1", "L3"] (by simp))
  refine ⟨k, k', k'', toOption_ok hk, toOption_ok hk', toOption_ok hk'', ?_, ?_⟩
  · obtain ⟨x, y, -, -, -, hforth, -⟩ :=
      case_keys_identify (endingIn List.sum) (toOption_ok hk) (toOption_ok hk')
    have hmembers : ∀ i, i ∈ ["L1", "L2"] ↔ i ∈ ["L2", "L1"] := by
      intro i
      rw [(List.Perm.swap "L2" "L1" []).mem_iff]
    exact hforth (.ambiguity _ _ _ hmembers fun _ => Iff.rfl)
  · obtain ⟨x, y, hx, hy, -, -, hback⟩ :=
      case_keys_identify (endingIn List.sum) (toOption_ok hk) (toOption_ok hk'')
    have happart : (endingIn List.sum).Apart x y := by
      intro h
      have hdiffer := open_apart
      rw [hx, hy] at hdiffer
      exact absurd (congrArg some h) hdiffer
    intro he
    cases (hback happart).mp he with
    | ambiguity _ _ _ hleft _ => exact absurd ((hleft "L2").mp (by simp)) (by simp)

end Workbench.CaseKeys
