import Workbench.Observations

/-!
# Local times

A timestamp without an offset is a time on the clock of a zone. At each local
time a zone attaches an offset to either fold; converting to UTC and back tells
whether the clock ever shows the local time, and whether it shows it twice.
-/

set_option autoImplicit false

namespace Workbench.LocalTimes
open Workbench.Listing Workbench.Calendar Workbench.Raising Workbench.Records Workbench.Ingestion
open Workbench.Interpretation

/-- A naive time, in microseconds from the start of year 1. -/
abbrev Local := Instant

/-- A zone as its clock and the offsets it attaches to local times. When some
instant shows a local time, fold 0 attaches the offset of the earliest such
instant and fold 1 that of the latest. No gap reaches out of the calendar. -/
structure Zone where
  offset : Instant → ℤ
  attach : Local → Fin 2 → ℤ
  earliest : ∀ naive t, shift t (offset t) = some naive →
    ∃ s ≤ t, shift s (offset s) = some naive ∧ shift naive (-attach naive 0) = some s
  latest : ∀ naive t, shift t (offset t) = some naive →
    ∃ s, t ≤ s ∧ shift s (offset s) = some naive ∧ shift naive (-attach naive 1) = some s
  inside : ∀ naive fold t, shift naive (-attach naive fold) = some t →
    ∃ s, shift t (offset t) = some s

variable (zone : Zone) (naive : Local)

/-- `astimezone(zone)`. -/
def Zone.shown (t : Instant) : Outcome Local := fetch .overflow (shift t (zone.offset t))

/-- `replace(tzinfo=zone, fold=fold).astimezone(UTC)`. -/
def Zone.image (fold : Fin 2) : Outcome Instant :=
  fetch .overflow (shift naive (-zone.attach naive fold))

def Zone.Shows (t : Instant) : Prop := shift t (zone.offset t) = some naive

instance (t : Instant) : Decidable (zone.Shows naive t) :=
  inferInstanceAs (Decidable (shift t (zone.offset t) = some naive))

/-- `_round_trips`. -/
def roundTrips (fold : Fin 2) : Outcome Bool := do
  let t ← zone.image naive fold
  let shown ← zone.shown t
  .ok (decide (shown = naive))

def candidates : Outcome (List (Fin 2)) := do
  let first ← roundTrips zone naive 0
  let second ← roundTrips zone naive 1
  .ok ((if first then [0] else []) ++ (if second then [1] else []))

def resolve (name : String) (policy : DateFoldPolicy) :
    Outcome (Except (RowErrorCode × String) Instant) := do
  let folds ← candidates zone naive
  let images ← folds.mapM (zone.image naive)
  match sortOn id images.dedup with
  | [] => .ok (.error (.nonexistentDatetime, "an existing local time in " ++ name))
  | [t] => .ok (.ok t)
  | t :: ts => match policy with
    | .reject => .ok (.error (.ambiguousDatetime,
        "an unambiguous local time in " ++ name ++ " or an explicit fold"))
    | .earlier => .ok (.ok t)
    | .later => .ok (.ok ((t :: ts).getLast (by simp)))

/-- What a timestamp text parses to under a format: a time with an offset or
without, no match of the format, or a format that is itself no pattern. -/
inductive Parsing where
  | aware (time : Local) (offset : ℤ)
  | naive (time : Local)
  | valueError
  | patternError
deriving DecidableEq

/-- An exception that escapes the reading of a row. -/
inductive Escape where
  | failure (failure : Failure)
  | pattern
deriving DecidableEq

def escaping {α : Type} : Outcome α → Except Escape α
  | .ok a => .ok a
  | .error failure => .error (.failure failure)

section Reading
variable (parse : String → String → Parsing) (zones : String → Option Zone)

def readDatetime (format : String) (timezone : Option String) (policy : DateFoldPolicy)
    (source : String) : Except Escape (Except (RowErrorCode × String) Instant) :=
  match parse format source with
  | .valueError => .ok (.error (.invalidDatetime, "datetime format " ++ format))
  | .patternError => .error .pattern
  | .aware time offset => escaping (.ok <$> fetch .overflow (shift time (-offset)))
  | .naive time =>
    match timezone.filter (· ≠ "") with
    | none => .ok (.error (.missingTimezone,
        "an explicit timezone for a timestamp without an offset"))
    | some name =>
      match zones name with
      | none => .error (.failure (.domainValidation "timezone_name must be a valid IANA zone"))
      | some zone => escaping (resolve zone time name policy)

def parseDatetimeValue (contract : SourceContract) (rowNumber : ℕ) (field : String)
    (cell : RawCell) : Except Escape (Except RowIssue Instant) :=
  match requiredSourceValue rowNumber field cell with
  | .error issue => .ok (.error issue)
  | .ok source =>
    match readDatetime parse zones contract.timestampFormat contract.timezoneName
        contract.foldPolicy (strip source) with
    | .error e => .error e
    | .ok (.ok t) => .ok (.ok t)
    | .ok (.error e) => .ok (raiseIssue rowNumber field e.1 cell e.2)

def reader : DatetimeReader := fun format timezone policy source =>
  match readDatetime parse zones format timezone policy source with
  | .ok read => read
  | .error _ => .error (.invalidDatetime, "datetime format " ++ format)

theorem parseDatetimeValue_reader {contract : SourceContract} {rowNumber : ℕ} {field : String}
    {cell : RawCell} {read : Except RowIssue Instant}
    (h : parseDatetimeValue parse zones contract rowNumber field cell = .ok read) :
    Interpretation.parseDatetimeValue rowNumber field (reader parse zones) contract cell =
      read := by
  unfold parseDatetimeValue at h
  unfold Interpretation.parseDatetimeValue
  cases hs : requiredSourceValue rowNumber field cell with
  | error issue =>
    rw [hs] at h
    exact Except.ok.inj h
  | ok source =>
    rw [hs] at h
    simp only [reader, bind, Except.bind] at h ⊢
    cases hr : readDatetime parse zones contract.timestampFormat contract.timezoneName
        contract.foldPolicy (strip source) with
    | error e =>
      rw [hr] at h
      cases h
    | ok r =>
      rw [hr] at h
      cases r with
      | ok t => exact Except.ok.inj h
      | error e => exact Except.ok.inj h

end Reading

section Folds
variable {zone naive}

theorem image_ok {fold : Fin 2} {t : Instant} :
    zone.image naive fold = .ok t ↔ shift naive (-zone.attach naive fold) = some t := by
  unfold Zone.image fetch
  split
  · next s hs => rw [hs, Except.ok.injEq, Option.some.injEq]
  · next hs =>
    rw [hs]
    simp

theorem exists_image {fold : Fin 2} (h : InRange naive.val (-zone.attach naive fold)) :
    ∃ t, zone.image naive fold = .ok t := by
  obtain ⟨t, ht⟩ := shift_isSome.mpr h
  exact ⟨t, image_ok.mpr ht⟩

theorem roundTrips_ok {fold : Fin 2} {t : Instant} (h : zone.image naive fold = .ok t) :
    roundTrips zone naive fold = .ok (decide (zone.Shows naive t)) := by
  obtain ⟨s, hs⟩ := zone.inside naive fold t (image_ok.mp h)
  rw [roundTrips, h, ok_bind, Zone.shown, hs]
  show Except.ok (decide (s = naive)) = _
  congr 1
  rw [decide_eq_decide, Zone.Shows, hs, Option.some.injEq]

theorem images_show {t first last : Instant} (ht : zone.Shows naive t)
    (hfirst : zone.image naive 0 = .ok first) (hlast : zone.image naive 1 = .ok last) :
    (zone.Shows naive first ∧ first ≤ t) ∧ zone.Shows naive last ∧ t ≤ last := by
  obtain ⟨s, hst, hs, himage⟩ := zone.earliest naive t ht
  obtain ⟨r, htr, hr, hlatest⟩ := zone.latest naive t ht
  rw [image_ok] at hfirst hlast
  obtain rfl : s = first := Option.some.inj (himage.symm.trans hfirst)
  obtain rfl : r = last := Option.some.inj (hlatest.symm.trans hlast)
  exact ⟨⟨hs, hst⟩, hr, htr⟩

variable {name : String} {policy : DateFoldPolicy}

theorem resolve_nonexistent (hrep : ∀ fold, InRange naive.val (-zone.attach naive fold))
    (h : ∀ t, ¬zone.Shows naive t) : resolve zone naive name policy =
      .ok (.error (.nonexistentDatetime, "an existing local time in " ++ name)) := by
  obtain ⟨first, hfirst⟩ := exists_image (hrep 0)
  obtain ⟨last, hlast⟩ := exists_image (hrep 1)
  have hno : candidates zone naive = .ok [] := by
    rw [candidates, roundTrips_ok hfirst, roundTrips_ok hlast]
    simp [h]
  rw [resolve, hno]
  rfl

/-- The first and the last instant that show the local time are the images of
the two folds, and the policy chooses when they differ. -/
theorem resolve_shown (hrep : ∀ fold, InRange naive.val (-zone.attach naive fold))
    {t : Instant} (ht : zone.Shows naive t) :
    ∃ first last, zone.Shows naive first ∧ zone.Shows naive last ∧
      (∀ s, zone.Shows naive s → first ≤ s ∧ s ≤ last) ∧
      resolve zone naive name policy = .ok (if first = last then .ok first
        else match policy with
          | .reject => .error (.ambiguousDatetime,
              "an unambiguous local time in " ++ name ++ " or an explicit fold")
          | .earlier => .ok first
          | .later => .ok last) := by
  obtain ⟨first, hfirst⟩ := exists_image (hrep 0)
  obtain ⟨last, hlast⟩ := exists_image (hrep 1)
  obtain ⟨⟨hf, hft⟩, hl, htl⟩ := images_show ht hfirst hlast
  have hboth : candidates zone naive = .ok [0, 1] := by
    rw [candidates, roundTrips_ok hfirst, roundTrips_ok hlast]
    simp [hf, hl]
  have himages : List.mapM (zone.image naive) [0, 1] = .ok [first, last] := by
    simp [hfirst, hlast]
  refine ⟨first, last, hf, hl, fun s hs => ?_, ?_⟩
  · obtain ⟨hfs, hsl⟩ := images_show hs hfirst hlast
    exact ⟨hfs.2, hsl.2⟩
  · rw [resolve, hboth, ok_bind, himages, ok_bind]
    by_cases heq : first = last
    · subst heq
      rw [if_pos rfl, show [first, first].dedup = [first] by simp,
        sortOn_eq_self id (List.pairwise_singleton _ _)]
    · have hle : first ≤ last := le_trans hft htl
      rw [if_neg heq, List.dedup_eq_self.mpr (by simpa using heq),
        sortOn_eq_self id (by simpa using hle)]
      cases policy <;> rfl

end Folds

/-- The zone whose clock goes from one offset to another at an instant, with
local times attached as in `ZoneInfo`: a fold compares with the later or the
earlier of the two local times of the transition. -/
def Zone.turning (instant before after : ℤ) (hbefore : |before| < 86400000000)
    (hafter : |after| < 86400000000) (hlow : 259200000000 ≤ instant)
    (hhigh : instant < 315537638400000000) : Zone where
  offset := fun t => if (t.val : ℤ) < instant then before else after
  attach := fun naive fold =>
    if (naive.val : ℤ) < instant+(if fold = 0 then max before after else min before after) then
      before
    else after
  earliest := by
    intro naive t ht
    rw [abs_lt] at hbefore hafter
    rw [shift_some] at ht
    rw [if_pos rfl]
    have hn := naive.isLt
    by_cases hw : (naive.val : ℤ) < instant+max before after
    · simp only [if_pos hw]
      obtain ⟨s, hs⟩ := shift_isSome.mpr (show InRange naive.val (-before) by
        unfold InRange
        have := t.isLt
        split_ifs at ht <;> omega)
      have hs' := shift_some.mp hs
      have hlt : (s.val : ℤ) < instant ∨ s = t := by
        rw [Fin.ext_iff]
        split_ifs at ht <;> omega
      refine ⟨s, ?_, ?_, hs⟩
      · rw [Fin.le_def]
        split_ifs at ht <;> omega
      · rcases hlt with hlt | rfl
        · rw [shift_some, if_pos hlt]
          omega
        · rw [shift_some]
          exact ht
    · simp only [if_neg hw]
      have hafter' : ¬(t.val : ℤ) < instant := by
        intro hlt
        rw [if_pos hlt] at ht
        omega
      refine ⟨t, le_refl t, shift_some.mpr ht, ?_⟩
      rw [if_neg hafter'] at ht
      rw [shift_some]
      omega
  latest := by
    intro naive t ht
    rw [abs_lt] at hbefore hafter
    rw [shift_some] at ht
    rw [if_neg (show ¬(1 : Fin 2) = 0 by decide)]
    have hn := naive.isLt
    by_cases hw : (naive.val : ℤ) < instant+min before after
    · simp only [if_pos hw]
      have hbefore' : (t.val : ℤ) < instant := by
        by_contra hlt
        rw [if_neg hlt] at ht
        omega
      refine ⟨t, le_refl t, shift_some.mpr ht, ?_⟩
      rw [if_pos hbefore'] at ht
      rw [shift_some]
      omega
    · simp only [if_neg hw]
      obtain ⟨s, hs⟩ := shift_isSome.mpr (show InRange naive.val (-after) by
        unfold InRange
        have := t.isLt
        split_ifs at ht <;> omega)
      have hs' := shift_some.mp hs
      have hge : ¬(s.val : ℤ) < instant ∨ s = t := by
        rw [Fin.ext_iff]
        split_ifs at ht <;> omega
      refine ⟨s, ?_, ?_, hs⟩
      · rw [Fin.le_def]
        split_ifs at ht <;> omega
      · rcases hge with hge | rfl
        · rw [shift_some, if_neg hge]
          omega
        · rw [shift_some]
          exact ht
  inside := by
    intro naive fold t ht
    rw [abs_lt] at hbefore hafter
    rw [shift_some] at ht
    have hn := naive.isLt
    have htl := t.isLt
    rw [shift_isSome, InRange]
    have hm : min before after ≤ before ∧ min before after ≤ after := by omega
    have hM : before ≤ max before after ∧ after ≤ max before after := by omega
    have hcase : max before after = before ∨ max before after = after := by omega
    have hcase' : min before after = before ∨ min before after = after := by omega
    split_ifs at ht ⊢ <;> omega

section Policy
variable (parse : String → String → Parsing) (zones : String → Option Zone)

/-- An instant is read only if the zone's clock shows the written time then.
The only such instant is read; a time that is never shown is reported so; of
two instants the fold policy reads the earlier or the later, or neither. -/
theorem local_time_read (contract : SourceContract) (rowNumber : ℕ) (field source : String)
    {name : String} {zone : Zone} {naive : Local} (htext : nonblank name = true)
    (hname : contract.timezoneName = some name) (hzone : zones name = some zone)
    (hparse : parse contract.timestampFormat (strip source) = .naive naive)
    (hrep : ∀ fold, InRange naive.val (-zone.attach naive fold)) :
    (∀ t, parseDatetimeValue parse zones contract rowNumber field (.value source) = .ok (.ok t) →
      zone.Shows naive t) ∧
    (∀ t, (∀ s, zone.Shows naive s ↔ s = t) →
      parseDatetimeValue parse zones contract rowNumber field (.value source) = .ok (.ok t)) ∧
    ((∀ t, ¬zone.Shows naive t) →
      parseDatetimeValue parse zones contract rowNumber field (.value source) =
        .ok (.error ⟨rowNumber, field, .nonexistentDatetime, some source,
          "an existing local time in " ++ name⟩)) ∧
    ∀ s t, s < t → (∀ r, zone.Shows naive r ↔ r = s ∨ r = t) →
      parseDatetimeValue parse zones contract rowNumber field (.value source) =
        .ok (match contract.foldPolicy with
          | .reject => .error ⟨rowNumber, field, .ambiguousDatetime, some source,
              "an unambiguous local time in " ++ name ++ " or an explicit fold"⟩
          | .earlier => .ok s
          | .later => .ok t) := by
  have hfilter : contract.timezoneName.filter (· ≠ "") = some name := by
    rw [hname, Option.filter_some, if_pos]
    rw [decide_eq_true_eq]
    rintro rfl
    simp [nonblank] at htext
  have hread : ∀ r, resolve zone naive name contract.foldPolicy = .ok r →
      parseDatetimeValue parse zones contract rowNumber field (.value source) =
        .ok (r.mapError fun e => ⟨rowNumber, field, e.1, some source, e.2⟩) := by
    intro r hr
    simp only [parseDatetimeValue, requiredSourceValue, readDatetime, hparse, hfilter, hzone, hr,
      escaping]
    cases r <;> rfl
  by_cases hnone : ∀ t, ¬zone.Shows naive t
  · have hno := hread _ (@resolve_nonexistent zone naive name contract.foldPolicy hrep hnone)
    refine ⟨fun t ht => ?_, fun t ht => absurd ((ht t).mpr rfl) (hnone t), fun _ => hno,
      fun s t _ h => absurd ((h s).mpr (.inl rfl)) (hnone s)⟩
    rw [hno] at ht
    cases Except.ok.inj ht
  · obtain ⟨t₀, ht₀⟩ := not_forall_not.mp hnone
    obtain ⟨first, last, hfirst, hlast, hbounds, hr⟩ := @resolve_shown zone naive name
      contract.foldPolicy hrep t₀ ht₀
    have hshown := hread _ hr
    refine ⟨fun t ht => ?_, fun t ht => ?_, fun h => absurd ht₀ (h t₀), fun s t hst h => ?_⟩
    · rw [hshown] at ht
      split_ifs at ht with heq
      · rwa [← Except.ok.inj (Except.ok.inj ht)]
      · cases hpolicy : contract.foldPolicy with
        | reject =>
          rw [hpolicy] at ht
          cases Except.ok.inj ht
        | earlier =>
          rw [hpolicy] at ht
          rwa [← Except.ok.inj (Except.ok.inj ht)]
        | later =>
          rw [hpolicy] at ht
          rwa [← Except.ok.inj (Except.ok.inj ht)]
    · rw [hshown, if_pos (((ht first).mp hfirst).trans ((ht last).mp hlast).symm),
        (ht first).mp hfirst, Except.mapError]
    · have hs : first = s := le_antisymm (hbounds s ((h s).mpr (.inl rfl))).1 (by
        rcases (h first).mp hfirst with rfl | rfl
        · exact le_refl _
        · exact hst.le)
      have ht : last = t := le_antisymm (by
        rcases (h last).mp hlast with rfl | rfl
        · exact hst.le
        · exact le_refl _) (hbounds t ((h t).mpr (.inr rfl))).2
      subst hs ht
      rw [hshown, if_neg hst.ne]
      cases contract.foldPolicy <;> rfl

end Policy

/-- The clock of London in the autumn of 2000. -/
def london : Zone :=
  .turning 63108378000000000 3600000000 0 (by decide) (by decide) (by decide) (by decide)

theorem london_shows {naive t : Instant} : london.Shows naive t ↔
    (naive.val : ℤ) = t.val+(if (t.val : ℤ) < 63108378000000000 then 3600000000 else 0) := by
  simp only [Zone.Shows, shift_some, london, Zone.turning]

def autumnContract : SourceContract :=
  { Observations.sampleContract with
    timestampFormat := "%Y-%m-%d %H:%M"
    timestampFormat_text := by decide
    timezoneName := some "Europe/London"
    foldPolicy := .later }

theorem local_time_read_sample :
    parseDatetimeValue (fun _ _ => .naive 63108379800000000) (fun _ => some london)
      autumnContract 2 "executed_at_utc" (.value "2000-10-29 01:30") =
      .ok (.ok 63108379800000000) := by
  have hrep : ∀ fold, InRange (63108379800000000 : Instant).val
      (-london.attach 63108379800000000 fold) := by
    intro fold
    have h : london.attach 63108379800000000 fold = 3600000000 ∨
        london.attach 63108379800000000 fold = 0 := by
      unfold london Zone.turning
      simp only
      split_ifs <;> simp
    unfold InRange
    have hv : ((63108379800000000 : Instant)).val = 63108379800000000 := rfl
    rw [hv]
    omega
  have htwice : ∀ r, london.Shows 63108379800000000 r ↔
      r = 63108376200000000 ∨ r = 63108379800000000 := by
    intro r
    rw [london_shows, Fin.ext_iff, Fin.ext_iff]
    have h1 : ((63108376200000000 : Instant)).val = 63108376200000000 := rfl
    have h2 : ((63108379800000000 : Instant)).val = 63108379800000000 := rfl
    rw [h1, h2]
    split_ifs <;> omega
  have hread := @local_time_read (fun _ _ => .naive 63108379800000000) (fun _ => some london)
    autumnContract 2 "executed_at_utc" "2000-10-29 01:30" "Europe/London" london
    63108379800000000 (by decide) rfl rfl rfl hrep
  have hlt : (63108376200000000 : Instant) < 63108379800000000 := by
    rw [Fin.lt_def]
    show (63108376200000000 : ℕ) < 63108379800000000
    norm_num
  exact hread.2.2.2 _ _ hlt htwice

end Workbench.LocalTimes
