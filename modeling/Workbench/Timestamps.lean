import Workbench.CivilTime

/-!
# Reading instants back

`datetime.fromisoformat` on the extended form with microseconds and a UTC
offset, and that the canonical text of an instant reads back to it.
-/

set_option autoImplicit false

namespace Workbench.Timestamps
open Workbench.Calendar Workbench.CivilTime

/-- Read a number of `w` digits after the digits of `n`. -/
def readDigits : ℕ → ℕ → List Char → Option (ℕ × List Char)
  | 0, n, cs => some (n, cs)
  | _+1, _, [] => none
  | w+1, n, c :: cs => if c.isDigit then readDigits w (10*n+(c.toNat-48)) cs else none

def readSeparator (c : Char) (cs : List Char) : Option (List Char) :=
  if cs.head? = some c then some cs.tail else none

def readField (w : ℕ) (c : Char) (cs : List Char) : Option (ℕ × List Char) := do
  let (n, cs) ← readDigits w 0 cs
  let cs ← readSeparator c cs
  some (n, cs)

theorem digitChar_digit : ∀ d < 10, (Nat.digitChar d).isDigit = true := by decide

theorem readDigits_append (v w n : ℕ) (cs : List Char) :
    readDigits (v+w) n cs = (readDigits v n cs).bind fun r => readDigits w r.1 r.2 := by
  induction v generalizing n cs with
  | zero => rw [Nat.zero_add, readDigits, Option.bind_some]
  | succ v ih =>
    rw [Nat.succ_add]
    cases cs with
    | nil => rfl
    | cons c cs =>
      rw [readDigits, readDigits]
      split_ifs
      · exact ih _ _
      · rfl

theorem readDigits_fixedDigits (w n : ℕ) {m : ℕ} (hm : m < 10^w) (rest : List Char) :
    readDigits w n (fixedDigits w m ++ rest) = some (n*10^w+m, rest) := by
  induction w generalizing m rest with
  | zero =>
    have h0 : m = 0 := by omega
    rw [h0, fixedDigits, List.nil_append, readDigits, pow_zero, mul_one, Nat.add_zero]
  | succ w ih =>
    rw [pow_succ] at hm
    have hdiv : m/10 < 10^w := by omega
    have hmod : m%10 < 10 := Nat.mod_lt m (by norm_num)
    rw [fixedDigits, List.append_assoc, readDigits_append, ih hdiv, Option.bind_some,
      List.singleton_append, readDigits, if_pos (digitChar_digit _ hmod),
      Nat.toNat_digitChar_sub_48_of_lt_ten hmod, readDigits, pow_succ]
    congr 2
    have := Nat.div_add_mod m 10
    rw [← mul_assoc]
    omega

def readFields : List (ℕ × Char) → List Char → Option (List ℕ × List Char)
  | [], cs => some ([], cs)
  | (w, c) :: rest, cs => do
    let (n, cs) ← readField w c cs
    let (ns, cs) ← readFields rest cs
    some (n :: ns, cs)

theorem readField_fixedDigits {w m : ℕ} (hm : m < 10^w) (c : Char) (rest : List Char) :
    readField w c (fixedDigits w m ++ c :: rest) = some (m, rest) := by
  simp [readField, readDigits_fixedDigits w 0 hm, readSeparator]

theorem readFields_fields (l : List (ℕ × ℕ × Char)) (h : ∀ x ∈ l, x.2.1 < 10^x.1)
    (rest : List Char) :
    readFields (l.map fun x => (x.1, x.2.2)) (fields l ++ rest) =
      some (l.map (·.2.1), rest) := by
  induction l with
  | nil => rfl
  | cons x l ih =>
    have hx := h x List.mem_cons_self
    have hl := ih fun y hy => h y (List.mem_cons_of_mem _ hy)
    rw [List.map_cons, List.map_cons, readFields, fields, List.append_assoc, List.cons_append,
      readField_fixedDigits hx]
    simp [hl]

def daysInMonth (year month : ℕ) : ℕ := (monthLengths (isLeap year)).getD (month-1) 0

def ValidDate (year month day : ℕ) : Prop :=
  1 ≤ year ∧ 1 ≤ month ∧ month ≤ 12 ∧ 1 ≤ day ∧ day ≤ daysInMonth year month

instance validDate_decidable (year month day : ℕ) : Decidable (ValidDate year month day) :=
  inferInstanceAs (Decidable (_ ∧ _))

def toOrdinal (year month day : ℕ) : ℕ :=
  daysBeforeYear year+((monthLengths (isLeap year)).take (month-1)).sum+day-1

theorem month_valid (leap : Bool) : ∀ k < if leap then 366 else 365,
    1 ≤ (monthAndDay 1 (monthLengths leap) k).1 ∧
      (monthAndDay 1 (monthLengths leap) k).1 ≤ 12 ∧
      1 ≤ (monthAndDay 1 (monthLengths leap) k).2 ∧
      (monthAndDay 1 (monthLengths leap) k).2 ≤
        (monthLengths leap).getD ((monthAndDay 1 (monthLengths leap) k).1-1) 0 := by
  cases leap <;> decide +kernel

theorem year_pos (days : ℕ) : 1 ≤ (yearAndDay days).1 := by
  unfold yearAndDay
  simp only
  split_ifs
  · simp only
    omega
  · simp only
    omega

theorem last_leap {a b c : ℕ} (h : c < 24 ∨ b = 3) (hc : c ≤ 24) :
    isLeap (400*a+100*b+4*c+4) = true := by
  unfold isLeap
  simp only [Bool.and_eq_true, Bool.or_eq_true, decide_eq_true_eq]
  omega

theorem day_in_year (days : ℕ) :
    (yearAndDay days).2 < if isLeap (yearAndDay days).1 then 366 else 365 := by
  have hbound := yearAndDay_bound days
  by_cases hlast : (yearAndDay days).2 = 365
  · have hleap : isLeap (yearAndDay days).1 = true := by
      unfold yearAndDay at hlast ⊢
      simp only at hlast ⊢
      split_ifs at hlast ⊢ with h
      · simp only
        by_cases h100 : days%146097/36524 = 4
        · have hyear : 400*(days/146097)+100*(days%146097/36524)+
              4*(days%146097%36524/1461)+days%146097%36524%1461/365+1-1 =
              400*(days/146097)+100*3+4*24+4 := by omega
          rw [hyear]
          exact last_leap (.inr rfl) le_rfl
        · have h1 : days%146097%36524%1461/365 = 4 := by omega
          have hyear : 400*(days/146097)+100*(days%146097/36524)+
              4*(days%146097%36524/1461)+days%146097%36524%1461/365+1-1 =
              400*(days/146097)+100*(days%146097/36524)+4*(days%146097%36524/1461)+4 := by omega
          rw [hyear]
          apply last_leap
          · omega
          · omega
      · simp only at hlast
        omega
    rw [if_pos hleap]
    exact hbound
  · split_ifs <;> omega

theorem date_valid (days : ℕ) :
    ValidDate (yearAndDay days).1
      (monthAndDay 1 (monthLengths (isLeap (yearAndDay days).1)) (yearAndDay days).2).1
      (monthAndDay 1 (monthLengths (isLeap (yearAndDay days).1)) (yearAndDay days).2).2 :=
  ⟨year_pos days, month_valid _ _ (day_in_year days)⟩

theorem toOrdinal_inverse (days : ℕ) :
    toOrdinal (yearAndDay days).1
      (monthAndDay 1 (monthLengths (isLeap (yearAndDay days).1)) (yearAndDay days).2).1
      (monthAndDay 1 (monthLengths (isLeap (yearAndDay days).1)) (yearAndDay days).2).2 =
      days := by
  have hyear := yearAndDay_inverse days
  have hmonth := monthAndDay_inverse (isLeap (yearAndDay days).1) _ (yearAndDay_bound days)
  unfold toOrdinal
  omega

def fromLocal (days time : ℕ) (offset : ℤ) : Option Instant :=
  if h : days*86400000000+time < 315537897600000000 then
    shift ⟨days*86400000000+time, h⟩ (-offset)
  else none

def isoFields (sign : Char) : List (ℕ × Char) :=
  [(4, '-'), (2, '-'), (2, 'T'), (2, ':'), (2, ':'), (2, '.'), (6, sign), (2, ':')]

def instantOf (direction : ℤ) (offsetMinute : ℕ) : List ℕ → Option Instant
  | [year, month, day, hour, minute, second, microsecond, offsetHour] =>
    if ValidDate year month day ∧ hour < 24 ∧ minute < 60 ∧ second < 60 ∧ offsetHour < 24 ∧
        offsetMinute < 60 then
      fromLocal (toOrdinal year month day)
        (hour*3600000000+minute*60000000+second*1000000+microsecond)
        (direction*(offsetHour*3600000000+offsetMinute*60000000))
    else none
  | _ => none

def readIso (sign : Char) (direction : ℤ) (cs : List Char) : Option Instant := do
  let (ns, cs) ← readFields (isoFields sign) cs
  let (offsetMinute, cs) ← readDigits 2 0 cs
  if cs = [] then instantOf direction offsetMinute ns else none

/-- `datetime.fromisoformat` on a date, a time with microseconds and an offset,
moved to UTC. -/
def fromisoformat (s : String) : Option Instant :=
  (readIso '+' 1 s.toList).or (readIso '-' (-1) s.toList)

/-- `text.replace("Z", "+00:00")`. -/
def replaceZulu (s : String) : String :=
  String.ofList (s.toList.flatMap fun c => if c = 'Z' then "+00:00".toList else [c])

theorem digits_kept (w n : ℕ) (rest : List Char) :
    (fixedDigits w n ++ rest).flatMap (fun c => if c = 'Z' then "+00:00".toList else [c]) =
      fixedDigits w n ++ rest.flatMap fun c => if c = 'Z' then "+00:00".toList else [c] := by
  induction w generalizing n rest with
  | zero => rfl
  | succ w ih =>
    have hd : Nat.digitChar (n%10) ≠ 'Z' := by
      have h := digitChar_digit (n%10) (Nat.mod_lt n (by norm_num))
      intro hz
      rw [hz] at h
      exact absurd h (by decide)
    rw [fixedDigits, List.append_assoc, ih, List.singleton_append, List.flatMap_cons, if_neg hd,
      List.append_assoc]

theorem fields_replaced {l : List (ℕ × ℕ × Char)} (h : ∀ x ∈ l, x.2.2 ≠ 'Z') (w n : ℕ) :
    (fields (l ++ [(w, n, 'Z')])).flatMap
      (fun c => if c = 'Z' then "+00:00".toList else [c]) =
      fields (l ++ [(w, n, '+'), (2, 0, ':')]) ++ fixedDigits 2 0 := by
  induction l with
  | nil =>
    simp only [List.nil_append, fields, digits_kept, List.flatMap_cons, List.flatMap_nil,
      List.append_assoc]
    rfl
  | cons x l ih =>
    have hx := h x List.mem_cons_self
    have hl := ih fun y hy => h y (List.mem_cons_of_mem _ hy)
    rw [List.cons_append, List.cons_append, fields, fields, digits_kept, List.flatMap_cons,
      if_neg hx, hl, List.append_assoc]
    rfl

theorem time_parts (time : ℕ) :
    time/3600000000*3600000000+time/60000000%60*60000000+time/1000000%60*1000000+
      time%1000000 = time := by
  omega

def dateParts (t : Instant) : List (ℕ × ℕ × Char) :=
  let date := yearAndDay (t.val/86400000000)
  let day := monthAndDay 1 (monthLengths (isLeap date.1)) date.2
  let time := t.val%86400000000
  [(4, date.1, '-'), (2, day.1, '-'), (2, day.2, 'T'), (2, time/3600000000, ':'),
    (2, time/60000000%60, ':'), (2, time/1000000%60, '.')]

def isoParts (t : Instant) : List (ℕ × ℕ × Char) :=
  dateParts t ++ [(6, t.val%86400000000%1000000, '+'), (2, 0, ':')]

theorem isoParts_fit (t : Instant) : ∀ x ∈ isoParts t, x.2.1 < 10^x.1 := by
  have hyear := year_bound (show t.val/86400000000 < 3652059 by omega)
  have hdate := monthAndDay_bound (isLeap (yearAndDay (t.val/86400000000)).1) _
    (yearAndDay_bound (t.val/86400000000))
  have htime : t.val%86400000000 < 86400000000 := Nat.mod_lt _ (by norm_num)
  simp only [isoParts, dateParts, List.cons_append, List.nil_append, List.forall_mem_cons]
  refine ⟨hyear, hdate.1, hdate.2, ?_, ?_, ?_, ?_, ?_, fun _ h => absurd h List.not_mem_nil⟩
  all_goals omega

theorem replaceZulu_canonical (t : Instant) : (replaceZulu (canonicalDatetime t)).toList =
    fields (isoParts t) ++ fixedDigits 2 0 := by
  have hseparators : ∀ x ∈ dateParts t, x.2.2 ≠ 'Z' := by
    simp [dateParts]
  have htext : (canonicalDatetime t).toList =
      fields (dateParts t ++ [(6, t.val%86400000000%1000000, 'Z')]) := String.toList_ofList
  rw [replaceZulu, String.toList_ofList, htext]
  exact fields_replaced hseparators 6 _

theorem instantOf_isoParts (t : Instant) :
    instantOf 1 0 ((isoParts t).map (·.2.1)) = some t := by
  have hvalid := date_valid (t.val/86400000000)
  have htime : t.val%86400000000 < 86400000000 := Nat.mod_lt _ (by norm_num)
  have hhour : t.val%86400000000/3600000000 < 24 := by omega
  have hminute : t.val%86400000000/60000000%60 < 60 := Nat.mod_lt _ (by norm_num)
  have hsecond : t.val%86400000000/1000000%60 < 60 := Nat.mod_lt _ (by norm_num)
  have hwhole : t.val/86400000000*86400000000+t.val%86400000000 = t.val :=
    Nat.div_add_mod' t.val 86400000000
  have hrange : t.val/86400000000*86400000000+t.val%86400000000 < 315537897600000000 := by
    rw [hwhole]
    exact t.isLt
  simp only [isoParts, dateParts, List.cons_append, List.nil_append, List.map_cons, List.map_nil,
    instantOf]
  rw [if_pos ⟨hvalid, hhour, hminute, hsecond, by norm_num, by norm_num⟩, toOrdinal_inverse,
    time_parts, fromLocal, dif_pos hrange, shift_some]
  simp only [hwhole]
  norm_num

theorem fromisoformat_canonical (t : Instant) :
    fromisoformat (replaceZulu (canonicalDatetime t)) = some t := by
  have hfields := readFields_fields (isoParts t) (isoParts_fit t) (fixedDigits 2 0)
  have hminute := readDigits_fixedDigits 2 0 (show 0 < 10^2 by norm_num) []
  rw [List.append_nil] at hminute
  have hread : readIso '+' 1 (fields (isoParts t) ++ fixedDigits 2 0) = some t := by
    have hiso : isoFields '+' = (isoParts t).map fun x => (x.1, x.2.2) := rfl
    rw [readIso, hiso, hfields]
    simp only [Option.bind_eq_bind, Option.bind_some, hminute, if_true]
    exact instantOf_isoParts t
  rw [fromisoformat, replaceZulu_canonical, hread, Option.some_or]

end Workbench.Timestamps
