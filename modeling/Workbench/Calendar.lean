import Mathlib.Data.Fin.Basic
import Mathlib.Order.Fin.Basic
import Mathlib.Tactic.Linarith

/-!
# Instants and durations

An instant counts microseconds from the start of year 1 to the end of year
9999. A duration is a whole number of microseconds of at most 999999999 days.
Adding a duration to an instant may leave the range of years.
-/

set_option autoImplicit false

namespace Workbench.Calendar

abbrev Instant := Fin 315537897600000000

instance instants_nonzero : NeZero 315537897600000000 := ⟨by decide⟩

theorem sampleTime_bound : 63839761445000000 < 315537897600000000 := by norm_num

structure Duration where
  microseconds : ℤ
  lower : -86399999913600000000 ≤ microseconds
  upper : microseconds ≤ 86399999999999999999
deriving DecidableEq

def shift (t : Instant) (offset : ℤ) : Option Instant :=
  if h : 0 ≤ (t.val : ℤ)+offset ∧ (t.val : ℤ)+offset < 315537897600000000 then
    some ⟨((t.val : ℤ)+offset).toNat, by omega⟩
  else none

def between (earlier later : Instant) : Duration :=
  ⟨(later.val : ℤ)-earlier.val, by omega, by omega⟩

def Duration.abs (d : Duration) : Duration :=
  ⟨|d.microseconds|, by have := abs_nonneg d.microseconds; omega, by
    have h1 := d.lower
    have h2 := d.upper
    rw [abs_le]
    omega⟩

theorem Duration.microseconds_abs (d : Duration) : 0 ≤ d.abs.microseconds :=
  abs_nonneg d.microseconds

def Duration.days (d : Duration) : ℤ := d.microseconds/86400000000

def Duration.seconds (d : Duration) : ℕ := (d.microseconds%86400000000/1000000).toNat

def Duration.fraction (d : Duration) : ℕ := (d.microseconds%1000000).toNat

def InRange (t offset : ℤ) : Prop := 0 ≤ t+offset ∧ t+offset < 315537897600000000

instance (t offset : ℤ) : Decidable (InRange t offset) :=
  inferInstanceAs (Decidable (0 ≤ t+offset ∧ t+offset < 315537897600000000))

instance (value : Option Instant) (p : Instant → Prop) [DecidablePred p] :
    Decidable (∀ t ∈ value, p t) :=
  match value with
  | none => isTrue (by simp)
  | some t => decidable_of_iff (p t) (by simp)

theorem shift_some {t s : Instant} {offset : ℤ} :
    shift t offset = some s ↔ (s.val : ℤ) = (t.val : ℤ)+offset := by
  have hs := s.isLt
  unfold shift
  split_ifs with h
  · rw [Option.some.injEq, Fin.ext_iff]
    simp only
    omega
  · simp only [false_iff]
    omega

theorem shift_isSome {t : Instant} {offset : ℤ} :
    (∃ s, shift t offset = some s) ↔ InRange t.val offset := by
  unfold shift InRange
  split_ifs with h
  · simp [h]
  · simp [h]

def pad (width n : ℕ) : String :=
  let s := Nat.toDigits 10 n
  String.ofList (List.replicate (width-s.length) '0' ++ s)

def daysBefore : ℕ → ℕ
  | 1 => 0 | 2 => 31 | 3 => 59 | 4 => 90 | 5 => 120 | 6 => 151 | 7 => 181 | 8 => 212
  | 9 => 243 | 10 => 273 | 11 => 304 | _ => 334

def daysIn : ℕ → ℕ
  | 2 => 28 | 4 => 30 | 6 => 30 | 9 => 30 | 11 => 30 | _ => 31

def date (n : ℕ) : ℕ × ℕ × ℕ :=
  let n400 := n/146097
  let n100 := n%146097/36524
  let n4 := n%146097%36524/1461
  let n1 := n%146097%36524%1461/365
  let day := n%146097%36524%1461%365
  let year := n400*400+1+n100*100+n4*4+n1
  if n1 = 4 ∨ n100 = 4 then (year-1, 12, 31)
  else
    let leap := n1 = 3 ∧ (n4 ≠ 24 ∨ n100 = 3)
    let month := (day+50)/32
    let preceding := daysBefore month+(if 2 < month ∧ leap then 1 else 0)
    if preceding ≤ day then (year, month, day-preceding+1)
    else
      let preceding := preceding-(daysIn (month-1)+(if month-1 = 2 ∧ leap then 1 else 0))
      (year, month-1, day-preceding+1)

def clock (seconds : ℕ) : String :=
  ":" ++ pad 2 (seconds/60%60) ++ ":" ++ pad 2 (seconds%60)

def isoformat (t : Instant) : String :=
  let (year, month, day) := date (t.val/86400000000)
  let seconds := t.val%86400000000/1000000
  let fraction := t.val%1000000
  pad 4 year ++ "-" ++ pad 2 month ++ "-" ++ pad 2 day ++ "T" ++ pad 2 (seconds/3600) ++
    clock seconds ++ (if fraction = 0 then "" else "." ++ pad 6 fraction) ++ "+00:00"

def Duration.text (d : Duration) : String :=
  (if d.days = 0 then ""
    else toString d.days ++ (if |d.days| = 1 then " day, " else " days, ")) ++
  toString (d.seconds/3600) ++ clock d.seconds ++
    (if d.fraction = 0 then "" else "." ++ pad 6 d.fraction)

end Workbench.Calendar
