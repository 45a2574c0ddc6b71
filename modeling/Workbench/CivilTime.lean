import Workbench.Calendar

/-!
# Instants as text

The calendar date and the time of day of an instant, and its text with
microseconds. Different instants have different texts.
-/

set_option autoImplicit false

namespace Workbench.CivilTime
open Workbench.Calendar

def yearAndDay (days : ℕ) : ℕ × ℕ :=
  let n400 := days/146097
  let n100 := days%146097/36524
  let n4 := days%146097%36524/1461
  let n1 := days%146097%36524%1461/365
  let year := 400*n400+100*n100+4*n4+n1+1
  if n1 = 4 ∨ n100 = 4 then (year-1, 365)
  else (year, days%146097%36524%1461%365)

def isLeap (year : ℕ) : Bool := year%4 = 0 && (year%100 ≠ 0 || year%400 = 0)

def daysBeforeYear (year : ℕ) : ℕ := (year-1)*365+(year-1)/4-(year-1)/100+(year-1)/400

def monthLengths (leap : Bool) : List ℕ :=
  [31, if leap then 29 else 28, 31, 30, 31, 30, 31, 31, 30, 31, 30, 31]

/-- The month from `m` on and the day in it. -/
def monthAndDay (m : ℕ) : List ℕ → ℕ → ℕ × ℕ
  | [], k => (m, k+1)
  | n :: ns, k => if k < n then (m, k+1) else monthAndDay (m+1) ns (k-n)

theorem daysBeforeYear_cycles {a b c d : ℕ} (hb : b ≤ 3) (hc : c ≤ 24) (hd : d ≤ 3) :
    daysBeforeYear (400*a+100*b+4*c+d+1) = 146097*a+36524*b+1461*c+365*d := by
  have h4 : (400*a+100*b+4*c+d)/4 = 100*a+25*b+c := by omega
  have h100 : (400*a+100*b+4*c+d)/100 = 4*a+b := by omega
  have h400 : (400*a+100*b+4*c+d)/400 = a := by omega
  rw [daysBeforeYear, Nat.add_sub_cancel, h4, h100, h400]
  omega

theorem yearAndDay_inverse (days : ℕ) :
    daysBeforeYear (yearAndDay days).1+(yearAndDay days).2 = days := by
  unfold yearAndDay
  simp only
  have h1 := Nat.div_add_mod days 146097
  have h2 := Nat.div_add_mod (days%146097) 36524
  have h3 := Nat.div_add_mod (days%146097%36524) 1461
  have h4 := Nat.div_add_mod (days%146097%36524%1461) 365
  have l1 := Nat.mod_lt days (show 146097 > 0 by norm_num)
  have l2 := Nat.mod_lt (days%146097) (show 36524 > 0 by norm_num)
  have l3 := Nat.mod_lt (days%146097%36524) (show 1461 > 0 by norm_num)
  have l4 := Nat.mod_lt (days%146097%36524%1461) (show 365 > 0 by norm_num)
  generalize days/146097 = a at *
  generalize days%146097/36524 = b at *
  generalize days%146097%36524/1461 = c at *
  generalize days%146097%36524%1461/365 = d at *
  split_ifs with h
  · simp only
    by_cases hb : b = 4
    · have hy := daysBeforeYear_cycles (a := a) (b := 3) (c := 24) (d := 3) le_rfl le_rfl le_rfl
      rw [show 400*a+100*b+4*c+d+1-1 = 400*a+100*3+4*24+3+1 by omega, hy]
      omega
    · have hy := daysBeforeYear_cycles (a := a) (b := b) (c := c) (d := 3) (by omega) (by omega)
        le_rfl
      rw [show 400*a+100*b+4*c+d+1-1 = 400*a+100*b+4*c+3+1 by omega, hy]
      omega
  · simp only
    rw [daysBeforeYear_cycles (by omega) (by omega) (by omega)]
    omega

theorem yearAndDay_bound (days : ℕ) : (yearAndDay days).2 < 366 := by
  unfold yearAndDay
  simp only
  split_ifs
  · simp only
    omega
  · simp only
    omega

theorem yearAndDay_injective : Function.Injective yearAndDay := by
  intro a b h
  rw [← yearAndDay_inverse a, ← yearAndDay_inverse b, h]

theorem monthAndDay_inverse (leap : Bool) : ∀ k < 366,
    ((monthLengths leap).take ((monthAndDay 1 (monthLengths leap) k).1-1)).sum+
      (monthAndDay 1 (monthLengths leap) k).2 = k+1 := by
  cases leap <;> decide +kernel

theorem monthAndDay_injective (leap : Bool) {j k : ℕ} (hj : j < 366) (hk : k < 366)
    (h : monthAndDay 1 (monthLengths leap) j = monthAndDay 1 (monthLengths leap) k) : j = k := by
  have h1 := monthAndDay_inverse leap j hj
  have h2 := monthAndDay_inverse leap k hk
  rw [h] at h1
  omega

def fixedDigits : ℕ → ℕ → List Char
  | 0, _ => []
  | w+1, n => fixedDigits w (n/10) ++ [Nat.digitChar (n%10)]

theorem fixedDigits_length (w n : ℕ) : (fixedDigits w n).length = w := by
  induction w generalizing n with
  | zero => rfl
  | succ w ih => rw [fixedDigits, List.length_append, ih, List.length_singleton]

theorem digitChar_injective {m n : ℕ} (hm : m < 10) (hn : n < 10)
    (h : Nat.digitChar m = Nat.digitChar n) : m = n := by
  rw [← Nat.toNat_digitChar_sub_48_of_lt_ten hm, ← Nat.toNat_digitChar_sub_48_of_lt_ten hn, h]

theorem fixedDigits_injective {w m n : ℕ} (hm : m < 10^w) (hn : n < 10^w)
    (h : fixedDigits w m = fixedDigits w n) : m = n := by
  induction w generalizing m n with
  | zero =>
    rw [pow_zero] at hm hn
    omega
  | succ w ih =>
    rw [fixedDigits, fixedDigits] at h
    obtain ⟨h1, h2⟩ := List.append_inj h (by rw [fixedDigits_length, fixedDigits_length])
    rw [pow_succ] at hm hn
    have hdiv : m/10 = n/10 := ih (by omega) (by omega) h1
    have hmod : m%10 = n%10 := digitChar_injective (Nat.mod_lt m (by norm_num))
      (Nat.mod_lt n (by norm_num)) (List.singleton_inj.mp h2)
    omega

def fields : List (ℕ × ℕ × Char) → List Char
  | [] => []
  | (w, n, c) :: rest => fixedDigits w n ++ c :: fields rest

theorem fields_cons_inj {w m n : ℕ} {c : Char} {rest rest' : List (ℕ × ℕ × Char)}
    (hm : m < 10^w) (hn : n < 10^w)
    (h : fields ((w, m, c) :: rest) = fields ((w, n, c) :: rest')) :
    m = n ∧ fields rest = fields rest' := by
  rw [fields, fields] at h
  obtain ⟨h1, h2⟩ := List.append_inj h (by rw [fixedDigits_length, fixedDigits_length])
  exact ⟨fixedDigits_injective hm hn h1, (List.cons.inj h2).2⟩

/-- `canonical_datetime`. -/
def canonicalDatetime (t : Instant) : String :=
  let date := yearAndDay (t.val/86400000000)
  let day := monthAndDay 1 (monthLengths (isLeap date.1)) date.2
  let time := t.val%86400000000
  String.ofList (fields [(4, date.1, '-'), (2, day.1, '-'), (2, day.2, 'T'),
    (2, time/3600000000, ':'), (2, time/60000000%60, ':'), (2, time/1000000%60, '.'),
    (6, time%1000000, 'Z')])

theorem year_bound {days : ℕ} (h : days < 3652059) : (yearAndDay days).1 < 10^4 := by
  unfold yearAndDay
  simp only
  split_ifs
  · simp only
    omega
  · simp only
    omega

theorem monthAndDay_bound (leap : Bool) : ∀ k < 366,
    (monthAndDay 1 (monthLengths leap) k).1 < 10^2 ∧
      (monthAndDay 1 (monthLengths leap) k).2 < 10^2 := by
  cases leap <;> decide +kernel

theorem time_eq {s t : ℕ} (hhour : s/3600000000 = t/3600000000)
    (hminute : s/60000000%60 = t/60000000%60) (hsecond : s/1000000%60 = t/1000000%60)
    (hmicro : s%1000000 = t%1000000) : s = t := by
  have hm : ∀ n, n/60000000 = n/1000000/60 := fun n => (Nat.div_div_eq_div_mul n 1000000 60).symm
  have hh : ∀ n, n/3600000000 = n/1000000/60/60 := by
    intro n
    rw [Nat.div_div_eq_div_mul, Nat.div_div_eq_div_mul]
  rw [hm, hm t] at hminute
  rw [hh, hh t] at hhour
  have hs : s/1000000 = t/1000000 := by
    generalize s/1000000 = x at *
    generalize t/1000000 = y at *
    omega
  omega

theorem canonicalDatetime_injective : Function.Injective canonicalDatetime := by
  intro a b h
  have h := String.ofList_injective h
  have ha : a.val/86400000000 < 3652059 := by omega
  have hb : b.val/86400000000 < 3652059 := by omega
  have hka := yearAndDay_bound (a.val/86400000000)
  have hkb := yearAndDay_bound (b.val/86400000000)
  have hma := monthAndDay_bound (isLeap (yearAndDay (a.val/86400000000)).1) _ hka
  have hmb := monthAndDay_bound (isLeap (yearAndDay (b.val/86400000000)).1) _ hkb
  obtain ⟨hyear, h⟩ := fields_cons_inj (year_bound ha) (year_bound hb) h
  obtain ⟨hmonth, h⟩ := fields_cons_inj hma.1 hmb.1 h
  obtain ⟨hday, h⟩ := fields_cons_inj hma.2 hmb.2 h
  obtain ⟨hhour, h⟩ := fields_cons_inj (by omega) (by omega) h
  obtain ⟨hminute, h⟩ := fields_cons_inj (by omega) (by omega) h
  obtain ⟨hsecond, h⟩ := fields_cons_inj (by omega) (by omega) h
  obtain ⟨hmicro, _⟩ := fields_cons_inj (by omega) (by omega) h
  have hk : (yearAndDay (a.val/86400000000)).2 = (yearAndDay (b.val/86400000000)).2 := by
    apply monthAndDay_injective _ hka hkb
    rw [← hyear] at hmonth hday
    exact Prod.ext hmonth hday
  have hdays := yearAndDay_injective (Prod.ext hyear hk)
  have htime := time_eq hhour hminute hsecond hmicro
  apply Fin.ext
  rw [← Nat.div_add_mod a.val 86400000000, hdays, htime, Nat.div_add_mod]

end Workbench.CivilTime
