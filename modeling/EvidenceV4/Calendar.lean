import Mathlib.Data.Nat.Find
import Mathlib.Data.Int.Basic
import Mathlib.Order.Interval.Finset.Nat
import Mathlib.Tactic.IntervalCases
import Mathlib.Tactic.Ring

/-!
# The proleptic Gregorian calendar

A stamp names a day and a time of that day down to the millisecond. Its instant
counts milliseconds from the first day of year zero. Every instant has one valid
stamp, and of two valid stamps the one with the smaller year, month, day and time
of day, compared in that order, is the earlier.
-/

set_option autoImplicit false

namespace Calendar

def isLeap (y : ℤ) : Bool := y % 4 == 0 && (y % 100 != 0 || y % 400 == 0)

def yearLength (y : ℤ) : ℕ := if isLeap y then 366 else 365

def daysInMonth (y : ℤ) (m : ℕ) : ℕ :=
  if m = 2 then (if isLeap y then 29 else 28)
  else if m = 4 ∨ m = 6 ∨ m = 9 ∨ m = 11 then 30 else 31

/-- The days of the first months of a year. -/
def monthsBefore (y : ℤ) : ℕ → ℕ
  | 0 => 0
  | m+1 => monthsBefore y m + daysInMonth y (m+1)

/-- The days of the first years of a cycle of four hundred. -/
def yearsBefore : ℕ → ℕ
  | 0 => 0
  | k+1 => yearsBefore k + yearLength k

def cycleDays : ℤ := 146097

def yearStart (y : ℤ) : ℤ := cycleDays*(y/400) + yearsBefore (y%400).toNat

def dayMillis : ℤ := 86400000

structure Stamp where
  year : ℤ
  month : ℕ
  day : ℕ
  hour : ℕ
  minute : ℕ
  second : ℕ
  milli : ℕ
  deriving DecidableEq

structure Valid (s : Stamp) : Prop where
  month : 1 ≤ s.month ∧ s.month ≤ 12
  day : 1 ≤ s.day ∧ s.day ≤ daysInMonth s.year s.month
  hour : s.hour < 24
  minute : s.minute < 60
  second : s.second < 60
  milli : s.milli < 1000

instance (s : Stamp) : Decidable (Valid s) :=
  decidable_of_iff ((1 ≤ s.month ∧ s.month ≤ 12) ∧ (1 ≤ s.day ∧ s.day ≤ daysInMonth s.year s.month) ∧
      s.hour < 24 ∧ s.minute < 60 ∧ s.second < 60 ∧ s.milli < 1000)
    ⟨fun ⟨a,b,c,d,e,f⟩ => ⟨a,b,c,d,e,f⟩,fun h => ⟨h.month,h.day,h.hour,h.minute,h.second,h.milli⟩⟩

def dayOfYear (s : Stamp) : ℕ := monthsBefore s.year (s.month-1) + (s.day-1)

def dayNumber (s : Stamp) : ℤ := yearStart s.year + dayOfYear s

/-- The milliseconds since midnight. -/
def clock (s : Stamp) : ℕ := ((s.hour*60+s.minute)*60+s.second)*1000+s.milli

def instant (s : Stamp) : ℤ := dayNumber s*dayMillis + clock s

def yearOf (n : ℤ) : ℤ :=
  400*(n/cycleDays) + Nat.findGreatest (fun k => yearsBefore k ≤ (n%cycleDays).toNat) 399

def monthOf (y : ℤ) (r : ℕ) : ℕ := Nat.findGreatest (fun m => monthsBefore y m ≤ r) 11 + 1

/-- The stamp of an instant. -/
def ofInstant (t : ℤ) : Stamp :=
  let n := t/dayMillis
  let c := (t%dayMillis).toNat
  let y := yearOf n
  let r := (n - yearStart y).toNat
  let m := monthOf y r
  ⟨y,m,r - monthsBefore y (m-1) + 1,c/3600000,c/60000%60,c/1000%60,c%1000⟩

section Months

variable (y : ℤ)

theorem daysInMonth_pos (m : ℕ) : 28 ≤ daysInMonth y m := by
  unfold daysInMonth
  split_ifs <;> omega

theorem daysInMonth_le (m : ℕ) : daysInMonth y m ≤ 31 := by
  unfold daysInMonth
  split_ifs <;> omega

theorem monthsBefore_year : monthsBefore y 12 = yearLength y := by
  cases leap : isLeap y <;> simp [monthsBefore, daysInMonth, yearLength, leap]

theorem monthsBefore_step {m m' : ℕ} (less : m < m') :
    monthsBefore y m + daysInMonth y (m+1) ≤ monthsBefore y m' := by
  induction m', less using Nat.le_induction with
  | base => exact Nat.le_refl _
  | succ k _ ih => exact Nat.le_trans ih (Nat.le_add_right _ _)

theorem monthOf_eq {m r : ℕ} (first : 1 ≤ m) (last : m ≤ 12) (low : monthsBefore y (m-1) ≤ r)
    (high : r < monthsBefore y m) : monthOf y r = m := by
  have found : Nat.findGreatest (fun k => monthsBefore y k ≤ r) 11 = m-1 := by
    rw [Nat.findGreatest_eq_iff]
    refine ⟨by omega,fun _ => low,fun k less _ reached => ?_⟩
    have step := monthsBefore_step y (show m-1 < k from less)
    have whole : monthsBefore y m = monthsBefore y (m-1) + daysInMonth y (m-1+1) := by
      conv_lhs => rw [show m = m-1+1 by omega]
      rfl
    omega
  rw [monthOf, found]
  omega

theorem monthOf_spec {r : ℕ} (inside : r < yearLength y) :
    1 ≤ monthOf y r ∧ monthOf y r ≤ 12 ∧ monthsBefore y (monthOf y r-1) ≤ r ∧
      r < monthsBefore y (monthOf y r) := by
  have low := Nat.findGreatest_spec (P := fun m => monthsBefore y m ≤ r) (Nat.zero_le 11)
    (Nat.zero_le r)
  have small := Nat.findGreatest_le (P := fun m => monthsBefore y m ≤ r) 11
  refine ⟨by unfold monthOf; omega,by unfold monthOf; omega,low,?_⟩
  by_contra past
  rw [not_lt] at past
  by_cases december : monthOf y r ≤ 11
  · exact Nat.findGreatest_is_greatest (P := fun m => monthsBefore y m ≤ r)
      (Nat.lt_succ_self _) december past
  · have last : monthOf y r = 12 := by
      unfold monthOf at december ⊢
      omega
    rw [last, monthsBefore_year] at past
    omega

end Months

section Years

theorem isLeap_mod (y : ℤ) : isLeap (y%400) = isLeap y := by
  have four : y%400%4 = y%4 := by omega
  have hundred : y%400%100 = y%100 := by omega
  have all : y%400%400 = y%400 := by omega
  rw [isLeap, four, hundred, all, isLeap]

theorem yearLength_mod (y : ℤ) : yearLength (y%400) = yearLength y := by
  rw [yearLength, isLeap_mod, yearLength]

theorem yearsBefore_cycle : (yearsBefore 400 : ℤ) = cycleDays := by decide +kernel

theorem yearStart_succ (y : ℤ) : yearStart (y+1) = yearStart y + yearLength y := by
  have next := yearLength_mod y
  obtain ⟨k,small,rest⟩ : ∃ k : ℕ, k < 400 ∧ y%400 = k := ⟨(y%400).toNat,by omega,by omega⟩
  rw [yearStart, yearStart, rest, Int.toNat_natCast]
  rw [rest] at next
  by_cases turn : k = 399
  · have quotient : (y+1)/400 = y/400+1 := by omega
    have start : (y+1)%400 = 0 := by omega
    have whole : yearsBefore (k+1) = yearsBefore k + yearLength k := rfl
    have full : k+1 = 400 := by omega
    have cycle := yearsBefore_cycle
    rw [← full, whole] at cycle
    rw [quotient, start, ← next, Int.add_assoc, ← Nat.cast_add, cycle]
    simp [yearsBefore]
    ring
  · have quotient : (y+1)/400 = y/400 := by omega
    have later : (y+1)%400 = (k+1 : ℕ) := by omega
    rw [quotient, later, Int.toNat_natCast, yearsBefore, next]
    push_cast
    ring

theorem yearStart_step {y y' : ℤ} (less : y < y') : yearStart y + yearLength y ≤ yearStart y' := by
  induction y', less using Int.leInduction with
  | base => rw [yearStart_succ]
  | succ k _ ih =>
    rw [yearStart_succ]
    omega

theorem yearOf_spec (n : ℤ) :
    yearStart (yearOf n) ≤ n ∧ n < yearStart (yearOf n) + yearLength (yearOf n) := by
  have low := Nat.findGreatest_spec (P := fun k => yearsBefore k ≤ (n%cycleDays).toNat)
    (Nat.zero_le 399) (Nat.zero_le _)
  have small := Nat.findGreatest_le (P := fun k => yearsBefore k ≤ (n%cycleDays).toNat) 399
  have next := Nat.findGreatest_is_greatest (P := fun k => yearsBefore k ≤ (n%cycleDays).toNat)
    (k := Nat.findGreatest (fun k => yearsBefore k ≤ (n%cycleDays).toNat) 399 + 1) (n := 399)
    (Nat.lt_succ_self _)
  rw [yearOf]
  generalize Nat.findGreatest (fun k => yearsBefore k ≤ (n%cycleDays).toNat) 399 = k at low small next
  have positive : (0 : ℤ) < cycleDays := by decide
  have inside := Int.emod_nonneg n (Int.ne_of_gt positive)
  have below := Int.emod_lt_of_pos n positive
  have split := Int.mul_ediv_add_emod n cycleDays
  have year : yearStart (400*(n/cycleDays)+k) = cycleDays*(n/cycleDays) + yearsBefore k := by
    have quotient : (400*(n/cycleDays)+(k:ℤ))/400 = n/cycleDays := by omega
    have rest : (400*(n/cycleDays)+(k:ℤ))%400 = k := by omega
    rw [yearStart, quotient, rest, Int.toNat_natCast]
  have length : yearLength (400*(n/cycleDays)+k) = yearLength k := by
    rw [← yearLength_mod, ← yearLength_mod k]
    congr 1
    omega
  have beyond : (n%cycleDays).toNat < yearsBefore (k+1) := by
    by_cases last : k+1 ≤ 399
    · exact not_le.mp (next last)
    · have whole : k+1 = 400 := by omega
      rw [whole]
      have cycle := yearsBefore_cycle
      omega
  rw [yearsBefore] at beyond
  rw [year, length]
  generalize cycleDays*(n/cycleDays) = base at split ⊢
  omega

theorem yearOf_eq {y n : ℤ} (low : yearStart y ≤ n) (high : n < yearStart y + yearLength y) :
    yearOf n = y := by
  obtain ⟨low',high'⟩ := yearOf_spec n
  rcases lt_trichotomy (yearOf n) y with less | same | more
  · have step := yearStart_step less
    omega
  · exact same
  · have step := yearStart_step more
    omega

end Years

section Instants

variable {s a b : Stamp}

theorem dayOfYear_lt (valid : Valid s) : dayOfYear s < yearLength s.year := by
  have month := valid.month
  have day := valid.day
  have step := monthsBefore_step s.year (show s.month-1 < 12 by omega)
  rw [monthsBefore_year, Nat.sub_add_cancel month.1] at step
  unfold dayOfYear
  omega

theorem clock_lt (valid : Valid s) : (clock s : ℤ) < dayMillis := by
  have hour := valid.hour
  have minute := valid.minute
  have second := valid.second
  have milli := valid.milli
  unfold clock dayMillis
  push_cast
  omega

theorem instant_split (valid : Valid s) :
    instant s/dayMillis = dayNumber s ∧ instant s%dayMillis = clock s := by
  have small := clock_lt valid
  have positive : (0 : ℤ) < dayMillis := by decide
  rw [instant]
  generalize dayNumber s = n
  constructor
  · rw [Int.add_comm, Int.add_mul_ediv_right _ _ (Int.ne_of_gt positive),
      Int.ediv_eq_zero_of_lt (Int.natCast_nonneg _) small, Int.zero_add]
  · rw [Int.add_comm, Int.add_mul_emod_self_right,
      Int.emod_eq_of_lt (Int.natCast_nonneg _) small]

/-- A valid stamp is the stamp of its instant. -/
theorem ofInstant_instant (valid : Valid s) : ofInstant (instant s) = s := by
  obtain ⟨quotient,rest⟩ := instant_split valid
  have inside := dayOfYear_lt valid
  have month := valid.month
  have day := valid.day
  have hour := valid.hour
  have minute := valid.minute
  have second := valid.second
  have milli := valid.milli
  have year : yearOf (dayNumber s) = s.year := by
    apply yearOf_eq
    · unfold dayNumber
      omega
    · unfold dayNumber
      omega
  have left : (dayNumber s - yearStart s.year).toNat = dayOfYear s := by
    unfold dayNumber
    omega
  have named : monthOf s.year (dayOfYear s) = s.month := by
    apply monthOf_eq s.year month.1 month.2
    · unfold dayOfYear
      omega
    · have whole : monthsBefore s.year s.month =
          monthsBefore s.year (s.month-1) + daysInMonth s.year (s.month-1+1) := by
        conv_lhs => rw [show s.month = s.month-1+1 by omega]
        rfl
      rw [Nat.sub_add_cancel month.1] at whole
      unfold dayOfYear
      omega
  rw [ofInstant, quotient, rest, year, left, named, Int.toNat_natCast]
  have first : dayOfYear s - monthsBefore s.year (s.month-1) + 1 = s.day := by
    unfold dayOfYear
    omega
  have hours : clock s/3600000 = s.hour := by
    unfold clock
    omega
  have minutes : clock s/60000%60 = s.minute := by
    unfold clock
    omega
  have seconds : clock s/1000%60 = s.second := by
    unfold clock
    omega
  have millis : clock s%1000 = s.milli := by
    unfold clock
    omega
  simp only [first, hours, minutes, seconds, millis]

theorem ofInstant_valid (t : ℤ) : Valid (ofInstant t) := by
  obtain ⟨low,high⟩ := yearOf_spec (t/dayMillis)
  have inside : (t/dayMillis - yearStart (yearOf (t/dayMillis))).toNat <
      yearLength (yearOf (t/dayMillis)) := by omega
  obtain ⟨first,last,start,finish⟩ := monthOf_spec _ inside
  have positive : (0 : ℤ) < dayMillis := by decide
  have nonneg := Int.emod_nonneg t (Int.ne_of_gt positive)
  have below : (t%dayMillis).toNat < 86400000 := by
    have small := Int.emod_lt_of_pos t positive
    unfold dayMillis at small ⊢
    omega
  constructor
  · exact ⟨first,last⟩
  · refine ⟨Nat.le_add_left _ _,?_⟩
    show _ - _ + 1 ≤ daysInMonth (yearOf (t/dayMillis)) (monthOf _ _)
    generalize monthOf (yearOf (t/dayMillis)) _ = m at first last start finish ⊢
    have whole : monthsBefore (yearOf (t/dayMillis)) m = monthsBefore (yearOf (t/dayMillis)) (m-1) +
        daysInMonth (yearOf (t/dayMillis)) (m-1+1) := by
      conv_lhs => rw [show m = m-1+1 by omega]
      rfl
    rw [Nat.sub_add_cancel first] at whole
    omega
  all_goals
    show _ < _
    dsimp only [ofInstant]
    omega

/-- The order of the fields, the year first. -/
def Before (a b : Stamp) : Prop :=
  a.year < b.year ∨ a.year = b.year ∧ (a.month < b.month ∨ a.month = b.month ∧
    (a.day < b.day ∨ a.day = b.day ∧ (a.hour < b.hour ∨ a.hour = b.hour ∧
      (a.minute < b.minute ∨ a.minute = b.minute ∧ (a.second < b.second ∨ a.second = b.second ∧
        a.milli < b.milli)))))

theorem instant_of_day (va : Valid a) (less : dayNumber a < dayNumber b) :
    instant a < instant b := by
  have early := clock_lt va
  have step : dayNumber a*dayMillis + dayMillis ≤ dayNumber b*dayMillis := by
    have grow := Int.mul_le_mul_of_nonneg_right (Int.add_one_le_of_lt less)
      (show (0 : ℤ) ≤ dayMillis by decide)
    rwa [Int.add_mul, Int.one_mul] at grow
  unfold instant
  omega

theorem instant_of_clock (same : dayNumber a = dayNumber b) (less : clock a < clock b) :
    instant a < instant b := by
  unfold instant
  rw [same]
  omega

/-- Stamps in the order of their fields are in the order of time. -/
theorem instant_lt (va : Valid a) (vb : Valid b) (less : Before a b) : instant a < instant b := by
  have ma := va.month
  have mb := vb.month
  have da := va.day
  have db := vb.day
  rcases less with year | ⟨sameYear,less⟩
  · apply instant_of_day va
    have step := yearStart_step year
    have inside := dayOfYear_lt va
    unfold dayNumber
    omega
  rcases less with month | ⟨sameMonth,less⟩
  · apply instant_of_day va
    have step := monthsBefore_step b.year (show a.month-1 < b.month-1 by omega)
    rw [Nat.sub_add_cancel ma.1] at step
    rw [sameYear] at da
    unfold dayNumber dayOfYear
    rw [sameYear]
    omega
  rcases less with day | ⟨sameDay,less⟩
  · apply instant_of_day va
    unfold dayNumber dayOfYear
    rw [sameYear, sameMonth]
    omega
  apply instant_of_clock
  · unfold dayNumber dayOfYear
    rw [sameYear, sameMonth, sameDay]
  · have minuteA := va.minute
    have secondA := va.second
    have milliA := va.milli
    unfold clock
    omega

end Instants

end Calendar
