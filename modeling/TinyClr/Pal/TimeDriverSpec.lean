import TinyClr.Library.Calendar
import TinyClr.Pal.TimeDriver
import Mathlib.Tactic.IntervalCases

/-!
# Dates of the time driver

The year is guessed as if no year had a leap day, and put back at most once: it is found as long as
the leap days since 1601 and the days of the year before the date are fewer than two years.
-/

namespace TinyClr.TimeDriver

open TinyClr.Library TinyClr.Library.Gregorian

/-- The units of a `TIME` in a day -/
def ticksPerDay : Nat := 864000000000

/-! ### What the fields say -/

structure Says (s : SystemTime) (d : Date) : Prop where
  year : s.wYear = d.year
  month : s.wMonth = d.month
  day : s.wDay = d.day
  weekday : s.wDayOfWeek = d.weekday

structure ClockValid (s : SystemTime) : Prop where
  hour : s.wHour < 24
  minute : s.wMinute < 60
  second : s.wSecond < 60
  millisecond : s.wMilliseconds < 1000

def millisOfDay (s : SystemTime) : Nat :=
  ((s.wHour * 60 + s.wMinute) * 60 + s.wSecond) * 1000 + s.wMilliseconds

/-- A `SYSTEMTIME` of the years 1601 to 9999 -/
structure Valid (s : SystemTime) : Prop where
  date : ∃ d : Date, 1601 ≤ d.year ∧ d.year ≤ 9999 ∧ Says s d
  clock : ClockValid s

def FallsOn (t : Int) (d : Date) : Prop := 1601 ≤ d.year ∧ t / ticksPerDay = d.number 1601

structure IsTimeOf (t : Int) (s : SystemTime) : Prop where
  date : ∃ d, FallsOn t d ∧ Says s d
  clock : ClockValid s
  millis : millisOfDay s = t % ticksPerDay / 10000

/-- The tick is converted to its date and time of day, and back but for the part below 1 ms. -/
def Exact (t : Int) : Prop :=
  ∃ s, toSystemTime t = some s ∧ IsTimeOf t s ∧ fromSystemTime s = some (t / 10000 * 10000)

def RoundTrips (s : SystemTime) : Prop := (fromSystemTime s).bind toSystemTime = some s

/-- The leap days since 1601 and the days of the year before the date are fewer than two years. -/
def Near (d : Date) : Prop := leapYears 1601 d.year + d.dayOfYear < 730

/-! ### Years -/

theorem isLeapYear_eq (y : Nat) : isLeapYear y = decide (IsLeapYear y) := by
  rw [Bool.eq_iff_iff, decide_eq_true_iff]
  unfold isLeapYear IsLeapYear
  have h4 : (y : Int).tmod 4 = (y % 4 : Nat) := rfl
  have h100 : (y : Int).tmod 100 = (y % 100 : Nat) := rfl
  have h400 : (y : Int).tmod 400 = (y % 400 : Nat) := rfl
  simp only [h4, h100, h400, Bool.or_eq_true, Bool.and_eq_true, beq_iff_eq, bne_iff_ne]
  omega

variable {y : Nat}

theorem numberOfLeapYears_eq (h : 1601 ≤ y) :
    numberOfLeapYears y = leapYears 1601 y := by
  have hsum := @leapYears_add 1601 y (by decide) h
  have hy := leapYears_one (y := y) (by omega)
  have hepoch := leapYears_one (y := 1601) (by decide)
  have hcast : (y : Int) - 1 = (y - 1 : Nat) := by omega
  have h4 : ((y - 1 : Nat) : Int).tdiv 4 = ((y - 1) / 4 : Nat) := rfl
  have h100 : ((y - 1 : Nat) : Int).tdiv 100 = ((y - 1) / 100 : Nat) := rfl
  have h400 : ((y - 1 : Nat) : Int).tdiv 400 = ((y - 1) / 400 : Nat) := rfl
  unfold numberOfLeapYears baseYearLeapyearAdjust
  rw [hcast, h4, h100, h400]
  omega

theorem yearsToDays_eq (h : 1601 ≤ y) : yearsToDays y = before yearLength 1601 y := by
  unfold yearsToDays numberOfYears baseYear daysInNormalYear
  rw [numberOfLeapYears_eq h, before_yearLength h]
  omega

theorem leapYears_le {epoch : Nat} (h : epoch ≤ y) : leapYears epoch y ≤ y - epoch := by
  induction y, h using Nat.le_induction with
  | base => simp [leapYears]
  | succ y h ih =>
    have hleap : leapYears epoch (y + 1) = leapYears epoch y + if IsLeapYear y then 1 else 0 :=
      before_succ h
    rw [hleap]
    split <;> omega

theorem toYear_eq {guess n : Nat} (hguess : n / 365 + 1601 = guess) (hhigh : guess < 2 ^ 16) :
    toYear n = if n < before yearLength 1601 guess then guess - 1 else guess := by
  have hdiv : (n : Int).tdiv 365 = (n / 365 : Nat) := rfl
  have hfirst : uint16 ((n : Int).tdiv 365 + 1601) = guess := by
    rw [hdiv, uint16_eq_toNat (by omega) (by omega)]
    omega
  unfold toYear daysInNormalYear baseYear
  simp only [hfirst]
  rw [yearsToDays_eq (by omega)]
  simp only [gt_iff_lt, Nat.cast_lt]
  split
  · rw [uint16_eq_toNat (by omega) (by omega)]
    omega
  · rfl

section Year

variable {d : Date} (hlow : 1601 ≤ d.year) (hhigh : d.year ≤ 9999)
include hlow

theorem guess_eq : d.number 1601 / 365 + 1601
    = d.year + (leapYears 1601 d.year + d.dayOfYear) / 365 := by
  have hnumber : d.number 1601 = (leapYears 1601 d.year + d.dayOfYear) + 365 * (d.year - 1601) := by
    unfold Date.number
    rw [before_yearLength hlow]
    omega
  rw [hnumber, Nat.add_mul_div_left _ _ (by decide)]
  omega

include hhigh

theorem toYear_number : toYear (d.number 1601) = d.year ↔ Near d := by
  have hleap := leapYears_le hlow
  have hday : d.dayOfYear < yearLength d.year := d.dayOfYear_lt
  have hlength : yearLength d.year ≤ 366 := by
    unfold yearLength
    split <;> decide
  have hguess := guess_eq hlow
  rw [toYear_eq hguess (by omega)]
  unfold Near
  constructor
  · intro heq
    split at heq <;> omega
  · intro hnear
    by_cases hfirst : leapYears 1601 d.year + d.dayOfYear < 365
    · have hzero : (leapYears 1601 d.year + d.dayOfYear) / 365 = 0 := Nat.div_eq_of_lt hfirst
      have hbegun : ¬ d.number 1601 < before yearLength 1601 d.year :=
        Nat.not_lt.mpr (Nat.le_add_right _ _)
      rw [hzero, Nat.add_zero, if_neg hbegun]
    · have hone : (leapYears 1601 d.year + d.dayOfYear) / 365 = 1 := by omega
      have hnext : d.number 1601 < before yearLength 1601 (d.year + 1) := by
        rw [before_succ hlow]
        exact Nat.add_lt_add_left hday _
      rw [hone, if_pos hnext, Nat.add_sub_cancel]

end Year

/-! ### Months -/

theorem monthToDays_eq (y : Nat) {m : Nat} (hlow : 1 ≤ m) (hhigh : m ≤ 13) :
    monthToDays y m = some (before (monthLength y) 1 m : Int) := by
  unfold monthToDays
  rw [isLeapYear_eq]
  by_cases hleap : IsLeapYear y <;> interval_cases m <;>
    simp [before, Finset.sum_Ico_succ_top, monthLength, hleap, cummulativeDaysForMonth]

theorem before_monthLength_bounds (y : Nat) {m : Nat} (hlow : 1 ≤ m) (hhigh : m ≤ 13) :
    before (monthLength y) 1 m ≤ 31 * (m - 1) ∧
      31 * (m - 1) ≤ before (monthLength y) 1 m + 7 := by
  by_cases hleap : IsLeapYear y <;> interval_cases m <;>
    simp [before, Finset.sum_Ico_succ_top, monthLength, hleap]

theorem toMonthDay_eq (d : Date) : toMonthDay d.year d.dayOfYear = some (d.month, d.day) := by
  have hmonth := d.hmonth
  have hday := d.hday
  have hlow := before_monthLength_bounds d.year hmonth.1 (by omega)
  have hnext : before (monthLength d.year) 1 (d.month + 1)
      = before (monthLength d.year) 1 d.month + monthLength d.year d.month := before_succ hmonth.1
  have hhigh := before_monthLength_bounds d.year (m := d.month + 1) (by omega) (by omega)
  obtain ⟨n, hn⟩ : ∃ n, d.dayOfYear = n := ⟨_, rfl⟩
  have hof : n = before (monthLength d.year) 1 d.month + (d.day - 1) := hn.symm
  have hdiv : (n : Int).tdiv 31 = (n / 31 : Nat) := rfl
  have hfirst : uint16 ((n : Int).tdiv 31 + 1) = n / 31 + 1 := by
    rw [hdiv, uint16_eq_toNat (by omega) (by omega)]
    omega
  have hlast := monthToDays_eq d.year hmonth.1 (by omega)
  have hwDay : uint16 ((n : Int) - (before (monthLength d.year) 1 d.month : Nat) + 1) = d.day := by
    rw [uint16_eq_toNat (by omega) (by omega)]
    omega
  rw [hn]
  unfold toMonthDay
  simp only [hfirst]
  by_cases hguess : n / 31 + 1 = d.month
  · have hmtd := monthToDays_eq d.year (m := d.month + 1) (by omega) (by omega)
    have hkeep : ¬ (n : Int) ≥ (before (monthLength d.year) 1 (d.month + 1) : Nat) := by omega
    rw [Nat.cast_add, Nat.cast_one] at hmtd
    rw [hguess, hmtd]
    simp only [Option.bind_eq_bind, Option.bind_some, if_neg hkeep, hlast, hwDay]
    rfl
  · have hshort : n / 31 + 1 + 1 = d.month := by omega
    have hmove : (n : Int) ≥ (before (monthLength d.year) 1 d.month : Nat) := by omega
    have hsum : ((n / 31 + 1 : Nat) : Int) + 1 = d.month := by omega
    have hput : uint16 (d.month : Int) = d.month := uint16_eq_toNat (by omega) (by omega)
    rw [hsum, hlast]
    simp only [Option.bind_eq_bind, Option.bind_some, if_pos hmove, hput, hlast, hwDay]
    rfl

/-! ### The time of day -/

theorem toSystemTime_eq (t : Nat) :
    toSystemTime t =
      (toMonthDay (toYear (t / ticksPerDay : Nat))
        ((t / ticksPerDay : Nat) - yearsToDays (toYear (t / ticksPerDay : Nat)))).map fun found =>
        ⟨toYear (t / ticksPerDay : Nat), found.1, (t / ticksPerDay + 1) % 7, found.2,
          t / 36000000000 % 24, t / 600000000 % 60, t / 10000000 % 60, t / 10000 % 1000⟩ := by
  have hdiv (n k : Nat) : (n : Int).tdiv k = (n / k : Nat) := rfl
  have hmod (n k : Nat) (hk : 0 < k) (hsmall : k ≤ 1000) :
      uint16 ((n : Int).tmod k) = n % k := by
    have hlt := Nat.mod_lt n hk
    exact (uint16_eq_toNat (x := (n % k : Nat)) (by omega) (by omega)).trans (Int.toNat_natCast _)
  have hms := hmod (t / 10000) 1000 (by decide) (by decide)
  have hs := hmod (t / 10000 / 1000) 60 (by decide) (by decide)
  have hm := hmod (t / 10000 / 1000 / 60) 60 (by decide) (by decide)
  have hh := hmod (t / 10000 / 1000 / 60 / 60) 24 (by decide) (by decide)
  have hw := hmod (t / 10000 / 1000 / 60 / 60 / 24 + 1) 7 (by decide) (by decide)
  have h1 := hdiv t 10000
  have h2 := hdiv (t / 10000) 1000
  have h3 := hdiv (t / 10000 / 1000) 60
  have h4 := hdiv (t / 10000 / 1000 / 60) 60
  have h5 := hdiv (t / 10000 / 1000 / 60 / 60) 24
  simp only [Nat.cast_ofNat, Nat.cast_add, Nat.cast_one] at h1 h2 h3 h4 h5 hms hs hm hh hw
  unfold toSystemTime timeunitToMilliseconds millisecondsToSeconds secondsToMinutes minutesToHour
    hoursToDay baseYearDayofweekShift
  simp only [h1, h2, h3, h4, h5, hms, hs, hm, hh, hw]
  simp only [Nat.div_div_eq_div_mul, Nat.reduceMul, ticksPerDay, Option.bind_eq_bind]
  generalize toMonthDay _ _ = found
  cases found with
  | none => rfl
  | some found => rfl

theorem before_1601 : before yearLength 1 1601 = 7 * 83484 := by
  have hleap := leapYears_one (y := 1601) (by decide)
  rw [before_yearLength (by decide)]
  omega

theorem weekday_eq {d : Date} (h : 1601 ≤ d.year) : d.weekday = (d.number 1601 + 1) % 7 := by
  unfold Date.weekday
  rw [Date.number_one (by decide) h, before_1601]
  omega

theorem toSystemTime_of_near {t : Nat} {d : Date} (hlow : 1601 ≤ d.year) (hhigh : d.year ≤ 9999)
    (hday : t / ticksPerDay = d.number 1601) (hnear : Near d) :
    toSystemTime t = some ⟨d.year, d.month, d.weekday, d.day, t / 36000000000 % 24,
      t / 600000000 % 60, t / 10000000 % 60, t / 10000 % 1000⟩ := by
  have hyear := (toYear_number hlow hhigh).mpr hnear
  have hrest : (d.number 1601 : Int) - yearsToDays d.year = d.dayOfYear := by
    rw [yearsToDays_eq hlow]
    unfold Date.number
    omega
  rw [toSystemTime_eq, hday, hyear, hrest, toMonthDay_eq, weekday_eq hlow, Option.map_some]

variable {s : SystemTime}

theorem wYear_of_toSystemTime {t : Nat} (h : toSystemTime t = some s) :
    s.wYear = toYear (t / ticksPerDay : Nat) := by
  rw [toSystemTime_eq, Option.map_eq_some_iff] at h
  obtain ⟨found, _, hfound⟩ := h
  rw [← hfound]

theorem clock_eq (t : Nat) (year month weekday day : Nat) :
    let s : SystemTime := ⟨year, month, weekday, day, t / 36000000000 % 24,
      t / 600000000 % 60, t / 10000000 % 60, t / 10000 % 1000⟩
    ClockValid s ∧ millisOfDay s = t % ticksPerDay / 10000 := by
  refine ⟨⟨?_, ?_, ?_, ?_⟩, ?_⟩
  · exact Nat.mod_lt _ (by decide)
  · exact Nat.mod_lt _ (by decide)
  · exact Nat.mod_lt _ (by decide)
  · exact Nat.mod_lt _ (by decide)
  · unfold millisOfDay ticksPerDay
    dsimp only
    omega

theorem eq_of_date {s' : SystemTime} {d : Date} (hs : Says s d) (hs' : Says s' d)
    (hclock : ClockValid s) (hclock' : ClockValid s') (hmillis : millisOfDay s = millisOfDay s') :
    s = s' := by
  obtain ⟨hyear, hmonth, hday, hweekday⟩ := hs
  obtain ⟨hyear', hmonth', hday', hweekday'⟩ := hs'
  obtain ⟨hh, hm, hsec, hms⟩ := hclock
  obtain ⟨hh', hm', hsec', hms'⟩ := hclock'
  unfold millisOfDay at hmillis
  cases s
  cases s'
  simp only [SystemTime.mk.injEq] at *
  omega

theorem fromSystemTime_eq {d : Date} (hlow : 1601 ≤ d.year)
    (hhigh : d.year ≤ 9999) (hs : Says s d) (hclock : ClockValid s) :
    fromSystemTime s =
      some ((d.number 1601 * ticksPerDay + millisOfDay s * 10000 : Nat) : Int) := by
  obtain ⟨hyear, hmonth, hday, -⟩ := hs
  obtain ⟨hh, hm, hsec, hms⟩ := hclock
  have hof := d.hmonth
  have hdays := d.hday
  have hleap := leapYears_le hlow
  have hin := d.dayOfYear_lt
  have hnumber : d.number 1601 = 365 * (d.year - 1601) + leapYears 1601 d.year + d.dayOfYear := by
    unfold Date.number
    rw [before_yearLength hlow]
  have hlength : yearLength d.year ≤ 366 := by
    unfold yearLength
    split <;> decide
  have hr : yearsToDays d.year + before (monthLength d.year) 1 d.month + d.day - 1
      = (d.number 1601 : Int) := by
    rw [yearsToDays_eq hlow]
    unfold Date.number Date.dayOfYear
    omega
  unfold fromSystemTime
  rw [hyear, hmonth, hday, monthToDays_eq d.year hof.1 (by omega)]
  simp only [Option.bind_eq_bind, Option.bind_some, hr]
  unfold hoursToDay minutesToHour secondsToMinutes millisecondsToSeconds timeunitToMilliseconds
    millisOfDay ticksPerDay int64
  rw [Int.bmod_eq_of_le (by omega) (by omega)]
  refine congrArg some ?_
  omega

/-! ### Conversions -/

theorem exact_of_near {t : Nat} {d : Date} (hfalls : FallsOn t d) (hhigh : d.year ≤ 9999)
    (hnear : Near d) : Exact t := by
  obtain ⟨hlow, hnumber⟩ := hfalls
  have hday : t / ticksPerDay = d.number 1601 := by exact_mod_cast hnumber
  have hto := toSystemTime_of_near hlow hhigh hday hnear
  obtain ⟨hclock, hmillis⟩ := clock_eq t d.year d.month d.weekday d.day
  have hfrom := fromSystemTime_eq hlow hhigh ⟨rfl, rfl, rfl, rfl⟩ hclock
  refine ⟨_, hto, ⟨⟨d, ⟨hlow, hnumber⟩, ⟨rfl, rfl, rfl, rfl⟩⟩, hclock, ?_⟩, ?_⟩
  · rw [hmillis]
    push_cast
    rfl
  · rw [hfrom, hmillis, ← hday]
    unfold ticksPerDay
    refine congrArg some ?_
    omega

theorem near_of_exact {t : Nat} {d : Date} (hfalls : FallsOn t d) (hhigh : d.year ≤ 9999)
    (h : Exact t) : Near d := by
  obtain ⟨s, hto, ⟨⟨e, ⟨helow, henumber⟩, hdate⟩, _, _⟩, _⟩ := h
  obtain ⟨hlow, hnumber⟩ := hfalls
  obtain rfl : d = e := by
    refine Date.eq_of_number_eq hlow helow ?_
    exact_mod_cast hnumber.symm.trans henumber
  have hday : t / ticksPerDay = d.number 1601 := by exact_mod_cast hnumber
  have hyear := wYear_of_toSystemTime hto
  rw [hdate.year, hday] at hyear
  exact (toYear_number hlow hhigh).mp hyear.symm

theorem date_roundTrips_iff {d : Date} (hlow : 1601 ≤ d.year)
    (hhigh : d.year ≤ 9999) (hs : Says s d) (hclock : ClockValid s) : RoundTrips s ↔ Near d := by
  have hfrom := fromSystemTime_eq hlow hhigh hs hclock
  have hmillis : millisOfDay s < 86400000 := by
    obtain ⟨hh, hm, hsec, hms⟩ := hclock
    unfold millisOfDay
    omega
  obtain ⟨t, ht⟩ : ∃ t, d.number 1601 * ticksPerDay + millisOfDay s * 10000 = t := ⟨_, rfl⟩
  have hday : t / ticksPerDay = d.number 1601 := by
    rw [← ht]
    unfold ticksPerDay
    omega
  have hrest : t % ticksPerDay / 10000 = millisOfDay s := by
    rw [← ht]
    unfold ticksPerDay
    omega
  unfold RoundTrips
  rw [hfrom, ht, Option.bind_some]
  constructor
  · intro hto
    have hyear := wYear_of_toSystemTime hto
    rw [hs.year, hday] at hyear
    exact (toYear_number hlow hhigh).mp hyear.symm
  · intro hnear
    obtain ⟨hclock', hmillis'⟩ := clock_eq t d.year d.month d.weekday d.day
    rw [toSystemTime_of_near hlow hhigh hday hnear]
    refine congrArg some (eq_of_date ⟨rfl, rfl, rfl, rfl⟩ hs hclock' hclock ?_)
    rw [hmillis', hrest]

theorem exists_fallsOn {t : Nat} (h : t < ticksPerDay * before yearLength 1601 10000) :
    ∃ d, FallsOn t d ∧ d.year ≤ 9999 := by
  obtain ⟨d, hlow, hhigh, hnumber⟩ := Date.exists_number (Nat.div_lt_of_lt_mul h)
  refine ⟨d, ⟨hlow, ?_⟩, Nat.le_of_lt_succ hhigh⟩
  rw [hnumber]
  rfl

/-- Conversion is exact for the dates that are near enough, and for no others. -/
theorem calendar_exact_iff {t : Int} (hpast : 0 ≤ t)
    (hfuture : t < ticksPerDay * before yearLength 1601 10000) {s : SystemTime} (hs : Valid s) :
    (Exact t ↔ ∃ d, FallsOn t d ∧ Near d) ∧ (RoundTrips s ↔ ∃ d, Says s d ∧ Near d) := by
  constructor
  · obtain ⟨n, rfl⟩ := Int.eq_ofNat_of_zero_le hpast
    obtain ⟨d, hfalls, hhigh⟩ := exists_fallsOn (t := n) (by exact_mod_cast hfuture)
    constructor
    · intro hexact
      exact ⟨d, hfalls, near_of_exact hfalls hhigh hexact⟩
    · rintro ⟨e, helse, hnear⟩
      obtain rfl : e = d := by
        refine Date.eq_of_number_eq helse.1 hfalls.1 ?_
        exact_mod_cast helse.2.symm.trans hfalls.2
      exact exact_of_near hfalls hhigh hnear
  · obtain ⟨d, hlow, hhigh, hdate⟩ := hs.date
    have hiff := date_roundTrips_iff hlow hhigh hdate hs.clock
    constructor
    · intro hround
      exact ⟨d, hdate, hiff.mp hround⟩
    · rintro ⟨e, helse, hnear⟩
      refine hiff.mpr ?_
      unfold Near Date.dayOfYear at *
      rw [← hdate.year, ← hdate.month, ← hdate.day]
      rwa [← helse.year, ← helse.month, ← helse.day] at hnear

/-- 29 February 2024 -/
def leapDay : Date := ⟨2024, 2, 29, by decide, by decide⟩

theorem leapDay_dayOfYear : leapDay.dayOfYear = 59 := by
  change before (monthLength 2024) 1 2 + 28 = 59
  rw [before_succ (Nat.le_refl 1), before_self]
  rfl

theorem leapDay_leapYears : leapYears 1601 leapDay.year = 102 := by
  have hleap : numberOfLeapYears 2024 = leapYears 1601 2024 := numberOfLeapYears_eq (by decide)
  have hnumber : numberOfLeapYears 2024 = 102 := by decide
  change leapYears 1601 2024 = 102
  omega

theorem leapDay_number : leapDay.number 1601 = 154556 := by
  rw [Date.number, before_yearLength (by decide), leapDay_leapYears, leapDay_dayOfYear]
  rfl

theorem leapDay_describes : Says ⟨2024, 2, 4, 29, 12, 30, 15, 250⟩ leapDay := by
  refine ⟨rfl, rfl, rfl, ?_⟩
  rw [weekday_eq (by decide), leapDay_number]

/-- Thursday, 29 February 2024, a quarter of a second after 12:30:15 -/
theorem calendar_exact_leapDay :
    Exact 133536834152500000 ∧ RoundTrips ⟨2024, 2, 4, 29, 12, 30, 15, 250⟩ := by
  have hbound : (133536834152500000 : Int) < ticksPerDay * before yearLength 1601 10000 := by
    rw [before_yearLength (by decide)]
    unfold ticksPerDay
    omega
  have hvalid : Valid ⟨2024, 2, 4, 29, 12, 30, 15, 250⟩ :=
    ⟨⟨leapDay, by decide, by decide, leapDay_describes⟩, by decide, by decide, by decide,
      by decide⟩
  have hfalls : FallsOn 133536834152500000 leapDay := by
    refine ⟨by decide, ?_⟩
    rw [leapDay_number]
    rfl
  have hnear : Near leapDay := by
    rw [Near, leapDay_leapYears, leapDay_dayOfYear]
    decide
  obtain ⟨hexact, hround⟩ := calendar_exact_iff (by decide) hbound hvalid
  exact ⟨hexact.mpr ⟨leapDay, hfalls, hnear⟩, hround.mpr ⟨leapDay, leapDay_describes, hnear⟩⟩

/-- The last day of 3112 becomes the day 0 of 3113. -/
theorem lastDayOf3112 : (477139680000000000 : Int) < ticksPerDay * before yearLength 1601 10000 ∧
    toSystemTime 477139680000000000 = some ⟨3113, 1, 2, 0, 0, 0, 0, 0⟩ ∧
    ¬ Exact 477139680000000000 := by
  have hto : toSystemTime 477139680000000000 = some ⟨3113, 1, 2, 0, 0, 0, 0, 0⟩ := by decide
  refine ⟨?_, hto, ?_⟩
  · rw [before_yearLength (by decide)]
    unfold ticksPerDay
    omega
  · rintro ⟨s, hs, ⟨⟨d, _, hdate⟩, _, _⟩, _⟩
    obtain rfl := Option.some.inj (hto.symm.trans hs)
    have hday := d.hday.1
    rw [← hdate.day] at hday
    exact absurd hday (by decide)

end TinyClr.TimeDriver
