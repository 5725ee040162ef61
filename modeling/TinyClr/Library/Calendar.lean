import Mathlib.Algebra.BigOperators.Intervals
import Mathlib.Algebra.Order.BigOperators.Group.Finset
import Mathlib.Order.Interval.Finset.Nat

/-!
# The Gregorian calendar

Days are numbered from 1 January of an epoch.  A year is a stretch of days and a month a stretch of
days of its year, so that a date is found from its number in two steps of the same kind: by the
stretch that the number lies in.
-/

namespace TinyClr.Library

/-! ### Stretches, one after the other -/

/-- Where stretch `k` begins, when the first is `first` and stretch `i` has length `len i` -/
def before (len : Nat → Nat) (first k : Nat) : Nat := ∑ i ∈ Finset.Ico first k, len i

section Stretches

variable {len : Nat → Nat} {first : Nat}

@[simp] theorem before_self : before len first first = 0 := by
  unfold before
  rw [Finset.Ico_self, Finset.sum_empty]

variable {k : Nat}

theorem before_succ (h : first ≤ k) :
    before len first (k + 1) = before len first k + len k :=
  Finset.sum_Ico_succ_top h len

variable {j : Nat}

theorem before_le (h : j ≤ k) : before len first j ≤ before len first k :=
  Finset.sum_le_sum_of_subset (Finset.Ico_subset_Ico_right h)

/-- Stretches do not overlap. -/
theorem before_add_le {j k : Nat} (hfirst : first ≤ j) (h : j < k) :
    before len first j + len j ≤ before len first k := by
  rw [← before_succ hfirst]
  exact before_le h

theorem stretch_unique {j k n : Nat} (hj : first ≤ j) (hk : first ≤ k)
    (hjn : before len first j ≤ n ∧ n < before len first j + len j)
    (hkn : before len first k ≤ n ∧ n < before len first k + len k) : j = k := by
  rcases Nat.lt_trichotomy j k with hlt | heq | hlt
  · have hle := @before_add_le len first _ _ hj hlt
    omega
  · exact heq
  · have hle := @before_add_le len first _ _ hk hlt
    omega

theorem exists_stretch {n : Nat} (h : n < before len first k) :
    ∃ j, first ≤ j ∧ j < k ∧ before len first j ≤ n ∧ n < before len first j + len j := by
  induction k with
  | zero =>
    have hle : before len first 0 ≤ before len first first := before_le (Nat.zero_le first)
    rw [before_self] at hle
    omega
  | succ k ih =>
    by_cases hlt : n < before len first k
    · obtain ⟨j, hj, hjk, hin⟩ := ih hlt
      exact ⟨j, hj, Nat.lt_succ_of_lt hjk, hin⟩
    · have hfirst : first ≤ k := by
        by_contra hlast
        have hle : before len first (k + 1) ≤ before len first first := before_le (by omega)
        rw [before_self] at hle
        omega
      refine ⟨k, hfirst, Nat.lt_succ_self k, Nat.le_of_not_lt hlt, ?_⟩
      rwa [← before_succ hfirst]

end Stretches

/-! ### Years and months -/

namespace Gregorian

/-- Every fourth year, but only every fourth of the last years of the centuries -/
def IsLeapYear (y : Nat) : Prop := 4 ∣ y ∧ ¬ 100 ∣ y ∨ 400 ∣ y

instance (y : Nat) : Decidable (IsLeapYear y) :=
  inferInstanceAs (Decidable (4 ∣ y ∧ ¬ 100 ∣ y ∨ 400 ∣ y))

def yearLength (y : Nat) : Nat := if IsLeapYear y then 366 else 365

def monthLength (y m : Nat) : Nat :=
  if m = 2 then if IsLeapYear y then 29 else 28
  else if m = 4 ∨ m = 6 ∨ m = 9 ∨ m = 11 then 30 else 31

def leapYears (epoch y : Nat) : Nat := before (fun i => if IsLeapYear i then 1 else 0) epoch y

variable {epoch y : Nat}

theorem before_yearLength (h : epoch ≤ y) :
    before yearLength epoch y = 365 * (y - epoch) + leapYears epoch y := by
  induction y, h using Nat.le_induction with
  | base => simp [leapYears]
  | succ y h ih =>
    have hleap : leapYears epoch (y + 1) = leapYears epoch y + if IsLeapYear y then 1 else 0 :=
      before_succ h
    rw [before_succ h, ih, hleap, yearLength]
    split <;> omega

/-- The leap years of our era up to the end of the year before `y` -/
theorem leapYears_one (h : 1 ≤ y) :
    leapYears 1 y + (y - 1) / 100 = (y - 1) / 4 + (y - 1) / 400 := by
  induction y, h using Nat.le_induction with
  | base => rfl
  | succ y h ih =>
    have hleap : leapYears 1 (y + 1) = leapYears 1 y + if IsLeapYear y then 1 else 0 :=
      before_succ h
    rw [hleap, Nat.add_sub_cancel]
    clear hleap
    by_cases hy : IsLeapYear y
    · rw [if_pos hy]
      unfold IsLeapYear at hy
      omega
    · rw [if_neg hy]
      unfold IsLeapYear at hy
      omega

theorem leapYears_add {epoch y : Nat} (hepoch : 1 ≤ epoch) (h : epoch ≤ y) :
    leapYears 1 epoch + leapYears epoch y = leapYears 1 y :=
  Finset.sum_Ico_consecutive _ hepoch h

/-- The months of a year fill it. -/
theorem before_monthLength (y : Nat) : before (monthLength y) 1 13 = yearLength y := by
  simp [before, Finset.sum_Ico_succ_top, monthLength, yearLength]
  split <;> rfl

/-! ### Dates -/

structure Date where
  year : Nat
  month : Nat
  day : Nat
  hmonth : 1 ≤ month ∧ month ≤ 12
  hday : 1 ≤ day ∧ day ≤ monthLength year month

namespace Date

def dayOfYear (d : Date) : Nat := before (monthLength d.year) 1 d.month + (d.day - 1)

def number (epoch : Nat) (d : Date) : Nat := before yearLength epoch d.year + d.dayOfYear

/-- The day of the week, counted from Sunday; our era begins on a Monday. -/
def weekday (d : Date) : Nat := (d.number 1 + 1) % 7

theorem dayOfYear_lt (d : Date) : d.dayOfYear < yearLength d.year := by
  have hle := @before_add_le (monthLength d.year) 1 _ _ d.hmonth.1 (Nat.lt_succ_of_le d.hmonth.2)
  rw [before_monthLength] at hle
  have hday := d.hday
  unfold dayOfYear
  omega

theorem eq_of_number_eq {d e : Date} (hd : epoch ≤ d.year) (he : epoch ≤ e.year)
    (h : d.number epoch = e.number epoch) : d = e := by
  have hyear : d.year = e.year := by
    refine stretch_unique hd he (n := d.number epoch) ⟨Nat.le_add_right _ _, ?_⟩ ?_
    · exact Nat.add_lt_add_left d.dayOfYear_lt _
    · rw [h]
      exact ⟨Nat.le_add_right _ _, Nat.add_lt_add_left e.dayOfYear_lt _⟩
  have hday : d.dayOfYear = e.dayOfYear := by
    unfold number at h
    rw [hyear] at h
    exact Nat.add_left_cancel h
  have hmonth : d.month = e.month := by
    refine @stretch_unique (monthLength d.year) 1 _ _ d.dayOfYear d.hmonth.1 e.hmonth.1
      ⟨Nat.le_add_right _ _, ?_⟩ ?_
    · exact Nat.add_lt_add_left (by have hd := d.hday; omega) _
    · rw [hday, hyear]
      exact ⟨Nat.le_add_right _ _, Nat.add_lt_add_left (by have he := e.hday; omega) _⟩
  obtain ⟨year, month, day, hm, hdd⟩ := d
  obtain ⟨year', month', day', hm', hdd'⟩ := e
  obtain rfl : year = year' := hyear
  obtain rfl : month = month' := hmonth
  have hsame : before (monthLength year) 1 month + (day - 1)
      = before (monthLength year) 1 month + (day' - 1) := hday
  obtain rfl : day = day' := by omega
  rfl

/-- Every day from the epoch on has a date. -/
theorem exists_number {n : Nat} (h : n < before yearLength epoch y) :
    ∃ d : Date, epoch ≤ d.year ∧ d.year < y ∧ d.number epoch = n := by
  obtain ⟨year, hepoch, hy, hle, hlt⟩ := exists_stretch h
  have hin : n - before yearLength epoch year < before (monthLength year) 1 13 := by
    rw [before_monthLength]
    omega
  obtain ⟨month, h1, h13, hmle, hmlt⟩ := exists_stretch hin
  refine ⟨⟨year, month, n - before yearLength epoch year - before (monthLength year) 1 month + 1,
    ⟨h1, by omega⟩, ⟨by omega, by omega⟩⟩, hepoch, hy, ?_⟩
  unfold number dayOfYear
  change before yearLength epoch year + (before (monthLength year) 1 month
    + (n - before yearLength epoch year - before (monthLength year) 1 month + 1 - 1)) = n
  omega

/-- The numbers from our era on and from an epoch on differ by a constant. -/
theorem number_one {d : Date} (hepoch : 1 ≤ epoch) (h : epoch ≤ d.year) :
    d.number 1 = before yearLength 1 epoch + d.number epoch := by
  have hsum : before yearLength 1 epoch + before yearLength epoch d.year
      = before yearLength 1 d.year := Finset.sum_Ico_consecutive _ hepoch h
  unfold number
  omega

end Date

end Gregorian

end TinyClr.Library
