import TinyClr.Library.MachineInt

/-!
# The calendar of the time driver

`TimeDriver::ToSystemTime` and `FromSystemTime` (`DeviceCode/pal/time/time_driver.cpp`).

A `TIME` counts steps of 100 ns from 1 January 1601.  `none` is a read outside
`CummulativeDaysForMonth`.
-/

namespace TinyClr.TimeDriver

open TinyClr.Library

def cummulativeDaysForMonth : List Int :=
  [0, 31, 59, 90, 120, 151, 181, 212, 243, 273, 304, 334, 365]

def baseYear : Int := 1601
def baseYearLeapyearAdjust : Int := 388
def daysInNormalYear : Int := 365
def baseYearDayofweekShift : Int := 1

def timeunitToMilliseconds : Int := 10000
def millisecondsToSeconds : Int := 1000
def secondsToMinutes : Int := 60
def minutesToHour : Int := 60
def hoursToDay : Int := 24

def isLeapYear (y : Int) : Bool :=
  y.tmod 4 == 0 && y.tmod 100 != 0 || y.tmod 400 == 0

def numberOfLeapYears (y : Int) : Int :=
  (y - 1).tdiv 4 - (y - 1).tdiv 100 + (y - 1).tdiv 400 - baseYearLeapyearAdjust

def numberOfYears (y : Int) : Int := y - baseYear

def yearsToDays (y : Int) : Int := numberOfYears y * daysInNormalYear + numberOfLeapYears y

def monthToDays (y m : Int) : Option Int :=
  if m - 1 < 0 then none
  else (cummulativeDaysForMonth[(m - 1).toNat]?).map (· + if isLeapYear y && m > 2 then 1 else 0)

structure SystemTime where
  wYear : Nat
  wMonth : Nat
  wDayOfWeek : Nat
  wDay : Nat
  wHour : Nat
  wMinute : Nat
  wSecond : Nat
  wMilliseconds : Nat
deriving DecidableEq, Repr

/-- `wYear` of the day `time`: a first guess, put back by a year when it begins too late -/
def toYear (time : Int) : Nat :=
  let wYear := uint16 (time.tdiv daysInNormalYear + baseYear)
  if yearsToDays wYear > time then uint16 (wYear - 1 : Int) else wYear

/-- `wMonth` and `wDay` of the day `time` of the year: a first guess, put on by a month when the
next one begins no later -/
def toMonthDay (wYear : Nat) (time : Int) : Option (Nat × Nat) := do
  let wMonth := uint16 (time.tdiv 31 + 1)
  let mtd ← monthToDays wYear (wMonth + 1)
  let wMonth := if time ≥ mtd then uint16 (wMonth + 1) else wMonth
  let mtd ← monthToDays wYear wMonth
  return (wMonth, uint16 (time - mtd + 1))

def toSystemTime (time : Int) : Option SystemTime := do
  let time := time.tdiv timeunitToMilliseconds
  let wMilliseconds := uint16 (time.tmod millisecondsToSeconds)
  let time := time.tdiv millisecondsToSeconds
  let wSecond := uint16 (time.tmod secondsToMinutes)
  let time := time.tdiv secondsToMinutes
  let wMinute := uint16 (time.tmod minutesToHour)
  let time := time.tdiv minutesToHour
  let wHour := uint16 (time.tmod hoursToDay)
  let time := time.tdiv hoursToDay
  let wDayOfWeek := uint16 ((time + baseYearDayofweekShift).tmod 7)
  let wYear := toYear time
  let time := time - yearsToDays wYear
  let (wMonth, wDay) ← toMonthDay wYear time
  return ⟨wYear, wMonth, wDayOfWeek, wDay, wHour, wMinute, wSecond, wMilliseconds⟩

def fromSystemTime (systemTime : SystemTime) : Option Int := do
  let mtd ← monthToDays systemTime.wYear systemTime.wMonth
  let r := yearsToDays systemTime.wYear + mtd + systemTime.wDay - 1
  return int64
    (((((r * hoursToDay + systemTime.wHour) * minutesToHour + systemTime.wMinute)
      * secondsToMinutes + systemTime.wSecond) * millisecondsToSeconds
      + systemTime.wMilliseconds) * timeunitToMilliseconds)

end TinyClr.TimeDriver
