import Tutor.Number.Fraction

/-!
Instants: a day of the Gregorian calendar and a time of day in UTC, to the nanosecond. Any minute may
have a leap second. The written form is the one of RFC 3339, with a sign where the year does not have
four digits.
-/

set_option autoImplicit false
set_option relaxedAutoImplicit false

namespace Tutor

open Number (naturalText)

def isLeapYear (year : Int) : Bool :=
  decide (year % 4 = 0) && (decide (year % 100 ≠ 0) || decide (year % 400 = 0))

def daysInMonth (year : Int) (month : Nat) : Nat :=
  if month = 2 then if isLeapYear year then 29 else 28
  else if month = 4 ∨ month = 6 ∨ month = 9 ∨ month = 11 then 30
  else 31

def firstYear : Int := -262143

def lastYear : Int := 262142

structure Date where
  year : Int
  month : Nat
  day : Nat
  year_mem : firstYear ≤ year ∧ year ≤ lastYear
  month_mem : 1 ≤ month ∧ month ≤ 12
  day_mem : 1 ≤ day ∧ day ≤ daysInMonth year month
  deriving DecidableEq, Repr

namespace Date

def ofParts? (year : Int) (month day : Nat) : Option Date :=
  if h : (firstYear ≤ year ∧ year ≤ lastYear) ∧ (1 ≤ month ∧ month ≤ 12) ∧
      (1 ≤ day ∧ day ≤ daysInMonth year month) then
    some ⟨year, month, day, h.1, h.2.1, h.2.2⟩
  else none

theorem ofParts?_self (date : Date) : ofParts? date.year date.month date.day = some date := by
  simp [ofParts?, date.year_mem, date.month_mem, date.day_mem]

def next? (date : Date) : Option Date :=
  if date.day < daysInMonth date.year date.month then ofParts? date.year date.month (date.day + 1)
  else if date.month < 12 then ofParts? date.year (date.month + 1) 1
  else ofParts? (date.year + 1) 1 1

def previous? (date : Date) : Option Date :=
  if 1 < date.day then ofParts? date.year date.month (date.day - 1)
  else if 1 < date.month then
    ofParts? date.year (date.month - 1) (daysInMonth date.year (date.month - 1))
  else ofParts? (date.year - 1) 12 31

/-- The day that is some days after the first day of 1970. Years are counted from March, so that the leap
day is the last one of its year: 146097 days are four centuries, and 153 days are five months. -/
def ofDayNumber? (days : Nat) : Option Date :=
  let n := days + 719468
  let inCycle := n % 146097
  let yearInCycle := (inCycle - inCycle / 1460 + inCycle / 36524 - inCycle / 146096) / 365
  let dayOfYear := inCycle - (365 * yearInCycle + yearInCycle / 4 - yearInCycle / 100)
  let month := (5 * dayOfYear + 2) / 153
  let day := dayOfYear - (153 * month + 2) / 5 + 1
  let year : Nat := 400 * (n / 146097) + yearInCycle
  if month < 10 then ofParts? year (month + 3) day else ofParts? (year + 1) (month - 9) day

example : ofDayNumber? 0 = ofParts? 1970 1 1 := by decide +kernel
example : ofDayNumber? 19782 = ofParts? 2024 2 29 := by decide +kernel
example : (ofParts? 2000 2 28).bind next? = ofParts? 2000 2 29 := by decide +kernel
example : (ofParts? 1900 3 1).bind previous? = ofParts? 1900 2 28 := by decide +kernel
example : (ofParts? 262142 12 31).bind next? = none := by decide +kernel

end Date

def padded (width n : Nat) : String :=
  let digits := naturalText n
  String.ofList (List.replicate (width - digits.length) '0') ++ digits

def nanosPerSecond : Nat := 1000000000

structure ClockTime where
  hour : Nat
  minute : Nat
  second : Nat
  nanosecond : Nat
  hour_lt : hour < 24
  minute_lt : minute < 60
  second_le : second ≤ 60
  nanosecond_lt : nanosecond < nanosPerSecond
  deriving DecidableEq, Repr

def ClockTime.ofParts? (hour minute second nanosecond : Nat) : Option ClockTime :=
  if h : hour < 24 ∧ minute < 60 ∧ second ≤ 60 ∧ nanosecond < nanosPerSecond then
    some ⟨hour, minute, second, nanosecond, h.1, h.2.1, h.2.2.1, h.2.2.2⟩
  else none

structure Instant where
  date : Date
  time : ClockTime
  deriving DecidableEq, Repr

namespace Instant

/-- A year in four digits, or signed and in at least four. -/
def yearText (year : Int) : String :=
  let digits := padded 4 year.natAbs
  if 0 ≤ year ∧ year ≤ 9999 then digits
  else if year < 0 then "-" ++ digits
  else "+" ++ digits

/-- The fraction of a second in three, six or nine digits, whichever are the fewest that are exact;
nothing for a whole second. -/
def fractionText (nanosecond : Nat) : String :=
  if nanosecond = 0 then ""
  else if nanosecond % 1000000 = 0 then "." ++ padded 3 (nanosecond / 1000000)
  else if nanosecond % 1000 = 0 then "." ++ padded 6 (nanosecond / 1000)
  else "." ++ padded 9 nanosecond

def text (instant : Instant) : String :=
  let date := instant.date
  let time := instant.time
  yearText date.year ++ "-" ++ padded 2 date.month ++ "-" ++ padded 2 date.day ++ "T" ++
    padded 2 time.hour ++ ":" ++ padded 2 time.minute ++ ":" ++ padded 2 time.second ++
    fractionText time.nanosecond ++ "Z"

/-- The instant at a local date and time that is some minutes ahead of UTC, at most a day. A leap second
stays one. -/
def ofLocal? (date : Date) (time : ClockTime) (ahead : Int) : Option Instant := do
  let minutes : Int := 60 * time.hour + time.minute - ahead
  let inUtc ←
    if minutes < 0 then date.previous?
    else if minutes < 1440 then some date
    else date.next?
  let minuteOfDay := (minutes % 1440).toNat
  return ⟨inUtc, ← ClockTime.ofParts? (minuteOfDay / 60) (minuteOfDay % 60) time.second time.nanosecond⟩

/-- The instant that is some nanoseconds after the start of 1970; leap seconds do not count. -/
def ofNanoseconds? (nanoseconds : Nat) : Option Instant := do
  let seconds := nanoseconds / nanosPerSecond
  let ofDay := seconds % 86400
  let date ← Date.ofDayNumber? (seconds / 86400)
  let time ←
    ClockTime.ofParts? (ofDay / 3600) (ofDay / 60 % 60) (ofDay % 60) (nanoseconds % nanosPerSecond)
  return ⟨date, time⟩

example : (ofNanoseconds? 1500000000000000000).map text = some "2017-07-14T02:40:00Z" := by
  decide +kernel

end Instant

end Tutor
