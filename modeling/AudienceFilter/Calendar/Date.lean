/-!
# Calendar dates

Days of the proleptic Gregorian calendar with a year 0, numbered from 1 January 1970. Years run
from −262143 to 262142. Internally a year starts in March, so that the leap day is the last day
of the year that it belongs to.
-/

namespace AudienceFilter.Calendar

/-- A day of the calendar. -/
structure Date where
  year : Int
  month : Nat
  day : Nat
deriving DecidableEq, Repr

/-- A day with a time of day. Second 60 is the leap second, which any minute may have. -/
structure DateTime where
  date : Date
  hour : Nat
  minute : Nat
  second : Nat
deriving DecidableEq, Repr

/-- The first and the last year that a date may have. -/
def minYear : Int := -262143

@[inherit_doc minYear]
def maxYear : Int := 262142

/-- Whether a year has a leap day. -/
def isLeapYear (y : Int) : Bool := y % 4 == 0 && (y % 100 != 0 || y % 400 == 0)

/-- The number of days of a month. -/
def daysInMonth (y : Int) (m : Nat) : Nat :=
  if m = 2 then if isLeapYear y then 29 else 28
  else if m = 4 ∨ m = 6 ∨ m = 9 ∨ m = 11 then 30
  else 31

namespace Date

/-- Whether the year lies in the range of the calendar. -/
def inRange (d : Date) : Bool := minYear ≤ d.year && d.year ≤ maxYear

/-- Whether the parts name a day of the calendar. -/
def isValid (d : Date) : Bool :=
  d.inRange && 1 ≤ d.month && d.month ≤ 12 && 1 ≤ d.day && d.day ≤ daysInMonth d.year d.month

/-- The days before a month of the year that starts in March, whose months count from 0. -/
def daysBeforeMonth (m : Nat) : Nat := (153 * m + 2) / 5

/-- The days from 1 March of year 0 to 1 January 1970. -/
def epochOffset : Int := 719468

/-- The number of the day, counted from 1 January 1970. -/
def toDayNumber (d : Date) : Int :=
  let y := if d.month ≤ 2 then d.year - 1 else d.year
  let m := (d.month + 9) % 12
  365 * y + y / 4 - y / 100 + y / 400 + daysBeforeMonth m + d.day - 1 - epochOffset

/-- The date of a day number: whole cycles of 400 years, then centuries, cycles of four years,
years and months. The last century of a cycle and the last year of four have one day more. -/
def ofDayNumber (n : Int) : Date :=
  let z := n + epochOffset
  let inCycle := (z % 146097).toNat
  let century := min (inCycle / 36524) 3
  let inCentury := inCycle - 36524 * century
  let four := inCentury / 1461
  let inFour := inCentury - 1461 * four
  let single := min (inFour / 365) 3
  let inYear := inFour - 365 * single
  let m := (5 * inYear + 2) / 153
  let y := z / 146097 * 400 + (100 * century + 4 * four + single : Nat)
  { year := if m < 10 then y else y + 1
    month := if m < 10 then m + 3 else m - 9
    day := inYear - daysBeforeMonth m + 1 }

/-- The date `k` days later, unless that lies outside the calendar. -/
def addDays? (d : Date) (k : Int) : Option Date :=
  let moved := ofDayNumber (d.toDayNumber + k)
  if moved.inRange then some moved else none

end Date

namespace DateTime

/-- The start of a day. -/
def midnight (d : Date) : DateTime := { date := d, hour := 0, minute := 0, second := 0 }

/-- Whether the parts name a time of a day of the calendar. -/
def isValid (t : DateTime) : Bool :=
  t.date.isValid && t.hour ≤ 23 && t.minute ≤ 59 && t.second ≤ 60

/-- Milliseconds since the start of 1970; a leap second counts as the second behind it. -/
def toEpochMillis (t : DateTime) : Int :=
  t.date.toDayNumber * 86400000 + ((t.hour * 3600 + t.minute * 60 + t.second) * 1000 : Nat)

end DateTime

end AudienceFilter.Calendar
