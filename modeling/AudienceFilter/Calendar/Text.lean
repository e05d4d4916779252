import AudienceFilter.Calendar.Date
import AudienceFilter.Number.Text
import AudienceFilter.Text.Blank

/-!
# Dates in text

Reading accepts a date `year-month-day`, or a date and a time `hour:minute:second`, with white
space allowed in front of each number. A year takes up to four digits, or any number of digits
behind a sign; all other parts take up to two. Writing fills a year up to four digits and gives
it a sign outside 0 to 9999.
-/

namespace AudienceFilter.Calendar

open Number Text

/-! ## Reading -/

/-- What follows a character that has to stand here. -/
def expect? (c : Char) : List Char → Option (List Char)
  | d :: rest => if d = c then some rest else none
  | [] => none

/-- A number of up to two digits. -/
def readPart? (cs : List Char) : Option (Nat × List Char) := readDigits? 2 (trimStart cs)

/-- A year: behind a sign any number of digits, otherwise up to four. -/
def readYear? (cs : List Char) : Option (Int × List Char) :=
  match trimStart cs with
  | '-' :: rest => (readDigits? rest.length rest).map fun (n, tail) => (-Int.ofNat n, tail)
  | '+' :: rest => (readDigits? rest.length rest).map fun (n, tail) => (Int.ofNat n, tail)
  | rest => (readDigits? 4 rest).map fun (n, tail) => (Int.ofNat n, tail)

/-- A date at the start of the characters, not yet checked against the calendar. -/
def readDate? (cs : List Char) : Option (Date × List Char) := do
  let (year, cs) ← readYear? cs
  let cs ← expect? '-' cs
  let (month, cs) ← readPart? cs
  let cs ← expect? '-' cs
  let (day, cs) ← readPart? cs
  return ({ year, month, day }, cs)

/-- A date and a time at the start of the characters, not yet checked against the calendar. -/
def readDateTime? (cs : List Char) : Option (DateTime × List Char) := do
  let (date, cs) ← readDate? cs
  let (hour, cs) ← readPart? cs
  let cs ← expect? ':' cs
  let (minute, cs) ← readPart? cs
  let cs ← expect? ':' cs
  let (second, cs) ← readPart? cs
  return ({ date, hour, minute, second }, cs)

/-- The characters as a date of the calendar. -/
def date? (cs : List Char) : Option Date :=
  match readDate? cs with
  | some (d, []) => if d.isValid then some d else none
  | _ => none

/-- The characters as a date and a time of the calendar. -/
def dateTime? (cs : List Char) : Option DateTime :=
  match readDateTime? cs with
  | some (t, []) => if t.isValid then some t else none
  | _ => none

/-- A date, taken as its midnight, or a date and a time; white space at the ends does not
count. -/
def DateTime.ofText? (s : String) : Option DateTime :=
  let cs := trimChars s.toList
  match date? cs with
  | some d => some (.midnight d)
  | none => dateTime? cs

/-! ## Writing -/

/-- A year: four digits from 0 to 9999, otherwise a sign and at least four digits. -/
def yearText (y : Int) : List Char :=
  if 0 ≤ y ∧ y ≤ 9999 then padded 4 y.natAbs
  else (if y < 0 then '-' else '+') :: padded 4 y.natAbs

/-- A date as `year-month-day`. -/
def Date.chars (d : Date) : List Char :=
  yearText d.year ++ '-' :: (padded 2 d.month ++ '-' :: padded 2 d.day)

/-- A date as `year-month-day`. -/
def Date.text (d : Date) : String := String.ofList d.chars

/-- A date as one number: year, month and day without anything between them. -/
def Date.codeText (d : Date) : String :=
  String.ofList (yearText d.year ++ (padded 2 d.month ++ padded 2 d.day))

/-- A date and a time as `year-month-dayThour:minute:secondZ`. -/
def DateTime.text (t : DateTime) : String :=
  String.ofList (t.date.chars ++ 'T' :: (padded 2 t.hour ++ ':' :: (padded 2 t.minute ++
    ':' :: (padded 2 t.second ++ ['Z']))))

/-- Milliseconds since the start of 1970 as text. -/
def DateTime.millisText (t : DateTime) : String := String.ofList (intText t.toEpochMillis)

end AudienceFilter.Calendar
