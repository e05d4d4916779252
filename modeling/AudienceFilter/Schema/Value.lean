import AudienceFilter.Calendar.Text
import AudienceFilter.Condition
import AudienceFilter.Error
import AudienceFilter.Text.Escaped

/-!
# Values in queries

The native text of a value in a field, and its escaped form in a query.
-/

namespace AudienceFilter

/-- Reads a date or a date and a time. -/
def readDate (arg value : String) : Except ConversionError Calendar.DateTime :=
  match Calendar.DateTime.ofText? value with
  | some t => .ok t
  | none => .error (.formatting arg value
      "expected a date (yyyy-MM-dd) or date-time (yyyy-MM-dd HH:mm:ss)")

/-- The day of a date value moved by a number of days; a time of day is dropped. -/
def shiftDate (arg value : String) (days : Int) : Except ConversionError String := do
  let t ← readDate arg value
  match t.date.addDays? days with
  | some d => return d.text
  | none => throw (.formatting arg value "date out of range")

/-- The truth value of a flag: `1`, `0`, `true` or `false` in any case. -/
def flag? (cs : List Char) : Option Bool :=
  let word := String.ofList (cs.map Char.toLower)
  if word = "1" ∨ word = "true" then some true
  else if word = "0" ∨ word = "false" then some false
  else none

namespace FieldKind

/-- The text of a flag in a field of the kind. -/
def flagText (kind : FieldKind) (b : Bool) : String :=
  match kind, b with
  | boolean, true => "true"
  | boolean, false => "false"
  | _, true => "1"
  | _, false => "0"

/-- The text of a point in time in a field of the kind: milliseconds, a day code, or date and
time. -/
def dateText (kind : FieldKind) (t : Calendar.DateTime) : String :=
  match kind with
  | long => t.millisText
  | integer => t.date.codeText
  | _ => t.text

/-- The text of a value of the type in a field of the kind. -/
def native (kind : FieldKind) (arg : String) (argType : ArgType) (value : String) :
    Except ConversionError String :=
  if Text.isBlankText value then .error (.formatting arg value "blank value")
  else
    let trimmed := Text.trimChars value.toList
    let invalid (expected : String) : Except ConversionError String :=
      .error (.formatting arg value ("expected " ++ expected))
    match argType with
    | .string => .ok value
    | .integer =>
      if kind = integer then
        match Number.signed? 32 trimmed with
        | some n => .ok (String.ofList (Number.intText n))
        | none => invalid "a 32-bit integer"
      else
        match Number.signed? 64 trimmed with
        | some n => .ok (String.ofList (Number.intText n))
        | none => invalid "an integer"
    | .decimal =>
      if Number.isFiniteDecimal trimmed then .ok (String.ofList trimmed)
      else invalid "a decimal number"
    | .bool =>
      match flag? trimmed with
      | some b => .ok (kind.flagText b)
      | none => invalid "a boolean (1, 0, true, false)"
    | .date => (readDate arg value).map kind.dateText

/-- A value in a query: its escaped native text, between wildcards if a snippet is searched
for. -/
def format (kind : FieldKind) (arg : String) (argType : ArgType) (value : String) (op : Operator) :
    Except ConversionError String := do
  let text ← kind.native arg argType value
  return if op = .contains then "*" ++ Text.escape text ++ "*" else Text.escape text

end FieldKind

end AudienceFilter
