import AudienceFilter.Text.Blank

/-!
# Conditions

A condition compares an argument with a value or with another argument, looks for a snippet in
it, or asks whether it is unknown. `Condition.make` admits the combinations of operator and
operand that have a meaning.
-/

namespace AudienceFilter

/-- How an argument is compared. -/
inductive Operator where
  | equals
  | lessThan
  | greaterThan
  | contains
  | isUnknown
deriving DecidableEq, Repr

/-- What an argument is compared with: a value, or another argument. -/
inductive Operand where
  | value (text : String)
  | reference (arg : String)
deriving DecidableEq, Repr

/-- A single comparison of an argument. -/
structure Condition where
  arg : String
  op : Operator
  operand : Option Operand
deriving DecidableEq, Repr

/-- Why a comparison has no meaning. -/
inductive ConditionError where
  | emptyArg
  | missingOperand (arg : String) (op : Operator)
  | unexpectedOperand (arg : String)
  | referenceNotAllowed (arg : String) (op : Operator)
deriving DecidableEq, Repr

namespace Operator

/-- The sign of the operator in an expression. -/
def symbol : Operator → String
  | equals => "="
  | lessThan => "<"
  | greaterThan => ">"
  | contains => "CONTAINS"
  | isUnknown => "IS UNKNOWN"

/-- The name of the operator in the stored form of an expression. -/
def name : Operator → String
  | equals => "Equals"
  | lessThan => "LessThan"
  | greaterThan => "GreaterThan"
  | contains => "Contains"
  | isUnknown => "IsUnknown"

/-- Every operator. -/
def all : List Operator := [equals, lessThan, greaterThan, contains, isUnknown]

/-- The operator of a name. -/
def ofName? (s : String) : Option Operator := all.find? fun op => op.name = s

/-- Whether the operator asks for one side of an order. -/
def isBound : Operator → Bool
  | lessThan | greaterThan => true
  | _ => false

end Operator

namespace ConditionError

/-- The text of the error. -/
def message : ConditionError → String
  | emptyArg => "Argument name must not be empty"
  | missingOperand arg op => s!"Missing operand for {arg} {op.symbol}"
  | unexpectedOperand arg => s!"IS UNKNOWN does not take an operand (argument {arg})"
  | referenceNotAllowed arg op =>
    s!"Operator {op.symbol} does not support argument references (argument {arg})"

end ConditionError

namespace Condition

/-- Checks an argument against its operator and operand. -/
def make (arg : String) (op : Operator) (operand : Option Operand) :
    Except ConditionError Condition :=
  if Text.isBlankText arg then .error .emptyArg
  else match op, operand with
    | .isUnknown, none => .ok { arg, op, operand }
    | .isUnknown, some _ => .error (.unexpectedOperand arg)
    | op, none => .error (.missingOperand arg op)
    | .contains, some (.reference _) => .error (.referenceNotAllowed arg .contains)
    | op, some (.reference other) =>
      if Text.isBlankText other then .error .emptyArg else .ok { arg, op, operand }
    | op, some (.value _) => .ok { arg, op, operand }

/-- Whether the parts of a condition pass the check. -/
def isValid (c : Condition) : Bool := (make c.arg c.op c.operand).isOk

/-- A comparison with a value. -/
def withOperator (arg : String) (op : Operator) (value : String) : Condition :=
  { arg, op, operand := some (.value value) }

/-- A comparison with another argument. -/
def withReference (arg : String) (op : Operator) (other : String) : Condition :=
  { arg, op, operand := some (.reference other) }

/-- The condition that an argument has no value. -/
def unknown (arg : String) : Condition := { arg, op := .isUnknown, operand := none }

/-- The value that the argument is compared with. -/
def value? (c : Condition) : Option String :=
  match c.operand with
  | some (.value v) => some v
  | _ => none

/-- The argument that the argument is compared with. -/
def reference? (c : Condition) : Option String :=
  match c.operand with
  | some (.reference other) => some other
  | _ => none

/-- Whether two arguments are compared. -/
def isReference (c : Condition) : Bool := c.reference?.isSome

/-- The same comparison with the given value. -/
def withValue (c : Condition) (value : String) : Condition := withOperator c.arg c.op value

/-- The arguments of the condition, the compared one first. -/
def args (c : Condition) : List String := c.arg :: c.reference?.toList

end Condition

end AudienceFilter
