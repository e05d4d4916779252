import AudienceFilter.Schema.Value

/-!
# Formatters

A formatter writes the values of an argument in place of the formatting that the kind of its
field provides. Formatters are told apart by their identity, not by what they do.
-/

namespace AudienceFilter

/-- A way of writing values into queries. -/
structure Formatter where
  /-- Tells formatters apart. -/
  identity : Nat
  /-- The text of a value of an argument under an operator. -/
  format : (arg value : String) → Operator → Except ConversionError String

namespace Formatter

/-- Writes a fixed text and then the value in upper case, without escaping it. -/
def upperCase (identity : Nat) (lead : String) : Formatter where
  identity := identity
  format _ value _ := .ok (lead ++ String.ofList (value.toList.map Char.toUpper))

/-- Refuses every value. -/
def refusing (identity : Nat) (reason : String) : Formatter where
  identity := identity
  format arg value _ := .error (.formatting arg value reason)

/-- Writes argument, operator and value between angle brackets. -/
def bracketed (identity : Nat) : Formatter where
  identity := identity
  format arg value op := .ok ("<" ++ arg ++ "|" ++ op.symbol ++ "|" ++ value ++ ">")

end Formatter

/-- The type of a field: its kind and possibly a formatter of its own. -/
structure FieldType where
  kind : FieldKind
  formatter : Option Formatter := none

namespace FieldType

/-- Two types are the same if their kinds are and they share the formatter. -/
def same (a b : FieldType) : Bool :=
  a.kind == b.kind && a.formatter.map Formatter.identity == b.formatter.map Formatter.identity

/-- A value in a query, written by the formatter if the type has one. -/
def format (t : FieldType) (arg : String) (argType : ArgType) (value : String) (op : Operator) :
    Except ConversionError String :=
  match t.formatter with
  | some f => f.format arg value op
  | none => t.kind.format arg argType value op

end FieldType

end AudienceFilter
