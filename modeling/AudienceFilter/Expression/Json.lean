import AudienceFilter.Expression
import AudienceFilter.Json

/-!
# The stored form of expressions

Expressions as JSON values. Reading checks every condition and otherwise takes an expression as
it stands, without simplifying it.
-/

namespace AudienceFilter

namespace Operand

/-- The stored form of an operand. -/
def toJson : Operand → Json
  | value v => .object [("Value", .string v)]
  | reference arg => .object [("Reference", .string arg)]

/-- Reads the stored form of an operand. -/
def ofJson? (json : Json) : Option Operand :=
  match json.tagged? with
  | some ("Value", content) => content.string?.map value
  | some ("Reference", content) => content.string?.map reference
  | _ => none

/-- Reads an operand that may be left out. -/
def optionOfJson? : Option Json → Option (Option Operand)
  | none | some .null => some none
  | some json => (ofJson? json).map some

end Operand

namespace Condition

/-- The stored form of a condition. -/
def toJson (c : Condition) : Json :=
  .object [("arg_name", .string c.arg), ("operator", .string c.op.name),
    ("operand", (c.operand.map Operand.toJson).getD .null)]

/-- Reads the stored form of a condition and checks it. -/
def ofJson? (json : Json) : Option Condition :=
  match json.record? ["arg_name", "operator", "operand"] with
  | some [some arg, some op, operand] => do
    let arg ← arg.string?
    let op ← op.constant? >>= Operator.ofName?
    let operand ← Operand.optionOfJson? operand
    (make arg op operand).toOption
  | _ => none

end Condition

namespace Expression

mutual

/-- The stored form of an expression. -/
def toJson : Expression → Json
  | .condition c => .object [("Match", c.toJson)]
  | .negation strict c =>
    .object [("Negation", .object [("delegate", c.toJson), ("strict", .bool strict)])]
  | .combined j members =>
    .object [("Combined", .object [("combi_type", .string j.name),
      ("members", .array (toJsonAll members))])]
  | .extent e => .object [("SpecialSet", .string e.name)]

/-- The stored form of each of the expressions. -/
def toJsonAll : List Expression → List Json
  | [] => []
  | e :: rest => toJson e :: toJsonAll rest

end

/-- Reads the stored form of a negation. -/
def negationOfJson? (json : Json) : Option Expression :=
  match json.record? ["delegate", "strict"] with
  | some [some delegate, some strict] => do
    let c ← Condition.ofJson? delegate
    let strict ← strict.bool?
    return .negation strict c
  | _ => none

/-- Reads the stored form of one of the two sets. -/
def extentOfJson? (json : Json) : Option Expression :=
  json.constant? >>= fun name => (Extent.ofName? name).map .extent

/-- Reads the stored form of a connective. -/
def connectiveOfJson? (json : Json) : Option Connective :=
  json.constant? >>= Connective.ofName?

mutual

/-- Reads the stored form of an expression. -/
def ofJson? : Json → Option Expression
  | .object [(tag, content)] =>
    if tag = "Match" then (Condition.ofJson? content).map .condition
    else if tag = "Negation" then negationOfJson? content
    else if tag = "Combined" then combinedOfJson? content
    else if tag = "SpecialSet" then extentOfJson? content
    else none
  | _ => none

/-- Reads the stored form of a combination. -/
def combinedOfJson? : Json → Option Expression
  | .object fields => do
    let j ← Json.lookup "combi_type" fields >>= connectiveOfJson?
    let members ← membersField? fields
    return .combined j members
  | .array [j, members] => do
    let j ← connectiveOfJson? j
    let members ← membersOfJson? members
    return .combined j members
  | _ => none

/-- Reads the members of a combination from among its fields. -/
def membersField? : List (String × Json) → Option (List Expression)
  | [] => none
  | (name, content) :: rest =>
    if name = "members" then membersOfJson? content else membersField? rest

/-- Reads the members of a combination. -/
def membersOfJson? : Json → Option (List Expression)
  | .array items => ofJsonAll? items
  | _ => none

/-- Reads the stored form of each of the expressions. -/
def ofJsonAll? : List Json → Option (List Expression)
  | [] => some []
  | item :: rest => do
    let e ← ofJson? item
    let es ← ofJsonAll? rest
    return e :: es

end

end Expression

end AudienceFilter
