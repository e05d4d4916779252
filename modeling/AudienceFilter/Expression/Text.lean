import AudienceFilter.Expression
import AudienceFilter.Text.Alphanumeric

/-!
# Expressions in text

The notation of expressions, such as `((age > 18 OR age = 18) AND STRICT NOT color = @taste)`. A
value stands in quotes unless it is a plain word.
-/

namespace AudienceFilter

/-- The characters of a word that needs no quotes. -/
def isWordChar (c : Char) : Bool :=
  Text.isAlphanumeric c || c == '.' || c == '-' || c == '_' || c == ':'

/-- A character inside quotes. -/
def quotedChar (c : Char) : List Char := if c = '\x22' ∨ c = '\\' then ['\\', c] else [c]

/-- A value as it stands in an expression. -/
def valueText (value : String) : String :=
  let cs := value.toList
  if !cs.isEmpty && cs.all isWordChar then value
  else String.ofList ('\x22' :: (cs.flatMap quotedChar ++ ['\x22']))

namespace Condition

/-- The condition in the notation of expressions. -/
def text (c : Condition) : String :=
  let comparison := c.arg ++ " " ++ c.op.symbol
  match c.operand with
  | some (.value v) => comparison ++ " " ++ valueText v
  | some (.reference other) => comparison ++ " @" ++ other
  | none => comparison

end Condition

namespace Expression

/-- A negation in the notation of expressions. -/
def negationText (strict : Bool) (c : Condition) : String :=
  (if isStrict strict c then "STRICT NOT " else "NOT ") ++ c.text

/-- Members in parentheses with the word of the connective between them. -/
def combinedText (j : Connective) (members : List String) : String :=
  "(" ++ String.intercalate (" " ++ j.keyword ++ " ") members ++ ")"

mutual

/-- The expression in its notation. -/
def text : Expression → String
  | .condition c => c.text
  | .negation strict c => negationText strict c
  | .combined j members => combinedText j (textAll members)
  | .extent .all => "<ALL>"
  | .extent .none => "<NONE>"

/-- Each of the expressions in its notation. -/
def textAll : List Expression → List String
  | [] => []
  | e :: rest => text e :: textAll rest

end

end Expression

end AudienceFilter
