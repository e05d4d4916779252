/-!
# JSON values

The values that a stored expression is made of, and the shapes of records and of tagged
alternatives in them.
-/

namespace AudienceFilter

/-- A JSON value. A number is `mantissa · 10 ^ -exponent`. -/
inductive Json where
  | null
  | bool (b : Bool)
  | number (mantissa : Int) (exponent : Nat)
  | string (s : String)
  | array (items : List Json)
  | object (fields : List (String × Json))
deriving Inhabited, Repr

namespace Json

/-- The text of a string. -/
def string? : Json → Option String
  | string s => some s
  | _ => none

/-- The truth value of a Boolean. -/
def bool? : Json → Option Bool
  | bool b => some b
  | _ => none

/-- The value of the first field of a name. -/
def lookup (name : String) (fields : List (String × Json)) : Option Json :=
  (fields.find? fun field => field.1 = name).map Prod.snd

/-- The values of the named fields of a record, which an object gives by name and an array by
position, then without leaving any out. -/
def record? (names : List String) : Json → Option (List (Option Json))
  | object fields => some (names.map fun name => lookup name fields)
  | array items => if items.length = names.length then some (items.map some) else none
  | _ => none

/-- The name of an alternative without content: the name alone, or an object that gives it no
content. -/
def constant? : Json → Option String
  | string s => some s
  | object [(name, null)] => some name
  | _ => none

/-- The one field of an object as an alternative with its content. -/
def tagged? : Json → Option (String × Json)
  | object [field] => some field
  | _ => none

end Json

end AudienceFilter
