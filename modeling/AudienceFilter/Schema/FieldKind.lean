/-!
# Types of arguments and kinds of fields

Every argument has a logical type, and every field of the index has a kind that decides which
types it can hold and which comparisons it supports.
-/

namespace AudienceFilter

/-- The logical type of an argument. -/
inductive ArgType where
  | string
  | integer
  | decimal
  | bool
  | date
deriving DecidableEq, Repr

/-- The kind of an index field. -/
inductive FieldKind where
  | string
  | integer
  | long
  | float
  | double
  | boolean
  | date
deriving DecidableEq, Repr

namespace ArgType

/-- The name of the type. -/
def name : ArgType → String
  | string => "String"
  | integer => "Integer"
  | decimal => "Decimal"
  | bool => "Bool"
  | date => "Date"

/-- Every type. -/
def all : List ArgType := [string, integer, decimal, bool, date]

/-- The type of a name. -/
def ofName? (s : String) : Option ArgType := all.find? fun t => t.name = s

/-- Whether values of the type are numbers. -/
def isNumeric : ArgType → Bool
  | integer | decimal => true
  | _ => false

/-- Whether a field of the kind can hold values of the type. -/
def fits : ArgType → FieldKind → Bool
  | string, .string => true
  | integer, .integer | integer, .long | integer, .float | integer, .double => true
  | decimal, .float | decimal, .double => true
  | bool, .boolean | bool, .integer | bool, .long => true
  | date, .date | date, .long | date, .integer => true
  | _, _ => false

end ArgType

namespace FieldKind

/-- The name of the kind. -/
def name : FieldKind → String
  | string => "SolrString"
  | integer => "SolrInteger"
  | long => "SolrLong"
  | float => "SolrFloat"
  | double => "SolrDouble"
  | boolean => "SolrBoolean"
  | date => "SolrDate"

/-- Every kind. -/
def all : List FieldKind := [string, integer, long, float, double, boolean, date]

/-- The kind of a name. -/
def ofName? (s : String) : Option FieldKind := all.find? fun k => k.name = s

/-- Whether snippets can be searched for. -/
def supportsContains (k : FieldKind) : Bool := k == string

/-- Whether values can be compared by order. -/
def supportsOrder (k : FieldKind) : Bool := k != boolean

/-- Whether a function query can order values: only numbers and dates. -/
def supportsFunctionOrder (k : FieldKind) : Bool := k != string && k != boolean

/-- Whether the field holds points in time within a day. -/
def isTimestamp (k : FieldKind) : Bool := k == date || k == long

end FieldKind

end AudienceFilter
