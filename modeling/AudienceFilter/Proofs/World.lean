import AudienceFilter.Expression.Truth
import AudienceFilter.MatchTree.Truth
import AudienceFilter.Proofs.LeafConstruction
import AudienceFilter.Script

/-!
# Document worlds

What expressions and match trees say about documents. A world holds a main document and the
documents that belong to it, each with the values of its fields, and says which values are in
which relation. An argument has its values in the documents of its node type.

* `World.valuation`: a comparison holds if a value of some document is in the relation, for two
  arguments both values in the same document; an argument is unknown if no document has a value;
* `World.leafAmong`: a leaf among some of the documents; a complement says that none of them has
  what the leaf looks for, and may require that there are values;
* `World.holdsTree`: a match tree, in which all members of a group look at one document;
* `World.Placed`, `World.Fits`: what a mapping promises about its documents.
-/

namespace AudienceFilter

/-- A document with its node type and the values of its fields. -/
structure Document (V : Type) where
  nodeType : String
  values : String → List V

/-- The documents that belong to a main document, itself included, and the relations of their
values. -/
structure World (V : Type) where
  documents : List (Document V)
  /-- Whether a value of an argument is in a relation with a text. -/
  relates : Assignment → Operator → String → V → Bool
  /-- Whether a value of an argument is in a relation with a value of another one. -/
  compares : Assignment → Assignment → Operator → V → V → Bool
  /-- The number of the calendar day that a point in time lies on. -/
  day : V → Int

variable {V : Type}

namespace Context

/-- The values that a document has for an argument. -/
def valuesIn (ctx : Context) (d : Document V) (arg : String) : List V :=
  match ctx.assignment arg with
  | .ok a => if a.field.nodeType = d.nodeType then d.values a.field.name else []
  | .error _ => []

/-- Whether a document has a value for an argument. -/
def knows (ctx : Context) (d : Document V) (arg : String) : Bool := !(ctx.valuesIn d arg).isEmpty

end Context

/-- The relation of an operator between day numbers, if it is one of order. -/
def Operator.relatesDays? : Operator → Option (Int → Int → Bool)
  | .equals => some fun m n => m == n
  | .lessThan => some fun m n => m < n
  | .greaterThan => some fun m n => n < m
  | .contains | .isUnknown => none

namespace World

variable (ctx : Context) (w : World V)

/-- Whether a value of an argument is in a relation with a text. Arguments that are compared by
whole days are so by the days alone. -/
def meetsText (a : Assignment) (op : Operator) (text : String) (x : V) : Bool :=
  match op.relatesDays? with
  | some r =>
    if ctx.alignsDays a then
      (Calendar.DateTime.ofText? text).any fun t => r (w.day x) t.date.toDayNumber
    else w.relates a op text x
  | none => w.relates a op text x

/-- Whether a value is in the relation of a condition with a value. -/
def meetsValue (c : Condition) (x : V) : Bool :=
  match ctx.assignment c.arg, c.operand with
  | .ok a, some (.value text) => w.meetsText ctx a c.op text x
  | _, _ => false

/-- Whether two values are in the relation of a condition that compares arguments. -/
def meetsReference (c : Condition) (x y : V) : Bool :=
  match ctx.assignment c.arg, c.reference?.map ctx.assignment with
  | .ok a, some (.ok b) => w.compares a b c.op x y
  | _, _ => false

/-- Whether a document has values in the relation of a condition. -/
def meetsIn (d : Document V) (c : Condition) : Bool :=
  match c.reference? with
  | some other =>
    (ctx.valuesIn d c.arg).any fun x => (ctx.valuesIn d other).any (w.meetsReference ctx c x)
  | none => (ctx.valuesIn d c.arg).any (w.meetsValue ctx c)

/-- Whether some document has a value for an argument. -/
def isKnown (arg : String) : Bool := w.documents.any fun d => ctx.knows d arg

/-- Whether a condition holds. -/
def satisfies (c : Condition) : Bool :=
  if c.op = .isUnknown then !w.isKnown ctx c.arg else w.documents.any fun d => w.meetsIn ctx d c

/-- The valuation of a world: a negation is the complement of its condition, and a strict one
requires the arguments to be known as well. -/
def valuation : Valuation where
  condition c := w.satisfies ctx c
  negation strict c :=
    !w.satisfies ctx c && (!Expression.isStrict strict c || c.args.all (w.isKnown ctx))

/-! ## Match trees -/

/-- Whether a document has what a leaf looks for, whatever its polarity is. A check for unknown
arguments looks for known ones, and two bounds have to be met by one value. -/
def finds (d : Document V) : Leaf → Bool
  | .single s =>
    if s.isUnknownCheck then ctx.knows d s.condition.arg else w.meetsIn ctx d s.condition
  | .multi m => m.members.any (w.meetsIn ctx d)
  | .between b => (ctx.valuesIn d b.arg).any fun x =>
      (b.lower.members.any fun c => w.meetsValue ctx c x) &&
        b.upper.members.any fun c => w.meetsValue ctx c x

/-- The arguments that have to have values for a complement to hold: those that its polarity
names, and the argument of several values or of two bounds. -/
def required (l : Leaf) : List String :=
  Script.verifiedArgs l ++ l.inDocumentArg?.toList

/-- Whether a leaf holds among documents. -/
def leafAmong (ds : List (Document V)) (l : Leaf) : Bool :=
  if l.isComplement then
    !(ds.any fun d => w.finds ctx d l) && (required l).all fun arg => ds.any fun d => ctx.knows d arg
  else ds.any fun d => w.finds ctx d l

/-- The documents of a node type. -/
def documentsOf (nodeType : String) : List (Document V) :=
  w.documents.filter fun d => d.nodeType = nodeType

mutual

/-- Whether a match tree holds: the members of a group are looked up in one document. -/
def holdsTree : MatchTree → Bool
  | .leaf l => w.leafAmong ctx w.documents l
  | .combined j children => j.truth (holdsTrees children)
  | .group j nodeType children => (w.documentsOf nodeType).any fun d =>
      j.truth (MatchTree.holdsEach (w.leafAmong ctx [d]) children)

/-- Whether each of the match trees holds. -/
def holdsTrees : List MatchTree → List Bool
  | [] => []
  | t :: rest => holdsTree t :: holdsTrees rest

end

/-- What a mapping promises about the place of values: there is one main document, and the
arguments of a node type that are not on several documents have their values on one of them. -/
structure Placed : Prop where
  main : ∃ d, w.documentsOf ctx.mainType = [d]
  document {d d' : Document V} (hd : d ∈ w.documents) (hd' : d' ∈ w.documents)
    (hn : d.nodeType = d'.nodeType) {arg arg' : String} (ha : ctx.isMultiDoc arg = .ok false)
    (ha' : ctx.isMultiDoc arg' = .ok false) (hk : ctx.knows d arg = true)
    (hk' : ctx.knows d' arg' = true) : d = d'

/-- What a mapping promises about the documents: values are in their place, and a field that is no
collection has at most one of them. -/
structure Fits : Prop extends w.Placed ctx where
  value {d : Document V} (hd : d ∈ w.documents) {arg : String} {a : Assignment}
    (ha : ctx.assignment arg = .ok a) (hc : a.field.isCollection = false) {x y : V}
    (hx : x ∈ ctx.valuesIn d arg) (hy : y ∈ ctx.valuesIn d arg) : x = y

end World

end AudienceFilter
