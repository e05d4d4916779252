import AudienceFilter.Expression.Order
import AudienceFilter.Expression.Text
import AudienceFilter.Fault
import AudienceFilter.MatchTree.Polarity
import AudienceFilter.Sorted
import AudienceFilter.Text.Name

/-!
# Leaves of match trees

A leaf holds one or more conditions on one argument that a query states at once: a single
condition, several conditions of which one has to hold (`Multi`), or a lower and an upper bound
(`Between`). Every leaf knows its node type, its polarity and whether it may share a join with
other leaves.

* `Multi.make` sorts its members and decides what they mean together.
-/

namespace AudienceFilter

/-- What the conditions of a leaf ask for together. -/
inductive Shape where
  | anyValue
  | value
  | valueOrEqual
  | values
  | reference
  | referenceOrEqual
  | aboveAndBelow
  | aboveAndUpTo
  | fromAndBelow
  | fromAndUpTo
deriving DecidableEq, Repr

namespace Shape

/-- The name of the shape. -/
def name : Shape → String
  | anyValue => "AnyValueMatch"
  | value => "ValueMatch"
  | valueOrEqual => "ValueOrEqMatch"
  | values => "MultiValueMatch"
  | reference => "RefMatch"
  | referenceOrEqual => "RefOrEqMatch"
  | aboveAndBelow => "ValueGtAndLtMatch"
  | aboveAndUpTo => "ValueGtAndLteMatch"
  | fromAndBelow => "ValueGteAndLtMatch"
  | fromAndUpTo => "ValueGteAndLteMatch"

/-- Whether two arguments are compared. -/
def isReference (s : Shape) : Bool := s == reference || s == referenceOrEqual

/-- Whether there is a bound on either side. -/
def isBetween (s : Shape) : Bool :=
  s == aboveAndBelow || s == aboveAndUpTo || s == fromAndBelow || s == fromAndUpTo

end Shape

/-! ## Single conditions -/

/-- A single condition. -/
structure Single where
  nodeType : String
  condition : Condition
  polarity : Polarity
  /-- Whether the leaf may share a join with others. -/
  joinable : Bool
deriving DecidableEq, Repr

namespace Single

/-- A leaf on a node type with a proper name; only a comparison of two arguments can require
values on its sides. -/
def make (nodeType : String) (condition : Condition) (polarity : Polarity) (joinable : Bool) :
    Except Fault Single :=
  if !Text.isName nodeType then .error (.leafNodeType nodeType condition.text)
  else if polarity.verifies && !condition.isReference then
    .error (.strayVerification polarity.name condition.text)
  else .ok { nodeType, condition, polarity, joinable }

/-- What the condition asks for. -/
def shape (s : Single) : Shape :=
  if s.condition.op = .isUnknown then .anyValue
  else if s.condition.isReference then .reference
  else .value

/-- Whether the condition is to be unknown. -/
def isUnknownCheck (s : Single) : Bool := s.condition.op == .isUnknown

/-- Whether the leaf asks for the complement of what the index can find. The index finds known
arguments, so to be unknown turns the polarity around. -/
def isComplement (s : Single) : Bool := s.polarity.isNegated != s.isUnknownCheck

/-- Whether the leaf is a guard: its argument is not unknown. -/
def isGuard (s : Single) : Bool := s.isUnknownCheck && s.polarity.isNegated

end Single

/-! ## Several conditions -/

/-- Several conditions on one argument, in canonical order. -/
structure Multi where
  nodeType : String
  lead : Condition
  others : List Condition
  polarity : Polarity
  /-- Whether the leaf may share a join with others. -/
  joinable : Bool
  shape : Shape
deriving DecidableEq, Repr

namespace Multi

/-- Bounds come before equalities, and these before snippets. -/
def operatorRank : Operator → Nat
  | .greaterThan => 0
  | .lessThan => 1
  | .equals => 2
  | .contains => 3
  | .isUnknown => 4

/-- The canonical order of conditions on one argument: by operator, then by operand. -/
def le (a b : Condition) : Bool :=
  ((compare (operatorRank a.op) (operatorRank b.op)).then
    (Operand.orderOption a.operand b.operand)).isLE

/-- The conditions in canonical order, each once. -/
def canonical (members : List Condition) : List Condition :=
  Sorted.dedupBy (fun a b => a == b) (Sorted.sortBy le members)

/-- What conditions in canonical order ask for together: a single one, a bound with its equality,
or one of several values or snippets. -/
def classify (lead : Condition) (others : List Condition) : Except Fault Shape :=
  let members := lead :: others
  if members.any fun c => c.op = .isUnknown then .error .unknownMember
  else match others with
    | [] => .ok (if lead.isReference then .reference else .value)
    | second :: rest =>
      if rest.isEmpty && lead.op.isBound && second.op == .equals &&
          lead.operand == second.operand then
        .ok (if lead.isReference then .referenceOrEqual else .valueOrEqual)
      else if (members.all fun c => c.op = lead.op) && (members.all fun c => c.value?.isSome) &&
          (lead.op == .equals || lead.op == .contains) then
        .ok .values
      else .error .incompatibleMembers

/-- A leaf of conditions on one argument that mean something together. -/
def make (nodeType : String) (members : List Condition) (polarity : Polarity) (joinable : Bool) :
    Except Fault Multi :=
  if !Text.isName nodeType then .error (.membersNodeType nodeType)
  else match canonical members with
    | [] => .error .noMembers
    | lead :: others =>
      if others.any fun c => c.arg ≠ lead.arg then .error .differentArgs
      else do
        let shape ← classify lead others
        if polarity.verifies && !shape.isReference then
          throw (.strayVerification polarity.name shape.name)
        return { nodeType, lead, others, polarity, joinable, shape }

/-- The conditions in canonical order. -/
def members (m : Multi) : List Condition := m.lead :: m.others

/-- The argument of the conditions. -/
def arg (m : Multi) : String := m.lead.arg

/-- The argument that they compare with. -/
def reference? (m : Multi) : Option String := m.lead.reference?

/-- The operator of the first condition. -/
def leadOp (m : Multi) : Operator := m.lead.op

/-- Whether the leaf bounds a value from below. -/
def isLowerBound (m : Multi) : Bool := !m.shape.isReference && m.leadOp == .greaterThan

/-- Whether the leaf bounds a value from above. -/
def isUpperBound (m : Multi) : Bool := !m.shape.isReference && m.leadOp == .lessThan

/-- Whether the bound itself is included. -/
def isInclusive (m : Multi) : Bool := m.shape == .valueOrEqual || m.shape == .referenceOrEqual

/-- The value of the first condition. -/
def bound? (m : Multi) : Option String := m.lead.value?

end Multi

/-! ## Bounds on either side -/

/-- A lower and an upper bound of one argument. -/
structure Between where
  lower : Multi
  upper : Multi
  /-- Whether the leaf may share a join with others. -/
  joinable : Bool
deriving DecidableEq, Repr

namespace Between

/-- A leaf of two bounds that agree in argument, node type and polarity. -/
def make (lower upper : Multi) (joinable : Bool) : Except Fault Between :=
  if !lower.isLowerBound then .error .notLowerBound
  else if !upper.isUpperBound then .error .notUpperBound
  else if lower.arg ≠ upper.arg then .error .boundsArg
  else if lower.nodeType ≠ upper.nodeType then .error .boundsNodeType
  else if lower.polarity ≠ upper.polarity then .error .boundsPolarity
  else if lower.polarity.verifies then .error .boundsVerification
  else .ok { lower, upper, joinable }

/-- Which of the bounds are included. -/
def shape (b : Between) : Shape :=
  match b.lower.isInclusive, b.upper.isInclusive with
  | false, false => .aboveAndBelow
  | false, true => .aboveAndUpTo
  | true, false => .fromAndBelow
  | true, true => .fromAndUpTo

/-- The conditions of the lower and then of the upper bound. -/
def members (b : Between) : List Condition := b.lower.members ++ b.upper.members

/-- The argument of the bounds. -/
def arg (b : Between) : String := b.lower.arg

/-- The node type of the bounds. -/
def nodeType (b : Between) : String := b.lower.nodeType

/-- The polarity of the bounds. -/
def polarity (b : Between) : Polarity := b.lower.polarity

end Between

/-! ## Leaves -/

/-- A leaf of a match tree. -/
inductive Leaf where
  | single (s : Single)
  | multi (m : Multi)
  | between (b : Between)
deriving DecidableEq, Repr

namespace Leaf

/-- The node type of the leaf. -/
def nodeType : Leaf → String
  | single s => s.nodeType
  | multi m => m.nodeType
  | between b => b.nodeType

/-- The polarity of the leaf. -/
def polarity : Leaf → Polarity
  | single s => s.polarity
  | multi m => m.polarity
  | between b => b.polarity

/-- The argument of the leaf. -/
def arg : Leaf → String
  | single s => s.condition.arg
  | multi m => m.arg
  | between b => b.arg

/-- Whether the leaf may share a join with others. -/
def joinable : Leaf → Bool
  | single s => s.joinable
  | multi m => m.joinable
  | between b => b.joinable

/-- The conditions of the leaf. -/
def conditions : Leaf → List Condition
  | single s => [s.condition]
  | multi m => m.members
  | between b => b.members

/-- The argument of the leaf and the one it is compared with. -/
def args : Leaf → List String
  | single s => s.condition.args
  | multi m => m.arg :: m.reference?.toList
  | between b => [b.arg]

/-- Whether the leaf asks for a complement. -/
def isComplement : Leaf → Bool
  | single s => s.isComplement
  | multi m => m.polarity.isNegated
  | between b => b.polarity.isNegated

/-- Conditions in brackets. -/
def bracketText (members : List Condition) : String :=
  "[" ++ String.intercalate ", " (members.map Condition.text) ++ "]"

/-- The leaf in the notation of match trees. -/
def text : Leaf → String
  | single s => s.polarity.mark ++ s.condition.text
  | multi m => m.polarity.mark ++ bracketText m.members
  | between b => b.polarity.mark ++ bracketText b.members

end Leaf

end AudienceFilter
