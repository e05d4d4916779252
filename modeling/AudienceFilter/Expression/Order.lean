import AudienceFilter.Expression

/-!
# The order of expressions

Conditions come before negations, combinations and sets. Conditions compare by argument,
operator and operand, negations by their condition and then strictness, combinations by their
connective and then member by member.
-/

namespace AudienceFilter

/-- Operators in the order `=`, `<`, `>`, containing, unknown. -/
def Operator.rank : Operator → Nat
  | .equals => 0
  | .lessThan => 1
  | .greaterThan => 2
  | .contains => 3
  | .isUnknown => 4

/-- Values come before references. -/
def Operand.order : Operand → Operand → Ordering
  | .value a, .value b => compare a b
  | .value _, .reference _ => .lt
  | .reference _, .value _ => .gt
  | .reference a, .reference b => compare a b

/-- No operand comes before any. -/
def Operand.orderOption : Option Operand → Option Operand → Ordering
  | none, none => .eq
  | none, some _ => .lt
  | some _, none => .gt
  | some a, some b => a.order b

/-- Conditions by argument, operator and operand. -/
def Condition.order (a b : Condition) : Ordering :=
  (compare a.arg b.arg).then ((compare a.op.rank b.op.rank).then
    (Operand.orderOption a.operand b.operand))

/-- Conjunctions come before disjunctions. -/
def Connective.rank : Connective → Nat
  | .and => 0
  | .or => 1

/-- The set of everyone comes before the set of no one. -/
def Extent.rank : Extent → Nat
  | .all => 0
  | .none => 1

namespace Expression

/-- The place of each kind of expression. -/
def kindRank : Expression → Nat
  | .condition _ => 0
  | .negation _ _ => 1
  | .combined _ _ => 2
  | .extent _ => 3

mutual

/-- The order of expressions. -/
def order : Expression → Expression → Ordering
  | .condition a, .condition b => a.order b
  | .negation s a, .negation t b => (a.order b).then (compare s.toNat t.toNat)
  | .combined i as, .combined j bs => (compare i.rank j.rank).then (orderList as bs)
  | .extent a, .extent b => compare a.rank b.rank
  | a, b => compare a.kindRank b.kindRank

/-- Lists of expressions member by member; the start of a list comes before it. -/
def orderList : List Expression → List Expression → Ordering
  | [], [] => .eq
  | [], _ :: _ => .lt
  | _ :: _, [] => .gt
  | a :: as, b :: bs => (order a b).then (orderList as bs)

end

/-- Whether an expression may stand before another. -/
def le (a b : Expression) : Bool := (order a b).isLE

end Expression

end AudienceFilter
