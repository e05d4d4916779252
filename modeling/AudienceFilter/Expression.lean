import AudienceFilter.Condition
import AudienceFilter.Distinct

/-!
# Expressions

An expression describes an audience: conditions, their negations, conjunctions and disjunctions,
and the two sets that hold everyone and no one. A strict negation also requires the arguments of
the negated condition to be known.

`Expression.combine` joins members and simplifies the result by one level, and
`Expression.normalized` does so from the leaves up.
-/

namespace AudienceFilter

/-- How the members of a combination are joined. -/
inductive Connective where
  | and
  | or
deriving DecidableEq, Repr

/-- The sets that need no condition. -/
inductive Extent where
  | all
  | none
deriving DecidableEq, Repr

/-- The description of an audience. -/
inductive Expression where
  | condition (c : Condition)
  | negation (strict : Bool) (c : Condition)
  | combined (j : Connective) (members : List Expression)
  | extent (e : Extent)
deriving Repr

namespace Connective

/-- The other connective. -/
def switched : Connective → Connective
  | and => or
  | or => and

/-- The word between two members. -/
def keyword : Connective → String
  | and => "AND"
  | or => "OR"

/-- The name of the connective in the stored form of an expression. -/
def name : Connective → String
  | and => "And"
  | or => "Or"

/-- The connective of a name. -/
def ofName? (s : String) : Option Connective := [and, or].find? fun j => j.name = s

/-- The set that may be left out among the members. -/
def neutral : Connective → Extent
  | and => .all
  | or => .none

/-- The set that decides the combination whatever the other members are. -/
def absorbing : Connective → Extent
  | and => .none
  | or => .all

end Connective

namespace Extent

/-- The name of the set in the stored form of an expression. -/
def name : Extent → String
  | all => "All"
  | none => "None"

/-- The set of a name. -/
def ofName? (s : String) : Option Extent := [all, none].find? fun e => e.name = s

end Extent

namespace Expression

mutual

/-- Equality of expressions is decidable. -/
def decEq : (a b : Expression) → Decidable (a = b)
  | .condition a, .condition b =>
    if h : a = b then isTrue (congrArg _ h) else isFalse fun e => h (condition.inj e)
  | .negation s a, .negation t b =>
    if h : s = t ∧ a = b then isTrue (h.1 ▸ h.2 ▸ rfl) else isFalse fun e => h (negation.inj e)
  | .combined i as, .combined j bs =>
    if hj : i = j then
      match decEqList as bs with
      | isTrue h => isTrue (hj ▸ h ▸ rfl)
      | isFalse h => isFalse fun e => h (combined.inj e).2
    else isFalse fun e => hj (combined.inj e).1
  | .extent a, .extent b =>
    if h : a = b then isTrue (congrArg _ h) else isFalse fun e => h (extent.inj e)
  | .condition _, .negation _ _ | .condition _, .combined _ _ | .condition _, .extent _
  | .negation _ _, .condition _ | .negation _ _, .combined _ _ | .negation _ _, .extent _
  | .combined _ _, .condition _ | .combined _ _, .negation _ _ | .combined _ _, .extent _
  | .extent _, .condition _ | .extent _, .negation _ _ | .extent _, .combined _ _ =>
    isFalse nofun

/-- Equality of lists of expressions is decidable. -/
def decEqList : (as bs : List Expression) → Decidable (as = bs)
  | [], [] => isTrue rfl
  | [], _ :: _ | _ :: _, [] => isFalse nofun
  | a :: as, b :: bs =>
    match decEq a b with
    | isFalse h => isFalse fun e => h (List.cons.inj e).1
    | isTrue h =>
      match decEqList as bs with
      | isTrue hs => isTrue (h ▸ hs ▸ rfl)
      | isFalse hs => isFalse fun e => hs (List.cons.inj e).2

end

instance : DecidableEq Expression := decEq

/-! ## Combination -/

/-- The members of a combination with nested members of the same kind taken apart by one level,
neutral sets left out and repetitions dropped, behind those in `acc`; nothing if a member decides
the combination. -/
def gather (j : Connective) (acc : List Expression) : List Expression → Option (List Expression)
  | [] => some acc
  | .extent e :: rest => if e = j.absorbing then none else gather j acc rest
  | .combined i inner :: rest =>
    if i = j then gather j (Distinct.append acc inner) rest
    else gather j (Distinct.push acc (.combined i inner)) rest
  | m :: rest => gather j (Distinct.push acc m) rest

/-- Joins members: a deciding set stands for the whole, a single member for itself. -/
def combine (j : Connective) (members : List Expression) : Expression :=
  match gather j [] members with
  | none => .extent j.absorbing
  | some [] => .extent j.neutral
  | some [m] => m
  | some ms => .combined j ms

mutual

/-- The expression joined anew from its leaves up. -/
def normalized : Expression → Expression
  | .combined j members => combine j (normalizedAll members)
  | e => e

/-- Each of the expressions joined anew. -/
def normalizedAll : List Expression → List Expression
  | [] => []
  | e :: rest => normalized e :: normalizedAll rest

end

/-- Whether a negation requires more than its complement; with the condition to be unknown it
never does. -/
def isStrict (strict : Bool) (c : Condition) : Bool := strict && c.op != .isUnknown

/-- Whether the expression is one of the two sets. -/
def isExtent : Expression → Bool
  | .extent _ => true
  | _ => false

/-- Whether the expression is a combination. -/
def isCombined : Expression → Bool
  | .combined _ _ => true
  | _ => false

mutual

/-- The conditions of the expression in their order, negated ones included. -/
def conditions : Expression → List Condition
  | .condition c => [c]
  | .negation _ c => [c]
  | .combined _ members => conditionsOf members
  | .extent _ => []

/-- The conditions of expressions in their order. -/
def conditionsOf : List Expression → List Condition
  | [] => []
  | e :: rest => conditions e ++ conditionsOf rest

end

/-- The arguments of the expression in the order of their first appearance. -/
def args (e : Expression) : List String := Distinct.ofList (e.conditions.flatMap Condition.args)

end Expression

end AudienceFilter
