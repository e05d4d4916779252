import AudienceFilter.Expression.Guard
import AudienceFilter.MatchTree.Assigned

/-!
# From expressions to match trees

Every condition becomes a leaf. A strict negation needs its arguments to be known: where no guard
above it says so, a comparison of arguments requires their values itself, and any other condition
gets a guard.
-/

namespace AudienceFilter.MatchTree

/-- The tree of a negation, given the arguments that are guarded above it. -/
def ofNegation (ctx : Context) (covered : List String) (strict : Bool) (c : Condition) :
    Result MatchTree :=
  if Expression.isStrict strict c then
    match c.reference? with
    | some other =>
      ctx.singleTree c (.verifying (!covered.contains c.arg) (!covered.contains other))
    | none => do
      let negated ← ctx.singleTree c .negated
      if covered.contains c.arg then
        return negated
      else
        let guard ← ctx.singleTree (.unknown c.arg) .negated
        liftFault (combine .and [guard, negated])
  else ctx.singleTree c .negated

mutual

/-- The tree of an expression, given the arguments that are guarded above it. -/
def build (ctx : Context) (covered : List String) : Expression → Result MatchTree
  | .condition c => ctx.singleTree c .positive
  | .negation strict c => ofNegation ctx covered strict c
  | .combined j members => do
    let covered := match j with
      | .and => covered ++ members.filterMap Expression.guardArg?
      | .or => covered
    let children ← buildAll ctx covered members
    liftFault (combine j children)
  | .extent e => .error (.fault (.unresolvedExtent e.name))

/-- The trees of expressions, given the arguments that are guarded above them. -/
def buildAll (ctx : Context) (covered : List String) : List Expression → Result (List MatchTree)
  | [] => .ok []
  | e :: rest => do
    let t ← build ctx covered e
    let ts ← buildAll ctx covered rest
    return t :: ts

end

/-- The match tree of an expression without the sets of everyone and no one. -/
def ofExpression (ctx : Context) (e : Expression) : Result MatchTree := build ctx [] e

end AudienceFilter.MatchTree
