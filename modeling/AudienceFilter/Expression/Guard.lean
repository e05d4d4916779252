import AudienceFilter.Expression

/-!
# Guards of strict negations

A strict negation holds only where its arguments are known. `Expression.guarded?` states that by
guards, negated conditions to be unknown, which it puts next to the negation or as far up as all
members of the combinations above it require them. With its guards in place a strict negation
means no more than the complement.
-/

namespace AudienceFilter.Expression

/-- The guard of an argument: the argument is not unknown. -/
def guard (arg : String) : Expression := .negation false (.unknown arg)

/-- The argument that a guard is for, whether it is written strictly or not. -/
def guardArg? : Expression → Option String
  | .negation _ c => if c.op = .isUnknown then some c.arg else none
  | _ => none

/-- The names that all of the lists share, in the order of the first list. -/
def common : List (List String) → List String
  | [] => []
  | first :: others => first.filter fun name => others.all fun names => names.contains name

mutual

/-- The arguments that have to be known for the expression to hold and that it does not guard by
itself. -/
def needs : Expression → List String
  | .negation strict c => if isStrict strict c then c.args else []
  | .combined .and members =>
    let guards := members.filterMap guardArg?
    Distinct.ofList ((needsEach members).flatten.filter fun name => !guards.contains name)
  | .combined .or members => common (needsEach members)
  | _ => []

/-- What each of the expressions needs. -/
def needsEach : List Expression → List (List String)
  | [] => []
  | e :: rest => needs e :: needsEach rest

end

/-- Each member as it was changed, or as it is. -/
def updated (changes : List (Option Expression)) (members : List Expression) : List Expression :=
  List.zipWith (fun change member => change.getD member) changes members

mutual

/-- Adds the guards that are missing below the expression, given the arguments that are guarded
above it; nothing if none is missing. -/
def weave? (provided : List String) : Expression → Option Expression
  | .negation strict c =>
    if isStrict strict c then
      let missing := c.args.filter fun name => !provided.contains name
      if missing.isEmpty then none
      else some (combine .and (missing.map guard ++ [.negation strict c]))
    else none
  | .combined .and members =>
    let own := Distinct.append provided (members.filterMap guardArg?)
    let missing :=
      Distinct.ofList ((needsEach members).flatten.filter fun name => !own.contains name)
    let changes := weaveNested (Distinct.append own missing) members
    if missing.isEmpty && changes.all Option.isNone then none
    else some (combine .and (missing.map guard ++ updated changes members))
  | .combined .or members =>
    let changes := weaveEach provided members
    if changes.all Option.isNone then none else some (combine .or (updated changes members))
  | _ => none

/-- The change of each of the expressions. -/
def weaveEach (provided : List String) : List Expression → List (Option Expression)
  | [] => []
  | e :: rest => weave? provided e :: weaveEach provided rest

/-- The change of each of the expressions that is a combination; the others stay. -/
def weaveNested (provided : List String) : List Expression → List (Option Expression)
  | [] => []
  | e :: rest =>
    (if e.isCombined then weave? provided e else none) :: weaveNested provided rest

end

/-- The expression with all guards that its strict negations lack; nothing if it lacks none. What
the whole expression needs is guarded beside it, as if it were the member of a conjunction. -/
def guarded? (e : Expression) : Option Expression :=
  match e with
  | .combined .and _ => weave? [] e
  | _ =>
    let names := needs e
    if names.isEmpty then weave? [] e
    else some (combine .and (names.map guard ++ [(weave? names e).getD e]))

/-- The expression with the guards of its strict negations. -/
def guarded (e : Expression) : Expression := (guarded? e).getD e

end AudienceFilter.Expression
