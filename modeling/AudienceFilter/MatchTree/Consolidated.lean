import AudienceFilter.Classes
import AudienceFilter.MatchTree.Assigned

/-!
# Consolidated match trees

Conditions on one argument that stand beside each other become one leaf. Level by level from the
leaves up,

1. a bound and the equality with the same operand become one inclusive bound,
2. dates that are compared by whole days get bounds on whole days,
3. a lower and an upper bound of an argument with one value become one leaf, if there is no
   third bound,
4. equalities, and snippets, on one argument become one leaf, and
5. a negated leaf of several conditions gets the branch that its argument is unknown, unless a
   guard says that it is known.

Steps 1 and 4 merge what a disjunction states positively and what a conjunction negates; step 3
does the opposite.
-/

namespace AudienceFilter.MatchTree

/-! ## Inclusive bounds -/

/-- Whether a tree is the equality that belongs to a bound. -/
def isEqualityOf (bound : Single) (t : MatchTree) : Bool :=
  t.single?.any fun s =>
    s.polarity == bound.polarity && s.condition.op == .equals &&
      s.condition.arg == bound.condition.arg && s.nodeType == bound.nodeType &&
      s.condition.operand == bound.condition.operand

/-- A bound of the given polarity, as a single condition. -/
def singleBound? (p : Polarity) (t : MatchTree) : Option Single :=
  t.single?.filter fun s => s.polarity = p && s.condition.op.isBound

/-- The first bound with an equality that belongs to it, and the places of both. -/
def boundPair? (p : Polarity) (items : List MatchTree) : Option (Single × Nat × Nat) :=
  items.zipIdx.findSome? fun (t, i) => do
    let bound ← singleBound? p t
    let k ← items.findIdx? (isEqualityOf bound)
    return (bound, i, k)

theorem lt_length_of_boundPair? {p : Polarity} {items : List MatchTree} {bound : Single}
    {i k : Nat} (h : boundPair? p items = some (bound, i, k)) :
    i < items.length ∧ k < items.length := by
  obtain ⟨⟨t, n⟩, hm, h⟩ := List.exists_of_findSome?_eq_some h
  simp only [Option.pure_def, Option.bind_eq_bind] at h
  obtain ⟨b, -, h⟩ := Option.bind_eq_some_iff.1 h
  obtain ⟨m, hk, h⟩ := Option.bind_eq_some_iff.1 h
  simp only [Option.some.injEq, Prod.mk.injEq] at h
  have hk := (List.findIdx?_eq_some_iff_getElem.1 hk).1
  have hn := (List.mem_zipIdx hm).2.1
  grind

/-- Merges bounds with their equalities, in the place of whichever comes first. -/
def mergeBoundPairs (ctx : Context) (p : Polarity) (items : List MatchTree) :
    Result (List MatchTree) :=
  match _h : boundPair? p items with
  | none => .ok items
  | some (bound, i, k) => do
    let equality := { bound.condition with op := .equals }
    let m ← ctx.multi bound.nodeType bound.condition [equality] p
    mergeBoundPairs ctx p ((items.set (min i k) (.leaf (.multi m))).eraseIdx (max i k))
termination_by items.length
decreasing_by
  have := lt_length_of_boundPair? _h
  rw [List.length_eraseIdx_of_lt (by rw [List.length_set]; omega), List.length_set]
  omega

/-! ## Whole days -/

/-- The equality with a day as the days strictly between its neighbours. -/
def alignEquality (ctx : Context) (s : Single) (value : String) : Result MatchTree := do
  let arg := s.condition.arg
  let before ← liftError (shiftDate arg value (-1))
  let after ← liftError (shiftDate arg value 1)
  let lower ← ctx.multi s.nodeType (.withOperator arg .greaterThan before) [] s.polarity
  let upper ← ctx.multi s.nodeType (.withOperator arg .lessThan after) [] s.polarity
  let b ← ctx.between lower upper
  return .leaf (.between b)

/-- An inclusive bound by a day as the strict bound by its neighbour. -/
def alignBound (ctx : Context) (m : Multi) : Result MatchTree := do
  let value := m.bound?.getD ""
  match m.leadOp with
  | .greaterThan =>
    let before ← liftError (shiftDate m.arg value (-1))
    ctx.singleTree (.withOperator m.arg .greaterThan before) m.polarity
  | _ =>
    let after ← liftError (shiftDate m.arg value 1)
    ctx.singleTree (.withOperator m.arg .lessThan after) m.polarity

/-- Turns equalities and inclusive bounds into strict bounds if their argument is compared by
whole days. -/
def alignDays (ctx : Context) (t : MatchTree) : Result MatchTree :=
  match t with
  | .leaf l => do
    let aligned ← liftError (ctx.alignsDaysOf l.arg)
    if aligned then
      match l with
      | .single s =>
        match s.condition.op, s.condition.value? with
        | .equals, some value => alignEquality ctx s value
        | _, _ => return t
      | .multi m => if m.shape = .valueOrEqual then alignBound ctx m else return t
      | .between _ => return t
    else return t
  | _ => return t

/-! ## Bounds on either side -/

/-- The argument of a bound by a value, strict or inclusive, of the given polarity. -/
def boundArg? (p : Polarity) : MatchTree → Option String
  | .leaf (.single s) =>
    if s.polarity = p ∧ s.condition.op.isBound ∧ s.condition.value?.isSome then
      some s.condition.arg
    else none
  | .leaf (.multi m) =>
    if m.polarity = p ∧ m.shape = .valueOrEqual then some m.arg else none
  | _ => none

/-- A bound as a leaf that can be strict or inclusive. -/
def toMulti? (ctx : Context) : MatchTree → Result (Option Multi)
  | .leaf (.multi m) => .ok (some m)
  | .leaf (.single s) => (ctx.multi s.nodeType s.condition [] s.polarity).map some
  | _ => .ok none

/-- Whether an argument has at most one value for each main document. -/
def isSingleValued (ctx : Context) (arg : String) : Except ConversionError Bool :=
  (ctx.assignment arg).map fun a => !a.field.isCollection && !a.isMultiDoc

/-- Two bounds of an argument with one value as one leaf, if one is from below and one from
above. With several values, different ones could meet the two bounds. -/
def pairBounds (ctx : Context) (arg : String) (bounds : List MatchTree) :
    Result (Option MatchTree) :=
  match bounds with
  | [x, y] => do
    if ← liftError (isSingleValued ctx arg) then
      let x? ← toMulti? ctx x
      let y? ← toMulti? ctx y
      match x?, y? with
      | some a, some b =>
        if a.isLowerBound && b.isUpperBound then
          (ctx.between a b).map fun pair => some (.leaf (.between pair))
        else if b.isLowerBound && a.isUpperBound then
          (ctx.between b a).map fun pair => some (.leaf (.between pair))
        else return none
      | _, _ => return none
    else return none
  | _ => return none

/-- Merges the bounds of each argument that has exactly two. -/
def mergeBounds (ctx : Context) (p : Polarity) (items : List MatchTree) :
    Result (List MatchTree) :=
  Classes.merge (pairBounds ctx) (items.map fun t => (boundArg? p t, t))

/-! ## Several values -/

/-- The argument and the operator of an equality or a snippet, or of several, of the given
polarity. -/
def valueKey? (p : Polarity) : MatchTree → Option (String × Operator)
  | .leaf (.single s) =>
    if s.polarity = p ∧ (s.condition.op = .equals ∨ s.condition.op = .contains) ∧
        s.condition.value?.isSome then
      some (s.condition.arg, s.condition.op)
    else none
  | .leaf (.multi m) =>
    if m.polarity = p ∧ m.shape = .values then some (m.arg, m.leadOp) else none
  | _ => none

/-- The key of a tree that may be merged with others; equalities of an argument that is compared
by whole days are ranges and stay apart. -/
def mergeKey? (ctx : Context) (p : Polarity) (t : MatchTree) :
    Result (Option (String × Operator)) :=
  match valueKey? p t with
  | some (arg, .equals) => do
    let aligned ← liftError (ctx.alignsDaysOf arg)
    return if aligned then none else some (arg, .equals)
  | key => return key

/-- Several trees with conditions on one argument as one leaf. -/
def mergeMembers (ctx : Context) (p : Polarity) (trees : List MatchTree) :
    Result (Option MatchTree) :=
  match trees.filterMap leaf? with
  | first :: second :: rest =>
    match (first :: second :: rest).flatMap Leaf.conditions with
    | c :: cs => do
      let m ← ctx.multi first.nodeType c cs p
      return some (.leaf (.multi m))
    | [] => return none
  | _ => return none

/-- Merges the equalities, and the snippets, on each argument. -/
def mergeValues (ctx : Context) (p : Polarity) (items : List MatchTree) :
    Result (List MatchTree) := do
  let keyed ← items.mapM fun t => (mergeKey? ctx p t).map fun key => (key, t)
  Classes.merge (fun _ => mergeMembers ctx p) keyed

/-! ## Unknown arguments -/

/-- The argument of a leaf that is negated among the documents that have a value. -/
def complementArg? : MatchTree → Option String
  | .leaf (.multi m) =>
    if m.polarity = .negated ∧ m.shape.isReference = false then some m.arg else none
  | .leaf (.between b) => if b.polarity = .negated then some b.arg else none
  | _ => none

/-- Adds to the negated leaves among `rest` the branch that their argument is unknown: beside
them in a disjunction, unless it is there, and as a disjunction of its own in a conjunction. The
trees in `done` are dealt with, and arguments in `covered` are known. -/
def addUnknown (ctx : Context) (j : Connective) (covered : List String) (done : List MatchTree) :
    List MatchTree → Result (List MatchTree)
  | [] => .ok done
  | t :: rest =>
    match (complementArg? t).filter fun arg => !covered.contains arg with
    | none => addUnknown ctx j covered (done ++ [t]) rest
    | some arg => do
      let unknown ← ctx.singleTree (.unknown arg) .positive
      match j with
      | .or =>
        if unknown ∈ done ++ t :: rest then addUnknown ctx j covered (done ++ [t]) rest
        else addUnknown ctx j covered (done ++ [t, unknown]) rest
      | .and =>
        let branches ← liftFault (combine .or [t, unknown])
        addUnknown ctx j covered (done ++ [branches]) rest

/-! ## Levels -/

/-- The arguments that are guarded by trees beside each other. -/
def guardArgs (children : List MatchTree) : List String :=
  children.filterMap fun t => (t.single?.filter Single.isGuard).map fun s => s.condition.arg

/-- The arguments that are known on a level, given those that are known above it. -/
def coveredOn (j : Connective) (covered : List String) (children : List MatchTree) :
    List String :=
  match j with
  | .and => Distinct.append covered (guardArgs children)
  | .or => covered

/-- The trees of a level, with nested combinations of the same kind taken apart and repetitions
dropped. -/
def flattened (j : Connective) (trees : List MatchTree) : List MatchTree :=
  trees.foldl (fun acc t =>
    match t with
    | .combined i children => if i = j then Distinct.append acc children else Distinct.push acc t
    | _ => Distinct.push acc t) []

/-- The polarity of what is merged on a level. -/
def mergePolarity : Connective → Polarity
  | .or => .positive
  | .and => .negated

/-- The polarity of bounds that are merged on a level. -/
def boundPolarity : Connective → Polarity
  | .or => .negated
  | .and => .positive

/-- Consolidates the trees of one level, which are consolidated themselves. -/
def consolidateLevel (ctx : Context) (j : Connective) (covered : List String)
    (items : List MatchTree) : Result MatchTree := do
  let items ← mergeBoundPairs ctx (mergePolarity j) items
  let items ← items.mapM (alignDays ctx)
  let items ← mergeBounds ctx (boundPolarity j) items
  let items ← mergeValues ctx (mergePolarity j) items
  let items ← addUnknown ctx j covered [] items
  liftFault (joined j items)

mutual

/-- Consolidates a combination, given the arguments that are known above it. -/
def consolidateBelow (ctx : Context) (covered : List String) : MatchTree → Result MatchTree
  | .combined j children => do
    let covered := coveredOn j covered children
    let items ← consolidateEach ctx covered children
    consolidateLevel ctx j covered (flattened j items)
  | t => .ok t

/-- Consolidates each of the combinations, given the arguments that are known above them. -/
def consolidateEach (ctx : Context) (covered : List String) :
    List MatchTree → Result (List MatchTree)
  | [] => .ok []
  | t :: rest => do
    let t ← consolidateBelow ctx covered t
    let ts ← consolidateEach ctx covered rest
    return t :: ts

end

/-- Consolidates a tree. A leaf counts as the only member of a conjunction, and a group is left
as it is. -/
def consolidated (ctx : Context) (t : MatchTree) : Result MatchTree :=
  match t with
  | .combined _ _ => consolidateBelow ctx [] t
  | .group _ _ _ => .ok t
  | .leaf _ => consolidateLevel ctx .and (coveredOn .and [] [t]) [t]

end AudienceFilter.MatchTree
