import AudienceFilter.Context
import AudienceFilter.MatchTree

/-!
# Leaves of assigned arguments

Leaves get their node type from the mapping. Whether a leaf may share a join with other leaves on
its node type depends on what it asks for: on main documents always, otherwise a complement has
to stay outside the join, except a complement within the documents that have a value, on node
types with one document for each main document.
-/

namespace AudienceFilter.Context

/-- Whether a leaf on an argument may share a join. A complement is `inDocument` if it is taken
among the documents that have a value. -/
def mayJoin (ctx : Context) (nodeType arg : String) (isComplement inDocument verifies : Bool) :
    Except ConversionError Bool :=
  if ctx.isMain nodeType then .ok true
  else if verifies then .ok false
  else if !isComplement then .ok true
  else if inDocument then (ctx.isMultiDoc arg).map (! ·)
  else .ok false

/-- The leaf of a single condition. -/
def single (ctx : Context) (c : Condition) (p : Polarity) : Result Single := do
  let a ← liftError (ctx.assignment c.arg)
  if let some other := c.reference? then
    let _ ← liftError (ctx.assignment other)
  let isComplement := p.isNegated != (c.op == .isUnknown)
  let joinable ← liftError (ctx.mayJoin a.field.nodeType c.arg isComplement false p.verifies)
  liftFault (Single.make a.field.nodeType c p joinable)

/-- The leaf of several conditions, of which there is at least one. -/
def multi (ctx : Context) (nodeType : String) (first : Condition) (rest : List Condition)
    (p : Polarity) : Result Multi := do
  let joinable ← liftError
    (ctx.mayJoin nodeType first.arg p.isNegated (!first.isReference) p.verifies)
  liftFault (Multi.make nodeType (first :: rest) p joinable)

/-- The leaf of two bounds. -/
def between (ctx : Context) (lower upper : Multi) : Result Between := do
  let joinable ← liftError
    (ctx.mayJoin lower.nodeType lower.arg lower.polarity.isNegated true false)
  liftFault (Between.make lower upper joinable)

/-- The tree of a single condition. -/
def singleTree (ctx : Context) (c : Condition) (p : Polarity) : Result MatchTree := do
  let s ← ctx.single c p
  return .leaf (.single s)

end AudienceFilter.Context
