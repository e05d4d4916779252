import AudienceFilter.Fragment

/-!
# Builder scripts

The steps that write a grouped match tree into filter queries. Leaves and groups on a node type
other than the one at hand are put into a join; a conjunction inside a join needs no brace, since
the conditions that a join starts with are a conjunction already.

Members of a conjunction at the root, and of a conjunction on the main documents among them, get
a filter query each.
-/

namespace AudienceFilter

/-- A step of a script: a command for the builder, or the failure to come up with one. -/
inductive Step where
  | call (c : Command)
  | fail (f : Failure)
deriving DecidableEq, Repr

/-- Runs steps until one of them fails. -/
def Builder.run (b : Builder) : List Step → Result Builder
  | [] => .ok b
  | .call c :: rest => do
    let b ← b.apply c
    b.run rest
  | .fail f :: _ => .error f

namespace Script

/-- Goes on with a value, or fails. -/
def andThen {α : Type} (r : Result α) (next : α → List Step) : List Step :=
  match r with
  | .ok a => next a
  | .error f => [.fail f]

/-- Steps inside a brace. -/
def braced (steps : List Step) : List Step := .call .openBrace :: (steps ++ [.call .closeBrace])

/-- Steps inside a brace if there has to be one. -/
def bracedIf (brace : Bool) (steps : List Step) : List Step := if brace then braced steps else steps

/-- Opens a join on a node type; `here` is the node type at hand. -/
def startJoin (ctx : Context) (here nodeType : String) : List Step :=
  andThen (ctx.documentFilters nodeType) fun filters =>
    andThen (liftError (ctx.mapping.nodeType nodeType)) fun info =>
      match info.nature with
      | .nested => [.call (.startNested nodeType filters)]
      | .dependent => [.call (.startDependent nodeType filters)]
      | .main => [.fail (.fault (.joinOfMain nodeType here))]

/-- Steps on a node type, in a join unless it is the one at hand. -/
def joined (ctx : Context) (here nodeType : String) (steps : List Step) : List Step :=
  if here = nodeType then steps
  else startJoin ctx here nodeType ++ (steps ++ [.call .endJoin])

/-- A fragment on a node type. -/
def inScope (ctx : Context) (here nodeType : String) (q : FilterQuery) : List Step :=
  joined ctx here nodeType [.call (.append q)]

/-- The complement of a fragment on a node type. -/
def complement (ctx : Context) (here nodeType : String) (q : FilterQuery) : List Step :=
  .call .openComplement :: (inScope ctx here nodeType q ++ [.call .closeBrace])

/-- A leaf that is negated among the documents that have a value. For an argument with several
documents, outside a join on its node type, this means that some document has a value and none
matches. -/
def inDocument (ctx : Context) (here : String) (l : Leaf) : List Step :=
  andThen (if here = l.nodeType then .ok false else liftError (ctx.isMultiDoc l.arg))
    fun multiDoc =>
      if multiDoc then
        andThen (ctx.anyValue l.arg) fun any =>
          andThen (ctx.leafFragment l) fun positive =>
            braced (inScope ctx here l.nodeType any ++ .call (.separator .and) ::
              complement ctx here l.nodeType positive)
      else andThen (ctx.leafComplement l) fun q => inScope ctx here l.nodeType q

/-- The arguments whose values a leaf requires: the sides of the comparison that its polarity
names. -/
def verifiedArgs (l : Leaf) : List String :=
  let sides (arg : String) (other : Option String) : List String :=
    (if l.polarity.verifiesLeft then [arg] else []) ++
      (if l.polarity.verifiesRight then other.toList else [])
  match l with
  | .single s => sides s.condition.arg s.condition.reference?
  | .multi m => sides m.arg m.reference?
  | .between _ => []

/-- Conditions that arguments have values, each followed by AND. -/
def knownArgs (ctx : Context) (here nodeType : String) : List String → List Step
  | [] => []
  | arg :: rest =>
    andThen (ctx.anyValue arg) (fun any => inScope ctx here nodeType any ++ [.call (.separator .and)])
      ++ knownArgs ctx here nodeType rest

/-- A leaf whose polarity requires values on its sides. -/
def verified (ctx : Context) (here : String) (l : Leaf) : List Step :=
  match l with
  | .between _ => [.fail (.fault (.strayVerification l.polarity.name l.text))]
  | _ =>
    andThen (ctx.leafFragment l) fun positive =>
      braced (knownArgs ctx here l.nodeType (verifiedArgs l) ++
        complement ctx here l.nodeType positive)

/-- A leaf as it stands or as its complement. -/
def plain (ctx : Context) (here : String) (l : Leaf) : List Step :=
  andThen (ctx.leafFragment l) fun q =>
    if l.polarity = .positive then inScope ctx here l.nodeType q
    else complement ctx here l.nodeType q

/-- The steps of a leaf. -/
def ofLeaf (ctx : Context) (here : String) (l : Leaf) : List Step :=
  if l.polarity.verifies then verified ctx here l
  else match l with
    | .single s =>
      if s.isUnknownCheck then
        andThen (ctx.anyValue s.condition.arg) fun any =>
          if s.polarity = .positive then complement ctx here s.nodeType any
          else inScope ctx here s.nodeType any
      else plain ctx here l
    | .multi m =>
      if m.polarity.isNegated && !m.shape.isReference then inDocument ctx here l
      else plain ctx here l
    | .between b => if b.polarity.isNegated then inDocument ctx here l else plain ctx here l

/-- The steps of the members of a combination, with its connective between them. -/
def separated (j : Connective) : List (List Step) → List Step :=
  List.intercalate [.call (.separator j)]

mutual

/-- The steps of a tree; at the top of a filter query a combination needs no brace. -/
def ofTree (ctx : Context) (here : String) (top : Bool) : MatchTree → List Step
  | .leaf l => ofLeaf ctx here l
  | .combined j children => bracedIf (!top) (separated j (ofTrees ctx here children))
  | .group j nodeType children =>
    let inner := separated j (ofTrees ctx nodeType children)
    joined ctx here nodeType (bracedIf (if here = nodeType then !top else j = .or) inner)

/-- The steps of each of the trees. -/
def ofTrees (ctx : Context) (here : String) : List MatchTree → List (List Step)
  | [] => []
  | t :: rest => ofTree ctx here false t :: ofTrees ctx here rest

end

/-- The members of a conjunction on the main documents, or the tree itself. -/
def mainConjuncts (ctx : Context) (t : MatchTree) : List MatchTree :=
  match t with
  | .group .and nodeType children => if ctx.isMain nodeType then children else [t]
  | _ => [t]

/-- The trees that get a filter query each. -/
def parts (ctx : Context) (t : MatchTree) : List MatchTree :=
  match t with
  | .combined .and children => children.flatMap (mainConjuncts ctx)
  | _ => mainConjuncts ctx t

/-- The scripts of the filter queries of a tree. -/
def ofRoot (ctx : Context) (t : MatchTree) : List (List Step) :=
  (parts ctx t).map (ofTree ctx ctx.mainType true)

end Script

/-- The filter queries that scripts write, one after the other. -/
def Builder.runAll (b : Builder) : List (List Step) → Result (List FilterQuery)
  | [] => .ok []
  | steps :: rest => do
    let b ← b.run steps
    let (q, b) ← liftFault b.result
    let qs ← b.runAll rest
    return q :: qs

/-- The filter queries of a grouped match tree. -/
def MatchTree.filterQueries (ctx : Context) (t : MatchTree) : Result (List FilterQuery) := do
  let b ← liftName (Builder.make ctx.mapping.indexNames ctx.settings.style)
  b.runAll (Script.ofRoot ctx t)

end AudienceFilter
