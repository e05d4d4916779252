import AudienceFilter.Proofs.World

/-!
# Scripts read as formulas

What the commands of a script say, whatever text the builder makes of them: a brace or a join
holds members with a connective between them, and a complement holds a single one. A script in
which a level mixes both connectives has no reading, and neither has one that fails.

* `Frame`, `Script.read?`: the reading, from left to right with a stack of open levels;
* `Atom`: what a fragment was written for, and `Labelled`, a fragment together with that;
* `World.holdsFormula`: the truth of a formula in a document.
-/

namespace AudienceFilter

/-- A formula over atoms: a combination on one level, a complement, or that some document of a node
type satisfies a formula. -/
inductive Formula (α : Type) where
  | atom (a : α)
  | complement (f : Formula α)
  | combined (j : Connective) (members : List (Formula α))
  | join (nodeType : String) (f : Formula α)

namespace Formula

variable {α β : Type}

mutual

/-- The formula with other atoms. -/
def map (h : α → β) : Formula α → Formula β
  | .atom a => .atom (h a)
  | .complement f => .complement (map h f)
  | .combined j members => .combined j (mapEach h members)
  | .join nodeType f => .join nodeType (map h f)

/-- The formulas with other atoms. -/
def mapEach (h : α → β) : List (Formula α) → List (Formula β)
  | [] => []
  | f :: rest => map h f :: mapEach h rest

end

theorem mapEach_eq_map (h : α → β) (fs : List (Formula α)) : mapEach h fs = fs.map (map h) := by
  induction fs with
  | nil => rfl
  | cons f fs ih => rw [mapEach, ih, List.map_cons]

theorem map_combined (h : α → β) (j : Connective) (members : List (Formula α)) :
    (combined j members).map h = .combined j (members.map (map h)) := by
  rw [map, mapEach_eq_map]

end Formula

/-! ## Reading -/

/-- What stands in a script: the condition on the node type that a join starts with, or a
fragment. -/
inductive Term where
  | nodeType (name : String)
  | fragment (q : FilterQuery)

/-- What opened a level. -/
inductive LevelKind where
  | brace
  | complement
  | join (nodeType : String)

/-- An open level: the members read so far, the connective between them once there is one, and
whether another member has to follow. -/
structure Frame where
  kind : LevelKind
  connective : Option Connective := none
  members : List (Formula Term) := []
  expects : Bool := true

namespace Frame

/-- The level of a join: a conjunction that goes on after the condition on the node type and the
document filters. -/
def ofJoin (nodeType : String) (filters : List FilterQuery) : Frame where
  kind := .join nodeType
  connective := some .and
  members := .atom (.nodeType nodeType) :: filters.map fun q => .atom (.fragment q)

/-- Takes a member. -/
def add (fr : Frame) (f : Formula Term) : Option Frame :=
  if fr.expects then some { fr with members := fr.members ++ [f], expects := false } else none

/-- Takes a connective, which has to be the one of the level. -/
def separate (fr : Frame) (j : Connective) : Option Frame :=
  if fr.expects then none
  else match fr.connective with
    | none => some { fr with connective := some j, expects := true }
    | some i => if i = j then some { fr with expects := true } else none

/-- What the level says as a whole. -/
def content? (fr : Frame) : Option (Formula Term) :=
  if fr.expects then none
  else match fr.connective, fr.members with
    | none, [f] => some f
    | none, _ => none
    | some j, members => some (.combined j members)

/-- What a brace says when it is closed. A complement extends over one member alone. -/
def braced? (fr : Frame) : Option (Formula Term) :=
  match fr.kind with
  | .brace => fr.content?
  | .complement => if fr.connective = none then fr.content?.map .complement else none
  | .join _ => none

/-- What a join says when it is closed. -/
def joined? (fr : Frame) : Option (Formula Term) :=
  match fr.kind with
  | .join nodeType => fr.content?.map (.join nodeType)
  | _ => none

end Frame

namespace Script

/-- Reads one step, with the open levels from the inmost one on. -/
def readStep? : List Frame → Step → Option (List Frame)
  | fr :: rest, .call (.append q) => (fr.add (.atom (.fragment q))).map (· :: rest)
  | fr :: rest, .call (.separator j) => (fr.separate j).map (· :: rest)
  | frs, .call .openBrace => some ({ kind := .brace } :: frs)
  | frs, .call .openComplement => some ({ kind := .complement } :: frs)
  | frs, .call (.startNested nodeType filters) => some (.ofJoin nodeType filters :: frs)
  | frs, .call (.startDependent nodeType filters) => some (.ofJoin nodeType filters :: frs)
  | fr :: below :: rest, .call .closeBrace => do
    let below ← below.add (← fr.braced?)
    return below :: rest
  | fr :: below :: rest, .call .endJoin => do
    let below ← below.add (← fr.joined?)
    return below :: rest
  | _, _ => none

/-- Reads steps one after the other. -/
def readSteps? (frs : List Frame) : List Step → Option (List Frame)
  | [] => some frs
  | s :: rest => do
    let frs ← readStep? frs s
    readSteps? frs rest

/-- The formula that a script writes, read from left to right. -/
def read? (steps : List Step) : Option (Formula Term) :=
  match readSteps? [{ kind := .brace }] steps with
  | some [fr] => fr.content?
  | _ => none

end Script

/-! ## Truth -/

/-- What a fragment is about. -/
inductive Atom where
  /-- The document has the node type. -/
  | nodeType (name : String)
  /-- The document passes the filter. -/
  | filter (f : DocumentFilter)
  /-- The argument has a value. -/
  | known (arg : String)
  /-- The leaf finds something, whatever its polarity is. -/
  | found (l : Leaf)
  /-- The argument of the leaf has a value, and the leaf finds nothing. -/
  | missed (l : Leaf)

/-- What is written for an atom. -/
def Atom.term (ctx : Context) : Atom → Result Term
  | .nodeType name => .ok (.nodeType name)
  | .filter f => (ctx.documentFilter f).map .fragment
  | .known arg => (ctx.anyValue arg).map .fragment
  | .found l => (ctx.leafFragment l).map .fragment
  | .missed l => (ctx.leafComplement l).map .fragment

/-- What stands in a script, with the atom that it was written for. -/
structure Labelled (ctx : Context) where
  atom : Atom
  term : Term
  written : atom.term ctx = .ok term

namespace World

variable {V : Type} (ctx : Context) (w : World V)

/-- Whether an atom is true of a document. A document passes the filters of its node type. -/
def holdsAtom (d : Document V) : Atom → Bool
  | .nodeType name => d.nodeType = name
  | .filter f =>
    match ctx.mapping.nodeType d.nodeType with
    | .ok info => info.filters.contains f
    | .error _ => false
  | .known arg => ctx.knows d arg
  | .found l => w.finds ctx d l
  | .missed l => ctx.knows d l.arg && !w.finds ctx d l

mutual

/-- Whether a formula is true of a document. -/
def holdsFormula (d : Document V) : Formula (Labelled ctx) → Bool
  | .atom a => w.holdsAtom ctx d a.atom
  | .complement f => !holdsFormula d f
  | .combined j members => j.truth (holdsFormulas d members)
  | .join nodeType f => (w.documentsOf nodeType).any fun d => holdsFormula d f

/-- Whether each of the formulas is true of a document. -/
def holdsFormulas (d : Document V) : List (Formula (Labelled ctx)) → List Bool
  | [] => []
  | f :: rest => holdsFormula d f :: holdsFormulas d rest

end

end World

end AudienceFilter
