import AudienceFilter.Classes
import AudienceFilter.MatchTree.Assigned

/-!
# Grouped match trees

Members of a combination that belong to one node type and may share a join are collected in a
group. Under a conjunction, conditions on arguments with several documents stay apart: each may
be met by a different document.
-/

namespace AudienceFilter.MatchTree

/-- The node type whose join the tree may stand in as a whole. -/
def joinNodeType? : MatchTree → Option String
  | .group _ nodeType _ => some nodeType
  | .leaf l => if l.joinable then some l.nodeType else none
  | .combined _ _ => none

/-- Whether one of the arguments may have its values on several documents. -/
def anyMultiDoc (ctx : Context) : List String → Except ConversionError Bool
  | [] => .ok false
  | arg :: rest => do
    if ← ctx.isMultiDoc arg then
      return true
    anyMultiDoc ctx rest

/-- The node type that a member of a combination is grouped by. -/
def groupKey? (ctx : Context) (j : Connective) (t : MatchTree) :
    Except ConversionError (Option String) :=
  match joinNodeType? t with
  | none => .ok none
  | some nodeType =>
    match j with
    | .or => .ok (some nodeType)
    | .and => (anyMultiDoc ctx t.args).map fun multiDoc => if multiDoc then none else some nodeType

/-- The members that a tree brings into a group: a group of the same kind is taken apart. -/
def groupMembers (j : Connective) (t : MatchTree) : List MatchTree :=
  match t with
  | .group i _ children => if i = j then children else [t]
  | _ => [t]

/-- Two or more trees of a node type as one group. -/
def groupTrees (j : Connective) (nodeType : String) (trees : List MatchTree) :
    Result (Option MatchTree) :=
  match trees with
  | _ :: _ :: _ =>
    (liftFault (makeGroup j nodeType (trees.flatMap (groupMembers j)))).map some
  | _ => .ok none

/-- Groups the members of a combination, which are grouped themselves. -/
def groupLevel (ctx : Context) (j : Connective) (children : List MatchTree) :
    Result MatchTree := do
  let keyed ← children.mapM fun t => (liftError (groupKey? ctx j t)).map fun key => (key, t)
  let members ← Classes.merge (groupTrees j) keyed
  liftFault (joined j members)

mutual

/-- Groups the tree from its leaves up. -/
def grouped (ctx : Context) : MatchTree → Result MatchTree
  | .combined j children => do
    let children ← groupedAll ctx children
    groupLevel ctx j children
  | t => .ok t

/-- Groups each of the trees. -/
def groupedAll (ctx : Context) : List MatchTree → Result (List MatchTree)
  | [] => .ok []
  | t :: rest => do
    let t ← grouped ctx t
    let ts ← groupedAll ctx rest
    return t :: ts

end

end AudienceFilter.MatchTree
