import AudienceFilter.MatchTree.Leaf

/-!
# Match trees

A match tree stands between an expression and its queries: leaves with their node types, joined
by connectives, and groups, whose members a query states inside one join.
-/

namespace AudienceFilter

/-- A tree of leaves. -/
inductive MatchTree where
  | leaf (l : Leaf)
  | combined (j : Connective) (children : List MatchTree)
  | group (j : Connective) (nodeType : String) (children : List MatchTree)
deriving Repr

namespace MatchTree

mutual

/-- Equality of match trees is decidable. -/
def decEq : (a b : MatchTree) → Decidable (a = b)
  | .leaf a, .leaf b =>
    if h : a = b then isTrue (congrArg _ h) else isFalse fun e => h (leaf.inj e)
  | .combined i as, .combined j bs =>
    if hj : i = j then
      match decEqList as bs with
      | isTrue h => isTrue (hj ▸ h ▸ rfl)
      | isFalse h => isFalse fun e => h (combined.inj e).2
    else isFalse fun e => hj (combined.inj e).1
  | .group i s as, .group j t bs =>
    if hj : i = j ∧ s = t then
      match decEqList as bs with
      | isTrue h => isTrue (hj.1 ▸ hj.2 ▸ h ▸ rfl)
      | isFalse h => isFalse fun e => h (group.inj e).2.2
    else isFalse fun e => hj ⟨(group.inj e).1, (group.inj e).2.1⟩
  | .leaf _, .combined _ _ | .leaf _, .group _ _ _ | .combined _ _, .leaf _
  | .combined _ _, .group _ _ _ | .group _ _ _, .leaf _ | .group _ _ _, .combined _ _ =>
    isFalse nofun

/-- Equality of lists of match trees is decidable. -/
def decEqList : (as bs : List MatchTree) → Decidable (as = bs)
  | [], [] => isTrue rfl
  | [], _ :: _ | _ :: _, [] => isFalse nofun
  | a :: as, b :: bs =>
    match decEq a b with
    | isFalse h => isFalse fun e => h (List.cons.inj e).1
    | isTrue h =>
      match decEqList as bs with
      | isTrue hs => isTrue (h ▸ hs ▸ rfl)
      | isFalse hs => isFalse fun e => hs (List.cons.inj e).2

end

instance : DecidableEq MatchTree := decEq

/-! ## Attributes -/

/-- The leaf that the tree consists of. -/
def leaf? : MatchTree → Option Leaf
  | leaf l => some l
  | _ => none

/-- The single condition that the tree consists of. -/
def single? : MatchTree → Option Single
  | leaf (.single s) => some s
  | _ => none

/-- The value that all entries share. -/
def agreed : List (Option String) → Option String
  | some first :: rest => if rest.all (· == some first) then some first else none
  | _ => none

mutual

/-- The node type of all leaves below, if they share one. -/
def commonNodeType : MatchTree → Option String
  | .leaf l => some l.nodeType
  | .combined _ children => agreed (commonNodeTypes children)
  | .group _ nodeType _ => some nodeType

/-- The common node type of each of the trees. -/
def commonNodeTypes : List MatchTree → List (Option String)
  | [] => []
  | t :: rest => commonNodeType t :: commonNodeTypes rest

end

mutual

/-- The leaves in their order. -/
def leaves : MatchTree → List Leaf
  | .leaf l => [l]
  | .combined _ children => leavesOf children
  | .group _ _ children => leavesOf children

/-- The leaves of trees in their order. -/
def leavesOf : List MatchTree → List Leaf
  | [] => []
  | t :: rest => leaves t ++ leavesOf rest

end

/-- Whether some leaf asks for a complement. -/
def containsComplement (t : MatchTree) : Bool := t.leaves.any Leaf.isComplement

/-- The arguments below in the order of their first appearance. -/
def args (t : MatchTree) : List String := Distinct.ofList (t.leaves.flatMap Leaf.args)

/-- Whether the tree may share a join with others. -/
def joinable : MatchTree → Bool
  | leaf l => l.joinable
  | combined _ _ => false
  | group _ _ _ => true

/-! ## Construction -/

/-- Joins at least two trees. -/
def combine (j : Connective) (children : List MatchTree) : Except Fault MatchTree :=
  if children.length < 2 then .error .fewChildren else .ok (.combined j children)

/-- Groups at least two trees of a node type. -/
def makeGroup (j : Connective) (nodeType : String) (children : List MatchTree) :
    Except Fault MatchTree :=
  if children.length < 2 then .error .fewGroupMembers
  else if children.any fun t => t.commonNodeType ≠ some nodeType then
    .error (.foreignGroupMember nodeType)
  else .ok (.group j nodeType children)

/-- A single tree as it is, several joined. -/
def joined (j : Connective) : List MatchTree → Except Fault MatchTree
  | [t] => .ok t
  | ts => combine j ts

/-! ## Text -/

mutual

/-- The tree in its notation. -/
def text : MatchTree → String
  | .leaf l => l.text
  | .combined j children => Expression.combinedText j (textAll children)
  | .group j nodeType children =>
    nodeType ++ ":" ++ Expression.combinedText j (textAll children)

/-- Each of the trees in its notation. -/
def textAll : List MatchTree → List String
  | [] => []
  | t :: rest => text t :: textAll rest

end

end MatchTree

end AudienceFilter
