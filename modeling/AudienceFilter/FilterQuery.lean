import AudienceFilter.Fault
import AudienceFilter.Sorted
import AudienceFilter.Text.Blank
import AudienceFilter.Text.Name

/-!
# Filter queries

A filter query is a query text together with the fields that it refers to and the kinds of
conditions that it is made of.
-/

namespace AudienceFilter

/-- A field of a node type that a query refers to. -/
structure QueryField where
  nodeType : String
  name : String
deriving DecidableEq, Repr

namespace QueryField

/-- Checks both names. -/
def make (nodeType name : String) : Except MappingError QueryField :=
  if !Text.isName nodeType then .error (.invalidName .nodeType nodeType)
  else if !Text.isName name then .error (.invalidName .field name)
  else .ok { nodeType, name }

/-- Node type and field name with a point between them. -/
def text (f : QueryField) : String := f.nodeType ++ "." ++ f.name

instance : Ord QueryField :=
  ⟨fun a b => (compare a.nodeType b.nodeType).then (compare a.name b.name)⟩

instance : Std.LawfulEqOrd QueryField where
  compare_self {a} := by
    show (compare a.nodeType a.nodeType).then (compare a.name a.name) = .eq
    simp
  eq_of_compare {a b} h := by
    have h : (compare a.nodeType b.nodeType).then (compare a.name b.name) = .eq := h
    rw [Ordering.then_eq_eq, Std.LawfulEqOrd.compare_eq_iff_eq,
      Std.LawfulEqOrd.compare_eq_iff_eq] at h
    cases a; cases b; simp_all

end QueryField

/-- What a condition in a query asks for. -/
inductive ConditionKind where
  | allDocs
  | filterNodeType
  | filterDocument
  | anyValue
  | value
  | contains
  | range
  | funcRange
  | joinNested
  | joinDependent
deriving DecidableEq, Repr

namespace ConditionKind

/-- The name of the kind. -/
def name : ConditionKind → String
  | allDocs => "AllDocs"
  | filterNodeType => "FilterNodeType"
  | filterDocument => "FilterDocument"
  | anyValue => "AnyValue"
  | value => "Value"
  | contains => "Contains"
  | range => "Range"
  | funcRange => "FuncRange"
  | joinNested => "JoinNested"
  | joinDependent => "JoinDependent"

/-- Every kind, in order. -/
def all : List ConditionKind := [allDocs, filterNodeType, filterDocument, anyValue, value,
  contains, range, funcRange, joinNested, joinDependent]

/-- The kind of a name. -/
def ofName? (s : String) : Option ConditionKind := all.find? fun k => k.name = s

/-- The place of the kind in the order. -/
def rank : ConditionKind → Nat
  | allDocs => 0
  | filterNodeType => 1
  | filterDocument => 2
  | anyValue => 3
  | value => 4
  | contains => 5
  | range => 6
  | funcRange => 7
  | joinNested => 8
  | joinDependent => 9

instance : Ord ConditionKind := ⟨fun a b => compare a.rank b.rank⟩

instance : Std.LawfulEqOrd ConditionKind where
  compare_self {a} := by
    show compare a.rank a.rank = .eq
    simp
  eq_of_compare {a b} h := by
    have h : a.rank = b.rank := Std.LawfulEqOrd.eq_of_compare (show compare a.rank b.rank = .eq from h)
    cases a <;> cases b <;> first | rfl | exact absurd h (by decide)

end ConditionKind

/-- A query text with the fields and the kinds of conditions in it, both as sets. -/
structure FilterQuery where
  text : String
  fields : List QueryField
  kinds : List ConditionKind
deriving DecidableEq, Repr

namespace FilterQuery

/-- A filter query from a text that is not blank, without the white space at its ends, and from
at least one field and one kind. -/
def make (text : String) (fields : List QueryField) (kinds : List ConditionKind) :
    Except Fault FilterQuery :=
  let text := Text.trim text
  if text.isEmpty then .error .blankQuery
  else if fields.isEmpty then .error (.queryWithoutField text)
  else if kinds.isEmpty then .error (.queryWithoutKind text)
  else .ok { text, fields := Sorted.ofList fields, kinds := Sorted.ofList kinds }

/-- The node type of all fields, if they share one. -/
def nodeType? (q : FilterQuery) : Option String :=
  match q.fields with
  | [] => none
  | first :: rest => if rest.all fun f => f.nodeType = first.nodeType then some first.nodeType else none

end FilterQuery

end AudienceFilter
