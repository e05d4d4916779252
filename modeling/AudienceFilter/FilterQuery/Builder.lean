import AudienceFilter.Expression
import AudienceFilter.FilterQuery
import AudienceFilter.Schema.Mapping

/-!
# Building filter queries

A builder writes a filter query from fragments, braces and joins. It tracks the open braces of
the main scope and of the join that may be open in it, and reports every command that would give
a malformed query as a fault.

* `Builder.apply` runs one command, and `Builder.result` takes the finished query.
-/

namespace AudienceFilter

/-- The layout of query texts: on one line, or with a line for each member, indented by depth. -/
inductive Style where
  | inline
  | pretty
deriving DecidableEq, Repr

/-- The name of the style. -/
def Style.name : Style → String
  | inline => "Inline"
  | pretty => "Pretty"

/-- The style of a name. -/
def Style.ofName? (s : String) : Option Style := [inline, pretty].find? fun x => x.name = s

/-- Where the next part of the query applies: to main documents, or to the documents of a join. -/
inductive Scope where
  | main
  | nested (nodeType : String)
  | dependent (nodeType : String)
deriving DecidableEq, Repr

/-- The names that every query of an index is written with. -/
structure IndexNames where
  mainType : String
  nodeTypeField : String
  uniqueKeyField : String
  dependentKeyField : String
deriving DecidableEq, Repr

/-- The names of a mapping. -/
def Mapping.indexNames (m : Mapping) : IndexNames where
  mainType := m.main.name
  nodeTypeField := m.nodeTypeField
  uniqueKeyField := m.uniqueKeyField
  dependentKeyField := m.dependentKeyField

/-- A filter query in the making. -/
structure Builder where
  names : IndexNames
  style : Style
  buffer : String
  scope : Scope
  /-- The open braces of the main scope. -/
  mainDepth : Nat
  /-- The open braces inside the join. -/
  joinDepth : Nat
  fields : List QueryField
  kinds : List ConditionKind
deriving DecidableEq, Repr

/-- What a builder can be told to do. -/
inductive Command where
  | openBrace
  | closeBrace
  | openComplement
  | separator (j : Connective)
  | startNested (nodeType : String) (filters : List FilterQuery)
  | startDependent (nodeType : String) (filters : List FilterQuery)
  | endJoin
  | append (fragment : FilterQuery)
deriving DecidableEq, Repr

namespace Builder

/-- A builder with nothing written yet. -/
def fresh (names : IndexNames) (style : Style) : Builder where
  names := names
  style := style
  buffer := ""
  scope := .main
  mainDepth := 0
  joinDepth := 0
  fields := []
  kinds := []

/-- A builder for the given names, which are checked. -/
def make (names : IndexNames) (style : Style) : Except MappingError Builder := do
  let _ ← QueryField.make names.mainType names.nodeTypeField
  let _ ← QueryField.make names.mainType names.uniqueKeyField
  let _ ← QueryField.make names.mainType names.dependentKeyField
  return fresh names style

/-- The builder with everything written so far thrown away. -/
def reset (b : Builder) : Builder := fresh b.names b.style

/-- Whether no join is open. -/
def isAtMain (b : Builder) : Bool := b.scope == .main

/-- The node type that a fragment has to belong to here. -/
def currentNodeType (b : Builder) : String :=
  match b.scope with
  | .main => b.names.mainType
  | .nested nodeType | .dependent nodeType => nodeType

/-- The depth of the text here; a join counts as one brace. -/
def depth (b : Builder) : Nat :=
  match b.scope with
  | .main => b.mainDepth
  | _ => b.mainDepth + 1 + b.joinDepth

/-- Writes a text. -/
def write (b : Builder) (text : String) : Builder := { b with buffer := b.buffer ++ text }

/-- Adds to the fields and kinds of the query. -/
def use (b : Builder) (fields : List QueryField) (kinds : List ConditionKind) : Builder :=
  { b with fields := Sorted.union fields b.fields, kinds := Sorted.union kinds b.kinds }

/-- A new line, indented by the depth here. -/
def newLine (b : Builder) : Builder :=
  b.write (String.ofList ('\n' :: List.replicate (4 * b.depth) ' '))

/-- The white space in front of a connective. -/
def gap (b : Builder) : Builder :=
  match b.style with
  | .inline => b.write " "
  | .pretty => b.newLine

/-- The white space at the ends of a join. -/
def joinGap (b : Builder) : Builder :=
  match b.style with
  | .inline => b
  | .pretty => b.newLine

/-- Writes a connective. -/
def separate (b : Builder) (j : Connective) : Builder := b.gap.write (j.keyword ++ " ")

/-- One more open brace here. -/
def deepen (b : Builder) : Builder :=
  match b.scope with
  | .main => { b with mainDepth := b.mainDepth + 1 }
  | _ => { b with joinDepth := b.joinDepth + 1 }

/-- The open braces here. -/
def openBraces (b : Builder) : Nat :=
  match b.scope with
  | .main => b.mainDepth
  | _ => b.joinDepth

/-- One open brace less here. -/
def rise (b : Builder) : Builder :=
  match b.scope with
  | .main => { b with mainDepth := b.mainDepth - 1 }
  | _ => { b with joinDepth := b.joinDepth - 1 }

/-- Opens a brace. -/
def openBrace (b : Builder) : Builder := (b.write "(").deepen

/-- Closes a brace. -/
def closeBrace (b : Builder) : Except Fault Builder :=
  if b.openBraces = 0 then .error .closeWithoutOpen else .ok (b.rise.write ")")

/-- Opens a brace around the complement of what follows. -/
def openComplement (b : Builder) : Builder := (b.openBrace.write "*:* -").use [] [.allDocs]

/-- Writes a fragment, which has to belong to the node type here. -/
def append (b : Builder) (fragment : FilterQuery) : Except Fault Builder :=
  if fragment.nodeType? = some b.currentNodeType then
    .ok ((b.write fragment.text).use fragment.fields fragment.kinds)
  else .error (.foreignFragment fragment.text b.currentNodeType)

/-- Writes fragments with AND in front of each. -/
def appendAll (b : Builder) : List FilterQuery → Except Fault Builder
  | [] => .ok b
  | fragment :: rest => do
    let b ← (b.separate .and).append fragment
    b.appendAll rest

/-- Opens a join: its header, the node type condition and the document filters, ready for
another member of that conjunction. -/
def startJoin (b : Builder) (scope : Scope) (header nodeType : String)
    (filters : List FilterQuery) : Except Fault Builder := do
  if !b.isAtMain then
    throw (.joinInsideJoin nodeType b.currentNodeType)
  let b := { b.write (header ++ "(") with scope, joinDepth := 0 }
  let b := b.joinGap.write (b.names.nodeTypeField ++ ":" ++ nodeType)
  let b ← b.appendAll filters
  return b.separate .and

/-- The header of a join from nested documents to their main document. -/
def nestedHeader (names : IndexNames) : String :=
  "\x7b!parent which=\"" ++ names.nodeTypeField ++ ":" ++ names.mainType ++ "\"\x7d"

/-- The header of a join from dependent documents to their main document. -/
def dependentHeader (names : IndexNames) : String :=
  "\x7b!join from=" ++ names.dependentKeyField ++ " to=" ++ names.uniqueKeyField ++ "\x7d"

/-- Opens a join on nested documents. -/
def startNested (b : Builder) (nodeType : String) (filters : List FilterQuery) :
    Result Builder := do
  let main ← liftName (QueryField.make b.names.mainType b.names.nodeTypeField)
  let inner ← liftName (QueryField.make nodeType b.names.nodeTypeField)
  let b := b.use [main, inner] [.joinNested, .filterNodeType]
  liftFault (b.startJoin (.nested nodeType) (nestedHeader b.names) nodeType filters)

/-- Opens a join on dependent documents. -/
def startDependent (b : Builder) (nodeType : String) (filters : List FilterQuery) :
    Result Builder := do
  let main ← liftName (QueryField.make b.names.mainType b.names.uniqueKeyField)
  let key ← liftName (QueryField.make nodeType b.names.dependentKeyField)
  let inner ← liftName (QueryField.make nodeType b.names.nodeTypeField)
  let b := b.use [main, key, inner] [.joinDependent, .filterNodeType]
  liftFault (b.startJoin (.dependent nodeType) (dependentHeader b.names) nodeType filters)

/-- Closes the join. -/
def endJoin (b : Builder) : Except Fault Builder :=
  if b.isAtMain then .error .endWithoutJoin
  else if b.joinDepth ≠ 0 then .error (.braceOpenInJoin b.joinDepth b.currentNodeType)
  else .ok ({ b with scope := .main }.joinGap.write ")")

/-- Runs one command. -/
def apply (b : Builder) : Command → Result Builder
  | .openBrace => .ok b.openBrace
  | .closeBrace => liftFault b.closeBrace
  | .openComplement => .ok b.openComplement
  | .separator j => .ok (b.separate j)
  | .startNested nodeType filters => b.startNested nodeType filters
  | .startDependent nodeType filters => b.startDependent nodeType filters
  | .endJoin => liftFault b.endJoin
  | .append fragment => liftFault (b.append fragment)

/-- Takes the finished query and starts afresh. -/
def result (b : Builder) : Except Fault (FilterQuery × Builder) := do
  if !b.isAtMain then
    throw (.resultInsideJoin b.currentNodeType)
  if b.mainDepth ≠ 0 then
    throw (.braceOpenAtResult b.mainDepth)
  if b.fields.isEmpty then
    throw .resultWithoutContent
  let query ← FilterQuery.make b.buffer b.fields b.kinds
  return (query, { b with buffer := "", fields := [], kinds := [] })

/-- The checks of a result, one after the other. -/
theorem result_eq (b : Builder) : b.result =
    if !b.isAtMain then .error (.resultInsideJoin b.currentNodeType)
    else if b.mainDepth ≠ 0 then .error (.braceOpenAtResult b.mainDepth)
    else if b.fields.isEmpty then .error .resultWithoutContent
    else FilterQuery.make b.buffer b.fields b.kinds >>= fun query =>
      .ok (query, { b with buffer := "", fields := [], kinds := [] }) := rfl

end Builder

end AudienceFilter
