import AudienceFilter.Schema.Policy

/-!
# Catalogs

A catalog is a mapping that was checked as a whole: declared node types, explicit assignments,
and policies for the arguments that have none. A `Draft` collects its parts and `Draft.build`
checks them.
-/

namespace AudienceFilter

/-- The parts of a catalog before they are checked. -/
structure Draft where
  main : NodeType
  others : List NodeType := []
  assignments : List Assignment := []
  policies : List Policy := []
  nodeTypeField : String := "node_type"
  uniqueKeyField : String := "id"
  dependentKeyField : String := "main_id"

/-- A checked mapping. -/
structure Catalog where
  main : NodeType
  others : List NodeType
  assignments : List Assignment
  policies : List Policy
  nodeTypeField : String
  uniqueKeyField : String
  dependentKeyField : String

/-- Refuses a text that is no name. -/
def checkName (role : NameRole) (name : String) : Except MappingError Unit :=
  if Text.isName name then .ok () else .error (.invalidName role name)

/-- Checks one document filter of a node type. -/
def checkFilter (nodeType : String) (f : DocumentFilter) : Except MappingError Unit := do
  checkName .field f.field
  if f.nodeType ≠ nodeType then
    throw (.undeclaredNodeType f.nodeType f.field)
  if Text.isBlankText f.template then
    throw (.blankDocumentFilter nodeType f.field)

/-- Checks the name and the document filters of a node type. -/
def checkNodeType (t : NodeType) : Except MappingError Unit := do
  checkName .nodeType t.name
  t.filters.forM (checkFilter t.name)

/-- Checks an assignment against the declared node types, the main one first. -/
def checkAssignment (main : String) (declared : List String) (a : Assignment) :
    Except MappingError Unit := do
  if Text.isBlankText a.arg then
    throw (.invalidArg a.arg)
  checkName .field a.field.name
  if !declared.contains a.field.nodeType then
    throw (.undeclaredNodeType a.field.nodeType a.arg)
  if !a.argType.fits a.field.type.kind then
    throw (.incompatibleTypes a.arg a.argType a.field.type.kind)
  if a.isMultiDoc && a.field.nodeType == main then
    throw (.multiDocOnMain a.arg)

/-- Checks further node types, given the names declared before them. -/
def checkNodeTypes (declared : List String) : List NodeType → Except MappingError Unit
  | [] => .ok ()
  | t :: rest => do
    checkNodeType t
    if t.nature = .main then
      throw (.secondMainNodeType t.name)
    if declared.contains t.name then
      throw (.duplicateNodeType t.name)
    checkNodeTypes (t.name :: declared) rest

/-- Checks assignments, given the arguments assigned before them. -/
def checkAssignments (main : String) (declared assigned : List String) :
    List Assignment → Except MappingError Unit
  | [] => .ok ()
  | a :: rest => do
    checkAssignment main declared a
    if assigned.contains a.arg then
      throw (.duplicateArg a.arg)
    checkAssignments main declared (a.arg :: assigned) rest

namespace Draft

/-- The names of the node types, the main one first. -/
def declared (d : Draft) : List String := d.main.name :: d.others.map NodeType.name

/-- Checks the draft: the key fields, the node types and the assignments, each in order. The
first node type is the main one whatever nature it was given. -/
def build (d : Draft) : Except MappingError Catalog := do
  [d.nodeTypeField, d.uniqueKeyField, d.dependentKeyField].forM (checkName .keyField)
  let main := { d.main with nature := .main }
  checkNodeType main
  checkNodeTypes [main.name] d.others
  checkAssignments main.name d.declared [] d.assignments
  return {
    main
    others := d.others
    assignments := d.assignments
    policies := d.policies
    nodeTypeField := d.nodeTypeField
    uniqueKeyField := d.uniqueKeyField
    dependentKeyField := d.dependentKeyField }

end Draft

namespace Catalog

/-- The declared node types, the main one first. -/
def nodeTypes (c : Catalog) : List NodeType := c.main :: c.others

/-- Where an argument is stored: as assigned, or by the first policy that knows it. What a policy
says is checked like an assignment. -/
def assignment (c : Catalog) (arg : String) : Except ConversionError Assignment :=
  match c.assignments.find? fun a => a.arg = arg with
  | some a => .ok a
  | none =>
    match c.policies.findSome? fun policy => policy arg with
    | some a => do
      liftMapping (checkAssignment c.main.name (c.nodeTypes.map NodeType.name) a)
      return a
    | none => .error (.noMapping arg)

/-- The catalog as a mapping. -/
def toMapping (c : Catalog) : Mapping where
  main := c.main
  assignment := c.assignment
  nodeType := NodeType.find c.nodeTypes
  nodeTypeField := c.nodeTypeField
  uniqueKeyField := c.uniqueKeyField
  dependentKeyField := c.dependentKeyField

end Catalog

end AudienceFilter
