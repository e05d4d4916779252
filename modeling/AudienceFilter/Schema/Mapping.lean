import AudienceFilter.Schema.Formatter
import AudienceFilter.Text.Name

/-!
# Mappings

A mapping says in which field of which node type an argument is stored. The documents of a node
type are the main documents themselves, nested in them, or separate documents that depend on a
main document by key. Each node type may carry document filters, fixed conditions that all of
its documents have to meet.
-/

namespace AudienceFilter

/-- How the documents of a node type relate to the main document. -/
inductive Nature where
  | main
  | nested
  | dependent
deriving DecidableEq, Repr

namespace Nature

/-- The name of the nature. -/
def name : Nature → String
  | main => "Main"
  | nested => "Nested"
  | dependent => "Dependent"

/-- The nature of a name. -/
def ofName? (s : String) : Option Nature := [main, nested, dependent].find? fun n => n.name = s

end Nature

/-- A fixed condition on the documents of a node type; its value is a template. -/
structure DocumentFilter where
  nodeType : String
  field : String
  template : String
deriving DecidableEq, Repr

/-- A node type with its document filters. -/
structure NodeType where
  name : String
  nature : Nature
  filters : List DocumentFilter := []
deriving DecidableEq, Repr

/-- The node type with one more document filter. -/
def NodeType.withFilter (t : NodeType) (field template : String) : NodeType :=
  { t with filters := t.filters ++ [{ nodeType := t.name, field, template }] }

/-- A field of a node type. -/
structure Field where
  nodeType : String
  name : String
  type : FieldType
  /-- Whether a document can hold several values. -/
  isCollection : Bool := false

/-- Where an argument is stored. -/
structure Assignment where
  arg : String
  argType : ArgType
  field : Field
  /-- Whether a main document can have several documents of the node type, so that two
  conditions may be met by different ones. -/
  isMultiDoc : Bool := false

/-- What a conversion needs to know about the index. -/
structure Mapping where
  /-- The node type of the main documents. -/
  main : NodeType
  /-- Where an argument is stored. -/
  assignment : String → Except ConversionError Assignment
  /-- A node type by its name. -/
  nodeType : String → Except ConversionError NodeType
  /-- The field that holds the node type of a document. -/
  nodeTypeField : String := "node_type"
  /-- The field that holds the key of a main document. -/
  uniqueKeyField : String := "id"
  /-- The field of a dependent document that holds the key of its main document. -/
  dependentKeyField : String := "main_id"

/-- The node type of the field that an argument is stored in. -/
def Mapping.nodeTypeOf (m : Mapping) (arg : String) : Except ConversionError NodeType := do
  let a ← m.assignment arg
  m.nodeType a.field.nodeType

/-- A node type among those declared. -/
def NodeType.find (types : List NodeType) (name : String) : Except ConversionError NodeType :=
  match types.find? fun t => t.name = name with
  | some t => .ok t
  | none => .error (.unknownNodeType name)

/-- The mapping that stores every argument as text in a field of one node type; the field has
the name of the argument with underscores for hyphens. -/
def Mapping.uniform (main : NodeType) (others : List NodeType) (nodeType : String) : Mapping where
  main := main
  assignment arg := .ok
    { arg
      argType := .string
      field :=
        { nodeType
          name := String.ofList (arg.toList.map fun c => if c = '-' then '_' else c)
          type := { kind := .string } } }
  nodeType := NodeType.find (main :: others)

end AudienceFilter
