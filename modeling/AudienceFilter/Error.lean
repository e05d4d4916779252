import AudienceFilter.Schema.FieldKind
import AudienceFilter.Text.Quoted

/-!
# Errors

What a mapping is refused for (`MappingError`) and what the conversion of an expression fails
with (`ConversionError`), each cause with its text.
-/

namespace AudienceFilter

/-- What a refused name was meant for. -/
inductive NameRole where
  | nodeType
  | field
  | keyField
deriving DecidableEq, Repr

/-- The role in words. -/
def NameRole.text : NameRole → String
  | nodeType => "node type"
  | field => "field"
  | keyField => "key field"

/-- Why a mapping is refused. -/
inductive MappingError where
  | invalidName (role : NameRole) (name : String)
  | duplicateNodeType (name : String)
  | secondMainNodeType (name : String)
  | undeclaredNodeType (nodeType referencedBy : String)
  | invalidArg (arg : String)
  | duplicateArg (arg : String)
  | incompatibleTypes (arg : String) (argType : ArgType) (kind : FieldKind)
  | multiDocOnMain (arg : String)
  | blankDocumentFilter (nodeType field : String)
deriving DecidableEq, Repr

/-- The text of the error. -/
def MappingError.message : MappingError → String
  | invalidName role name => s!"Invalid {role.text} name: {Text.quote name}"
  | duplicateNodeType name => s!"Duplicate node type: {name}"
  | secondMainNodeType name => s!"Node type {name} cannot be a second main node type"
  | undeclaredNodeType nodeType referencedBy =>
    s!"Node type {nodeType} referenced by {referencedBy} is not declared"
  | invalidArg arg => s!"Invalid argument name: {Text.quote arg}"
  | duplicateArg arg => s!"Duplicate argument: {arg}"
  | incompatibleTypes arg argType kind =>
    s!"Argument {arg} of type {argType.name} cannot be stored in a field of type {kind.name}"
  | multiDocOnMain arg =>
    s!"Argument {arg} is mapped to the main document and cannot be multi-doc"
  | blankDocumentFilter nodeType field =>
    s!"Document filter {field} of node type {nodeType} must not be blank"

/-- Why a comparison is not possible. -/
inductive Refusal where
  | disabledByDirective
  | unsupportedKind (kind : FieldKind)
  | incompatibleKinds (left right : FieldKind)
  | nodeTypeMismatch (left right : String)
  | collectionField (field : String)
deriving DecidableEq, Repr

/-- The reason in words. -/
def Refusal.text : Refusal → String
  | disabledByDirective => "disabled by directive"
  | unsupportedKind kind => s!"not supported by type {kind.name}"
  | incompatibleKinds left right => s!"incompatible types {left.name} and {right.name}"
  | nodeTypeMismatch left right =>
    s!"fields live on different node types ({left} vs. {right})"
  | collectionField field => s!"collection field {field} cannot be used in a function query"

/-- Why an expression cannot be converted. -/
inductive ConversionError where
  | noMapping (arg : String)
  | unknownNodeType (name : String)
  | containsNotSupported (arg : String) (reason : Refusal)
  | orderNotSupported (arg : String) (reason : Refusal)
  | referenceNotSupported (arg other : String) (reason : Refusal)
  | formatting (arg value reason : String)
  | unresolvedVariable (name : String)
  | mapping (e : MappingError)
deriving DecidableEq, Repr

/-- The stage that a conversion error belongs to. -/
inductive ErrorKind where
  | lookup
  | capability
  | formatting
  | configuration
deriving DecidableEq, Repr

namespace ConversionError

/-- The text of the error. -/
def message : ConversionError → String
  | noMapping arg => s!"No mapping found for argument {arg}"
  | unknownNodeType name => s!"Unknown node type: {name}"
  | containsNotSupported arg reason =>
    s!"CONTAINS is not supported for argument {arg}: {reason.text}"
  | orderNotSupported arg reason =>
    s!"Less than / greater than is not supported for argument {arg}: {reason.text}"
  | referenceNotSupported arg other reason =>
    s!"Reference match not supported ({arg} vs. @{other}): {reason.text}"
  | formatting arg value reason =>
    s!"Unable to format value {Text.quote value} of argument {arg}: {reason}"
  | unresolvedVariable name => "Unresolved variable $\x7b" ++ name ++ "\x7d"
  | mapping e => s!"Configuration error: {e.message}"

/-- The stage that the error belongs to. -/
def kind : ConversionError → ErrorKind
  | noMapping _ | unknownNodeType _ | unresolvedVariable _ => .lookup
  | containsNotSupported _ _ | orderNotSupported _ _ | referenceNotSupported _ _ _ => .capability
  | formatting _ _ _ => .formatting
  | mapping _ => .configuration

end ConversionError

/-- Takes a refused mapping as a failed conversion. -/
def liftMapping {α : Type} (r : Except MappingError α) : Except ConversionError α :=
  r.mapError .mapping

end AudienceFilter
