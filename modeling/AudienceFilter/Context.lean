import AudienceFilter.Directive
import AudienceFilter.FilterQuery.Builder
import AudienceFilter.Text.Template

/-!
# Conversion contexts

The settings of a converter, and the context of a single conversion: the variables and the
directives in effect for it. The variable `directives` adds to the directives of the settings.
-/

namespace AudienceFilter

/-- Variables with their values, each name once. -/
abbrev Variables := List (String × String)

namespace Variables

/-- The value of a variable. -/
def get? (vars : Variables) (name : String) : Option String :=
  (vars.find? fun v => v.1 = name).map Prod.snd

/-- Gives a variable a value. -/
def set (vars : Variables) (name value : String) : Variables :=
  if vars.any fun v => v.1 = name then
    vars.map fun v => if v.1 = name then (name, value) else v
  else vars ++ [(name, value)]

/-- Gives several variables their values, one after the other. -/
def setAll (vars new : Variables) : Variables := new.foldl (fun acc v => acc.set v.1 v.2) vars

end Variables

/-- What all conversions of a converter share. -/
structure Settings where
  mapping : Mapping
  bindings : Variables := []
  /-- The directives in effect, as a set. -/
  directives : List Directive := []
  style : Style := .inline

/-- The state of a single conversion. -/
structure Context where
  settings : Settings
  bindings : Variables
  /-- The directives in effect, as a set. -/
  directives : List Directive

namespace Context

/-- The variable that lists directives. -/
def directivesVariable : String := "directives"

/-- Works out the directives in effect. -/
def refresh (ctx : Context) : Context :=
  match ctx.bindings.get? directivesVariable with
  | some list =>
    { ctx with directives := Sorted.union (Directive.parseList list) ctx.settings.directives }
  | none => { ctx with directives := ctx.settings.directives }

theorem refresh_eq (ctx : Context) :
    ctx.refresh =
      { ctx with
        directives := Sorted.union
          ((ctx.bindings.get? directivesVariable).elim [] Directive.parseList)
          ctx.settings.directives } := by
  rw [refresh]
  cases ctx.bindings.get? directivesVariable with
  | none => rfl
  | some list => rfl

/-- A context with the variables and directives of the settings. -/
def new (settings : Settings) : Context :=
  refresh { settings, bindings := settings.bindings, directives := [] }

/-- Goes back to the variables and directives of the settings. -/
def reset (ctx : Context) : Context :=
  refresh { ctx with bindings := ctx.settings.bindings }

/-- Gives a variable a value for this conversion. -/
def setVariable (ctx : Context) (name value : String) : Context :=
  let changed := { ctx with bindings := ctx.bindings.set name value }
  if name = directivesVariable then changed.refresh else changed

/-- Gives several variables their values for this conversion. -/
def setVariables (ctx : Context) (new : Variables) : Context :=
  refresh { ctx with bindings := ctx.bindings.setAll new }

/-- The value of a variable. -/
def valueOf? (ctx : Context) (name : String) : Option String := ctx.bindings.get? name

/-- Whether a directive is in effect. -/
def isEnabled (ctx : Context) (d : Directive) : Bool := ctx.directives.contains d

/-- The mapping of the settings. -/
def mapping (ctx : Context) : Mapping := ctx.settings.mapping

/-- The name of the main node type. -/
def mainType (ctx : Context) : String := ctx.mapping.main.name

/-- Whether a node type is the main one. -/
def isMain (ctx : Context) (nodeType : String) : Bool := ctx.mainType == nodeType

/-- Where an argument is stored. -/
def assignment (ctx : Context) (arg : String) : Except ConversionError Assignment :=
  ctx.mapping.assignment arg

/-- Whether an argument may have its values on several documents. -/
def isMultiDoc (ctx : Context) (arg : String) : Except ConversionError Bool :=
  (ctx.assignment arg).map Assignment.isMultiDoc

/-- Whether an argument is compared by whole days: a date in a field of points in time, unless a
directive forbids it. -/
def alignsDays (ctx : Context) (a : Assignment) : Bool :=
  a.argType == .date && a.field.type.kind.isTimestamp && !ctx.isEnabled .disableAlignment

/-- Whether an argument given by its name is compared by whole days. -/
def alignsDaysOf (ctx : Context) (arg : String) : Except ConversionError Bool :=
  (ctx.assignment arg).map ctx.alignsDays

/-- Replaces the placeholders of a template by variables. -/
def resolve (ctx : Context) (template : String) : Except ConversionError String :=
  (Text.resolve ctx.valueOf? template).mapError .unresolvedVariable

/-- A value of an assigned argument in a query. -/
def formatValue (a : Assignment) (value : String) (op : Operator) :
    Except ConversionError String :=
  a.field.type.format a.arg a.argType value op

/-- The filter query that only main documents pass. -/
def mainFilter (ctx : Context) : Result FilterQuery := do
  let name := ctx.mapping.nodeTypeField
  let field ← liftName (QueryField.make ctx.mainType name)
  liftFault (FilterQuery.make (name ++ ":" ++ Text.escape ctx.mainType) [field] [.filterNodeType])

/-- The filter query of a document filter. -/
def documentFilter (ctx : Context) (f : DocumentFilter) : Result FilterQuery := do
  let value ← liftError (ctx.resolve f.template)
  let field ← liftName (QueryField.make f.nodeType f.field)
  liftFault (FilterQuery.make (f.field ++ ":" ++ Text.escape value) [field] [.filterDocument])

/-- The filter queries of the document filters of a node type. -/
def documentFilters (ctx : Context) (nodeType : String) : Result (List FilterQuery) := do
  let info ← liftError (ctx.mapping.nodeType nodeType)
  info.filters.mapM ctx.documentFilter

end Context

end AudienceFilter
