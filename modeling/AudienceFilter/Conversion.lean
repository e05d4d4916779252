import AudienceFilter.Definition
import AudienceFilter.MatchTree.Consolidated
import AudienceFilter.MatchTree.Grouped
import AudienceFilter.MatchTree.OfExpression
import AudienceFilter.Script

/-!
# Conversion

The query definition of an expression: the expression is normalized, its strict negations get
their guards, and its match tree is built, consolidated, grouped and written into filter queries.
The filters of the main node type apply to every definition.
-/

namespace AudienceFilter

namespace Context

/-- The filter query that, beside the filter on main documents, no document passes. -/
def nothing (ctx : Context) : Result FilterQuery := do
  let main ← ctx.mainFilter
  let field ← liftName (QueryField.make ctx.mainType ctx.mapping.nodeTypeField)
  liftFault (FilterQuery.make ("(*:* -" ++ main.text ++ ")") [field] [.allDocs, .filterNodeType])

/-- The grouped match tree of a normalized expression. -/
def groupedTree (ctx : Context) (e : Expression) : Result MatchTree := do
  let tree ← MatchTree.ofExpression ctx e.guarded
  let consolidated ← tree.consolidated ctx
  consolidated.grouped ctx

/-- The filter queries of a normalized expression. -/
def filterQueries (ctx : Context) (e : Expression) : Result (List FilterQuery) := do
  match e with
  | .extent .all => return []
  | .extent .none =>
    let q ← ctx.nothing
    return [q]
  | _ =>
    let tree ← ctx.groupedTree e
    tree.filterQueries ctx

/-- The query definition of an expression in a context. -/
def definition (ctx : Context) (e : Expression) : Result Definition := do
  let main ← ctx.mainFilter
  let filters ← ctx.documentFilters ctx.mainType
  let queries ← ctx.filterQueries e.normalized
  return .make Definition.allDocuments (main :: filters ++ queries) ctx.mapping.uniqueKeyField

end Context

/-- The query definition of an expression, with variables for this conversion that take
precedence over those of the settings. -/
def Settings.convert (s : Settings) (e : Expression) (bindings : Variables) : Result Definition :=
  ((Context.new s).setVariables bindings).definition e

end AudienceFilter
