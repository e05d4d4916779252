import AudienceFilter.Proofs.AppliedFilters
import AudienceFilter.Proofs.QueryFields

/-!
# The fields of a definition

A definition is made from the condition on the main documents, their document filters, and the
filter queries of the expression. Together these have the fields by which the main documents are
found and the fields that are used for the arguments of the normalized expression: no stage of a
conversion loses an argument or makes one up, and no join lacks a field or has one too many.

* `Mapping.accountedFields`: the fields of a definition, from the mapping and the arguments alone;
* `Context.handed`: the filter queries that a definition is made from;
* `Context.fields_handed`, `convert_fields`: they have the accounted fields.
-/

namespace AudienceFilter

/-- The fields that a definition accounts for: those by which the main documents are found, and
those that are used for its arguments. -/
def Mapping.accountedFields (m : Mapping) (args : List String) :
    Except ConversionError (List QueryField) := do
  let documents ← m.documentFields m.main.name
  let parts ← args.mapM (m.argFields m.main.name)
  return documents ++ parts.flatten

theorem Mapping.Accounts.exists_parts {m : Mapping} {here : String} {args : List String}
    {fields : List QueryField} (h : m.Accounts here args fields) :
    ∃ parts, args.mapM (m.argFields here) = .ok parts ∧ ∀ f, f ∈ fields ↔ f ∈ parts.flatten := by
  have hgiven : ∀ arg ∈ args, ∃ part, m.argFields here arg = .ok part ∧ True := by
    intro arg harg
    obtain ⟨part, hpart⟩ := h.given arg harg
    exact ⟨part, hpart, trivial⟩
  obtain ⟨parts, hparts, -, -⟩ := exists_mapM_eq_ok hgiven
  refine ⟨parts, hparts, fun f => ?_⟩
  rw [h.mem, List.mem_flatten]
  constructor
  · rintro ⟨arg, harg, part, hpart, hf⟩
    obtain ⟨part', hmem, hpart'⟩ := exists_of_mapM_eq_ok hparts harg
    obtain rfl := Except.ok.inj (hpart'.symm.trans hpart)
    exact ⟨part', hmem, hf⟩
  · rintro ⟨part, hmem, hf⟩
    obtain ⟨arg, harg, hpart⟩ := mem_of_mapM_eq_ok hparts hmem
    exact ⟨arg, harg, part, hpart, hf⟩

namespace Context

variable {ctx : Context} {e : Expression} {qs : List FilterQuery}

/-- The filter queries that the definition of an expression is made from. -/
def handed (ctx : Context) (e : Expression) : Result (List FilterQuery) := do
  let main ← ctx.mainFilter
  let filters ← ctx.documentFilters ctx.mainType
  let queries ← ctx.filterQueries e.normalized
  return main :: filters ++ queries

theorem definition_eq_map_handed (ctx : Context) (e : Expression) :
    ctx.definition e = (ctx.handed e).map fun qs =>
      .make Definition.allDocuments qs ctx.mapping.uniqueKeyField := by
  unfold definition handed
  cases ctx.mainFilter with
  | error f => rfl
  | ok main =>
    cases ctx.documentFilters ctx.mainType with
    | error f => rfl
    | ok filters =>
      cases ctx.filterQueries e.normalized with
      | error f => rfl
      | ok queries => rfl

theorem mem_fields_mainFilter {q : FilterQuery} (h : ctx.mainFilter = .ok q) {f : QueryField} :
    f ∈ q.fields ↔ f = ⟨ctx.mainType, ctx.mapping.nodeTypeField⟩ := by
  obtain ⟨field, hfield, h⟩ := bind_eq_ok.1 h
  obtain ⟨-, -, rfl⟩ := QueryField.make_eq_ok (liftName_eq_ok.1 hfield)
  rw [FilterQuery.mem_fields_make (liftFault_eq_ok.1 h), List.mem_singleton]

theorem mem_fields_nothing {q : FilterQuery} (h : ctx.nothing = .ok q) {f : QueryField} :
    f ∈ q.fields ↔ f = ⟨ctx.mainType, ctx.mapping.nodeTypeField⟩ := by
  obtain ⟨main, -, h⟩ := bind_eq_ok.1 h
  obtain ⟨field, hfield, h⟩ := bind_eq_ok.1 h
  obtain ⟨-, -, rfl⟩ := QueryField.make_eq_ok (liftName_eq_ok.1 hfield)
  rw [FilterQuery.mem_fields_make (liftFault_eq_ok.1 h), List.mem_singleton]

/-- Alignment makes bounds, none of which asks for an unknown argument. -/
theorem proper_alignDays {t t' : MatchTree} (ht : MatchTree.Plain ctx t)
    (h : MatchTree.alignDays ctx t = .ok t') (hp : t.AllConditions Condition.Proper) :
    t'.AllConditions Condition.Proper := by
  rcases MatchTree.alignDays_cases ht h with ⟨rfl, -⟩ | ⟨l, l', rfl, rfl, hl⟩
  · exact hp
  · refine MatchTree.allConditions_leaf.2 fun c hc hu => ?_
    have hop := (hl.after c hc).op
    rw [hu] at hop
    cases hop

/-- The filter queries of a grouped tree have the fields for the arguments of its expression. -/
theorem accounts_groupedTree {g : MatchTree} (hctx : ctx.Checked) (hs : e.Solid)
    (hp : ∀ c ∈ e.conditions, c.Proper) (hg : ctx.groupedTree e = .ok g)
    (h : g.filterQueries ctx = .ok qs) :
    ctx.mapping.Accounts ctx.mainType e.args (qs.flatMap FilterQuery.fields) := by
  have hproper := allConditions_groupedTree (fun _ _ _ _ _ => rfl)
    (fun _ _ ht halign hP => proper_alignDays ht halign hP) hg hp
  exact (MatchTree.accounts_filterQueries hctx (grouped_groupedTree hg) hproper h).congr
    (fun _ => (mem_args_groupedTree hs hg).symm) fun _ => Iff.rfl

/-- The filter queries of a normalized expression have the fields for its arguments. Where it has
none, they may have the field that holds the node type of the main documents. -/
theorem accounts_normalized (hctx : ctx.Checked) (hp : ∀ c ∈ e.conditions, c.Proper)
    (h : ctx.filterQueries e.normalized = .ok qs) :
    ∃ used, ctx.mapping.Accounts ctx.mainType e.normalized.args used ∧
      used ⊆ qs.flatMap FilterQuery.fields ∧ ∀ f ∈ qs.flatMap FilterQuery.fields,
        f ∈ used ∨ f = ⟨ctx.mainType, ctx.mapping.nodeTypeField⟩ := by
  have hp : ∀ c ∈ e.normalized.conditions, c.Proper := fun c hc =>
    hp c (Expression.mem_conditions_normalized hc)
  rcases Expression.solid_normalized e with ⟨x, hx⟩ | hs
  · -- Everyone or no one: there are no arguments, and at most the query that no document passes.
    have hnone : ctx.mapping.Accounts ctx.mainType e.normalized.args [] := by
      rw [hx]
      exact Mapping.accounts_nil _ _
    refine ⟨[], hnone, List.nil_subset _, fun f hf => .inr ?_⟩
    rw [hx] at h
    cases x with
    | all =>
      obtain rfl := pure_eq_ok.1 h
      exact absurd hf List.not_mem_nil
    | none =>
      obtain ⟨q, hq, h⟩ := bind_eq_ok.1 h
      obtain rfl := pure_eq_ok.1 h
      rw [List.flatMap_singleton] at hf
      exact (mem_fields_nothing hq).1 hf
  · obtain ⟨g, hg, h⟩ := filterQueries_eq_ok hs h
    exact ⟨_, accounts_groupedTree hctx hs hp hg h, List.Subset.refl _, fun f hf => .inl hf⟩

/-- The filter queries that a definition is made from have the accounted fields. -/
theorem fields_handed (hctx : ctx.Checked) (hp : ∀ c ∈ e.conditions, c.Proper)
    (h : ctx.handed e = .ok qs) :
    ∃ fields, ctx.mapping.accountedFields e.normalized.args = .ok fields ∧
      ∀ f, f ∈ qs.flatMap FilterQuery.fields ↔ f ∈ fields := by
  obtain ⟨main, hmain, h⟩ := bind_eq_ok.1 h
  obtain ⟨filters, hfilters, h⟩ := bind_eq_ok.1 h
  obtain ⟨queries, hqueries, h⟩ := bind_eq_ok.1 h
  obtain rfl := pure_eq_ok.1 h
  obtain ⟨info, hinfo, -⟩ := texts_documentFilters hfilters
  obtain ⟨used, hused, hsub, hqueries⟩ := accounts_normalized hctx hp hqueries
  obtain ⟨parts, hparts, hmem⟩ := hused.exists_parts
  have hdocuments : ctx.mapping.documentFields ctx.mainType = .ok
      (⟨ctx.mainType, ctx.mapping.nodeTypeField⟩ ::
        info.filters.map fun d => ⟨ctx.mainType, d.field⟩) := by
    rw [Mapping.documentFields, hinfo]
    rfl
  refine ⟨_, bind_eq_ok.2 ⟨_, hdocuments, bind_eq_ok.2 ⟨parts, hparts, rfl⟩⟩, fun f => ?_⟩
  rw [List.cons_append, List.flatMap_cons, List.flatMap_append, List.mem_append, List.mem_append,
    mem_fields_mainFilter hmain, mem_fields_documentFilters hctx hinfo hfilters, List.mem_append,
    List.mem_cons, ← hmem, or_assoc]
  constructor
  · rintro (hf | hf | hf)
    · exact .inl hf
    · exact .inr (.inl hf)
    · rcases hqueries f hf with hf | hf
      · exact .inr (.inr hf)
      · exact .inl hf
  · rintro (hf | hf | hf)
    · exact .inl hf
    · exact .inr (.inl hf)
    · exact .inr (.inr (hsub hf))

end Context

/-- Under a mapping that was built, the filter queries that a definition is made from have exactly
the fields that its mapping and the arguments of its normalized expression account for. -/
theorem convert_fields {b : Draft} {cat : Catalog} {s : Settings} {e : Expression}
    {vars : Variables} {d : Definition} (hb : b.build = .ok cat) (hm : s.mapping = cat.toMapping)
    (he : ∀ c ∈ e.conditions, c.Proper) (h : s.convert e vars = .ok d) :
    ∃ qs fields, ((Context.new s).setVariables vars).handed e = .ok qs ∧
      d = .make Definition.allDocuments qs cat.uniqueKeyField ∧
      cat.toMapping.accountedFields e.normalized.args = .ok fields ∧
      ∀ f, f ∈ qs.flatMap FilterQuery.fields ↔ f ∈ fields := by
  have hmapping := (Context.mapping_setVariables s vars).trans hm
  rw [Settings.convert, Context.definition_eq_map_handed, map_eq_ok, hmapping] at h
  obtain ⟨qs, hqs, rfl⟩ := h
  obtain ⟨fields, hfields, hmem⟩ := Context.fields_handed (Draft.checked hb hmapping) he hqs
  rw [hmapping] at hfields
  exact ⟨qs, fields, hqs, rfl, hfields, hmem⟩

/-- People of a tenant, with nested homes that are in use, and with orders at a shop that refer to
their person by key. -/
def Draft.buyers : Draft where
  main := { name := "person", nature := .main, filters := [⟨"person", "tenant", "acme"⟩] }
  others := [{ name := "home", nature := .nested, filters := [⟨"home", "state", "used"⟩] },
    { name := "order", nature := .dependent, filters := [⟨"order", "shop", "$\x7bshop\x7d"⟩] }]
  assignments := [
    { arg := "name", argType := .string,
      field := { nodeType := "person", name := "name", type := { kind := .string } } },
    { arg := "city", argType := .string,
      field := { nodeType := "home", name := "city", type := { kind := .string } } },
    { arg := "buyer", argType := .string,
      field := { nodeType := "order", name := "buyer", type := { kind := .string } } },
    { arg := "payer", argType := .string,
      field := { nodeType := "order", name := "payer", type := { kind := .string } } }]

/-- The catalog of the draft. -/
def Catalog.buyers : Catalog where
  main := Draft.buyers.main
  others := Draft.buyers.others
  assignments := Draft.buyers.assignments
  policies := []
  nodeTypeField := "node_type"
  uniqueKeyField := "id"
  dependentKeyField := "main_id"

/-- A name, a home in a known city, and an order that its buyer has paid. The question for the city
carries a value, which says nothing. -/
def Expression.selfPaid : Expression :=
  .combined .and [.condition (.withOperator "name" .equals "Ada"),
    .negation true ((Condition.unknown "city").withValue "Oslo"),
    .condition (.withReference "buyer" .equals "payer")]

theorem convert_fields_selfPaid :
    Draft.buyers.build = .ok Catalog.buyers ∧
      (∀ c ∈ Expression.selfPaid.conditions, c.Proper) ∧
      ∃ d qs, Settings.convert { mapping := Catalog.buyers.toMapping } .selfPaid
          [("shop", "north")] = .ok d ∧
        ((Context.new { mapping := Catalog.buyers.toMapping }).setVariables
          [("shop", "north")]).handed .selfPaid = .ok qs ∧
        d = .make Definition.allDocuments qs "id" ∧
        ∀ f, f ∈ qs.flatMap FilterQuery.fields ↔ f ∈ ([⟨"person", "node_type"⟩,
          ⟨"person", "tenant"⟩, ⟨"person", "name"⟩, ⟨"home", "city"⟩, ⟨"home", "node_type"⟩,
          ⟨"home", "state"⟩, ⟨"person", "node_type"⟩, ⟨"order", "buyer"⟩, ⟨"order", "node_type"⟩,
          ⟨"order", "shop"⟩, ⟨"person", "id"⟩, ⟨"order", "main_id"⟩, ⟨"order", "payer"⟩,
          ⟨"order", "node_type"⟩, ⟨"order", "shop"⟩, ⟨"person", "id"⟩,
          ⟨"order", "main_id"⟩] : List QueryField) := by
  have hproper : ∀ c ∈ Expression.selfPaid.conditions, c.Proper := by decide +kernel
  have hok : (Settings.convert { mapping := Catalog.buyers.toMapping } .selfPaid
      [("shop", "north")]).isOk = true := by
    decide +kernel
  obtain ⟨d, hd⟩ := exists_of_isOk hok
  obtain ⟨qs, fields, hqs, hmake, hfields, hmem⟩ :=
    convert_fields (b := .buyers) rfl rfl hproper hd
  obtain rfl := Except.ok.inj hfields
  exact ⟨rfl, hproper, d, qs, hd, hqs, hmake, hmem⟩

end AudienceFilter
