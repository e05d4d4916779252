import AudienceFilter.Proofs.ConsolidatedConditions
import AudienceFilter.Proofs.QueryText
import AudienceFilter.Proofs.ScriptAgreement

/-!
# Document filters always apply

The filters of the main documents are filter queries of their own, which sorting and dropping
duplicates does not lose. The filters of other documents are part of every join on them: a join is
a single conjunction that starts with the condition on the node type and the filters, so that
nothing in the join can get around them.

* `DocumentFilter.textWith?`: the text of a filter under variables, which is its field with the
  escaped value unless the value ends in white space (`DocumentFilter.textWith?_eq`);
* `Formula.Filtered`: formulas whose joins all start with their filters;
* `Script.filtered_of_operand`: one case for each kind of operand;
* `Settings.AppliesFilters`, `convert_filters`: definitions.
-/

namespace AudienceFilter

open MatchTree (Grouped)

/-! ## Texts of filters -/

/-- The text of a document filter with the values of variables for its placeholders, if they all
have one. White space at its ends is cut off. -/
def DocumentFilter.textWith? (vars : Variables) (f : DocumentFilter) : Option String :=
  (Text.resolve vars.get? f.template).toOption.map fun value =>
    Text.trim (f.field ++ ":" ++ Text.escape value)

namespace Text

theorem needsEscape_of_isNameChar {c : Char} (h : isNameChar c = true) :
    needsEscape c = false := by
  have hgrammar : grammarChars.contains c = false := by
    have hnone : grammarChars.all (fun d => !isNameChar d) = true := by decide
    rw [List.contains_eq_mem, decide_eq_false_iff_not]
    intro hmem
    have hc := List.all_eq_true.1 hnone c hmem
    rw [h] at hc
    cases hc
  have hblank : isBlank c = false := by
    rw [isNameChar, Char.isAlphanum, Bool.or_eq_true, Bool.or_eq_true, beq_iff_eq] at h
    rcases h with (h | h) | rfl
    · exact isBlank_of_isAlpha h
    · exact isBlank_of_isDigit h
    · decide
  rw [needsEscape, hgrammar, hblank]
  rfl

theorem isNameChar_of_isName {s : String} (h : isName s = true) :
    ∀ c ∈ s.toList, isNameChar c = true := by
  rw [isName] at h
  cases hs : s.toList with
  | nil => exact fun _ hc => absurd hc List.not_mem_nil
  | cons c cs =>
    rw [hs, isNameChars, Bool.and_eq_true, Bool.and_eq_true] at h
    refine List.forall_mem_cons.2 ⟨?_, List.all_eq_true.1 h.1.2⟩
    rw [isNameChar, Char.isAlphanum, h.1.1]
    rfl

/-- A name stands for itself. -/
theorem escape_of_isName {s : String} (h : isName s = true) : escape s = s := by
  have hchars : ∀ cs : List Char, (∀ c ∈ cs, isNameChar c = true) → escapeChars cs = cs := by
    intro cs hcs
    induction cs with
    | nil => rfl
    | cons c cs ih =>
      rw [List.forall_mem_cons] at hcs
      rw [escapeChars_cons, ih hcs.2, escapeChar, needsEscape_of_isNameChar hcs.1]
      rfl
  rw [escape, hchars _ (isNameChar_of_isName h), String.ofList_toList]

theorem endsBlank_of_isName {s : String} (h : isName s = true) : endsBlank s = false := by
  rw [endsBlank, Option.any_eq_false]
  intro c hc
  have hname := needsEscape_of_isNameChar (isNameChar_of_isName h c (List.mem_of_getLast? hc))
  rw [needsEscape, Bool.or_eq_false_iff] at hname
  simp [hname.2]

end Text

/-- Only a value that ends in white space is cut. -/
theorem DocumentFilter.textWith?_eq {vars : Variables} {f : DocumentFilter} {value : String}
    (hf : Text.isName f.field = true) (hv : Text.resolve vars.get? f.template = .ok value)
    (he : Text.endsBlank value = false) :
    f.textWith? vars = some (f.field ++ ":" ++ Text.escape value) := by
  rw [textWith?, hv]
  exact congrArg some (Text.trim_value_of_endsBlank_eq_false hf he)

namespace Context

variable {ctx : Context}

theorem text_mainFilter {q : FilterQuery} (h : ctx.mainFilter = .ok q) :
    q.text = ctx.layout.nodeType ctx.mainType := by
  obtain ⟨field, hfield, h⟩ := bind_eq_ok.1 h
  obtain ⟨hmain, hname, -⟩ := QueryField.make_eq_ok (liftName_eq_ok.1 hfield)
  rw [(FilterQuery.make_eq_ok (liftFault_eq_ok.1 h)).1]
  have htrim := Text.trim_value_of_endsBlank_eq_false hname (Text.endsBlank_of_isName hmain)
  rw [Text.escape_of_isName hmain] at htrim ⊢
  exact htrim

theorem text_nothing {q : FilterQuery} (h : ctx.nothing = .ok q) :
    q.text = "(*:* -" ++ ctx.layout.nodeType ctx.mainType ++ ")" := by
  obtain ⟨main, hmain, h⟩ := bind_eq_ok.1 h
  obtain ⟨field, -, h⟩ := bind_eq_ok.1 h
  have htrim : ∀ text : String, Text.trim ("(*:* -" ++ text ++ ")") = "(*:* -" ++ text ++ ")" := by
    intro text
    have hchars : ("(*:* -" ++ text ++ ")").toList =
        '(' :: ("*:* -".toList ++ text.toList) ++ [')'] := by simp
    rw [Text.trim, hchars, Text.trimChars_between (by decide) (by decide)
      (fun b hb => absurd hb List.not_mem_nil), ← hchars, String.ofList_toList]
  rw [(FilterQuery.make_eq_ok (liftFault_eq_ok.1 h)).1, text_mainFilter hmain]
  exact htrim _

theorem textWith?_of_documentFilter {f : DocumentFilter} {q : FilterQuery}
    (h : ctx.documentFilter f = .ok q) : f.textWith? ctx.bindings = some q.text := by
  obtain ⟨value, hvalue, h⟩ := bind_eq_ok.1 h
  obtain ⟨field, -, h⟩ := bind_eq_ok.1 h
  have hresolve : Text.resolve ctx.bindings.get? f.template = .ok value :=
    mapError_eq_ok.1 (liftError_eq_ok.1 hvalue)
  rw [DocumentFilter.textWith?, hresolve, (FilterQuery.make_eq_ok (liftFault_eq_ok.1 h)).1]
  rfl

/-- The document filters of a node type, in their order. -/
theorem texts_documentFilters {nodeType : String} {qs : List FilterQuery}
    (h : ctx.documentFilters nodeType = .ok qs) :
    ∃ info, ctx.mapping.nodeType nodeType = .ok info ∧
      info.filters.map (DocumentFilter.textWith? ctx.bindings) = qs.map fun q => some q.text := by
  obtain ⟨info, hi, h⟩ := bind_eq_ok.1 h
  refine ⟨info, liftError_eq_ok.1 hi, (map_of_mapM_eq_ok h fun f _ q hq => ?_).symm⟩
  exact (textWith?_of_documentFilter hq).symm

end Context

/-! ## Joins -/

/-- Whether every join of a formula is one conjunction that starts with the condition on its node
type and all document filters of the node type, in their order, and goes on with further members. -/
inductive Formula.Filtered (m : Mapping) (vars : Variables) : Formula Term → Prop
  | atom (a : Term) : Filtered m vars (.atom a)
  | complement {f : Formula Term} (h : Filtered m vars f) : Filtered m vars (.complement f)
  | combined {j : Connective} {members : List (Formula Term)}
      (h : ∀ f ∈ members, Filtered m vars f) : Filtered m vars (.combined j members)
  | join {nodeType : String} {info : NodeType} {filters : List FilterQuery}
      {members : List (Formula Term)} (hi : m.nodeType nodeType = .ok info)
      (hf : info.filters.map (DocumentFilter.textWith? vars) = filters.map fun q => some q.text)
      (hne : members ≠ []) (h : ∀ f ∈ members, Filtered m vars f) :
      Filtered m vars (.join nodeType (.combined .and (.atom (.nodeType nodeType) ::
        (filters.map fun q => .atom (.fragment q)) ++ members)))

namespace Script

variable {ctx : Context} {here : String} {steps : List Step}

/-- A join is issued with the document filters of its node type. -/
theorem documentFilters_of_issued {c : Command} {nodeType : String} {qs : List FilterQuery}
    (h : Issued ctx (.call c)) (hc : c.Opens nodeType qs) :
    ctx.documentFilters nodeType = .ok qs := by
  rcases hc with rfl | rfl
  · cases h with
    | nested _ _ hq => exact hq
  · cases h with
    | dependent _ _ hq => exact hq

theorem filtered_members {j : Connective} {members : List (List Step × Formula (Labelled ctx))}
    (h : ∀ m ∈ members, AllIssued ctx m.1 → Succeeds m.1 →
      (m.2.map Labelled.term).Filtered ctx.mapping ctx.bindings)
    (hi : AllIssued ctx (separated j (members.map Prod.fst)))
    (hs : Succeeds (separated j (members.map Prod.fst))) :
    ∀ f ∈ (members.map Prod.snd).map (Formula.map Labelled.term),
      f.Filtered ctx.mapping ctx.bindings := by
  rw [allIssued_separated, List.forall_mem_map] at hi
  have hs := List.forall_mem_map.1 (succeeds_separated hs)
  rw [List.forall_mem_map, List.forall_mem_map]
  exact fun m hm => h m hm (hi m hm) (hs m hm)

/-- The joins of an operand start with their filters. -/
theorem filtered_of_operand {φ : Formula (Labelled ctx)} (h : Operand ctx here steps φ)
    (hi : AllIssued ctx steps) (hs : Succeeds steps) :
    (φ.map Labelled.term).Filtered ctx.mapping ctx.bindings := by
  induction h with
  | failed f rest φ => exact absurd List.mem_cons_self (hs f)
  | fragment ha hq =>
    rw [Formula.map]
    exact .atom _
  | brace hlen h ih =>
    rw [braced, allIssued_cons, allIssued_append] at hi
    rw [braced, succeeds_cons_call, succeeds_append] at hs
    rw [Formula.map_combined]
    exact .combined (filtered_members ih hi.2.1 hs.1)
  | complement h ih =>
    rw [allIssued_cons, allIssued_append] at hi
    rw [succeeds_cons_call, succeeds_append] at hs
    rw [Formula.map]
    exact .complement (ih hi.2.1 hs.1)
  | @join nodeType c qs filters members hc hn hf hq hne h ih =>
    rw [allIssued_cons, allIssued_append] at hi
    rw [succeeds_cons_call, succeeds_append] at hs
    obtain ⟨info, hinfo, htexts⟩ :=
      Context.texts_documentFilters (documentFilters_of_issued hi.1 hc)
    rw [map_term_join hf]
    exact .join hinfo htexts (by simpa using hne) (filtered_members ih hi.2.1 hs.1)

theorem filtered_of_query {φ : Formula (Labelled ctx)} (h : Query ctx steps φ)
    (hi : AllIssued ctx steps) (hs : Succeeds steps) :
    (φ.map Labelled.term).Filtered ctx.mapping ctx.bindings := by
  cases h with
  | operand h => exact filtered_of_operand h hi hs
  | combined hlen h =>
    rw [Formula.map_combined]
    exact .combined (filtered_members (fun m hm => filtered_of_operand (h m hm)) hi hs)

end Script

/-! ## Definitions -/

/-- Every filter query of a tree has the text of the formula that a script of the tree is read as,
and the joins of this formula are filtered. -/
theorem MatchTree.filtered_filterQueries {ctx : Context} {t : MatchTree} {qs : List FilterQuery}
    (hctx : ctx.Checked) (ht : Grouped ctx t) (hm : ∀ l ∈ t.leaves, l.Made ctx)
    (h : t.filterQueries ctx = .ok qs) :
    ∀ q ∈ qs, ∃ steps ∈ Script.ofRoot ctx t, ∃ f brace, Script.read? steps = some f ∧
      q.text = Text.trim (ctx.layout.text brace 0 f) ∧ f.Filtered ctx.mapping ctx.bindings := by
  obtain ⟨b, hb, h⟩ := bind_eq_ok.1 h
  obtain rfl := Builder.make_eq_ok (liftName_eq_ok.1 hb)
  have hissued := Script.allIssued_ofRoot hm
  obtain ⟨-, hs⟩ := Script.succeeds_of_runAll h
  have hquery : ∀ steps ∈ Script.ofRoot ctx t, ∃ φ, Script.Query ctx steps φ := by
    refine List.forall_mem_map.2 fun c hc => ?_
    obtain ⟨φ, hφ, -⟩ := Script.asks_grouped hctx (Script.grouped_parts ht c hc)
    exact ⟨φ, hφ⟩
  have hwrites : ∀ steps ∈ Script.ofRoot ctx t,
      ∃ text, Script.Writes ctx ctx.mainType steps text := by
    intro steps hsteps
    obtain ⟨φ, hφ⟩ := hquery steps hsteps
    obtain ⟨brace, hw⟩ := Script.writes_of_query hφ (hissued steps hsteps)
    exact ⟨_, hw⟩
  intro q hq
  obtain ⟨steps, hsteps, htext⟩ := Script.exists_script_of_runAll hwrites
    ⟨rfl, rfl, fun _ => rfl⟩ rfl rfl rfl h q hq
  obtain ⟨φ, hφ⟩ := hquery steps hsteps
  have hi := hissued steps hsteps
  obtain ⟨brace, hw⟩ := Script.writes_of_query hφ hi
  have htext := htext _ hw
  exact ⟨steps, hsteps, φ.map Labelled.term, brace, Script.read?_of_query hφ (hs steps hsteps),
    htext, Script.filtered_of_query hφ hi (hs steps hsteps)⟩

namespace Context

theorem texts_filterQueries {ctx : Context} {e : Expression} {qs : List FilterQuery}
    (hctx : ctx.Checked) (h : ctx.filterQueries e = .ok qs) :
    ∀ q ∈ qs, q.text = "(*:* -" ++ ctx.layout.nodeType ctx.mainType ++ ")" ∨
      ∃ t, ctx.groupedTree e = .ok t ∧ ∃ steps ∈ Script.ofRoot ctx t, ∃ f brace,
        Script.read? steps = some f ∧ q.text = Text.trim (ctx.layout.text brace 0 f) ∧
        f.Filtered ctx.mapping ctx.bindings := by
  unfold filterQueries at h
  split at h
  · obtain rfl := pure_eq_ok.1 h
    exact fun q hq => absurd hq List.not_mem_nil
  · obtain ⟨q, hq, h⟩ := bind_eq_ok.1 h
    obtain rfl := pure_eq_ok.1 h
    exact List.forall_mem_singleton.2 (.inl (text_nothing hq))
  · obtain ⟨t, ht, h⟩ := bind_eq_ok.1 h
    have hfiltered := MatchTree.filtered_filterQueries hctx (grouped_groupedTree ht)
      (made_groupedTree ht) h
    exact fun q hq => .inr ⟨t, ht, hfiltered q hq⟩

theorem bindings_setVariables (s : Settings) (vars : Variables) :
    ((Context.new s).setVariables vars).bindings = s.bindings.setAll vars := by
  rw [setVariables_new, refresh_eq]

end Context

theorem Catalog.nodeType_main (cat : Catalog) :
    cat.toMapping.nodeType cat.toMapping.main.name = .ok cat.toMapping.main := by
  simp [toMapping, nodeTypes, NodeType.find]

/-- Whether a definition applies all document filters. The condition on the main documents and
their filters are filter queries of their own; and a filter query that is none of those, and does
not exclude all main documents, is written for a formula with filtered joins. -/
structure Settings.AppliesFilters (s : Settings) (e : Expression) (vars : Variables)
    (d : Definition) : Prop where
  main : s.mapping.nodeTypeField ++ ":" ++ s.mapping.main.name ∈ d.filterTexts
  filters : ∀ f ∈ s.mapping.main.filters,
    ∃ text ∈ d.filterTexts, f.textWith? (s.bindings.setAll vars) = some text
  others : ∀ text ∈ d.filterTexts,
    text = s.mapping.nodeTypeField ++ ":" ++ s.mapping.main.name ∨
    (∃ f ∈ s.mapping.main.filters, f.textWith? (s.bindings.setAll vars) = some text) ∨
    text = "(*:* -" ++ (s.mapping.nodeTypeField ++ ":" ++ s.mapping.main.name) ++ ")" ∨
    ∃ ctx t, ctx = (Context.new s).setVariables vars ∧ ctx.groupedTree e.normalized = .ok t ∧
      ∃ steps ∈ Script.ofRoot ctx t, ∃ f brace, Script.read? steps = some f ∧
        text = Text.trim (ctx.layout.text brace 0 f) ∧
        f.Filtered s.mapping (s.bindings.setAll vars)

/-- A filter of the main documents is the query for its value, unless the value ends in white
space. -/
theorem Settings.AppliesFilters.mem_filterTexts {s : Settings} {e : Expression} {vars : Variables}
    {d : Definition} {f : DocumentFilter} {value : String} (h : s.AppliesFilters e vars d)
    (hf : f ∈ s.mapping.main.filters) (hn : Text.isName f.field = true)
    (hv : Text.resolve (s.bindings.setAll vars).get? f.template = .ok value)
    (he : Text.endsBlank value = false) :
    f.field ++ ":" ++ Text.escape value ∈ d.filterTexts := by
  obtain ⟨text, ht, htext⟩ := h.filters f hf
  rw [DocumentFilter.textWith?_eq hn hv he, Option.some.injEq] at htext
  exact htext ▸ ht

/-- Under a mapping that was built, every definition applies all document filters, resolved with
the variables of the conversion. -/
theorem convert_filters {b : Draft} {cat : Catalog} {s : Settings} {e : Expression}
    {vars : Variables} {d : Definition} (hb : b.build = .ok cat) (hm : s.mapping = cat.toMapping)
    (h : s.convert e vars = .ok d) : s.AppliesFilters e vars d := by
  have hmapping := Context.mapping_setVariables s vars
  have hbindings := Context.bindings_setVariables s vars
  obtain ⟨ctx, hctx⟩ : ∃ ctx, ctx = (Context.new s).setVariables vars := ⟨_, rfl⟩
  have h : ctx.definition e = .ok d := hctx ▸ h
  rw [← hctx] at hmapping hbindings
  obtain ⟨main, hmain, h⟩ := bind_eq_ok.1 h
  obtain ⟨filters, hfilters, h⟩ := bind_eq_ok.1 h
  obtain ⟨qs, hqs, h⟩ := bind_eq_ok.1 h
  obtain rfl := pure_eq_ok.1 h
  have hnode : ctx.layout.nodeType ctx.mainType =
      s.mapping.nodeTypeField ++ ":" ++ s.mapping.main.name := by
    rw [← hmapping]
    rfl
  have hmain : main.text = s.mapping.nodeTypeField ++ ":" ++ s.mapping.main.name :=
    (Context.text_mainFilter hmain).trans hnode
  obtain ⟨info, hinfo, htexts⟩ := Context.texts_documentFilters hfilters
  have hinfo : info = s.mapping.main := by
    rw [Context.mainType, hmapping, hm, Catalog.nodeType_main] at hinfo
    rw [hm]
    exact (Except.ok.inj hinfo).symm
  rw [hinfo, hbindings] at htexts
  have hqs := Context.texts_filterQueries (Draft.checked hb (hmapping.trans hm)) hqs
  rw [hnode, hmapping, hbindings] at hqs
  constructor
  · rw [Definition.mem_filterTexts_make, ← hmain]
    exact List.mem_map_of_mem List.mem_cons_self
  · intro f hf
    obtain ⟨q, hq, htext⟩ := List.mem_map.1 (htexts ▸ List.mem_map_of_mem hf)
    refine ⟨q.text, Definition.mem_filterTexts_make.2 (List.mem_map_of_mem ?_), htext.symm⟩
    exact List.mem_cons_of_mem _ (List.mem_append_left _ hq)
  · intro text ht
    rw [Definition.mem_filterTexts_make] at ht
    obtain ⟨q, hq, rfl⟩ := List.mem_map.1 ht
    rcases List.mem_cons.1 hq with rfl | hq
    · exact .inl hmain
    · rcases List.mem_append.1 hq with hq | hq
      · have hmem := List.mem_map_of_mem (f := fun q => some q.text) hq
        rw [← htexts] at hmem
        obtain ⟨f, hf, htext⟩ := List.mem_map.1 hmem
        exact .inr (.inl ⟨f, hf, htext⟩)
      · rcases hqs q hq with htext | ⟨t, ht, hfiltered⟩
        · exact .inr (.inr (.inl htext))
        · exact .inr (.inr (.inr ⟨ctx, t, hctx, ht, hfiltered⟩))

/-- Accounts of a tenant, with open orders of a region. -/
def Draft.orders : Draft where
  main :=
    { name := "account", nature := .main, filters := [⟨"account", "tenant", "$\x7btenant\x7d"⟩] }
  others := [{ name := "order", nature := .nested, filters :=
    [⟨"order", "region", "$\x7bregion\x7d"⟩, ⟨"order", "state", "open"⟩] }]
  assignments := [
    { arg := "name", argType := .string,
      field := { nodeType := "account", name := "name", type := { kind := .string } } },
    { arg := "item", argType := .string,
      field := { nodeType := "order", name := "item", type := { kind := .string } } },
    { arg := "shop", argType := .string,
      field := { nodeType := "order", name := "shop", type := { kind := .string } } }]

/-- The catalog of the draft. -/
def Catalog.orders : Catalog where
  main := Draft.orders.main
  others := Draft.orders.others
  assignments := Draft.orders.assignments
  policies := []
  nodeTypeField := "node_type"
  uniqueKeyField := "id"
  dependentKeyField := "main_id"

/-- Settings with a region of their own. -/
def Settings.orders : Settings where
  mapping := Catalog.orders.toMapping
  bindings := [("tenant", "acme"), ("region", "north")]

/-- Either of two conditions on an order, and a name. -/
def Expression.ordered : Expression :=
  .combined .and [.combined .or [.condition (.withOperator "item" .equals "pen"),
    .condition (.withOperator "shop" .equals "Oslo")],
    .condition (.withOperator "name" .equals "Ada")]

theorem convert_filters_ordered :
    Draft.orders.build = .ok Catalog.orders ∧
      ∃ d, Settings.orders.convert .ordered [("region", "south")] = .ok d ∧
        d.filterTexts = ["name:Ada", "node_type:account", "tenant:acme",
          "\x7b!parent which=\"node_type:account\"\x7d(node_type:order AND region:south AND " ++
            "state:open AND (item:pen OR shop:Oslo))"] ∧
        Settings.orders.AppliesFilters .ordered [("region", "south")] d := by
  have hd : ((Settings.orders.convert .ordered [("region", "south")]).toOption.map
      Definition.filterTexts) = some ["name:Ada", "node_type:account", "tenant:acme",
        "\x7b!parent which=\"node_type:account\"\x7d(node_type:order AND region:south AND " ++
          "state:open AND (item:pen OR shop:Oslo))"] := by
    decide +kernel
  obtain ⟨d, hok, htexts⟩ := Option.map_eq_some_iff.1 hd
  have hok := eq_ok_of_toOption hok
  exact ⟨rfl, d, hok, htexts, convert_filters (b := .orders) rfl rfl hok⟩

end AudienceFilter
