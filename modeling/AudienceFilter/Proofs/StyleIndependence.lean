import AudienceFilter.Proofs.Brackets
import AudienceFilter.Proofs.ConsolidatedConditions
import AudienceFilter.Proofs.ScriptAgreement
import AudienceFilter.Proofs.ScriptSteps

/-!
# Styles differ in white space only

Two builders of different styles run the same script side by side. They fail at the same step and
in the same way, and as long as they do not, they stand at the same place and their texts differ
in white space only.

* `Text.squeeze`: a text without its white space;
* `Builder.SameLook`: builders that differ in style and white space only;
* `Builder.corresponds_apply`, `Builder.corresponds_run`: what a command and a script keep;
* `convert_style`: conversions in two styles.
-/

namespace AudienceFilter

/-! ## White space -/

namespace Text

/-- The text without its white space. -/
def squeeze (s : String) : String := String.ofList (s.toList.filter fun c => !isBlank c)

theorem squeeze_append (s t : String) : squeeze (s ++ t) = squeeze s ++ squeeze t := by
  rw [squeeze, String.toList_append, List.filter_append, String.ofList_append]
  rfl

theorem filter_blanks {cs : List Char} (h : ∀ c ∈ cs, isBlank c = true) :
    (cs.filter fun c => !isBlank c) = [] :=
  List.filter_eq_nil_iff.2 fun c hc => by simp [h c hc]

theorem squeeze_blanks {s : String} (h : ∀ c ∈ s.toList, isBlank c = true) : squeeze s = "" := by
  rw [squeeze, filter_blanks h, String.ofList_nil]

theorem squeeze_trim (s : String) : squeeze (trim s) = squeeze s := by
  obtain ⟨front, back, hs, hfront, hback⟩ := exists_blanks_trim s
  rw [squeeze, squeeze, hs, List.filter_append, List.filter_append, filter_blanks hfront,
    filter_blanks hback, List.nil_append, List.append_nil]

/-- Whether anything is left of a text after trimming can be told from what is not white space. -/
theorem isEmpty_trim_eq (s : String) : (trim s).isEmpty = (squeeze s).isEmpty := by
  rw [← squeeze_trim]
  cases h : (trim s).isEmpty with
  | true =>
    rw [String.isEmpty_iff.1 h]
    rfl
  | false =>
    obtain ⟨c, hc, hb⟩ := isBlankText_eq_false.1 (isBlankText_trim h)
    have hmem : c ∈ (trim s).toList.filter fun c => !isBlank c :=
      List.mem_filter.2 ⟨hc, by simp [hb]⟩
    refine (String.isEmpty_eq_false_iff.2 fun hempty => ?_).symm
    rw [String.ofList_eq_empty_iff.1 hempty] at hmem
    cases hmem

end Text

/-! ## Two results -/

/-- Whether two results are the same failure, or values that stand in a relation. -/
inductive Corresponds {ε α β : Type} (R : α → β → Prop) : Except ε α → Except ε β → Prop
  | ok {a : α} {b : β} (h : R a b) : Corresponds R (.ok a) (.ok b)
  | error (e : ε) : Corresponds R (.error e) (.error e)

namespace Corresponds

variable {ε ε' α β γ δ : Type} {R : α → β → Prop} {S : γ → δ → Prop}

theorem bind {x : Except ε α} {y : Except ε β} {f : α → Except ε γ} {g : β → Except ε δ}
    (h : Corresponds R x y) (hf : ∀ a b, R a b → Corresponds S (f a) (g b)) :
    Corresponds S (x >>= f) (y >>= g) := by
  cases h with
  | ok h => exact hf _ _ h
  | error e => exact .error e

theorem bind_same {x : Except ε α} {f : α → Except ε γ} {g : α → Except ε δ}
    (hf : ∀ a, x = .ok a → Corresponds S (f a) (g a)) : Corresponds S (x >>= f) (x >>= g) := by
  cases x with
  | ok a => exact hf a rfl
  | error e => exact .error e

theorem mapError {x : Except ε α} {y : Except ε β} (g : ε → ε') (h : Corresponds R x y) :
    Corresponds R (x.mapError g) (y.mapError g) := by
  cases h with
  | ok h => exact .ok h
  | error e => exact .error _

end Corresponds

/-! ## Two builders -/

/-- Whether the fragments that a command writes have kinds. -/
def Command.Typed : Command → Prop
  | .append q => q.kinds ≠ []
  | .startNested _ qs | .startDependent _ qs => ∀ q ∈ qs, q.kinds ≠ []
  | _ => True

namespace Builder

/-- Whether two builders differ in style and white space only. A query in the making that has
fields has kinds too. -/
structure SameLook (b b' : Builder) : Prop where
  names : b'.names = b.names
  scope : b'.scope = b.scope
  mainDepth : b'.mainDepth = b.mainDepth
  joinDepth : b'.joinDepth = b.joinDepth
  fields : b'.fields = b.fields
  kinds : b'.kinds = b.kinds
  buffer : Text.squeeze b'.buffer = Text.squeeze b.buffer
  typed : b.fields ≠ [] → b.kinds ≠ []

theorem corresponds_make (names : IndexNames) (style style' : Style) :
    Corresponds SameLook (make names style) (make names style') := by
  have hfresh : SameLook (fresh names style) (fresh names style') :=
    ⟨rfl, rfl, rfl, rfl, rfl, rfl, rfl, fun h => absurd rfl h⟩
  exact .bind_same fun _ _ => .bind_same fun _ _ => .bind_same fun _ _ => .ok hfresh

variable {b b' : Builder}

namespace SameLook

theorem isAtMain (h : SameLook b b') : b'.isAtMain = b.isAtMain := by
  rw [Builder.isAtMain, Builder.isAtMain, h.scope]

theorem currentNodeType (h : SameLook b b') : b'.currentNodeType = b.currentNodeType :=
  currentNodeType_of_scope h.names h.scope

theorem openBraces (h : SameLook b b') : b'.openBraces = b.openBraces := by
  rw [Builder.openBraces, Builder.openBraces, h.scope, h.mainDepth, h.joinDepth]

theorem write (h : SameLook b b') (text : String) : SameLook (b.write text) (b'.write text) :=
  { h with
    buffer := by
      show Text.squeeze (b'.buffer ++ text) = Text.squeeze (b.buffer ++ text)
      rw [Text.squeeze_append, Text.squeeze_append, h.buffer] }

theorem use {fields : List QueryField} {kinds : List ConditionKind} (h : SameLook b b')
    (hk : kinds ≠ []) : SameLook (b.use fields kinds) (b'.use fields kinds) :=
  { h with
    fields := by rw [Builder.use, Builder.use, h.fields]
    kinds := by rw [Builder.use, Builder.use, h.kinds]
    typed := by
      intro _
      obtain ⟨k, hk⟩ := List.exists_mem_of_ne_nil kinds hk
      exact List.ne_nil_of_mem (Sorted.mem_union.2 (.inl hk)) }

theorem deepen (h : SameLook b b') : SameLook b.deepen b'.deepen := by
  unfold Builder.deepen
  rw [h.scope, h.mainDepth, h.joinDepth]
  split <;> exact { h with scope := rfl, mainDepth := rfl, joinDepth := rfl }

theorem rise (h : SameLook b b') : SameLook b.rise b'.rise := by
  unfold Builder.rise
  rw [h.scope, h.mainDepth, h.joinDepth]
  split <;> exact { h with scope := rfl, mainDepth := rfl, joinDepth := rfl }

/-- White space of any kind may be written. -/
theorem blanks {s s' : String} (h : SameLook b b') (hs : ∀ c ∈ s.toList, Text.isBlank c = true)
    (hs' : ∀ c ∈ s'.toList, Text.isBlank c = true) : SameLook (b.write s) (b'.write s') :=
  { h with
    buffer := by
      show Text.squeeze (b'.buffer ++ s') = Text.squeeze (b.buffer ++ s)
      rw [Text.squeeze_append, Text.squeeze_append, Text.squeeze_blanks hs,
        Text.squeeze_blanks hs', h.buffer] }

theorem separate (h : SameLook b b') (j : Connective) :
    SameLook (b.separate j) (b'.separate j) := by
  rw [Builder.separate, Builder.separate, gap_eq_write, gap_eq_write]
  exact (h.blanks (b.style.isBlank_gap _) (b'.style.isBlank_gap _)).write _

theorem joinGap (h : SameLook b b') : SameLook b.joinGap b'.joinGap := by
  rw [joinGap_eq_write, joinGap_eq_write]
  exact h.blanks (b.style.isBlank_joinGap _) (b'.style.isBlank_joinGap _)

end SameLook

/-! ## Commands -/

theorem corresponds_closeBrace (h : SameLook b b') :
    Corresponds SameLook b.closeBrace b'.closeBrace := by
  unfold closeBrace
  rw [h.openBraces]
  split
  · exact .error _
  · exact .ok (h.rise.write ")")

theorem corresponds_append {q : FilterQuery} (h : SameLook b b')
    (hq : q.kinds ≠ []) : Corresponds SameLook (b.append q) (b'.append q) := by
  unfold append
  rw [h.currentNodeType]
  split
  · exact .ok ((h.write q.text).use hq)
  · exact .error _

theorem corresponds_appendAll {qs : List FilterQuery} (h : SameLook b b')
    (hq : ∀ q ∈ qs, q.kinds ≠ []) : Corresponds SameLook (b.appendAll qs) (b'.appendAll qs) := by
  induction qs generalizing b b' with
  | nil => exact .ok h
  | cons q qs ih =>
    rw [List.forall_mem_cons] at hq
    exact (corresponds_append (h.separate .and) hq.1).bind fun _ _ h₁ => ih h₁ hq.2

theorem corresponds_startJoin {scope : Scope} {header nodeType : String} {qs : List FilterQuery}
    (h : SameLook b b') (hq : ∀ q ∈ qs, q.kinds ≠ []) :
    Corresponds SameLook (b.startJoin scope header nodeType qs)
      (b'.startJoin scope header nodeType qs) := by
  have hopened : SameLook { b.write (header ++ "(") with scope, joinDepth := 0 }
      { b'.write (header ++ "(") with scope, joinDepth := 0 } :=
    { h.write (header ++ "(") with scope := rfl, joinDepth := rfl }
  have hmain := h.isAtMain
  unfold startJoin
  cases hb : b.isAtMain with
  | false =>
    rw [hmain, hb, h.currentNodeType]
    exact .error _
  | true =>
    rw [hmain, hb]
    refine Corresponds.bind ?_ fun _ _ (h₁ : SameLook _ _) => .ok (h₁.separate .and)
    have hfield : b'.names.nodeTypeField = b.names.nodeTypeField := by rw [h.names]
    dsimp only [write]
    rw [hfield]
    exact corresponds_appendAll (hopened.joinGap.write _) hq

theorem corresponds_endJoin (h : SameLook b b') :
    Corresponds SameLook b.endJoin b'.endJoin := by
  have hmain : SameLook { b with scope := .main }
      { b' with scope := .main, joinDepth := b.joinDepth } :=
    { h with scope := rfl, joinDepth := rfl }
  unfold endJoin
  rw [h.isAtMain, h.joinDepth, h.currentNodeType]
  split
  · exact .error _
  · split
    · exact .error _
    · exact .ok (hmain.joinGap.write ")")

/-- A command keeps two builders at the same look, or fails for both. -/
theorem corresponds_apply {c : Command} (h : SameLook b b') (hc : c.Typed) :
    Corresponds SameLook (b.apply c) (b'.apply c) := by
  cases c with
  | openBrace => exact .ok (h.write "(").deepen
  | closeBrace => exact (corresponds_closeBrace h).mapError _
  | openComplement => exact .ok (((h.write "(").deepen.write _).use (List.cons_ne_nil _ _))
  | separator j => exact .ok (h.separate j)
  | endJoin => exact (corresponds_endJoin h).mapError _
  | append q => exact (corresponds_append h hc).mapError _
  | startNested nodeType qs =>
    show Corresponds SameLook (b.startNested nodeType qs) (b'.startNested nodeType qs)
    unfold startNested
    rw [h.names]
    refine Corresponds.bind_same fun main _ => Corresponds.bind_same fun inner _ => ?_
    have hused : SameLook (b.use [main, inner] [.joinNested, .filterNodeType])
        (b'.use [main, inner] [.joinNested, .filterNodeType]) := h.use (List.cons_ne_nil _ _)
    dsimp only
    rw [hused.names]
    exact (corresponds_startJoin hused hc).mapError _
  | startDependent nodeType qs =>
    show Corresponds SameLook (b.startDependent nodeType qs) (b'.startDependent nodeType qs)
    unfold startDependent
    rw [h.names]
    refine Corresponds.bind_same fun main _ => Corresponds.bind_same fun key _ =>
      Corresponds.bind_same fun inner _ => ?_
    have hused : SameLook (b.use [main, key, inner] [.joinDependent, .filterNodeType])
        (b'.use [main, key, inner] [.joinDependent, .filterNodeType]) :=
      h.use (List.cons_ne_nil _ _)
    dsimp only
    rw [hused.names]
    exact (corresponds_startJoin hused hc).mapError _

/-- A script keeps two builders at the same look, or fails for both. -/
theorem corresponds_run {steps : List Step} (h : SameLook b b')
    (hs : ∀ c, .call c ∈ steps → c.Typed) :
    Corresponds SameLook (b.run steps) (b'.run steps) := by
  induction steps generalizing b b' with
  | nil => exact .ok h
  | cons s steps ih =>
    cases s with
    | fail f => exact .error f
    | call c =>
      refine (corresponds_apply h (hs c List.mem_cons_self)).bind fun _ _ h₁ => ?_
      exact ih h₁ fun c hc => hs c (List.mem_cons_of_mem _ hc)

end Builder

/-! ## Results -/

namespace FilterQuery

/-- The filter query without the white space of its text. -/
def squeezed (q : FilterQuery) : FilterQuery := { q with text := Text.squeeze q.text }

theorem corresponds_make {text text' : String} {fields : List QueryField}
    {kinds : List ConditionKind} (ht : Text.squeeze text' = Text.squeeze text)
    (hf : fields ≠ []) (hk : kinds ≠ []) :
    Corresponds (fun q q' => q'.squeezed = q.squeezed) (make text fields kinds)
      (make text' fields kinds) := by
  have hempty : (Text.trim text').isEmpty = (Text.trim text).isEmpty := by
    rw [Text.isEmpty_trim_eq, Text.isEmpty_trim_eq, ht]
  unfold make
  dsimp only
  rw [hempty, List.isEmpty_eq_false_iff.2 hf, List.isEmpty_eq_false_iff.2 hk]
  split
  · exact .error _
  · refine .ok ?_
    rw [squeezed, squeezed, Text.squeeze_trim, Text.squeeze_trim, ht]

end FilterQuery

namespace Builder

variable {b b' : Builder}

theorem corresponds_result (h : SameLook b b') :
    Corresponds (fun r r' => r'.1.squeezed = r.1.squeezed ∧ SameLook r.2 r'.2)
      b.result b'.result := by
  rw [result_eq, result_eq, h.isAtMain, h.currentNodeType, h.mainDepth, h.fields, h.kinds]
  split
  · exact .error _
  · split
    · exact .error _
    · split
      · exact .error _
      · next hf =>
        have hfields : b.fields ≠ [] := fun hnil => hf (by rw [hnil]; rfl)
        refine (FilterQuery.corresponds_make h.buffer hfields (h.typed hfields)).bind ?_
        exact fun _ _ hq => .ok ⟨hq, { h with
          mainDepth := rfl
          fields := rfl
          kinds := rfl
          buffer := rfl
          typed := fun hnil => absurd rfl hnil }⟩

/-- The queries that scripts write in two styles are the same up to white space. -/
theorem corresponds_runAll {scripts : List (List Step)} (h : SameLook b b')
    (hs : ∀ steps ∈ scripts, ∀ c, .call c ∈ steps → c.Typed) :
    Corresponds (fun qs qs' => qs'.map FilterQuery.squeezed = qs.map FilterQuery.squeezed)
      (b.runAll scripts) (b'.runAll scripts) := by
  induction scripts generalizing b b' with
  | nil => exact .ok rfl
  | cons steps scripts ih =>
    rw [List.forall_mem_cons] at hs
    refine (corresponds_run h hs.1).bind fun _ _ h₁ => ?_
    refine ((corresponds_result h₁).mapError _).bind fun r r' hr => ?_
    refine (ih hr.2 hs.2).bind fun _ _ hqs => .ok ?_
    rw [List.map_cons, List.map_cons, hr.1, hqs]

end Builder

/-! ## Conversions -/

theorem Script.typed_of_issued {ctx : Context} {c : Command} (h : Issued ctx (.call c)) :
    c.Typed := by
  have hfilters : ∀ {nodeType qs}, ctx.documentFilters nodeType = .ok qs →
      ∀ q ∈ qs, q.kinds ≠ [] := by
    intro nodeType qs hqs q hq
    obtain ⟨info, -, hqs⟩ := bind_eq_ok.1 hqs
    obtain ⟨f, -, hf⟩ := mem_of_mapM_eq_ok hqs hq
    exact (Context.on_documentFilter hf).kinds
  cases h with
  | openBrace | closeBrace | openComplement | separator | endJoin => trivial
  | known h =>
    obtain ⟨a, ha, -⟩ := bind_eq_ok.1 h
    exact (Context.on_anyValue (liftError_eq_ok.1 ha) h).kinds
  | found hl h => exact (Context.on_leafFragment hl h).kinds
  | missed hl h => exact (Context.on_leafComplement hl h).kinds
  | nested _ _ hq => exact hfilters hq
  | dependent _ _ hq => exact hfilters hq

namespace Context

/-- Whether two contexts differ in style at most. -/
structure OtherStyle (ctx ctx' : Context) : Prop extends SameData ctx ctx' where
  directives : ctx'.directives = ctx.directives

theorem otherStyle_setVariables (s : Settings) (style : Style) (vars : Variables) :
    OtherStyle ((Context.new s).setVariables vars)
      ((Context.new { s with style }).setVariables vars) := by
  rw [setVariables_new, setVariables_new, refresh_eq, refresh_eq]
  exact ⟨⟨⟨rfl, rfl⟩, rfl⟩, rfl⟩

variable {ctx ctx' : Context}

theorem OtherStyle.runAll_ofRoot (h : OtherStyle ctx ctx') {t : MatchTree}
    (hm : ∀ l ∈ t.leaves, l.Made ctx) (b : Builder) :
    b.runAll (Script.ofRoot ctx' t) = b.runAll (Script.ofRoot ctx t) := by
  have henabled : ∀ d, ctx'.isEnabled d = ctx.isEnabled d := fun d => by
    rw [isEnabled, isEnabled, h.directives]
  have hfollows : ∀ c, Follows (fun _ => False) ctx ctx' c := fun c =>
    ⟨fun _ => henabled _, fun _ => henabled _, fun _ => .inl (henabled _)⟩
  rcases Script.sameUnless_ofRoot h.toSameData hm (fun _ _ c _ => hfollows c) b with hr | ⟨_, hf, _⟩
  · exact hr
  · exact hf.elim

theorem corresponds_filterQueries (h : OtherStyle ctx ctx') (e : Expression) :
    Corresponds (fun qs qs' => qs'.map FilterQuery.squeezed = qs.map FilterQuery.squeezed)
      (ctx.filterQueries e) (ctx'.filterQueries e) := by
  unfold filterQueries
  rw [h.nothing]
  split
  · exact .ok rfl
  · exact .bind_same fun _ _ => .ok rfl
  · rw [h.groupedTree]
    refine .bind_same fun t ht => ?_
    have hm := made_groupedTree ht
    have htyped : ∀ steps ∈ Script.ofRoot ctx t, ∀ c, .call c ∈ steps → c.Typed :=
      fun steps hsteps c hc => Script.typed_of_issued (Script.allIssued_ofRoot hm steps hsteps _ hc)
    unfold MatchTree.filterQueries
    rw [h.mapping]
    refine ((Builder.corresponds_make _ _ _).mapError _).bind fun b b' hb => ?_
    rw [h.runAll_ofRoot hm]
    exact Builder.corresponds_runAll hb htyped

end Context

namespace Definition

/-- Whether two definitions are the same up to the white space in their filter queries. -/
structure SameLook (d d' : Definition) : Prop where
  mainQuery : d'.mainQuery = d.mainQuery
  uniqueKeyField : d'.uniqueKeyField = d.uniqueKeyField
  filterTexts : ∀ text,
    text ∈ d'.filterTexts.map Text.squeeze ↔ text ∈ d.filterTexts.map Text.squeeze

theorem mem_squeezed_make {mainQuery uniqueKeyField text : String} {queries : List FilterQuery} :
    text ∈ (make mainQuery queries uniqueKeyField).filterTexts.map Text.squeeze ↔
      text ∈ (queries.map FilterQuery.squeezed).map FilterQuery.text := by
  rw [List.mem_map]
  simp only [mem_filterTexts_make]
  rw [← List.mem_map, List.map_map, List.map_map]
  rfl

end Definition

theorem Context.corresponds_definition {ctx ctx' : Context} (h : OtherStyle ctx ctx')
    (e : Expression) :
    Corresponds Definition.SameLook (ctx.definition e) (ctx'.definition e) := by
  unfold definition
  rw [h.mainFilter, h.documentFilters, h.mainType, h.mapping]
  refine .bind_same fun main _ => .bind_same fun filters _ => ?_
  refine (corresponds_filterQueries h e.normalized).bind fun qs qs' hqs => .ok ⟨rfl, rfl, ?_⟩
  have hall : (main :: filters ++ qs').map FilterQuery.squeezed =
      (main :: filters ++ qs).map FilterQuery.squeezed := by
    rw [List.map_append, List.map_append, hqs]
  intro text
  rw [Definition.mem_squeezed_make, Definition.mem_squeezed_make, hall]

/-- Pretty and inline conversions fail in the same way, or both succeed; and then they write the
same filter queries one by one, with the same fields and kinds, and with texts that only differ in
white space. -/
theorem convert_style (s : Settings) (e : Expression) (vars : Variables) :
    Corresponds Definition.SameLook (Settings.convert { s with style := .pretty } e vars)
        (Settings.convert { s with style := .inline } e vars) ∧
      Corresponds (fun qs qs' => qs'.map FilterQuery.squeezed = qs.map FilterQuery.squeezed)
        (((Context.new { s with style := .pretty }).setVariables vars).filterQueries e.normalized)
        (((Context.new { s with style := .inline }).setVariables vars).filterQueries
          e.normalized) := by
  have h := Context.otherStyle_setVariables { s with style := .pretty } .inline vars
  exact ⟨Context.corresponds_definition h e, Context.corresponds_filterQueries h e.normalized⟩

end AudienceFilter
