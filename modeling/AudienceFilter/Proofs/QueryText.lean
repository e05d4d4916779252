import AudienceFilter.Proofs.BuilderCalls
import AudienceFilter.Proofs.ScriptSteps

/-!
# Texts of formulas

A builder writes text piece by piece. Read as a whole, this text is that of the formula that the
script says: the members of a level stand side by side with its connective between them, and a
combination that is a member of another level has a brace of its own.

* `Layout.text`: the text of a formula;
* `Builder.Wrote`: what a builder has written on the way from one place to another;
* `Script.writes_of_operand`, `Script.writes_of_query`: a script writes the text of its formula;
* `Script.exists_script_of_runAll`: the texts of filter queries.
-/

namespace AudienceFilter

/-! ## Texts -/

/-- What stands between the members of a level at a depth. -/
def Style.separator (style : Style) (j : Connective) (depth : Nat) : String :=
  style.gap depth ++ (j.keyword ++ " ")

/-- How formulas are laid out. -/
structure Layout where
  names : IndexNames
  style : Style
  /-- The header of a join on a node type. -/
  header : String → String

namespace Layout

variable (l : Layout)

/-- The condition on the node type of a document. -/
def nodeType (name : String) : String := l.names.nodeTypeField ++ ":" ++ name

/-- The text of an atom. -/
def term : Term → String
  | .nodeType name => l.nodeType name
  | .fragment q => q.text

mutual

/-- The text of a formula at a depth. A combination stands in a brace, unless it is a level as a
whole: that of a filter query or of a join. -/
def text (braced : Bool) (depth : Nat) : Formula Term → String
  | .atom a => l.term a
  | .complement f => "(*:* -" ++ text true (depth + 1) f ++ ")"
  | .combined j members =>
    if braced then
      "(" ++ String.intercalate (l.style.separator j (depth + 1)) (texts (depth + 1) members) ++ ")"
    else String.intercalate (l.style.separator j depth) (texts depth members)
  | .join nodeType f =>
    l.header nodeType ++ "(" ++ l.style.joinGap (depth + 1) ++ text false (depth + 1) f ++
      l.style.joinGap depth ++ ")"

/-- The texts of the members of a level. -/
def texts (depth : Nat) : List (Formula Term) → List String
  | [] => []
  | f :: rest => text true depth f :: texts depth rest

end

theorem texts_eq_map (depth : Nat) (fs : List (Formula Term)) :
    l.texts depth fs = fs.map (l.text true depth) := by
  induction fs with
  | nil => rfl
  | cons f fs ih => rw [texts, ih, List.map_cons]

/-- The text of a level. -/
def level (j : Connective) (depth : Nat) (fs : List (Formula Term)) : String :=
  String.intercalate (l.style.separator j depth) (fs.map (l.text true depth))

theorem text_level (j : Connective) (depth : Nat) (fs : List (Formula Term)) :
    l.text false depth (.combined j fs) = l.level j depth fs := by
  rw [text, if_neg Bool.false_ne_true, texts_eq_map, level]

theorem text_braced (j : Connective) (depth : Nat) (fs : List (Formula Term)) :
    l.text true depth (.combined j fs) = "(" ++ l.level j (depth + 1) fs ++ ")" := by
  rw [text, if_pos rfl, texts_eq_map, level]

theorem text_join (nodeType : String) (depth : Nat) (fs : List (Formula Term)) :
    l.text true depth (.join nodeType (.combined .and fs)) =
      l.header nodeType ++ "(" ++ l.style.joinGap (depth + 1) ++ l.level .and (depth + 1) fs ++
        l.style.joinGap depth ++ ")" := by
  rw [text, text_level]

theorem level_append {j : Connective} {depth : Nat} {fs gs : List (Formula Term)} (hf : fs ≠ [])
    (hg : gs ≠ []) :
    l.level j depth (fs ++ gs) =
      l.level j depth fs ++ l.style.separator j depth ++ l.level j depth gs := by
  rw [level, List.map_append]
  exact String.intercalate_append_of_ne_nil (by simpa using hf) (by simpa using hg)

end Layout

/-- The header of a join on a node type: that of its nature. -/
def Context.joinHeader (ctx : Context) (nodeType : String) : String :=
  match ctx.mapping.nodeType nodeType with
  | .error _ => ""
  | .ok info =>
    if info.nature = .dependent then Builder.dependentHeader ctx.mapping.indexNames
    else Builder.nestedHeader ctx.mapping.indexNames

/-- The layout of the queries of a context. -/
def Context.layout (ctx : Context) : Layout where
  names := ctx.mapping.indexNames
  style := ctx.settings.style
  header := ctx.joinHeader

/-! ## Builders -/

namespace Builder

/-- The depth of the text at a place. -/
def Place.depth (p : Place) : Nat :=
  match p.scope with
  | .main => p.mainDepth
  | _ => p.mainDepth + 1 + p.openBraces

theorem depth_eq (b : Builder) : b.depth = b.place.depth := by
  cases hs : b.scope <;> simp [depth, place, Place.depth, openBraces, hs]

theorem Place.depth_deepen (p : Place) : p.deepen.depth = p.depth + 1 := by
  cases hs : p.scope <;> simp [Place.deepen, Place.depth, hs] <;> omega

theorem Place.depth_join {names : IndexNames} {scope : Scope} {nodeType : String} {depth : Nat}
    (hs : Joined scope nodeType) : Place.depth ⟨names, scope, depth, 0⟩ = depth + 1 := by
  rcases hs with rfl | rfl <;> rfl

/-- Whether a builder has come to a place and has written a text on the way. -/
structure Wrote (b : Builder) (p : Place) (text : String) (b' : Builder) : Prop where
  place : b'.place = p
  style : b'.style = b.style
  buffer : b'.buffer = b.buffer ++ text

namespace Wrote

variable {b b₁ b₂ : Builder} {p : Place} {s : String}

theorem depth (h : b.Wrote p s b₁) : b₁.depth = p.depth := by rw [depth_eq, h.place]

theorem write (h : b.Wrote p s b₁) (text : String) : b.Wrote p (s ++ text) (b₁.write text) where
  place := h.place
  style := h.style
  buffer := by rw [Builder.write, h.buffer, String.append_assoc]

theorem joinGap (h : b.Wrote p s b₁) : b.Wrote p (s ++ b.style.joinGap p.depth) b₁.joinGap := by
  rw [joinGap_eq_write, h.depth, h.style]
  exact h.write _

theorem separate (h : b.Wrote p s b₁) (j : Connective) :
    b.Wrote p (s ++ b.style.separator j p.depth) (b₁.separate j) := by
  rw [Builder.separate, gap_eq_write, h.depth, h.style, Style.separator, ← String.append_assoc]
  exact (h.write _).write _

theorem append {q : FilterQuery} (h : b.Wrote p s b₁) (hb : b₁.append q = .ok b₂) :
    b.Wrote p (s ++ q.text) b₂ := by
  have hwrite := h.write q.text
  rw [append_eq_ok hb]
  exact ⟨hwrite.place, hwrite.style, hwrite.buffer⟩

/-- Fragments that are written behind a first member make up a level with it. -/
theorem appendAll {qs : List FilterQuery} {first : String} (h : b.Wrote p (s ++ first) b₁)
    (hb : b₁.appendAll qs = .ok b₂) :
    b.Wrote p (s ++ String.intercalate (b.style.separator .and p.depth)
      (first :: qs.map FilterQuery.text)) b₂ := by
  induction qs generalizing b₁ first with
  | nil =>
    obtain rfl := Except.ok.inj hb
    rwa [List.map_nil, String.intercalate_singleton]
  | cons q qs ih =>
    obtain ⟨b', hb', hb⟩ := bind_eq_ok.1 hb
    have hfirst := (h.separate .and).append hb'
    rw [String.append_assoc, String.append_assoc] at hfirst
    have hlevel := ih hfirst hb
    rw [String.intercalate_cons_append, String.intercalate_cons_append] at hlevel
    rwa [List.map_cons, String.intercalate_cons_cons, String.append_assoc]

theorem openBrace (h : b.Wrote p s b₁) : b.Wrote p.deepen (s ++ "(") b₁.openBrace where
  place := by rw [place_openBrace, h.place]
  style := by
    rw [Builder.openBrace, deepen]
    split <;> exact h.style
  buffer := by
    rw [Builder.openBrace, deepen]
    split <;> exact (h.write "(").buffer

theorem closeBrace (h : b.Wrote p.deepen s b₁) (hb : b₁.closeBrace = .ok b₂) :
    b.Wrote p (s ++ ")") b₂ := by
  unfold Builder.closeBrace at hb
  split at hb
  · cases hb
  · obtain rfl := Except.ok.inj hb
    have hrise : b.Wrote p s b₁.rise := by
      refine ⟨by rw [place_rise, h.place, Place.rise_deepen], ?_, ?_⟩
      · rw [rise]
        split <;> exact h.style
      · rw [rise]
        split <;> exact h.buffer
    exact hrise.write ")"

/-- A join starts with the condition on the node type and the document filters, and goes on with
another member. -/
theorem startJoin {scope : Scope} {header nodeType : String} {qs : List FilterQuery}
    (h : b.Wrote p s b₁) (hs : Joined scope nodeType)
    (hb : b₁.startJoin scope header nodeType qs = .ok b₂) :
    b.Wrote ⟨p.names, scope, p.mainDepth, 0⟩
      (s ++ (header ++ "(") ++ b.style.joinGap (p.mainDepth + 1) ++
        String.intercalate (b.style.separator .and (p.mainDepth + 1))
          ((p.names.nodeTypeField ++ ":" ++ nodeType) :: qs.map FilterQuery.text) ++
        b.style.separator .and (p.mainDepth + 1)) b₂ := by
  obtain ⟨-, filtered, hfiltered, rfl⟩ := startJoin_eq_ok hb
  have hnames : b₁.names = p.names := congrArg Place.names h.place
  have hmain : b₁.mainDepth = p.mainDepth := congrArg Place.mainDepth h.place
  have hopened : b.Wrote ⟨p.names, scope, p.mainDepth, 0⟩ (s ++ (header ++ "("))
      { b₁.write (header ++ "(") with scope, joinDepth := 0 } := by
    refine ⟨?_, h.style, (h.write _).buffer⟩
    rw [← hnames, ← hmain]
    rcases hs with rfl | rfl <;> rfl
  rw [hnames] at hfiltered
  have hlevel := ((hopened.joinGap.write _).appendAll hfiltered).separate .and
  rwa [Place.depth_join hs] at hlevel

theorem endJoin {names : IndexNames} {scope : Scope} {depth : Nat}
    (h : b.Wrote ⟨names, scope, depth, 0⟩ s b₁) (hb : b₁.endJoin = .ok b₂) :
    b.Wrote ⟨names, .main, depth, depth⟩ (s ++ b.style.joinGap depth ++ ")") b₂ := by
  unfold Builder.endJoin at hb
  split at hb
  · cases hb
  · split at hb
    · cases hb
    · obtain rfl := Except.ok.inj hb
      have hclosed : b.Wrote ⟨names, .main, depth, depth⟩ s { b₁ with scope := .main } := by
        refine ⟨?_, h.style, h.buffer⟩
        obtain ⟨rfl, -, rfl, -⟩ := Place.mk.inj h.place
        rfl
      exact hclosed.joinGap.write ")"

end Wrote

end Builder

/-! ## Scripts -/

namespace Script

open Builder (At Wrote Place Joined)

variable {ctx : Context} {here : String} {steps : List Step} {text : Nat → String}

/-- Whether steps on a node type write a text, which depends on the depth, and bring a builder back
to its place. -/
def Writes (ctx : Context) (here : String) (steps : List Step) (text : Nat → String) : Prop :=
  ∀ (b b₁ b₂ : Builder) (p : Place) (s : String), b.Wrote p s b₁ → b₁.At ctx here →
    b.style = ctx.settings.style → b₁.run steps = .ok b₂ → b.Wrote p (s ++ text p.depth) b₂

theorem writes_append (q : FilterQuery) : Writes ctx here [.call (.append q)] fun _ => q.text := by
  intro b b₁ b₂ p s h _ _ hr
  obtain ⟨b', hb', hr⟩ := bind_eq_ok.1 hr
  obtain rfl := Except.ok.inj hr
  exact h.append (liftFault_eq_ok.1 hb')

theorem writes_separated {α : Type} {j : Connective} {xs : List α} {part : α → List Step}
    {text : α → Nat → String} (hne : xs ≠ []) (h : ∀ x ∈ xs, Writes ctx here (part x) (text x)) :
    Writes ctx here (separated j (xs.map part)) fun depth =>
      String.intercalate (ctx.settings.style.separator j depth) (xs.map fun x => text x depth) := by
  induction xs with
  | nil => exact absurd rfl hne
  | cons x xs ih =>
    rw [List.forall_mem_cons] at h
    cases xs with
    | nil =>
      simp only [List.map_cons, List.map_nil, separated_singleton, String.intercalate_singleton]
      exact h.1
    | cons y ys =>
      intro b b₁ b₂ p s hw hb hstyle hr
      rw [List.map_cons, List.map_cons, separated_cons_cons, Builder.run_append] at hr
      obtain ⟨b', hb', hr⟩ := bind_eq_ok.1 hr
      obtain ⟨b'', hb'', hr⟩ := bind_eq_ok.1 hr
      obtain rfl := Except.ok.inj hb''
      have hfirst := h.1 b b₁ b' p s hw hb hstyle hb'
      have hsep := hfirst.separate j
      have hplace : (b'.separate j).place = b₁.place := hsep.place.trans hw.place.symm
      have hrest := ih (List.cons_ne_nil _ _) h.2 b _ b₂ p _ hsep (hb.of_place hplace) hstyle hr
      rw [hstyle, String.append_assoc, String.append_assoc] at hrest
      dsimp only
      rwa [List.map_cons, List.map_cons, String.intercalate_cons_cons, String.append_assoc]

/-- Steps between a brace that opens and one that closes. -/
theorem wrote_closeBrace {b opened b₂ : Builder} {p : Place} {s : String}
    (h : Writes ctx here steps text) (hw : b.Wrote p.deepen s opened) (hb : opened.At ctx here)
    (hstyle : b.style = ctx.settings.style)
    (hr : opened.run (steps ++ [.call .closeBrace]) = .ok b₂) :
    b.Wrote p (s ++ (text (p.depth + 1) ++ ")")) b₂ := by
  rw [Builder.run_append] at hr
  obtain ⟨inner, hinner, hr⟩ := bind_eq_ok.1 hr
  obtain ⟨closed, hclosed, hr⟩ := bind_eq_ok.1 hr
  obtain rfl := Except.ok.inj hr
  have hw := h b opened inner p.deepen s hw hb hstyle hinner
  rw [Place.depth_deepen] at hw
  rw [← String.append_assoc]
  exact hw.closeBrace (liftFault_eq_ok.1 hclosed)

theorem writes_braced (h : Writes ctx here steps text) :
    Writes ctx here (braced steps) fun depth => "(" ++ text (depth + 1) ++ ")" := by
  intro b b₁ b₂ p s hw hb hstyle hr
  have hbraced := wrote_closeBrace h hw.openBrace hb.openBrace hstyle hr
  dsimp only
  rwa [String.append_assoc] at hbraced ⊢

theorem writes_complement (h : Writes ctx here steps text) :
    Writes ctx here (.call .openComplement :: (steps ++ [.call .closeBrace])) fun depth =>
      "(*:* -" ++ text (depth + 1) ++ ")" := by
  intro b b₁ b₂ p s hw hb hstyle hr
  have hopened : b.Wrote p.deepen (s ++ "(*:* -") b₁.openComplement := by
    have hwrite := hw.openBrace.write "*:* -"
    rw [String.append_assoc] at hwrite
    exact ⟨hwrite.place, hwrite.style, hwrite.buffer⟩
  have hbraced := wrote_closeBrace h hopened (hb.openBrace.of_place rfl) hstyle hr
  dsimp only
  rwa [String.append_assoc] at hbraced ⊢

/-- A join that is issued has the header of its node type. -/
theorem exists_startJoin {c : Command} {nodeType : String} {qs : List FilterQuery}
    {b b' : Builder} (hi : Issued ctx (.call c)) (hc : c.Opens nodeType qs)
    (hn : b.names = ctx.mapping.indexNames) (h : b.apply c = .ok b') :
    ∃ scope fields kinds, Joined scope nodeType ∧
      (b.use fields kinds).startJoin scope (ctx.joinHeader nodeType) nodeType qs = .ok b' := by
  rcases hc with rfl | rfl
  · obtain ⟨main, -, h⟩ := bind_eq_ok.1 h
    obtain ⟨inner, -, h⟩ := bind_eq_ok.1 h
    cases hi with
    | nested hi hnature =>
      have hheader : ctx.joinHeader nodeType = Builder.nestedHeader b.names := by
        simp [Context.joinHeader, hi, hnature, hn]
      exact ⟨.nested nodeType, [main, inner], [.joinNested, .filterNodeType], .inl rfl,
        hheader ▸ liftFault_eq_ok.1 h⟩
  · obtain ⟨main, -, h⟩ := bind_eq_ok.1 h
    obtain ⟨key, -, h⟩ := bind_eq_ok.1 h
    obtain ⟨inner, -, h⟩ := bind_eq_ok.1 h
    cases hi with
    | dependent hi hnature =>
      have hheader : ctx.joinHeader nodeType = Builder.dependentHeader b.names := by
        simp [Context.joinHeader, hi, hnature, hn]
      exact ⟨.dependent nodeType, [main, key, inner], [.joinDependent, .filterNodeType], .inr rfl,
        hheader ▸ liftFault_eq_ok.1 h⟩

theorem writes_join {c : Command} {nodeType : String} {qs : List FilterQuery}
    (hi : Issued ctx (.call c)) (hc : c.Opens nodeType qs) (hn : ctx.mainType ≠ nodeType)
    (h : Writes ctx nodeType steps text) :
    Writes ctx ctx.mainType (.call c :: (steps ++ [.call .endJoin])) fun depth =>
      ctx.joinHeader nodeType ++ "(" ++ ctx.settings.style.joinGap (depth + 1) ++
        (String.intercalate (ctx.settings.style.separator .and (depth + 1))
          (ctx.layout.nodeType nodeType :: qs.map FilterQuery.text) ++
        ctx.settings.style.separator .and (depth + 1) ++ text (depth + 1)) ++
        ctx.settings.style.joinGap depth ++ ")" := by
  intro b b₁ b₂ p s hw hb hstyle hr
  obtain ⟨opened, hopened, hr⟩ := bind_eq_ok.1 hr
  rw [Builder.run_append] at hr
  obtain ⟨inner, hinner, hr⟩ := bind_eq_ok.1 hr
  obtain ⟨closed, hclosed, hr⟩ := bind_eq_ok.1 hr
  obtain rfl := Except.ok.inj hr
  obtain ⟨scope, fields, kinds, hs, hopened⟩ := exists_startJoin hi hc hb.names hopened
  have hused : b.Wrote p s (b₁.use fields kinds) := ⟨hw.place, hw.style, hw.buffer⟩
  have hopened := hused.startJoin hs hopened
  obtain ⟨hnames, hscope, -, -⟩ := Place.mk.inj hopened.place
  have hat : opened.At ctx nodeType := by
    refine ⟨?_, ?_, fun he => absurd he.symm hn⟩
    · rw [hnames, ← hw.place]
      exact hb.names
    · rcases hs with rfl | rfl <;> rw [Builder.currentNodeType, hscope]
  have hinner := h b opened inner _ _ hopened hat hstyle hinner
  have hclosed := hinner.endJoin (liftFault_eq_ok.1 hclosed)
  have hp : p = ⟨p.names, .main, p.mainDepth, p.mainDepth⟩ := by
    rw [← hw.place, Builder.place, Builder.openBraces, hb.main rfl]
  have hdepth : p.depth = p.mainDepth := by rw [hp, Place.depth]
  have hcondition : p.names.nodeTypeField ++ ":" ++ nodeType = ctx.layout.nodeType nodeType := by
    rw [Layout.nodeType, ← hw.place, Builder.place, hb.names, Context.layout]
  rw [← hp, hcondition, hstyle, Place.depth_join hs] at hclosed
  dsimp only
  rw [hdepth]
  simpa only [String.append_assoc] using hclosed

/-! ## Formulas -/

/-- The level that a join starts with. -/
theorem level_ofJoin (l : Layout) (depth : Nat) (nodeType : String) (qs : List FilterQuery) :
    l.level .and depth (Frame.ofJoin nodeType qs).members =
      String.intercalate (l.style.separator .and depth)
        (l.nodeType nodeType :: qs.map FilterQuery.text) := by
  simp [Layout.level, Frame.ofJoin, Layout.text, Layout.term, Function.comp_def]

/-- Members write the level of their formulas. -/
theorem writes_level {j : Connective} {members : List (List Step × Formula (Labelled ctx))}
    (hne : members ≠ []) (h : ∀ m ∈ members, Writes ctx here m.1 fun depth =>
      ctx.layout.text true depth (m.2.map Labelled.term)) :
    Writes ctx here (separated j (members.map Prod.fst)) fun depth =>
      ctx.layout.level j depth ((members.map Prod.snd).map (Formula.map Labelled.term)) := by
  have hlevel := writes_separated (j := j) hne h
  simp only [Layout.level, List.map_map]
  exact hlevel

/-- An operand writes the text of its formula. -/
theorem writes_of_operand {φ : Formula (Labelled ctx)} (h : Operand ctx here steps φ)
    (hi : AllIssued ctx steps) : Writes ctx here steps fun depth =>
      ctx.layout.text true depth (φ.map Labelled.term) := by
  induction h with
  | failed f rest φ =>
    intro b b₁ b₂ p s _ _ _ hr
    cases hr
  | @fragment here a q ha hq =>
    simp only [Formula.map, ha, Layout.text, Layout.term]
    exact writes_append q
  | @brace here j members hlen h ih =>
    have hne : members ≠ [] := List.ne_nil_of_length_pos (by omega)
    rw [braced, allIssued_cons, allIssued_append, allIssued_separated, List.forall_mem_map] at hi
    have hmembers := writes_level (j := j) hne fun m hm => ih m hm (hi.2.1 m hm)
    have hbraced := writes_braced hmembers
    simp only [Formula.map_combined, Layout.text_braced]
    exact hbraced
  | complement h ih =>
    rw [allIssued_cons, allIssued_append] at hi
    have hcomplement := writes_complement (ih hi.2.1)
    simp only [Formula.map, Layout.text]
    exact hcomplement
  | @join nodeType c qs filters members hc hn hf hq hne h ih =>
    rw [allIssued_cons, allIssued_append, allIssued_separated, List.forall_mem_map] at hi
    have hmembers := writes_level (j := .and) hne fun m hm => ih m hm (hi.2.1 m hm)
    have hjoin := writes_join hi.1 hc hn hmembers
    have hstart : (Frame.ofJoin nodeType qs).members ≠ [] := List.cons_ne_nil _ _
    have hrest : (members.map Prod.snd).map (Formula.map Labelled.term) ≠ [] := by simpa using hne
    simp only [map_term_join hf, Layout.text_join, Layout.level_append _ hstart hrest, level_ofJoin]
    exact hjoin

/-- A filter query writes the text of its formula, with a brace around it or without. -/
theorem writes_of_query {φ : Formula (Labelled ctx)} (h : Query ctx steps φ)
    (hi : AllIssued ctx steps) : ∃ brace, Writes ctx ctx.mainType steps fun depth =>
      ctx.layout.text brace depth (φ.map Labelled.term) := by
  cases h with
  | operand h => exact ⟨true, writes_of_operand h hi⟩
  | @combined j members hlen h =>
    have hne : members ≠ [] := List.ne_nil_of_length_pos (by omega)
    rw [allIssued_separated, List.forall_mem_map] at hi
    have hmembers := writes_level (j := j) hne fun m hm => writes_of_operand (h m hm) (hi m hm)
    refine ⟨false, ?_⟩
    simp only [Formula.map_combined, Layout.text_level]
    exact hmembers

/-- Every filter query has the text that a script writes. -/
theorem exists_script_of_runAll {b : Builder} {scripts : List (List Step)} {qs : List FilterQuery}
    (h : ∀ steps ∈ scripts, ∃ text, Writes ctx ctx.mainType steps text)
    (hb : b.At ctx ctx.mainType) (hstyle : b.style = ctx.settings.style) (hd : b.mainDepth = 0)
    (he : b.buffer = "") (hr : b.runAll scripts = .ok qs) :
    ∀ q ∈ qs, ∃ steps ∈ scripts, ∀ text, Writes ctx ctx.mainType steps text →
      q.text = Text.trim (text 0) := by
  induction scripts generalizing b qs with
  | nil =>
    obtain rfl := Except.ok.inj hr
    exact fun q hq => absurd hq List.not_mem_nil
  | cons steps scripts ih =>
    rw [List.forall_mem_cons] at h
    obtain ⟨b₁, hb₁, hr⟩ := bind_eq_ok.1 hr
    obtain ⟨⟨q, b₂⟩, hq, hr⟩ := bind_eq_ok.1 hr
    obtain ⟨rest, hrest, hr⟩ := bind_eq_ok.1 hr
    obtain rfl := pure_eq_ok.1 hr
    obtain ⟨-, -, hmake, rfl⟩ := Builder.result_eq_ok (liftFault_eq_ok.1 hq)
    have hstart : b.Wrote b.place "" b := ⟨rfl, rfl, String.append_empty.symm⟩
    have hdepth : b.place.depth = 0 := by rw [← Builder.depth_eq, Builder.depth, hb.main rfl, hd]
    have hwrote : ∀ text, Writes ctx ctx.mainType steps text → b.Wrote b.place (text 0) b₁ := by
      intro text ht
      have hwrote := ht b b b₁ b.place "" hstart hb hstyle hb₁
      rwa [hdepth, String.empty_append] at hwrote
    refine List.forall_mem_cons.2 ⟨⟨steps, List.mem_cons_self, fun text ht => ?_⟩, ?_⟩
    · rw [(FilterQuery.make_eq_ok hmake).1, (hwrote text ht).buffer, he, String.empty_append]
    · obtain ⟨text, ht⟩ := h.1
      have hback := hwrote text ht
      have hat : At ctx ctx.mainType { b₁ with buffer := "", fields := [], kinds := [] } :=
        hb.of_place hback.place
      have hdepth : b₁.mainDepth = 0 := (congrArg Place.mainDepth hback.place).trans hd
      intro x hx
      obtain ⟨steps', hsteps', htext⟩ :=
        ih h.2 hat (hback.style.trans hstyle) hdepth rfl hrest x hx
      exact ⟨steps', List.mem_cons_of_mem _ hsteps', htext⟩

end Script

end AudienceFilter
