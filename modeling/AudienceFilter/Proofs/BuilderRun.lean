import AudienceFilter.Proofs.FragmentSafety

/-!
# Builders run scripts

A builder that runs an operand comes back to where it stood: in the same scope, with the same
braces open, and with something written. So it accepts every command of a script that follows the
grammar, and a filter query can be taken at the end.

* `Builder.place`, `Builder.At`: where a builder stands, and on which node type;
* `Runs`: steps that bring a builder back to its place;
* `runs_of_operand`, `yields_runAll`: operands and filter queries run.
-/

namespace AudienceFilter

/-! ## White space -/

namespace Style

/-- A new line, indented by a depth. -/
def newLine (depth : Nat) : String := String.ofList ('\n' :: List.replicate (4 * depth) ' ')

/-- The white space in front of a connective at a depth. -/
def gap (style : Style) (depth : Nat) : String :=
  match style with
  | .inline => " "
  | .pretty => newLine depth

/-- The white space at the ends of a join at a depth. -/
def joinGap (style : Style) (depth : Nat) : String :=
  match style with
  | .inline => ""
  | .pretty => newLine depth

theorem isBlank_newLine (depth : Nat) : ∀ c ∈ (newLine depth).toList, Text.isBlank c = true := by
  rw [newLine, String.toList_ofList, List.forall_mem_cons]
  refine ⟨by decide, fun c hc => ?_⟩
  rw [(List.mem_replicate.1 hc).2]
  decide

theorem isBlank_gap (style : Style) (depth : Nat) :
    ∀ c ∈ (style.gap depth).toList, Text.isBlank c = true := by
  cases style with
  | inline => exact List.all_eq_true.1 (by decide : " ".toList.all Text.isBlank = true)
  | pretty => exact isBlank_newLine depth

theorem isBlank_joinGap (style : Style) (depth : Nat) :
    ∀ c ∈ (style.joinGap depth).toList, Text.isBlank c = true := by
  cases style with
  | inline => exact List.all_eq_true.1 (by decide : "".toList.all Text.isBlank = true)
  | pretty => exact isBlank_newLine depth

end Style

namespace Builder

theorem gap_eq_write (b : Builder) : b.gap = b.write (b.style.gap b.depth) := by
  unfold gap
  cases b.style <;> rfl

theorem joinGap_eq_write (b : Builder) : b.joinGap = b.write (b.style.joinGap b.depth) := by
  unfold joinGap
  cases b.style with
  | inline =>
    show b = b.write ""
    rw [write, String.append_empty]
  | pretty => rfl

/-- The names, the scope and the open braces of a builder. -/
structure Place where
  names : IndexNames
  scope : Scope
  mainDepth : Nat
  openBraces : Nat

/-- One more open brace. -/
def Place.deepen (p : Place) : Place :=
  match p.scope with
  | .main => ⟨p.names, p.scope, p.mainDepth + 1, p.openBraces + 1⟩
  | _ => ⟨p.names, p.scope, p.mainDepth, p.openBraces + 1⟩

/-- One open brace less. -/
def Place.rise (p : Place) : Place :=
  match p.scope with
  | .main => ⟨p.names, p.scope, p.mainDepth - 1, p.openBraces - 1⟩
  | _ => ⟨p.names, p.scope, p.mainDepth, p.openBraces - 1⟩

/-- Where a builder stands. -/
def place (b : Builder) : Place := ⟨b.names, b.scope, b.mainDepth, b.openBraces⟩

/-- Whether a query could be taken from what is written. -/
structure Filled (b : Builder) : Prop where
  text : Text.isBlankText b.buffer = false
  fields : b.fields ≠ []
  kinds : b.kinds ≠ []

/-- Whether a builder stands on a node type. -/
structure At (ctx : Context) (here : String) (b : Builder) : Prop where
  names : b.names = ctx.mapping.indexNames
  nodeType : b.currentNodeType = here
  main : here = ctx.mainType → b.scope = .main

variable {ctx : Context} {here : String} {b b' : Builder}

/-! ## Writing -/

theorem place_write (b : Builder) (text : String) : (b.write text).place = b.place := rfl

theorem place_gap (b : Builder) : b.gap.place = b.place := by
  rw [gap_eq_write, place_write]

theorem place_joinGap (b : Builder) : b.joinGap.place = b.place := by
  rw [joinGap_eq_write, place_write]

theorem place_separate (b : Builder) (j : Connective) :
    (b.separate j).place = b.place := by
  rw [separate, place_write, place_gap]

theorem Filled.write (h : b.Filled) (text : String) : (b.write text).Filled :=
  ⟨Text.isBlankText_append_left h.text, h.fields, h.kinds⟩

theorem Filled.joinGap (h : b.Filled) : b.joinGap.Filled := by
  rw [joinGap_eq_write]
  exact h.write _

theorem currentNodeType_of_scope (hn : b'.names = b.names) (hs : b'.scope = b.scope) :
    b'.currentNodeType = b.currentNodeType := by
  rw [currentNodeType, currentNodeType, hs, hn]

theorem currentNodeType_of_place (h : b'.place = b.place) :
    b'.currentNodeType = b.currentNodeType :=
  currentNodeType_of_scope (congrArg Place.names h) (congrArg Place.scope h)

theorem At.of_scope (h : b.At ctx here) (hn : b'.names = b.names) (hs : b'.scope = b.scope) :
    b'.At ctx here where
  names := hn.trans h.names
  nodeType := (currentNodeType_of_scope hn hs).trans h.nodeType
  main hm := hs.trans (h.main hm)

theorem At.of_place (h : b.At ctx here) (hp : b'.place = b.place) : b'.At ctx here :=
  h.of_scope (congrArg Place.names hp) (congrArg Place.scope hp)

/-- A fragment on the node type here is written. -/
theorem append_of_on {q : FilterQuery} (hq : q.On b.currentNodeType) :
    ∃ b', b.append q = .ok b' ∧ b'.place = b.place ∧ b'.Filled := by
  have hunion : ∀ {α : Type} [Ord α] [Std.LawfulEqOrd α] {xs ys : List α}, xs ≠ [] →
      Sorted.union xs ys ≠ [] := by
    intro α _ _ xs ys hne
    obtain ⟨x, hx⟩ := List.exists_mem_of_ne_nil xs hne
    exact List.ne_nil_of_mem (Sorted.mem_union.2 (.inl hx))
  refine ⟨_, if_pos hq.nodeType?, rfl, ?_⟩
  exact ⟨Text.isBlankText_append_right hq.text, hunion hq.fields, hunion hq.kinds⟩

theorem appendAll_of_on {qs : List FilterQuery} (hq : ∀ q ∈ qs, q.On b.currentNodeType) :
    ∃ b', b.appendAll qs = .ok b' ∧ b'.place = b.place := by
  induction qs generalizing b with
  | nil => exact ⟨b, rfl, rfl⟩
  | cons q qs ih =>
    rw [List.forall_mem_cons] at hq
    have hsep := currentNodeType_of_place (place_separate b .and)
    obtain ⟨b₁, hb₁, hp₁, -⟩ := append_of_on (hsep.symm ▸ hq.1)
    have hp₁ := hp₁.trans (place_separate b .and)
    obtain ⟨b₂, hb₂, hp₂⟩ := ih (currentNodeType_of_place hp₁ ▸ hq.2)
    exact ⟨b₂, bind_eq_ok.2 ⟨b₁, hb₁, hb₂⟩, hp₂.trans hp₁⟩

/-! ## Braces -/

theorem place_deepen (b : Builder) : b.deepen.place = b.place.deepen := by
  obtain ⟨names, style, buffer, scope, mainDepth, joinDepth, fields, kinds⟩ := b
  cases scope <;> rfl

theorem place_rise (b : Builder) : b.rise.place = b.place.rise := by
  obtain ⟨names, style, buffer, scope, mainDepth, joinDepth, fields, kinds⟩ := b
  cases scope <;> rfl

theorem place_openBrace (b : Builder) : b.openBrace.place = b.place.deepen := by
  rw [openBrace, place_deepen, place_write]

theorem Place.deepen_scope (p : Place) :
    p.deepen.names = p.names ∧ p.deepen.scope = p.scope ∧
      p.deepen.openBraces = p.openBraces + 1 := by
  rw [deepen]
  split <;> exact ⟨rfl, rfl, rfl⟩

theorem Place.rise_deepen (p : Place) : p.deepen.rise = p := by
  obtain ⟨names, scope, mainDepth, openBraces⟩ := p
  cases scope <;> rfl

theorem At.openBrace (h : b.At ctx here) : b.openBrace.At ctx here := by
  obtain ⟨hn, hs, -⟩ := b.place.deepen_scope
  rw [← place_openBrace] at hn hs
  exact h.of_scope hn hs

theorem Filled.rise (h : b.Filled) : b.rise.Filled := by
  rw [Builder.rise]
  split <;> exact ⟨h.text, h.fields, h.kinds⟩

/-- A brace that was opened can be closed. -/
theorem closeBrace_of_place (hp : b'.place = b.place.deepen) (hf : b'.Filled) :
    ∃ b'', b'.closeBrace = .ok b'' ∧ b''.place = b.place ∧ b''.Filled := by
  have hopen : b'.openBraces = b.openBraces + 1 :=
    (congrArg Place.openBraces hp).trans b.place.deepen_scope.2.2
  refine ⟨b'.rise.write ")", if_neg ?_, ?_, hf.rise.write ")"⟩
  · rw [hopen]
    exact Nat.succ_ne_zero _
  · rw [place_write, place_rise, hp, Place.rise_deepen]

/-! ## Joins -/

/-- Whether a scope is that of a join on a node type. -/
def Joined (scope : Scope) (nodeType : String) : Prop :=
  scope = .nested nodeType ∨ scope = .dependent nodeType

theorem startJoin_of_on {scope : Scope} {header nodeType : String} {qs : List FilterQuery}
    (hm : b.scope = .main) (hs : Joined scope nodeType) (hq : ∀ q ∈ qs, q.On nodeType) :
    ∃ b', b.startJoin scope header nodeType qs = .ok b' ∧
      b'.place = ⟨b.names, scope, b.mainDepth, 0⟩ := by
  obtain ⟨opened, hopened⟩ : ∃ opened : Builder,
      opened = { b.write (header ++ "(") with scope := scope, joinDepth := 0 } := ⟨_, rfl⟩
  have hplace : opened.place = ⟨b.names, scope, b.mainDepth, 0⟩ := by
    rcases hs with rfl | rfl <;> rw [hopened] <;> rfl
  obtain ⟨started, hstarted⟩ : ∃ started : Builder, started =
      opened.joinGap.write (opened.names.nodeTypeField ++ ":" ++ nodeType) := ⟨_, rfl⟩
  have hsp : started.place = opened.place := by rw [hstarted, place_write, place_joinGap]
  have hnode : started.currentNodeType = nodeType := by
    rw [currentNodeType_of_place hsp, hopened]
    rcases hs with rfl | rfl <;> rfl
  obtain ⟨filtered, hfiltered, hfp⟩ := appendAll_of_on (hnode.symm ▸ hq)
  have hmain : (!b.isAtMain) = false := by simp [isAtMain, hm]
  refine ⟨filtered.separate .and, ?_, ?_⟩
  · rw [hstarted] at hfiltered
    rw [startJoin, hmain, if_neg Bool.false_ne_true, ← hopened]
    exact bind_eq_ok.2 ⟨filtered, hfiltered, rfl⟩
  · rw [place_separate, hfp, hsp, hplace]

/-- A join opens from the main documents. -/
theorem yields_open {c : Command} {nodeType : String} {qs : List FilterQuery}
    (hc : c.Opens nodeType qs) (hm : b.scope = .main) (hq : ∀ q ∈ qs, q.On nodeType) :
    Yields (b.apply c) fun b' => ∃ scope, Joined scope nodeType ∧
      b'.place = ⟨b.names, scope, b.mainDepth, 0⟩ := by
  have hjoin : ∀ {scope header fields kinds}, Joined scope nodeType →
      Yields (liftFault ((b.use fields kinds).startJoin scope header nodeType qs)) fun b' =>
        ∃ scope, Joined scope nodeType ∧ b'.place = ⟨b.names, scope, b.mainDepth, 0⟩ := by
    intro scope header fields kinds hs
    obtain ⟨b', hb', hp⟩ : ∃ b', (b.use fields kinds).startJoin scope header nodeType qs = .ok b' ∧
        b'.place = ⟨b.names, scope, b.mainDepth, 0⟩ := startJoin_of_on hm hs hq
    exact yields_liftFault hb' ⟨scope, hs, hp⟩
  rcases hc with rfl | rfl
  · refine yields_liftName.bind fun main _ _ => ?_
    exact yields_liftName.bind fun inner _ _ => hjoin (.inl rfl)
  · refine yields_liftName.bind fun main _ _ => ?_
    refine yields_liftName.bind fun key _ _ => ?_
    exact yields_liftName.bind fun inner _ _ => hjoin (.inr rfl)

/-- A join without open braces is closed. -/
theorem endJoin_of_place {names : IndexNames} {scope : Scope} {nodeType : String} {depth : Nat}
    (hs : Joined scope nodeType) (hp : b.place = ⟨names, scope, depth, 0⟩) (hf : b.Filled) :
    ∃ b', b.endJoin = .ok b' ∧ b'.place = ⟨names, .main, depth, depth⟩ ∧ b'.Filled := by
  obtain ⟨rfl, hscope, rfl, hopen⟩ := Place.mk.inj hp
  have hdepth : b.joinDepth = 0 := by
    rcases hs with rfl | rfl <;> rwa [openBraces, hscope] at hopen
  have hmain : b.isAtMain = false := by
    rcases hs with rfl | rfl <;> simp [isAtMain, hscope]
  have hclosed : Filled { b with scope := .main } := ⟨hf.text, hf.fields, hf.kinds⟩
  refine ⟨({ b with scope := .main } : Builder).joinGap.write ")", ?_, ?_, hclosed.joinGap.write _⟩
  · simp [endJoin, hmain, hdepth]
  · rw [place_write, place_joinGap]
    rfl

/-! ## Runs -/

theorem run_append (b : Builder) (xs ys : List Step) :
    b.run (xs ++ ys) = b.run xs >>= fun b => b.run ys := by
  induction xs generalizing b with
  | nil => rfl
  | cons x xs ih =>
    cases x with
    | fail f => rfl
    | call c =>
      simp only [List.cons_append, run, ih, bind_assoc]

end Builder

namespace Script

open Builder (At)

variable {ctx : Context} {here : String} {steps : List Step}

/-- Whether a builder that runs steps on a node type comes back to its place with something
written, unless an error is reported. -/
def Runs (ctx : Context) (here : String) (steps : List Step) : Prop :=
  ∀ b : Builder, b.At ctx here → Yields (b.run steps) fun b' => b'.place = b.place ∧ b'.Filled

theorem runs_append {q : FilterQuery} (hq : q.On here) : Runs ctx here [.call (.append q)] := by
  intro b hb
  obtain ⟨b', hb', hp, hf⟩ := Builder.append_of_on (hb.nodeType.symm ▸ hq)
  exact (yields_liftFault hb' ⟨hp, hf⟩).bind fun b' _ h => yields_ok h

theorem runs_separated {j : Connective} {parts : List (List Step)} (hne : parts ≠ [])
    (h : ∀ x ∈ parts, Runs ctx here x) : Runs ctx here (separated j parts) := by
  induction parts with
  | nil => exact absurd rfl hne
  | cons x xs ih =>
    rw [List.forall_mem_cons] at h
    cases xs with
    | nil =>
      rw [separated_singleton]
      exact h.1
    | cons y ys =>
      intro b hb
      rw [separated_cons_cons, Builder.run_append]
      refine (h.1 b hb).bind fun b₁ _ h₁ => ?_
      have hp : (b₁.separate j).place = b.place := (Builder.place_separate b₁ j).trans h₁.1
      refine (ih (List.cons_ne_nil _ _) h.2 _ (hb.of_place hp)).mono fun b₂ _ h₂ => ?_
      exact ⟨h₂.1.trans hp, h₂.2⟩

/-- Steps between a brace that opens and one that closes. -/
theorem yields_closeBrace {b opened : Builder} (h : Runs ctx here steps) (hb : opened.At ctx here)
    (hp : opened.place = b.place.deepen) :
    Yields (opened.run (steps ++ [.call .closeBrace])) fun b' =>
      b'.place = b.place ∧ b'.Filled := by
  rw [Builder.run_append]
  refine (h opened hb).bind fun b₁ _ h₁ => ?_
  obtain ⟨b₂, hb₂, h₂⟩ := Builder.closeBrace_of_place (h₁.1.trans hp) h₁.2
  exact (yields_liftFault hb₂ h₂).bind fun b' _ h => yields_ok h

theorem runs_braced (h : Runs ctx here steps) : Runs ctx here (braced steps) := fun b hb =>
  yields_closeBrace h hb.openBrace (Builder.place_openBrace b)

theorem runs_complement (h : Runs ctx here steps) :
    Runs ctx here (.call .openComplement :: (steps ++ [.call .closeBrace])) := fun b hb =>
  yields_closeBrace h (hb.openBrace.of_place rfl) (Builder.place_openBrace b)

theorem runs_join {c : Command} {nodeType : String} {qs : List FilterQuery}
    (hc : c.Opens nodeType qs) (hn : ctx.mainType ≠ nodeType) (hq : ∀ q ∈ qs, q.On nodeType)
    (h : Runs ctx nodeType steps) :
    Runs ctx ctx.mainType (.call c :: (steps ++ [.call .endJoin])) := by
  intro b hb
  have hmain := hb.main rfl
  refine (Builder.yields_open hc hmain hq).bind fun b₁ _ h₁ => ?_
  obtain ⟨scope, hs, hp₁⟩ := h₁
  obtain ⟨hnames, hscope, -, -⟩ := Builder.Place.mk.inj hp₁
  have hat : b₁.At ctx nodeType := by
    refine ⟨hnames.trans hb.names, ?_, fun he => absurd he.symm hn⟩
    rcases hs with rfl | rfl <;> rw [Builder.currentNodeType, hscope]
  rw [Builder.run_append]
  refine (h b₁ hat).bind fun b₂ _ h₂ => ?_
  obtain ⟨b₃, hb₃, hp₃, hf₃⟩ := Builder.endJoin_of_place hs (h₂.1.trans hp₁) h₂.2
  have hback : b.place = ⟨b.names, .main, b.mainDepth, b.mainDepth⟩ := by
    rw [Builder.place, Builder.openBraces, hmain]
  exact (yields_liftFault hb₃ ⟨hp₃.trans hback.symm, hf₃⟩).bind fun b' _ h => yields_ok h

/-- An operand without faults brings a builder back to its place. -/
theorem runs_of_operand {φ : Formula (Labelled ctx)} (h : Operand ctx here steps φ)
    (hc : Clean steps) : Runs ctx here steps := by
  induction h with
  | failed f rest φ =>
    intro b hb
    refine ⟨fun g hg => hc g ?_, nofun⟩
    obtain rfl := Except.error.inj hg
    exact List.mem_cons_self
  | fragment ha hq => exact runs_append hq
  | @brace here j members hlen h ih =>
    rw [clean_braced, clean_separated, List.forall_mem_map] at hc
    have hne : members ≠ [] := List.ne_nil_of_length_pos (by omega)
    refine runs_braced (runs_separated (by simpa using hne) ?_)
    exact List.forall_mem_map.2 fun m hm => ih m hm (hc m hm)
  | complement h ih =>
    rw [clean_cons_call, clean_append] at hc
    exact runs_complement (ih hc.1)
  | join ho hn hf hq hne h ih =>
    rw [clean_cons_call, clean_append, clean_separated, List.forall_mem_map] at hc
    refine runs_join ho hn hq (runs_separated (by simpa using hne) ?_)
    exact List.forall_mem_map.2 fun m hm => ih m hm (hc.1 m hm)

theorem runs_of_query {φ : Formula (Labelled ctx)} (h : Query ctx steps φ) (hc : Clean steps) :
    Runs ctx ctx.mainType steps := by
  cases h with
  | operand h => exact runs_of_operand h hc
  | @combined j members hlen h =>
    rw [clean_separated, List.forall_mem_map] at hc
    have hne : members ≠ [] := List.ne_nil_of_length_pos (by omega)
    refine runs_separated (by simpa using hne) ?_
    exact List.forall_mem_map.2 fun m hm => runs_of_operand (h m hm) (hc m hm)

end Script

/-! ## Filter queries -/

/-- A query is taken from a builder that stands on the main documents with no brace open. -/
theorem Builder.result_of_filled {b : Builder} (hs : b.scope = .main) (hd : b.mainDepth = 0)
    (hf : b.Filled) : ∃ q b', b.result = .ok (q, b') ∧ b'.place = b.place := by
  obtain ⟨q, hq⟩ : ∃ q, FilterQuery.make b.buffer b.fields b.kinds = .ok q :=
    ⟨_, FilterQuery.make_of_text hf.text hf.fields hf.kinds⟩
  have hmain : (!b.isAtMain) = false := by simp [isAtMain, hs]
  have hfields : b.fields.isEmpty = false := by simpa using hf.fields
  refine ⟨q, { b with buffer := "", fields := [], kinds := [] }, ?_, rfl⟩
  rw [result, hmain, hfields, hq, if_neg Bool.false_ne_true, if_neg (not_not_intro hd),
    if_neg Bool.false_ne_true]
  rfl

/-- Scripts that run give a filter query each. -/
theorem Script.yields_runAll {ctx : Context} {b : Builder} {scripts : List (List Step)}
    (h : ∀ steps ∈ scripts, Runs ctx ctx.mainType steps) (hb : b.At ctx ctx.mainType)
    (hd : b.mainDepth = 0) : Yields (b.runAll scripts) fun _ => True := by
  induction scripts generalizing b with
  | nil => exact yields_ok trivial
  | cons steps scripts ih =>
    rw [List.forall_mem_cons] at h
    refine (h.1 b hb).bind fun b₁ _ h₁ => ?_
    have hat := hb.of_place h₁.1
    have hdepth : b₁.mainDepth = 0 := (congrArg Builder.Place.mainDepth h₁.1).trans hd
    obtain ⟨q, b₂, hb₂, hp⟩ := Builder.result_of_filled (hat.main rfl) hdepth h₁.2
    have hrest := ih h.2 (hat.of_place hp) ((congrArg Builder.Place.mainDepth hp).trans hdepth)
    refine (yields_liftFault (P := (· = (q, b₂))) hb₂ rfl).bind fun r _ hr => ?_
    rw [hr]
    exact hrest.bind fun qs _ _ => yields_pure trivial

end AudienceFilter
