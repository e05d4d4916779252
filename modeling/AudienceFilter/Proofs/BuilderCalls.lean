import AudienceFilter.Proofs.Brackets
import AudienceFilter.Proofs.ConversionSafety

/-!
# What a builder holds after any calls

A builder counts its open braces in two numbers, one for the main scope and one for the join in
it, and writes one more parenthesis for the join itself. After any calls that meet no fault, the
text has as many parentheses open as the numbers say, and a query that is taken holds what was
written since the last one.

* `Builder.Call`, `Builder.calls`: calls one after the other;
* `Builder.Bracketed`: the invariant of text and numbers, with one lemma for each command;
* `Command.fields`, `Command.kinds`: what a command adds to a query;
* `Builder.calls_balanced`: the builder after any calls, and the query that can be taken from it.
-/

namespace AudienceFilter

open Text (Nested)

/-- Whether all names can stand in a query. -/
structure IndexNames.Checked (names : IndexNames) : Prop where
  mainType : Text.isName names.mainType = true
  nodeTypeField : Text.isName names.nodeTypeField = true
  uniqueKeyField : Text.isName names.uniqueKeyField = true
  dependentKeyField : Text.isName names.dependentKeyField = true

namespace Command

/-- The fragments that a command writes. A join on a node type whose name is refused writes
none. -/
def fragments : Command → List FilterQuery
  | .append q => [q]
  | .startNested nodeType filters | .startDependent nodeType filters =>
    if Text.isName nodeType then filters else []
  | _ => []

/-- The fields that a command adds to a query. -/
def fields (names : IndexNames) : Command → List QueryField
  | .append q => q.fields
  | .startNested nodeType filters =>
    if Text.isName nodeType then
      [⟨names.mainType, names.nodeTypeField⟩, ⟨nodeType, names.nodeTypeField⟩] ++
        filters.flatMap FilterQuery.fields
    else []
  | .startDependent nodeType filters =>
    if Text.isName nodeType then
      [⟨names.mainType, names.uniqueKeyField⟩, ⟨nodeType, names.dependentKeyField⟩,
        ⟨nodeType, names.nodeTypeField⟩] ++ filters.flatMap FilterQuery.fields
    else []
  | _ => []

/-- The kinds of conditions that a command adds to a query. -/
def kinds : Command → List ConditionKind
  | .append q => q.kinds
  | .openComplement => [.allDocs]
  | .startNested nodeType filters =>
    if Text.isName nodeType then
      [.joinNested, .filterNodeType] ++ filters.flatMap FilterQuery.kinds
    else []
  | .startDependent nodeType filters =>
    if Text.isName nodeType then
      [.joinDependent, .filterNodeType] ++ filters.flatMap FilterQuery.kinds
    else []
  | _ => []

end Command

namespace Builder

/-- A use of a builder: a command, or to take the query or throw it away. -/
inductive Call where
  | command (c : Command)
  | result
  | reset
deriving DecidableEq, Repr

/-- The builder after a call. A name that is refused leaves it as it was. -/
def call (b : Builder) : Call → Except Fault Builder
  | .command c =>
    match b.apply c with
    | .ok b' => .ok b'
    | .error (.error _) => .ok b
    | .error (.fault f) => .error f
  | .result => b.result.map Prod.snd
  | .reset => .ok b.reset

/-- The builder after calls, up to the first fault. -/
def calls (b : Builder) : List Call → Except Fault Builder
  | [] => .ok b
  | c :: rest => do
    let b ← b.call c
    b.calls rest

/-- The commands since a query was last taken or thrown away, once there is another call. -/
def Call.pending (commands : List Command) : Call → List Command
  | .command c => commands ++ [c]
  | .result | .reset => []

/-- The fragments that a call writes. -/
def Call.fragments : Call → List FilterQuery
  | .command c => c.fragments
  | .result | .reset => []

/-- Whether the text has as many parentheses open as the builder counts, and no brace of a join
is left open outside it. -/
structure Bracketed (b : Builder) : Prop where
  nested : Nested b.depth b.buffer
  main : b.scope = .main → b.joinDepth = 0

variable {b b' : Builder}

/-! ## Parentheses -/

theorem Bracketed.write (h : b.Bracketed) {text : String} (ht : Nested 0 text) :
    (b.write text).Bracketed where
  nested := h.nested.append ht
  main := h.main

theorem nested_separator (j : Connective) : Nested 0 (j.keyword ++ " ") := by
  cases j <;> exact Text.nested_plain (by decide)

theorem Bracketed.separate (h : b.Bracketed) (j : Connective) : (b.separate j).Bracketed := by
  rw [Builder.separate, gap_eq_write]
  exact (h.write (Text.nested_blank (b.style.isBlank_gap _))).write (nested_separator j)

theorem depth_deepen (b : Builder) : b.deepen.depth = b.depth + 1 := by
  cases hs : b.scope <;> simp [depth, deepen, hs] <;> omega

theorem depth_rise (h : b.openBraces ≠ 0) : b.rise.depth + 1 = b.depth := by
  cases hs : b.scope <;> simp [openBraces, hs] at h <;> simp [depth, rise, hs] <;> omega

theorem Bracketed.openBrace (h : b.Bracketed) : b.openBrace.Bracketed where
  nested := by
    rw [Builder.openBrace, depth_deepen]
    have hbuffer : (b.write "(").deepen.buffer = b.buffer ++ "(" := by
      rw [deepen]
      split <;> rfl
    rw [hbuffer]
    exact h.nested.append (by decide)
  main := by
    rw [Builder.openBrace, deepen]
    split
    · exact h.main
    · next hs => exact fun hm => absurd hm hs

theorem Bracketed.closeBrace (h : b.Bracketed) (hb : b.closeBrace = .ok b') : b'.Bracketed := by
  unfold Builder.closeBrace at hb
  split at hb
  · cases hb
  · next hopen =>
    obtain rfl := Except.ok.inj hb
    have hbuffer : b.rise.buffer = b.buffer := by
      rw [rise]
      split <;> rfl
    refine ⟨?_, ?_⟩
    · have hnested := h.nested
      rw [← depth_rise hopen] at hnested
      show Nested b.rise.depth (b.rise.buffer ++ ")")
      rw [hbuffer]
      exact hnested.close
    · show b.rise.scope = .main → b.rise.joinDepth = 0
      rw [rise]
      split
      · exact h.main
      · next hs => exact fun hm => absurd hm hs

theorem Bracketed.openComplement (h : b.Bracketed) : b.openComplement.Bracketed := by
  have hopened := h.openBrace.write (Text.nested_plain (s := "*:* -") (by decide))
  exact ⟨hopened.nested, hopened.main⟩

theorem append_eq_ok {q : FilterQuery} (hb : b.append q = .ok b') :
    b' = (b.write q.text).use q.fields q.kinds := by
  unfold append at hb
  split at hb
  · exact (Except.ok.inj hb).symm
  · cases hb

theorem Bracketed.append {q : FilterQuery} (h : b.Bracketed) (hq : Nested 0 q.text)
    (hb : b.append q = .ok b') : b'.Bracketed := by
  rw [append_eq_ok hb]
  exact ⟨(h.write hq).nested, (h.write hq).main⟩

theorem Bracketed.appendAll {qs : List FilterQuery} (h : b.Bracketed)
    (hq : ∀ q ∈ qs, Nested 0 q.text) (hb : b.appendAll qs = .ok b') : b'.Bracketed := by
  induction qs generalizing b with
  | nil =>
    cases hb
    exact h
  | cons q qs ih =>
    rw [List.forall_mem_cons] at hq
    obtain ⟨b₁, hb₁, hb⟩ := bind_eq_ok.1 hb
    exact ih ((h.separate .and).append hq.1 hb₁) hq.2 hb

/-- What a join starts with. -/
theorem startJoin_eq_ok {scope : Scope} {header nodeType : String} {qs : List FilterQuery}
    (hb : b.startJoin scope header nodeType qs = .ok b') : b.scope = .main ∧ ∃ filtered,
      ({ b.write (header ++ "(") with scope, joinDepth := 0 }.joinGap.write
        (b.names.nodeTypeField ++ ":" ++ nodeType)).appendAll qs = .ok filtered ∧
      b' = filtered.separate .and := by
  unfold startJoin at hb
  by_cases hm : (!b.isAtMain) = true
  · cases (if_pos hm).symm.trans hb
  · replace hb := (if_neg hm).symm.trans hb
    obtain ⟨filtered, hf, hb⟩ := bind_eq_ok.1 hb
    exact ⟨by simpa [isAtMain] using hm, filtered, hf, (pure_eq_ok.1 hb).symm⟩

theorem Bracketed.startJoin {scope : Scope} {header nodeType : String} {qs : List FilterQuery}
    (h : b.Bracketed) (hs : Joined scope nodeType) (hh : Text.isPlainText header = true)
    (hf : Text.isName b.names.nodeTypeField = true) (hn : Text.isName nodeType = true)
    (hq : ∀ q ∈ qs, Nested 0 q.text) (hb : b.startJoin scope header nodeType qs = .ok b') :
    b'.Bracketed := by
  obtain ⟨hm, filtered, hfiltered, rfl⟩ := startJoin_eq_ok hb
  -- The parenthesis of the join is the one that the depth counts for it.
  have hopened : Bracketed { b.write (header ++ "(") with scope, joinDepth := 0 } := by
    refine ⟨?_, fun _ => rfl⟩
    have hdepth : b.depth = b.mainDepth := by rw [depth, hm]
    have hopen : Nested 1 "(" := by decide
    have hnested := h.nested.append ((Text.nested_plain hh).append hopen)
    rw [hdepth, Nat.zero_add] at hnested
    rcases hs with rfl | rfl <;> exact hnested
  have hcondition : Nested 0 (b.names.nodeTypeField ++ ":" ++ nodeType) := by
    have hfield := Text.isPlainText_append (Text.isPlainText_of_isName hf) (t := ":") (by decide)
    exact Text.nested_plain (Text.isPlainText_append hfield (Text.isPlainText_of_isName hn))
  have hblank := Text.nested_blank (b.style.isBlank_joinGap
    (depth { b.write (header ++ "(") with scope, joinDepth := 0 }))
  rw [joinGap_eq_write] at hfiltered
  exact (((hopened.write hblank).write hcondition).appendAll hq hfiltered).separate .and

theorem Bracketed.endJoin (h : b.Bracketed) (hb : b.endJoin = .ok b') : b'.Bracketed := by
  unfold Builder.endJoin at hb
  split at hb
  · cases hb
  · next hm =>
    split at hb
    · cases hb
    · next hj =>
      obtain rfl := Except.ok.inj hb
      have hscope : b.scope ≠ .main := by simpa [isAtMain] using hm
      have hj : b.joinDepth = 0 := Decidable.not_not.1 hj
      have hdepth : b.depth = b.mainDepth + 1 := by
        cases hs : b.scope with
        | main => exact absurd hs hscope
        | nested nodeType => simp [depth, hs, hj]
        | dependent nodeType => simp [depth, hs, hj]
      have hblank := Text.nested_blank (b.style.isBlank_joinGap (depth { b with scope := .main }))
      have hnested := h.nested.append hblank
      rw [hdepth, Nat.add_zero] at hnested
      rw [joinGap_eq_write]
      exact ⟨hnested.close, fun _ => hj⟩

theorem isPlainText_nestedHeader {names : IndexNames} (h : names.Checked) :
    Text.isPlainText (nestedHeader names) = true := by
  have hfield := Text.isPlainText_of_isName h.nodeTypeField
  have hmain := Text.isPlainText_of_isName h.mainType
  have hstart := Text.isPlainText_append (s := "\x7b!parent which=\"") (by decide) hfield
  have hcolon := Text.isPlainText_append hstart (t := ":") (by decide)
  exact Text.isPlainText_append (Text.isPlainText_append hcolon hmain) (by decide)

theorem isPlainText_dependentHeader {names : IndexNames} (h : names.Checked) :
    Text.isPlainText (dependentHeader names) = true := by
  have hfrom := Text.isPlainText_of_isName h.dependentKeyField
  have hto := Text.isPlainText_of_isName h.uniqueKeyField
  have hstart := Text.isPlainText_append (s := "\x7b!join from=") (by decide) hfrom
  have hkey := Text.isPlainText_append hstart (t := " to=") (by decide)
  exact Text.isPlainText_append (Text.isPlainText_append hkey hto) (by decide)

/-- A command that is carried out keeps text and numbers in step. -/
theorem Bracketed.apply {c : Command} (h : b.Bracketed) (hn : b.names.Checked)
    (hq : ∀ q ∈ c.fragments, Nested 0 q.text) (hb : b.apply c = .ok b') : b'.Bracketed := by
  cases c with
  | openBrace => exact Except.ok.inj hb ▸ h.openBrace
  | closeBrace => exact h.closeBrace (liftFault_eq_ok.1 hb)
  | openComplement => exact Except.ok.inj hb ▸ h.openComplement
  | separator j => exact Except.ok.inj hb ▸ h.separate j
  | endJoin => exact h.endJoin (liftFault_eq_ok.1 hb)
  | append q => exact h.append (hq q (List.mem_singleton_self q)) (liftFault_eq_ok.1 hb)
  | startNested nodeType filters =>
    obtain ⟨main, -, hb⟩ := bind_eq_ok.1 hb
    obtain ⟨inner, hinner, hb⟩ := bind_eq_ok.1 hb
    obtain ⟨hname, hfield, -⟩ := QueryField.make_eq_ok (liftName_eq_ok.1 hinner)
    rw [Command.fragments, if_pos hname] at hq
    have hused : (b.use [main, inner] [.joinNested, .filterNodeType]).Bracketed :=
      ⟨h.nested, h.main⟩
    exact hused.startJoin (.inl rfl) (isPlainText_nestedHeader hn) hfield hname hq
      (liftFault_eq_ok.1 hb)
  | startDependent nodeType filters =>
    obtain ⟨main, -, hb⟩ := bind_eq_ok.1 hb
    obtain ⟨key, -, hb⟩ := bind_eq_ok.1 hb
    obtain ⟨inner, hinner, hb⟩ := bind_eq_ok.1 hb
    obtain ⟨hname, hfield, -⟩ := QueryField.make_eq_ok (liftName_eq_ok.1 hinner)
    rw [Command.fragments, if_pos hname] at hq
    have hused : (b.use [main, key, inner] [.joinDependent, .filterNodeType]).Bracketed :=
      ⟨h.nested, h.main⟩
    exact hused.startJoin (.inr rfl) (isPlainText_dependentHeader hn) hfield hname hq
      (liftFault_eq_ok.1 hb)

/-! ## Fields and kinds -/

/-- Whether a builder has come to hold some more fields and kinds. -/
structure Adds (b : Builder) (fields : List QueryField) (kinds : List ConditionKind)
    (b' : Builder) : Prop where
  names : b'.names = b.names
  style : b'.style = b.style
  fields : ∀ f, f ∈ b'.fields ↔ f ∈ b.fields ∨ f ∈ fields
  kinds : ∀ k, k ∈ b'.kinds ↔ k ∈ b.kinds ∨ k ∈ kinds

variable {b₁ b₂ : Builder} {fields fields' : List QueryField} {kinds kinds' : List ConditionKind}

theorem Adds.refl (b : Builder) : b.Adds [] [] b :=
  ⟨rfl, rfl, fun _ => by simp, fun _ => by simp⟩

theorem Adds.trans (h : b.Adds fields kinds b₁) (h' : b₁.Adds fields' kinds' b₂) :
    b.Adds (fields ++ fields') (kinds ++ kinds') b₂ where
  names := h'.names.trans h.names
  style := h'.style.trans h.style
  fields f := by rw [h'.fields, h.fields, List.mem_append, or_assoc]
  kinds k := by rw [h'.kinds, h.kinds, List.mem_append, or_assoc]

theorem adds_write (b : Builder) (text : String) : b.Adds [] [] (b.write text) :=
  ⟨rfl, rfl, (Adds.refl b).fields, (Adds.refl b).kinds⟩

theorem adds_use (b : Builder) (fields : List QueryField) (kinds : List ConditionKind) :
    b.Adds fields kinds (b.use fields kinds) where
  names := rfl
  style := rfl
  fields f := by rw [use, Sorted.mem_union, or_comm]
  kinds k := by rw [use, Sorted.mem_union, or_comm]

theorem adds_separate (b : Builder) (j : Connective) : b.Adds [] [] (b.separate j) := by
  rw [separate, gap_eq_write]
  exact (adds_write b _).trans (adds_write _ _)

theorem adds_openBrace (b : Builder) : b.Adds [] [] b.openBrace := by
  rw [openBrace, deepen]
  split <;> exact ⟨rfl, rfl, (Adds.refl b).fields, (Adds.refl b).kinds⟩

theorem adds_closeBrace (hb : b.closeBrace = .ok b') : b.Adds [] [] b' := by
  unfold closeBrace at hb
  split at hb
  · cases hb
  · rw [← Except.ok.inj hb, rise]
    split <;> exact ⟨rfl, rfl, (Adds.refl b).fields, (Adds.refl b).kinds⟩

theorem adds_append {q : FilterQuery} (hb : b.append q = .ok b') :
    b.Adds q.fields q.kinds b' := by
  rw [append_eq_ok hb]
  exact (adds_write b q.text).trans (adds_use _ _ _)

theorem adds_appendAll {qs : List FilterQuery} (hb : b.appendAll qs = .ok b') :
    b.Adds (qs.flatMap FilterQuery.fields) (qs.flatMap FilterQuery.kinds) b' := by
  induction qs generalizing b with
  | nil =>
    obtain rfl := Except.ok.inj hb
    exact Adds.refl b
  | cons q qs ih =>
    obtain ⟨b₁, hb₁, hb⟩ := bind_eq_ok.1 hb
    rw [List.flatMap_cons, List.flatMap_cons]
    exact ((adds_separate b .and).trans (adds_append hb₁)).trans (ih hb)

theorem adds_startJoin {scope : Scope} {header nodeType : String} {qs : List FilterQuery}
    (hb : b.startJoin scope header nodeType qs = .ok b') :
    b.Adds (qs.flatMap FilterQuery.fields) (qs.flatMap FilterQuery.kinds) b' := by
  obtain ⟨-, filtered, hfiltered, rfl⟩ := startJoin_eq_ok hb
  rw [joinGap_eq_write] at hfiltered
  have hopened : ∀ text, b.Adds [] [] (({ b.write (header ++ "(") with
      scope, joinDepth := 0 }.write text).write (b.names.nodeTypeField ++ ":" ++ nodeType)) :=
    fun _ => ⟨rfl, rfl, (Adds.refl b).fields, (Adds.refl b).kinds⟩
  simpa using ((hopened _).trans (adds_appendAll hfiltered)).trans (adds_separate filtered .and)

theorem adds_endJoin (hb : b.endJoin = .ok b') : b.Adds [] [] b' := by
  unfold endJoin at hb
  split at hb
  · cases hb
  · split at hb
    · cases hb
    · rw [← Except.ok.inj hb, joinGap_eq_write]
      exact ⟨rfl, rfl, (Adds.refl b).fields, (Adds.refl b).kinds⟩

/-- A command that is carried out adds its fields and kinds. -/
theorem adds_apply {c : Command} (hb : b.apply c = .ok b') :
    b.Adds (c.fields b.names) c.kinds b' := by
  cases c with
  | openBrace => exact Except.ok.inj hb ▸ adds_openBrace b
  | closeBrace => exact adds_closeBrace (liftFault_eq_ok.1 hb)
  | openComplement =>
    rw [← Except.ok.inj hb]
    exact ((adds_openBrace b).trans (adds_write _ _)).trans (adds_use _ _ _)
  | separator j => exact Except.ok.inj hb ▸ adds_separate b j
  | endJoin => exact adds_endJoin (liftFault_eq_ok.1 hb)
  | append q => exact adds_append (liftFault_eq_ok.1 hb)
  | startNested nodeType filters =>
    obtain ⟨main, hmain, hb⟩ := bind_eq_ok.1 hb
    obtain ⟨inner, hinner, hb⟩ := bind_eq_ok.1 hb
    obtain ⟨-, -, rfl⟩ := QueryField.make_eq_ok (liftName_eq_ok.1 hmain)
    obtain ⟨hname, -, rfl⟩ := QueryField.make_eq_ok (liftName_eq_ok.1 hinner)
    rw [Command.fields, Command.kinds, if_pos hname, if_pos hname]
    exact (adds_use b _ _).trans (adds_startJoin (liftFault_eq_ok.1 hb))
  | startDependent nodeType filters =>
    obtain ⟨main, hmain, hb⟩ := bind_eq_ok.1 hb
    obtain ⟨key, hkey, hb⟩ := bind_eq_ok.1 hb
    obtain ⟨inner, hinner, hb⟩ := bind_eq_ok.1 hb
    obtain ⟨-, -, rfl⟩ := QueryField.make_eq_ok (liftName_eq_ok.1 hmain)
    obtain ⟨-, -, rfl⟩ := QueryField.make_eq_ok (liftName_eq_ok.1 hkey)
    obtain ⟨hname, -, rfl⟩ := QueryField.make_eq_ok (liftName_eq_ok.1 hinner)
    rw [Command.fields, Command.kinds, if_pos hname, if_pos hname]
    exact (adds_use b _ _).trans (adds_startJoin (liftFault_eq_ok.1 hb))

theorem liftFault_ne_error {α : Type} {r : Except Fault α} {e : ConversionError} :
    liftFault r ≠ .error (.error e) := by
  cases r with
  | ok a => exact fun h => by cases h
  | error f => exact fun h => by cases h

/-- A command that is refused would have opened a join on a node type with no proper name. -/
theorem adds_of_refused {c : Command} {e : ConversionError} (hn : b.names.Checked)
    (hb : b.apply c = .error (.error e)) : c.fields b.names = [] ∧ c.kinds = [] := by
  have hmade : ∀ {nodeType name : String}, Text.isName nodeType = true → Text.isName name = true →
      liftName (QueryField.make nodeType name) = .ok ⟨nodeType, name⟩ := by
    intro nodeType name h h'
    rw [QueryField.make_of_isName h h']
    rfl
  cases c with
  | openBrace => cases hb
  | closeBrace => exact absurd hb liftFault_ne_error
  | openComplement => cases hb
  | separator j => cases hb
  | endJoin => exact absurd hb liftFault_ne_error
  | append q => exact absurd hb liftFault_ne_error
  | startNested nodeType filters =>
    by_cases hname : Text.isName nodeType = true
    · rw [apply, startNested, hmade hn.mainType hn.nodeTypeField,
        hmade hname hn.nodeTypeField] at hb
      exact absurd hb liftFault_ne_error
    · exact ⟨if_neg hname, if_neg hname⟩
  | startDependent nodeType filters =>
    by_cases hname : Text.isName nodeType = true
    · rw [apply, startDependent, hmade hn.mainType hn.uniqueKeyField,
        hmade hname hn.dependentKeyField, hmade hname hn.nodeTypeField] at hb
      exact absurd hb liftFault_ne_error
    · exact ⟨if_neg hname, if_neg hname⟩

/-! ## Calls -/

/-- A query can be taken where nothing is open. -/
theorem result_eq_ok {q : FilterQuery} (hb : b.result = .ok (q, b')) :
    b.scope = .main ∧ b.mainDepth = 0 ∧ FilterQuery.make b.buffer b.fields b.kinds = .ok q ∧
      b' = { b with buffer := "", fields := [], kinds := [] } := by
  rw [result_eq] at hb
  split at hb
  · cases hb
  · next hm =>
    split at hb
    · cases hb
    · next hd =>
      split at hb
      · cases hb
      · obtain ⟨q', hq, hb⟩ := bind_eq_ok.1 hb
        cases hb
        exact ⟨by simpa [isAtMain] using hm, Decidable.not_not.1 hd, hq, rfl⟩

/-- Taking the query leaves a builder as good as new, if no brace of a join is left open. -/
theorem result_leaves_fresh {q : FilterQuery} (hj : b.scope = .main → b.joinDepth = 0)
    (hb : b.result = .ok (q, b')) : b' = fresh b.names b.style := by
  obtain ⟨hs, hd, -, rfl⟩ := result_eq_ok hb
  have hj := hj hs
  obtain ⟨names, style, buffer, scope, mainDepth, joinDepth, fields, kinds⟩ := b
  cases hs
  cases hd
  cases hj
  rfl

/-- Whether a builder holds what commands have written since it was as good as new. -/
structure Holds (names : IndexNames) (style : Style) (commands : List Command) (b : Builder) :
    Prop where
  bracketed : b.Bracketed
  added : (fresh names style).Adds (commands.flatMap (Command.fields names))
    (commands.flatMap Command.kinds) b

theorem holds_fresh (names : IndexNames) (style : Style) :
    (fresh names style).Holds names style [] where
  bracketed := ⟨show Nested 0 "" by decide, fun _ => rfl⟩
  added := Adds.refl _

variable {names : IndexNames} {style : Style} {commands : List Command}

/-- Taking the query leaves a fresh builder. -/
theorem Holds.fresh_of_result {q : FilterQuery} (h : b.Holds names style commands)
    (hb : b.result = .ok (q, b')) : b' = fresh names style := by
  rw [result_leaves_fresh h.bracketed.main hb, h.added.names, h.added.style]
  rfl

theorem Holds.call {c : Call} (h : b.Holds names style commands) (hn : names.Checked)
    (hq : ∀ q ∈ c.fragments, Nested 0 q.text) (hb : b.call c = .ok b') :
    b'.Holds names style (c.pending commands) := by
  have hnames : b.names = names := h.added.names
  cases c with
  | reset =>
    obtain rfl := Except.ok.inj hb
    rw [reset, hnames, h.added.style]
    exact holds_fresh names style
  | result =>
    obtain ⟨⟨q, b₁⟩, hr, rfl⟩ := map_eq_ok.1 hb
    rw [h.fresh_of_result hr]
    exact holds_fresh names style
  | command c =>
    have hflat : ∀ {α : Type} (f : Command → List α),
        (commands ++ [c]).flatMap f = commands.flatMap f ++ f c := by simp
    unfold Builder.call at hb
    dsimp only at hb
    split at hb
    · next b₁ ha =>
      obtain rfl := Except.ok.inj hb
      refine ⟨h.bracketed.apply (hnames ▸ hn) hq ha, ?_⟩
      rw [Call.pending, hflat, hflat, ← hnames]
      exact (hnames ▸ h.added).trans (adds_apply ha)
    · next e ha =>
      obtain rfl := Except.ok.inj hb
      obtain ⟨hfields, hkinds⟩ := adds_of_refused (hnames ▸ hn) ha
      refine ⟨h.bracketed, ?_⟩
      rw [Call.pending, hflat, hflat, hkinds, ← hnames, hfields, List.append_nil, List.append_nil]
      exact hnames ▸ h.added
    · cases hb

theorem Holds.calls {cs : List Call} (h : b.Holds names style commands) (hn : names.Checked)
    (hq : ∀ c ∈ cs, ∀ q ∈ c.fragments, Nested 0 q.text) (hb : b.calls cs = .ok b') :
    b'.Holds names style (cs.foldl Call.pending commands) := by
  induction cs generalizing b commands with
  | nil =>
    cases hb
    exact h
  | cons c cs ih =>
    rw [List.forall_mem_cons] at hq
    obtain ⟨b₁, hb₁, hb⟩ := bind_eq_ok.1 hb
    exact ih (h.call hn hq.1 hb₁) hq.2 hb

theorem checked_of_make (h : make names style = .ok b) : names.Checked := by
  obtain ⟨_, h₁, h⟩ := bind_eq_ok.1 h
  obtain ⟨_, h₂, h⟩ := bind_eq_ok.1 h
  obtain ⟨_, h₃, -⟩ := bind_eq_ok.1 h
  obtain ⟨hmain, hfield, -⟩ := QueryField.make_eq_ok h₁
  exact ⟨hmain, hfield, (QueryField.make_eq_ok h₂).2.1, (QueryField.make_eq_ok h₃).2.1⟩

/-- After any calls that meet no fault, the text has as many parentheses open as the builder
counts, in the main scope or inside a join, and closed none too many. A query that is taken then
is balanced, has the fields and kinds that were added since the last one, and leaves the builder as
it was in the beginning. -/
theorem calls_balanced {start b : Builder} {cs : List Call} (hstart : make names style = .ok start)
    (hq : ∀ c ∈ cs, ∀ q ∈ c.fragments, Nested 0 q.text) (hb : start.calls cs = .ok b) :
    Text.balance b.buffer.toList =
        (if b.isAtMain then b.mainDepth else b.mainDepth + 1 + b.joinDepth : Nat) ∧
      (∀ part, part <+: b.buffer.toList → 0 ≤ Text.balance part) ∧
      (b.isAtMain = true → b.joinDepth = 0) ∧
      ∀ q rest, b.result = .ok (q, rest) → Text.Balanced q.text ∧
        (∀ f, f ∈ q.fields ↔ ∃ c ∈ cs.foldl Call.pending [], f ∈ c.fields names) ∧
        (∀ k, k ∈ q.kinds ↔ ∃ c ∈ cs.foldl Call.pending [], k ∈ c.kinds) ∧ rest = start := by
  obtain rfl := make_eq_ok hstart
  have hholds := (holds_fresh names style).calls (checked_of_make hstart) hq hb
  have hdepth : b.depth = if b.isAtMain then b.mainDepth else b.mainDepth + 1 + b.joinDepth := by
    cases hs : b.scope <;> simp [depth, isAtMain, hs]
  refine ⟨hdepth ▸ hholds.bracketed.nested.balance, hholds.bracketed.nested.prefixes, ?_, ?_⟩
  · exact fun hm => hholds.bracketed.main (by simpa [isAtMain] using hm)
  · intro q rest hr
    obtain ⟨hs, hd, hmade, -⟩ := result_eq_ok hr
    obtain ⟨rfl, -⟩ := FilterQuery.make_eq_ok hmade
    have hnested := hholds.bracketed.nested
    rw [depth, hs, hd] at hnested
    refine ⟨Text.balanced_trim hnested, fun f => ?_, fun k => ?_, hholds.fresh_of_result hr⟩
    · rw [Sorted.mem_ofList, hholds.added.fields, List.mem_flatMap]
      exact or_iff_right List.not_mem_nil
    · rw [Sorted.mem_ofList, hholds.added.kinds, List.mem_flatMap]
      exact or_iff_right List.not_mem_nil

end Builder

/-- The names of an index of people with their trips. -/
def IndexNames.travels : IndexNames := ⟨"person", "kind", "id", "owner"⟩

namespace Builder

/-- Two queries: one on the name, and one on people without a trip to a city with a parenthesis in
its name, for which a join on no proper node type is refused first. -/
def Call.travels : List Call :=
  let fragment (nodeType field text : String) : FilterQuery :=
    { text, fields := [⟨nodeType, field⟩], kinds := [.value] }
  [.command (.append (fragment "person" "name" "name:Ada")), .result,
    .command .openComplement, .command (.startNested "trip_" []),
    .command (.startNested "trip" [fragment "trip" "tenant" "tenant:acme"]), .command .openBrace,
    .command (.append (fragment "trip" "city" "city:Rome\\)")), .command (.separator .or),
    .command (.append (fragment "trip" "city" "city:(Oslo OR Bergen)")), .command .closeBrace,
    .command .endJoin, .command .closeBrace]

theorem calls_balanced_travels : ∃ start b, make .travels .pretty = .ok start ∧
    (∀ c ∈ Call.travels, ∀ q ∈ c.fragments, Nested 0 q.text) ∧
    start.calls Call.travels = .ok b ∧ Text.balance b.buffer.toList = 0 ∧
    ∃ q, b.result = .ok (q, start) ∧ Text.Balanced q.text ∧
      ∀ f, f ∈ q.fields ↔
        ∃ c ∈ Call.travels.foldl Call.pending [], f ∈ c.fields .travels := by
  have hmake : make .travels .pretty = .ok (fresh .travels .pretty) := rfl
  have hq : ∀ c ∈ Call.travels, ∀ q ∈ c.fragments, Nested 0 q.text := by decide +kernel
  have hok : ((fresh .travels .pretty).calls Call.travels >>= Builder.result).isOk = true := by
    decide +kernel
  obtain ⟨⟨q, rest⟩, hok⟩ := exists_of_isOk hok
  obtain ⟨b, hb, hr⟩ := bind_eq_ok.1 hok
  obtain ⟨hbalance, -, -, hresult⟩ := calls_balanced hmake hq hb
  obtain ⟨htext, hfields, -, rfl⟩ := hresult q rest hr
  obtain ⟨hs, hd, -, -⟩ := result_eq_ok hr
  rw [isAtMain, hs, hd] at hbalance
  exact ⟨_, b, hmake, hq, hb, hbalance, q, hr, htext, hfields⟩

end Builder

end AudienceFilter
