import AudienceFilter.Proofs.ScriptMeaning
import AudienceFilter.Proofs.TreeSafety

/-!
# Fragments without faults

Every fragment has a text that is not blank and refers to a field, and the leaves of a conversion
have conditions that a query can state. So the only failures in the script of a tree are errors to
report:

* `Context.yields_leafFragment`, `Context.yields_leafComplement`, `Context.yields_anyValue`,
  `Context.yields_documentFilters`: the fragments that scripts are made from;
* `Script.clean_ofTree`: no step of a script is a fault.
-/

namespace AudienceFilter

theorem FilterQuery.make_of_text {text : String} {fields : List QueryField}
    {kinds : List ConditionKind} (ht : Text.isBlankText text = false) (hf : fields ≠ [])
    (hk : kinds ≠ []) : make text fields kinds =
      .ok { text := Text.trim text, fields := Sorted.ofList fields,
            kinds := Sorted.ofList kinds } := by
  simp [make, Text.isEmpty_trim_of_not_blank ht, hf, hk]

theorem Text.isBlankText_colon (s t : String) : isBlankText (s ++ ":" ++ t) = false :=
  isBlankText_append_left (isBlankText_append_right (by decide))

namespace Context

variable {ctx : Context} {a : Assignment}

theorem yields_make {text : String} {fields : List QueryField} {kinds : List ConditionKind}
    (ht : Text.isBlankText text = false) (hf : fields ≠ []) (hk : kinds ≠ []) :
    Yields (liftFault (FilterQuery.make text fields kinds)) fun _ => True :=
  yields_liftFault (FilterQuery.make_of_text ht hf hk) trivial

theorem yields_fieldFragment {text : String} {kind : ConditionKind}
    (ht : Text.isBlankText text = false) : Yields (fieldFragment a text kind) fun _ => True :=
  yields_liftName.bind fun _ _ _ =>
    yields_make ht (List.cons_ne_nil _ _) (List.cons_ne_nil _ _)

/-! ## Filters -/

theorem yields_mainFilter : Yields ctx.mainFilter fun _ => True :=
  yields_liftName.bind fun _ _ _ =>
    yields_make (Text.isBlankText_colon _ _) (List.cons_ne_nil _ _) (List.cons_ne_nil _ _)

theorem yields_nothing : Yields ctx.nothing fun _ => True := by
  refine yields_mainFilter.bind fun main _ _ => ?_
  refine yields_liftName.bind fun field _ _ => ?_
  exact yields_make (Text.isBlankText_append_right (by decide)) (List.cons_ne_nil _ _)
    (List.cons_ne_nil _ _)

theorem yields_documentFilter {f : DocumentFilter} :
    Yields (ctx.documentFilter f) fun _ => True := by
  refine yields_liftError.bind fun value _ _ => ?_
  refine yields_liftName.bind fun field _ _ => ?_
  exact yields_make (Text.isBlankText_colon _ _) (List.cons_ne_nil _ _) (List.cons_ne_nil _ _)

theorem yields_documentFilters {nodeType : String} :
    Yields (ctx.documentFilters nodeType) fun _ => True := by
  refine yields_liftError.bind fun info _ _ => ?_
  exact (yields_mapM fun f _ => yields_documentFilter).mono fun _ _ _ => trivial

/-! ## Leaves -/

theorem yields_anyValue {arg : String} : Yields (ctx.anyValue arg) fun _ => True :=
  yields_liftError.bind fun _ _ _ =>
    yields_fieldFragment (Text.isBlankText_append_right (by decide))

theorem yields_valueCondition {c : Condition} (hu : c.op ≠ .isUnknown) :
    Yields (ctx.valueCondition a c) fun _ => True := by
  unfold valueCondition
  dsimp only
  split
  · exact yields_liftError.bind fun _ _ _ => yields_liftError.bind fun _ _ _ => yields_pure trivial
  · refine yields_liftError.bind fun text _ _ => ?_
    split
    · exact yields_liftError.bind fun _ _ _ => yields_pure trivial
    · exact yields_pure trivial
  · refine yields_liftError.bind fun _ _ _ => ?_
    split
    · exact yields_liftError.bind fun _ _ _ => yields_pure trivial
    · exact yields_liftError.bind fun _ _ _ => yields_pure trivial
  · exact yields_liftError.bind fun _ _ _ => yields_liftError.bind fun _ _ _ => yields_pure trivial
  · next hop => exact absurd hop hu

theorem comparison?_isSome {op : Operator} {inclusive : Bool} (hc : op ≠ .contains)
    (hu : op ≠ .isUnknown) : (comparison? op inclusive).isSome = true := by
  cases op with
  | contains => exact absurd rfl hc
  | isUnknown => exact absurd rfl hu
  | equals => rfl
  | greaterThan => cases inclusive <;> rfl
  | lessThan => cases inclusive <;> rfl

theorem yields_referenceFragment {c : Condition} {inclusive : Bool} (hc : c.op ≠ .contains)
    (hu : c.op ≠ .isUnknown) : Yields (ctx.referenceFragment c inclusive) fun _ => True := by
  obtain ⟨function, hfun⟩ := Option.isSome_iff_exists.1 (comparison?_isSome hc hu)
  unfold referenceFragment
  refine yields_liftError.bind fun a _ _ => ?_
  refine yields_liftError.bind fun b _ _ => ?_
  refine yields_liftError.bind fun _ _ _ => ?_
  rw [hfun]
  refine yields_liftName.bind fun left _ _ => ?_
  refine yields_liftName.bind fun right _ _ => ?_
  exact yields_make (Text.isBlankText_append_right (by decide)) (List.cons_ne_nil _ _)
    (List.cons_ne_nil _ _)

theorem yields_singleFragment {s : Single} (hs : (Leaf.single s).Sound ctx) :
    Yields (ctx.singleFragment s) fun _ => True := by
  have hcomparable := hs.comparable s.condition (List.mem_singleton_self _)
  unfold singleFragment
  dsimp only
  split
  · exact yields_anyValue
  · next hu =>
    split
    · next hr => exact yields_referenceFragment (hcomparable hr) hu
    · refine yields_liftError.bind fun a _ _ => ?_
      refine (yields_valueCondition hu).bind fun ⟨text, kind⟩ _ _ => ?_
      exact yields_fieldFragment (Text.isBlankText_colon _ _)

theorem yields_multiFragment {m : Multi} (hm : (Leaf.multi m).Sound ctx) :
    Yields (ctx.multiFragment m) fun _ => True := by
  obtain ⟨hmem, -, -⟩ := hm.made.members
  have hlead : m.lead ∈ m.members := List.mem_cons_self
  unfold multiFragment
  split
  · next hr =>
    refine yields_referenceFragment (hm.comparable m.lead hlead ?_) (hmem m.lead hlead).2.1
    rw [(hmem m.lead hlead).2.2, hr]
  · refine yields_liftError.bind fun a _ _ => ?_
    dsimp only
    split
    · refine yields_liftError.bind fun range _ _ => ?_
      exact yields_fieldFragment (Text.isBlankText_colon _ _)
    · split
      · refine (yields_mapM fun c _ => yields_liftError.weaken).bind fun values _ _ => ?_
        exact yields_fieldFragment (Text.isBlankText_append_right (by decide))
      · refine (yields_mapM fun c hc => yields_valueCondition (hmem c hc).2.1).bind
          fun conditions _ _ => ?_
        exact yields_fieldFragment (Text.isBlankText_append_right (by decide))
    · refine (yields_valueCondition (hmem m.lead hlead).2.1).bind fun ⟨text, kind⟩ _ _ => ?_
      exact yields_fieldFragment (Text.isBlankText_colon _ _)

/-- The fragment of a leaf is written. -/
theorem yields_leafFragment {l : Leaf} (hl : l.Sound ctx) :
    Yields (ctx.leafFragment l) fun _ => True := by
  cases l with
  | single s => exact yields_singleFragment hl
  | multi m => exact yields_multiFragment hl
  | between b =>
    refine yields_liftError.bind fun a _ _ => ?_
    refine yields_liftError.bind fun range _ _ => ?_
    exact yields_fieldFragment (Text.isBlankText_colon _ _)

/-- The complement of a leaf among the documents with a value is written. -/
theorem yields_leafComplement {l : Leaf} (hl : l.Sound ctx) :
    Yields (ctx.leafComplement l) fun _ => True := by
  refine (yields_leafFragment hl).bind fun positive hp _ => ?_
  refine yields_anyValue.bind fun any _ _ => ?_
  have hon := on_leafFragment hl.made hp
  exact yields_make (Text.isBlankText_append_right (by decide))
    (List.append_ne_nil_of_left_ne_nil hon.fields _) (List.append_ne_nil_of_left_ne_nil hon.kinds _)

end Context

/-! ## Scripts -/

namespace Script

/-- Whether no step is a fault. -/
def Clean (steps : List Step) : Prop := ∀ f, .fail (.fault f) ∉ steps

theorem clean_append {xs ys : List Step} : Clean (xs ++ ys) ↔ Clean xs ∧ Clean ys := by
  simp [Clean, not_or, forall_and]

theorem clean_cons_call {c : Command} {steps : List Step} :
    Clean (.call c :: steps) ↔ Clean steps := by
  simp [Clean]

theorem clean_call (c : Command) : Clean [.call c] := by
  simp [Clean]

theorem clean_andThen {α : Type} {r : Result α} {next : α → List Step} {P : α → Prop}
    (hr : Yields r P) (h : ∀ a, r = .ok a → Clean (next a)) : Clean (andThen r next) := by
  cases r with
  | ok a => exact h a rfl
  | error e =>
    intro f hf
    obtain rfl : Failure.fault f = e := Step.fail.inj (List.mem_singleton.1 hf)
    exact hr.1 f rfl

theorem clean_braced {steps : List Step} : Clean (braced steps) ↔ Clean steps := by
  rw [braced, clean_cons_call, clean_append, and_iff_left (clean_call _)]

theorem clean_separated {j : Connective} {xs : List (List Step)} :
    Clean (separated j xs) ↔ ∀ x ∈ xs, Clean x := by
  induction xs with
  | nil => simp [separated, Clean, List.intercalate]
  | cons x xs ih =>
    cases xs with
    | nil => simp [separated_singleton]
    | cons y ys =>
      rw [separated_cons_cons, clean_append, clean_cons_call, ih]
      exact List.forall_mem_cons.symm

variable {ctx : Context} {here nodeType : String}

/-- A join on another node type than the main one opens, or an error is reported. -/
theorem clean_startJoin (hctx : ctx.Checked) (hn : ctx.mainType ≠ nodeType) :
    Clean (startJoin ctx here nodeType) := by
  refine clean_andThen Context.yields_documentFilters fun filters _ => ?_
  refine clean_andThen yields_liftError fun info hinfo => ?_
  have hnature := hctx.nature (liftError_eq_ok.1 hinfo) hn
  split
  · exact clean_call _
  · exact clean_call _
  · next h => exact absurd h hnature

theorem clean_joined {steps : List Step} (hctx : ctx.Checked)
    (hh : here = nodeType ∨ here = ctx.mainType) (h : Clean steps) :
    Clean (joined ctx here nodeType steps) := by
  rw [joined]
  split
  · exact h
  · next hn =>
    obtain rfl := hh.resolve_left hn
    exact clean_append.2 ⟨clean_startJoin hctx hn, clean_append.2 ⟨h, clean_call _⟩⟩

theorem clean_inScope {q : FilterQuery} (hctx : ctx.Checked)
    (hh : here = nodeType ∨ here = ctx.mainType) : Clean (inScope ctx here nodeType q) :=
  clean_joined hctx hh (clean_call _)

theorem clean_complement {q : FilterQuery} (hctx : ctx.Checked)
    (hh : here = nodeType ∨ here = ctx.mainType) : Clean (complement ctx here nodeType q) :=
  clean_cons_call.2 (clean_append.2 ⟨clean_inScope hctx hh, clean_call _⟩)

theorem clean_plain {l : Leaf} (hctx : ctx.Checked) (hl : l.Sound ctx)
    (hh : here = l.nodeType ∨ here = ctx.mainType) : Clean (plain ctx here l) := by
  refine clean_andThen (Context.yields_leafFragment hl) fun q _ => ?_
  split
  · exact clean_inScope hctx hh
  · exact clean_complement hctx hh

theorem clean_inDocument {l : Leaf} (hctx : ctx.Checked) (hl : l.Sound ctx)
    (hh : here = l.nodeType ∨ here = ctx.mainType) : Clean (inDocument ctx here l) := by
  have hmultiDoc : Yields (if here = l.nodeType then .ok false else
      liftError (ctx.isMultiDoc l.arg)) fun _ => True := by
    split
    · exact yields_ok trivial
    · exact yields_liftError.weaken
  refine clean_andThen hmultiDoc fun multiDoc _ => ?_
  split
  · refine clean_andThen Context.yields_anyValue fun any _ => ?_
    refine clean_andThen (Context.yields_leafFragment hl) fun positive _ => ?_
    rw [clean_braced, clean_append, clean_cons_call]
    exact ⟨clean_inScope hctx hh, clean_complement hctx hh⟩
  · refine clean_andThen (Context.yields_leafComplement hl) fun q _ => ?_
    exact clean_inScope hctx hh

theorem clean_ofLeaf {l : Leaf} (hctx : ctx.Checked) (hl : l.Sound ctx)
    (hh : here = l.nodeType ∨ here = ctx.mainType) : Clean (ofLeaf ctx here l) := by
  rw [ofLeaf.eq_def, hl.verifies, if_neg Bool.false_ne_true]
  cases l with
  | single s =>
    dsimp only
    split
    · refine clean_andThen Context.yields_anyValue fun any _ => ?_
      split
      · exact clean_complement hctx hh
      · exact clean_inScope hctx hh
    · exact clean_plain hctx hl hh
  | multi m =>
    dsimp only
    split
    · exact clean_inDocument hctx hl hh
    · exact clean_plain hctx hl hh
  | between b =>
    dsimp only
    split
    · exact clean_inDocument hctx hl hh
    · exact clean_plain hctx hl hh

theorem clean_bracedIf {brace : Bool} {steps : List Step} (h : Clean steps) :
    Clean (bracedIf brace steps) := by
  cases brace with
  | false => exact h
  | true => exact clean_braced.2 h

open MatchTree (Joins Writable forall_leaves_combined)

theorem clean_joins {t : MatchTree} {top : Bool} (hctx : ctx.Checked) (ht : Joins ctx nodeType t)
    (hl : ∀ l ∈ t.leaves, l.Sound ctx) (hh : here = nodeType ∨ here = ctx.mainType) :
    Clean (ofTree ctx here top t) := by
  induction t using MatchTree.memberInduction generalizing here top with
  | combined j children ih => cases ht
  | leaf l =>
    cases ht with
    | leaf hm hv hj hn => exact clean_ofLeaf hctx (hl l (List.mem_singleton_self l)) (hn ▸ hh)
  | group j nodeType children ih =>
    cases ht with
    | group hlen hc =>
      rw [ofTree, ofTrees_eq_map]
      refine clean_joined hctx hh (clean_bracedIf (clean_separated.2 ?_))
      refine List.forall_mem_map.2 fun t ht => ih t ht (hc t ht) (fun l hlt => hl l ?_) (.inl rfl)
      rw [MatchTree.leaves_group]
      exact List.mem_flatMap.2 ⟨t, ht, hlt⟩

/-- The script of a tree that can be written has no faults. -/
theorem clean_ofTree {t : MatchTree} {top : Bool} (hctx : ctx.Checked) (ht : Writable ctx t) :
    Clean (ofTree ctx ctx.mainType top t) := by
  induction t using MatchTree.memberInduction generalizing top with
  | leaf l => exact clean_ofLeaf hctx (ht.leaves l (List.mem_singleton_self l)) (.inr rfl)
  | group j nodeType children ih =>
    obtain ⟨hg, hl⟩ := ht
    cases hg with
    | group h => exact clean_joins hctx h hl (.inr rfl)
  | combined j children ih =>
    obtain ⟨hg, hl⟩ := ht
    cases hg with
    | combined hlen h =>
      rw [ofTree, ofTrees_eq_map]
      refine clean_bracedIf (clean_separated.2 (List.forall_mem_map.2 fun t ht => ?_))
      exact ih t ht ⟨h t ht, forall_leaves_combined.1 hl t ht⟩

end Script

end AudienceFilter
