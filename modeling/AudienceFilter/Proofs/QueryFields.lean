import AudienceFilter.Proofs.BuilderCalls
import AudienceFilter.Proofs.FragmentFields
import AudienceFilter.Proofs.PermittedConversion

/-!
# The fields of filter queries

A builder collects the fields of what it writes. A leaf or a group on another node type than the
one at hand stands in a join, however it is negated, and inside the join there is no other one. So
the filter queries of a tree have the fields that are used for the arguments of the tree.

* `Builder.fields_runAll`: what a builder collects;
* `Script.UsesOn`: what is used on a node type, and by the join on it;
* `Script.usesLeaf_ofLeaf`, `Script.accounts_joins`, `Script.accounts_ofTree`: the steps of leaves,
  of trees inside their join, and of all trees;
* `MatchTree.accounts_filterQueries`: the filter queries of a tree.
-/

namespace AudienceFilter

/-! ## Builders -/

/-- The fields that a step adds to a query. -/
def Step.fields (names : IndexNames) : Step → List QueryField
  | .call c => c.fields names
  | .fail _ => []

/-- The fields that steps add to a query. -/
def Script.fields (ctx : Context) (steps : List Step) : List QueryField :=
  steps.flatMap (Step.fields ctx.mapping.indexNames)

namespace Builder

variable {ctx : Context} {b b' : Builder}

theorem fields_run {steps : List Step} (hn : b.names = ctx.mapping.indexNames)
    (h : b.run steps = .ok b') :
    b'.names = b.names ∧ ∀ f, f ∈ b'.fields ↔ f ∈ b.fields ∨ f ∈ Script.fields ctx steps := by
  induction steps generalizing b with
  | nil =>
    obtain rfl := Except.ok.inj h
    exact ⟨rfl, fun f => by simp [Script.fields]⟩
  | cons s steps ih =>
    cases s with
    | fail f => cases h
    | call c =>
      obtain ⟨b₁, hb, h⟩ := bind_eq_ok.1 h
      have hadds := adds_apply hb
      obtain ⟨hnames, hfields⟩ := ih (hadds.names.trans hn) h
      refine ⟨hnames.trans hadds.names, fun f => ?_⟩
      rw [hfields, hadds.fields, hn, or_assoc, ← List.mem_append]
      rfl

/-- The queries of scripts have the fields that the steps add. -/
theorem fields_runAll {scripts : List (List Step)} {qs : List FilterQuery}
    (hn : b.names = ctx.mapping.indexNames) (hf : b.fields = [])
    (h : b.runAll scripts = .ok qs) (f : QueryField) :
    f ∈ qs.flatMap FilterQuery.fields ↔ f ∈ scripts.flatMap (Script.fields ctx) := by
  induction scripts generalizing b qs with
  | nil =>
    obtain rfl := Except.ok.inj h
    rfl
  | cons steps scripts ih =>
    obtain ⟨b₁, hb, h⟩ := bind_eq_ok.1 h
    obtain ⟨⟨q, b₂⟩, hr, h⟩ := bind_eq_ok.1 h
    obtain ⟨rest, hrest, h⟩ := bind_eq_ok.1 h
    obtain rfl := pure_eq_ok.1 h
    obtain ⟨hnames, hfields⟩ := fields_run hn hb
    obtain ⟨-, -, hq, hb₂⟩ := result_eq_ok (liftFault_eq_ok.1 hr)
    have hnames₂ : b₂.names = ctx.mapping.indexNames := by
      rw [hb₂]
      exact hnames.trans hn
    rw [List.flatMap_cons, List.flatMap_cons, List.mem_append, List.mem_append,
      FilterQuery.mem_fields_make hq, hfields, hf, ih hnames₂ (by rw [hb₂]) hrest]
    simp

end Builder

/-! ## Scripts -/

namespace Script

open Mapping (Accounts)
open MatchTree (Joins Grouped)

variable {ctx : Context} {here nodeType : String} {steps steps' : List Step}
  {own own' used used' : List QueryField} {q : FilterQuery}

theorem fields_call (c : Command) : fields ctx [.call c] = c.fields ctx.mapping.indexNames :=
  List.append_nil _

theorem fields_append : fields ctx (steps ++ steps') = fields ctx steps ++ fields ctx steps' :=
  List.flatMap_append

theorem fields_braced (steps : List Step) : fields ctx (braced steps) = fields ctx steps := by
  simp [braced, fields, Step.fields, Command.fields]

theorem fields_bracedIf (brace : Bool) (steps : List Step) :
    fields ctx (bracedIf brace steps) = fields ctx steps := by
  cases brace with
  | false => rfl
  | true => exact fields_braced steps

theorem fields_separated (j : Connective) (parts : List (List Step)) :
    fields ctx (separated j parts) = parts.flatMap (fields ctx) := by
  induction parts with
  | nil => rfl
  | cons x xs ih =>
    cases xs with
    | nil => rw [separated_singleton, List.flatMap_singleton]
    | cons y ys =>
      rw [separated_cons_cons, fields_append, List.flatMap_cons, ← ih]
      rfl

/-- The start of a join uses the fields of the join. -/
theorem fields_startJoin (hctx : ctx.Checked) (hn : here ≠ nodeType)
    (hs : Succeeds (startJoin ctx here nodeType)) :
    ∃ around, ctx.mapping.joinFields here nodeType = .ok around ∧
      ∀ f, f ∈ fields ctx (startJoin ctx here nodeType) ↔ f ∈ around := by
  obtain ⟨qs, hq, hs⟩ := succeeds_andThen hs
  obtain ⟨info, hi, hs⟩ := succeeds_andThen hs
  have hfilters := @Context.mem_fields_documentFilters ctx nodeType info qs hctx
    (liftError_eq_ok.1 hi) hq
  have hname := hctx.nodeType (liftError_eq_ok.1 hi)
  have hjoin : ctx.mapping.joinFields here nodeType = .ok
      (⟨nodeType, ctx.mapping.nodeTypeField⟩ :: info.filters.map (fun d => ⟨nodeType, d.field⟩) ++
        ctx.mapping.linkFields nodeType info.nature) := by
    rw [Mapping.joinFields, if_neg hn, Mapping.documentFields, liftError_eq_ok.1 hi]
    rfl
  refine ⟨_, hjoin, fun f => ?_⟩
  cases hnature : info.nature with
  | main =>
    rw [hnature] at hs
    exact absurd List.mem_cons_self (hs _)
  | nested =>
    have hstart : startJoin ctx here nodeType = [.call (.startNested nodeType qs)] := by
      simp only [startJoin, hq, hi, andThen, hnature]
    rw [hstart, fields_call, Command.fields, if_pos hname]
    grind [Mapping.linkFields, Mapping.indexNames]
  | dependent =>
    have hstart : startJoin ctx here nodeType = [.call (.startDependent nodeType qs)] := by
      simp only [startJoin, hq, hi, andThen, hnature]
    rw [hstart, fields_call, Command.fields, if_pos hname]
    grind [Mapping.linkFields, Mapping.indexNames]

/-- Whether what is used on a node type are some fields of its own, and those of the join on it
if it is not the node type at hand. -/
def UsesOn (ctx : Context) (here nodeType : String) (own used : List QueryField) : Prop :=
  ∃ around, ctx.mapping.joinFields here nodeType = .ok around ∧ ∀ f, f ∈ used ↔ f ∈ own ++ around

theorem usesOn_joined (hctx : ctx.Checked) (hs : Succeeds (joined ctx here nodeType steps)) :
    UsesOn ctx here nodeType (fields ctx steps) (fields ctx (joined ctx here nodeType steps)) := by
  unfold joined at hs ⊢
  split at hs
  · next h =>
    rw [if_pos h, h]
    exact ⟨[], Mapping.joinFields_self _ _, fun f => by rw [List.append_nil]⟩
  · next h =>
    rw [if_neg h]
    obtain ⟨around, hj, hstart⟩ := fields_startJoin hctx h (succeeds_append.1 hs).1
    refine ⟨around, hj, fun f => ?_⟩
    have hend : fields ctx [.call .endJoin] = [] := rfl
    rw [fields_append, fields_append, hend, List.append_nil, List.mem_append, hstart,
      List.mem_append, or_comm]

theorem usesOn_inScope (hctx : ctx.Checked) (hs : Succeeds (inScope ctx here nodeType q)) :
    UsesOn ctx here nodeType q.fields (fields ctx (inScope ctx here nodeType q)) := by
  have hjoined := usesOn_joined hctx hs
  rwa [fields_call] at hjoined

theorem fields_complement (q : FilterQuery) :
    fields ctx (complement ctx here nodeType q) = fields ctx (inScope ctx here nodeType q) := by
  simp [complement, fields, Step.fields, Command.fields]

theorem usesOn_complement (hctx : ctx.Checked) (hs : Succeeds (complement ctx here nodeType q)) :
    UsesOn ctx here nodeType q.fields (fields ctx (complement ctx here nodeType q)) := by
  rw [fields_complement]
  exact usesOn_inScope hctx (succeeds_append.1 (succeeds_cons_call.1 hs)).1

theorem UsesOn.append (h : UsesOn ctx here nodeType own used)
    (h' : UsesOn ctx here nodeType own' used') :
    UsesOn ctx here nodeType (own ++ own') (used ++ used') := by
  obtain ⟨around, hj, hused⟩ := h
  obtain ⟨around', hj', hused'⟩ := h'
  obtain rfl := Except.ok.inj (hj.symm.trans hj')
  refine ⟨around, hj, fun f => ?_⟩
  rw [List.mem_append, hused, hused']
  grind

/-- What is used on a node type for arguments is used for them from outside. -/
theorem UsesOn.accounts {args : List String} (h : UsesOn ctx here nodeType own used)
    (ha : ctx.mapping.Accounts nodeType args own) (hon : ∀ f ∈ own, f.nodeType = nodeType)
    (hne : args ≠ []) : ctx.mapping.Accounts here args used := by
  obtain ⟨around, hj, hused⟩ := h
  exact (ha.joined hon hne hj).congr (fun _ => Iff.rfl) hused

theorem UsesOn.on (h : UsesOn ctx nodeType nodeType own used)
    (hon : ∀ f ∈ own, f.nodeType = nodeType) : ∀ f ∈ used, f.nodeType = nodeType := by
  obtain ⟨around, hj, hused⟩ := h
  rw [Mapping.joinFields_self] at hj
  obtain rfl := Except.ok.inj hj
  intro f hf
  rw [hused, List.append_nil] at hf
  exact hon f hf

/-! ### Leaves -/

variable {l : Leaf}

/-- Whether steps use the fields of the arguments of a leaf, and those of the join on its node type
if it is not the one at hand. -/
def UsesLeaf (ctx : Context) (here : String) (l : Leaf) (steps : List Step) : Prop :=
  ∃ own, ctx.mapping.Accounts l.nodeType l.args own ∧ (∀ f ∈ own, f.nodeType = l.nodeType) ∧
    UsesOn ctx here l.nodeType own (fields ctx steps)

theorem usesLeaf_plain (hctx : ctx.Checked) (hl : l.Made ctx) (hp : ∀ c ∈ l.conditions, c.Proper)
    (hs : Succeeds (plain ctx here l)) : UsesLeaf ctx here l (plain ctx here l) := by
  obtain ⟨q, hq, hs⟩ := succeeds_andThen hs
  refine ⟨q.fields, Context.accounts_leafFragment hl hp hq,
    (Context.on_leafFragment hl hq).nodeTypes, ?_⟩
  rw [plain, hq, andThen]
  split at hs
  · next hpos =>
    rw [if_pos hpos]
    exact usesOn_inScope hctx hs
  · next hneg =>
    rw [if_neg hneg]
    exact usesOn_complement hctx hs

theorem usesLeaf_inDocument (hctx : ctx.Checked) (hl : l.Made ctx)
    (hp : ∀ c ∈ l.conditions, c.Proper) (hs : Succeeds (inDocument ctx here l)) :
    UsesLeaf ctx here l (inDocument ctx here l) := by
  obtain ⟨multiDoc, hm, hs⟩ := succeeds_andThen hs
  rw [inDocument, hm, andThen]
  split at hs
  · next hd =>
    obtain ⟨any, hany, hs⟩ := succeeds_andThen hs
    obtain ⟨q, hq, hs⟩ := succeeds_andThen hs
    rw [if_pos hd, hany, andThen, hq, andThen]
    obtain ⟨hany', hs⟩ := succeeds_append.1 (succeeds_braced hs)
    refine ⟨any.fields ++ q.fields, (Context.accounts_leafFragment hl hp hq).absorb
      (Context.accounts_anyValue_leaf hl hany) l.arg_subset_args, ?_, ?_⟩
    · obtain ⟨a, ha, hn, -⟩ := hl.assignment
      exact List.forall_mem_append.2 ⟨hn ▸ (Context.on_anyValue ha hany).nodeTypes,
        (Context.on_leafFragment hl hq).nodeTypes⟩
    · rw [fields_braced, fields_append]
      exact (usesOn_inScope hctx hany').append
        (usesOn_complement hctx (succeeds_cons_call.1 hs))
  · next hd =>
    obtain ⟨q, hq, hs⟩ := succeeds_andThen hs
    rw [if_neg hd, hq, andThen]
    exact ⟨q.fields, Context.accounts_leafComplement hl hp hq,
      (Context.on_leafComplement hl hq).nodeTypes, usesOn_inScope hctx hs⟩

theorem usesLeaf_ofLeaf (hctx : ctx.Checked) (hl : l.Made ctx) (hv : l.polarity.verifies = false)
    (hp : ∀ c ∈ l.conditions, c.Proper) (hs : Succeeds (ofLeaf ctx here l)) :
    UsesLeaf ctx here l (ofLeaf ctx here l) := by
  have hchoice : ∀ d : Bool, Succeeds (if d then inDocument ctx here l else plain ctx here l) →
      UsesLeaf ctx here l (if d then inDocument ctx here l else plain ctx here l) := by
    intro d hs
    cases d with
    | true => exact usesLeaf_inDocument hctx hl hp hs
    | false => exact usesLeaf_plain hctx hl hp hs
  unfold ofLeaf at hs ⊢
  rw [if_neg (Bool.eq_false_iff.1 hv)] at hs ⊢
  cases l with
  | single s =>
    dsimp only at hs ⊢
    split at hs
    · next hu =>
      obtain ⟨any, hany, hs⟩ := succeeds_andThen hs
      rw [if_pos hu, hany, andThen]
      have hargs : (Leaf.single s).args = [s.condition.arg] :=
        (hp _ (List.mem_singleton_self _)).args_eq (by simpa [Single.isUnknownCheck] using hu)
      obtain ⟨a, ha, hn, -⟩ := hl.assignment
      refine ⟨any.fields, hargs ▸ Context.accounts_anyValue_leaf hl hany,
        hn ▸ (Context.on_anyValue ha hany).nodeTypes, ?_⟩
      split at hs
      · next hpos =>
        rw [if_pos hpos]
        exact usesOn_complement hctx hs
      · next hneg =>
        rw [if_neg hneg]
        exact usesOn_inScope hctx hs
    · next hu =>
      rw [if_neg hu]
      exact usesLeaf_plain hctx hl hp hs
  | multi m => exact hchoice _ hs
  | between b => exact hchoice _ hs

/-! ### Trees -/

theorem args_ne_nil_of_joins {t : MatchTree} (h : Joins ctx nodeType t) :
    t.leaves.flatMap Leaf.args ≠ [] := by
  induction t using MatchTree.memberInduction with
  | leaf l =>
    rw [MatchTree.leaves, List.flatMap_singleton]
    exact l.args_ne_nil
  | combined j children ih => cases h
  | group j n children ih =>
    cases h with
    | group hlen hc =>
      obtain ⟨c, hmem⟩ := List.exists_mem_of_length_pos (Nat.lt_of_lt_of_le Nat.two_pos hlen)
      obtain ⟨arg, harg⟩ := List.exists_mem_of_ne_nil _ (ih c hmem (hc c hmem))
      rw [MatchTree.leaves_group, List.flatMap_assoc]
      exact List.ne_nil_of_mem (List.mem_flatMap.2 ⟨c, hmem, harg⟩)

/-- The steps of a tree in its join use the fields of its arguments alone. -/
theorem accounts_joins {t : MatchTree} {top : Bool} (hctx : ctx.Checked)
    (ht : Joins ctx nodeType t) (hp : t.AllConditions Condition.Proper)
    (hs : Succeeds (ofTree ctx nodeType top t)) :
    ctx.mapping.Accounts nodeType (t.leaves.flatMap Leaf.args)
        (fields ctx (ofTree ctx nodeType top t)) ∧
      ∀ f ∈ fields ctx (ofTree ctx nodeType top t), f.nodeType = nodeType := by
  induction t using MatchTree.memberInduction generalizing top with
  | combined j children ih => cases ht
  | leaf l =>
    cases ht with
    | leaf hl hv hj hn =>
      subst hn
      obtain ⟨own, ha, hon, hu⟩ := usesLeaf_ofLeaf hctx hl hv
        (MatchTree.allConditions_leaf.1 hp) hs
      rw [ofTree, MatchTree.leaves, List.flatMap_singleton]
      exact ⟨hu.accounts ha hon l.args_ne_nil, hu.on hon⟩
  | group j n children ih =>
    cases ht with
    | group hlen hc =>
      rw [ofTree, ofTrees_eq_map] at hs ⊢
      have hmembers := succeeds_separated (succeeds_bracedIf (succeeds_joined hs))
      rw [joined, if_pos rfl, fields_bracedIf, fields_separated, List.flatMap_map,
        MatchTree.leaves_group, List.flatMap_assoc]
      rw [MatchTree.AllConditions, MatchTree.forall_leaves_group] at hp
      have hchild := fun c hmem => ih c hmem (hc c hmem) (hp c hmem)
        (hmembers _ (List.mem_map_of_mem hmem))
      exact ⟨Mapping.accounts_flatMap fun c hmem => (hchild c hmem).1,
        List.forall_mem_flatMap.2 fun c hmem => (hchild c hmem).2⟩

/-- The steps of a tree use the fields of its arguments, and those of the joins on their node
types. -/
theorem accounts_ofTree {t : MatchTree} {top : Bool} (hctx : ctx.Checked) (ht : Grouped ctx t)
    (hp : t.AllConditions Condition.Proper) (hs : Succeeds (ofTree ctx ctx.mainType top t)) :
    ctx.mapping.Accounts ctx.mainType (t.leaves.flatMap Leaf.args)
      (fields ctx (ofTree ctx ctx.mainType top t)) := by
  induction t using MatchTree.memberInduction generalizing top with
  | leaf l =>
    cases ht with
    | leaf hl hv =>
      obtain ⟨own, ha, hon, hu⟩ := usesLeaf_ofLeaf hctx hl hv
        (MatchTree.allConditions_leaf.1 hp) hs
      rw [ofTree, MatchTree.leaves, List.flatMap_singleton]
      exact hu.accounts ha hon l.args_ne_nil
  | combined j children ih =>
    cases ht with
    | combined hlen hc =>
      rw [ofTree, ofTrees_eq_map] at hs ⊢
      have hmembers := succeeds_separated (succeeds_bracedIf hs)
      rw [fields_bracedIf, fields_separated, List.flatMap_map, MatchTree.leaves_combined,
        List.flatMap_assoc]
      rw [MatchTree.allConditions_combined] at hp
      exact Mapping.accounts_flatMap fun c hmem => ih c hmem (hc c hmem) (hp c hmem)
        (hmembers _ (List.mem_map_of_mem hmem))
  | group j nodeType children ih =>
    cases ht with
    | group h =>
      -- Inside the join, the group is a tree on the node type at hand.
      have hinside : ofTree ctx nodeType true (.group j nodeType children) =
          separated j (ofTrees ctx nodeType children) := by
        rw [ofTree, joined, if_pos rfl, if_pos rfl]
        rfl
      rw [ofTree] at hs ⊢
      have hinner : Succeeds (ofTree ctx nodeType true (.group j nodeType children)) :=
        hinside ▸ succeeds_bracedIf (succeeds_joined hs)
      obtain ⟨ha, hon⟩ := accounts_joins hctx h hp hinner
      rw [hinside] at ha hon
      have hu := usesOn_joined hctx hs
      rw [fields_bracedIf] at hu
      exact hu.accounts ha hon (args_ne_nil_of_joins h)

end Script

/-- The filter queries of a tree have the fields of its arguments, and those of the joins on their
node types. -/
theorem MatchTree.accounts_filterQueries {ctx : Context} {t : MatchTree} {qs : List FilterQuery}
    (hctx : ctx.Checked) (ht : Grouped ctx t) (hp : t.AllConditions Condition.Proper)
    (h : t.filterQueries ctx = .ok qs) :
    ctx.mapping.Accounts ctx.mainType t.args (qs.flatMap FilterQuery.fields) := by
  obtain ⟨b, hb, h⟩ := bind_eq_ok.1 h
  obtain rfl := Builder.make_eq_ok (liftName_eq_ok.1 hb)
  obtain ⟨-, hs⟩ := Script.succeeds_of_runAll h
  have hparts : ctx.mapping.Accounts ctx.mainType
      ((Script.parts ctx t).flatMap fun x => x.leaves.flatMap Leaf.args)
      ((Script.parts ctx t).flatMap fun x =>
        Script.fields ctx (Script.ofTree ctx ctx.mainType true x)) := by
    refine Mapping.accounts_flatMap fun x hx => ?_
    exact Script.accounts_ofTree hctx (Script.grouped_parts ht x hx)
      (fun l hl => hp l (Script.mem_leaves_parts hx hl)) (hs _ (List.mem_map_of_mem hx))
  refine hparts.congr (fun arg => ?_) fun f => ?_
  · simp only [mem_args, List.mem_flatMap]
    constructor
    · rintro ⟨l, hl, harg⟩
      obtain ⟨x, hx, hlx⟩ := Script.forall_leaves_parts.1
        (fun x hx l hl => (⟨x, hx, hl⟩ : ∃ x ∈ Script.parts ctx t, l ∈ x.leaves)) l hl
      exact ⟨x, hx, l, hlx, harg⟩
    · rintro ⟨x, hx, l, hl, harg⟩
      exact ⟨l, Script.mem_leaves_parts hx hl, harg⟩
  · rw [Builder.fields_runAll rfl rfl h, Script.ofRoot, List.flatMap_map]

end AudienceFilter
