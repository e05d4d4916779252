import AudienceFilter.Proofs.ConversionSafety
import AudienceFilter.Proofs.TreeAgreement

/-!
# Contexts that write the same queries

What is written for a tree depends on variables and directives too. A context may be stricter
than another and refuse a comparison by order where the other does not; apart from this, they
write the same if they agree on what the conditions of the tree need.

* `SameUnless`: results that are the same unless the second is a failure that is foreseen;
* `Context.Follows`: what two contexts have to agree on for a condition;
* `Script.runsAlike_ofTree`, `Script.sameUnless_ofRoot`: scripts and the queries they write.
-/

namespace AudienceFilter

/-! ## Results -/

/-- Whether a second result is the same as the first, or else a failure that is foreseen. -/
def SameUnless {α : Type} (foreseen : Failure → Prop) (r r' : Result α) : Prop :=
  r' = r ∨ ∃ f, foreseen f ∧ r' = .error f

section

variable {α β : Type} {foreseen : Failure → Prop}

theorem sameUnless_of_eq {r r' : Result α} (h : r' = r) : SameUnless foreseen r r' := .inl h

theorem SameUnless.bind {r r' : Result α} {f f' : α → Result β} (h : SameUnless foreseen r r')
    (hf : ∀ a, r = .ok a → SameUnless foreseen (f a) (f' a)) :
    SameUnless foreseen (r >>= f) (r' >>= f') := by
  rcases h with rfl | ⟨e, he, rfl⟩
  · cases r' with
    | ok a => exact hf a rfl
    | error e => exact sameUnless_of_eq rfl
  · exact .inr ⟨e, he, rfl⟩

/-- A first step that may fail, followed by the same steps. -/
theorem SameUnless.bind_left {r r' : Result α} {f f' : α → Result β} (h : SameUnless foreseen r r')
    (hf : f' = f) : SameUnless foreseen (r >>= f) (r' >>= f') :=
  h.bind fun _ _ => sameUnless_of_eq (by rw [hf])

theorem sameUnless_mapM {f f' : α → Result β} {xs : List α}
    (h : ∀ x ∈ xs, SameUnless foreseen (f x) (f' x)) :
    SameUnless foreseen (xs.mapM f) (xs.mapM f') := by
  induction xs with
  | nil => exact sameUnless_of_eq rfl
  | cons x xs ih =>
    rw [List.forall_mem_cons] at h
    rw [List.mapM_cons, List.mapM_cons]
    exact h.1.bind fun _ _ => (ih h.2).bind_left rfl

end

/-! ## Contexts -/

namespace Context

/-- The context of a conversion, in one step. -/
theorem setVariables_new (s : Settings) (vars : Variables) :
    (Context.new s).setVariables vars =
      refresh { settings := s, bindings := s.bindings.setAll vars, directives := [] } := by
  rw [new, setVariables, refresh_eq, refresh_eq, refresh_eq]

/-- Whether two contexts that build the same trees have the same variables. -/
structure SameData (ctx ctx' : Context) : Prop extends Alike ctx ctx' where
  bindings : ctx'.bindings = ctx.bindings

/-- What two contexts agree on for a condition: the directives that forbid a comparison of its
kind. The second may forbid an order that the first does not if the failure is foreseen. -/
structure Follows (foreseen : Failure → Prop) (ctx ctx' : Context) (c : Condition) : Prop where
  snippet : c.op = .contains →
    ctx'.isEnabled .disableContains = ctx.isEnabled .disableContains
  comparison : c.isReference = true →
    ctx'.isEnabled .disableReferences = ctx.isEnabled .disableReferences
  order : c.op.isBound = true → ctx'.isEnabled .disableOrder = ctx.isEnabled .disableOrder ∨
    c.isReference = false ∧ ctx'.isEnabled .disableOrder = true ∧
      ∀ a, ctx.assignment c.arg = .ok a →
        foreseen (.error (.orderNotSupported a.arg .disabledByDirective))

variable {ctx ctx' : Context}

theorem Alike.anyValue (h : Alike ctx ctx') : ctx'.anyValue = ctx.anyValue := by
  funext arg
  simp only [Context.anyValue, h.assignment]

theorem Alike.mainFilter (h : Alike ctx ctx') : ctx'.mainFilter = ctx.mainFilter := by
  simp only [Context.mainFilter, h.mapping, h.mainType]

theorem Alike.nothing (h : Alike ctx ctx') : ctx'.nothing = ctx.nothing := by
  simp only [Context.nothing, h.mapping, h.mainType, h.mainFilter]

theorem SameData.documentFilters (h : SameData ctx ctx') :
    ctx'.documentFilters = ctx.documentFilters := by
  have hvalue : ctx'.valueOf? = ctx.valueOf? := by
    funext name
    rw [valueOf?, valueOf?, h.bindings]
  have hfilter : ctx'.documentFilter = ctx.documentFilter := by
    funext f
    simp only [Context.documentFilter, Context.resolve, hvalue]
  funext nodeType
  simp only [Context.documentFilters, h.mapping, hfilter]

/-! ## Fragments -/

section

variable {foreseen : Failure → Prop} {a : Assignment} {c : Condition}

theorem sameUnless_checkOrder (h : Follows foreseen ctx ctx' c) (hb : c.op.isBound = true)
    (ha : ctx.assignment c.arg = .ok a) :
    SameUnless foreseen (liftError (ctx.checkOrder a)) (liftError (ctx'.checkOrder a)) := by
  rcases h.order hb with he | ⟨-, he, hf⟩
  · exact sameUnless_of_eq (by simp only [checkOrder, he])
  · refine .inr ⟨_, hf a ha, ?_⟩
    rw [checkOrder, if_pos he]
    rfl

theorem sameUnless_valueCondition (hs : Alike ctx ctx') (h : Follows foreseen ctx ctx' c)
    (ha : ctx.assignment c.arg = .ok a) :
    SameUnless foreseen (ctx.valueCondition a c) (ctx'.valueCondition a c) := by
  have horder := fun hb => sameUnless_checkOrder h hb ha
  cases hop : c.op with
  | contains =>
    refine sameUnless_of_eq ?_
    simp only [valueCondition, hop, checkContains, h.snippet hop]
  | equals =>
    refine sameUnless_of_eq ?_
    simp only [valueCondition, hop, hs.alignsDays]
  | greaterThan =>
    simp only [valueCondition, hop, hs.alignsDays]
    exact (horder (by rw [hop]; rfl)).bind_left rfl
  | lessThan =>
    simp only [valueCondition, hop]
    exact (horder (by rw [hop]; rfl)).bind_left rfl
  | isUnknown =>
    refine sameUnless_of_eq ?_
    simp only [valueCondition, hop]

theorem referenceFragment_eq (hs : Alike ctx ctx') (h : Follows foreseen ctx ctx' c)
    (hr : c.isReference = true) (inclusive : Bool) :
    ctx'.referenceFragment c inclusive = ctx.referenceFragment c inclusive := by
  have hcheck : ∀ a b, ctx'.checkReference a b c.op.isBound =
      ctx.checkReference a b c.op.isBound := by
    intro a b
    cases hb : c.op.isBound with
    | false =>
      simp only [checkReference, h.comparison hr]
      rfl
    | true =>
      rcases h.order hb with he | ⟨hn, -⟩
      · simp only [checkReference, h.comparison hr, he]
      · cases hr.symm.trans hn
  simp only [referenceFragment, hs.assignment, hs.alignsDays, hcheck]

theorem sameUnless_singleFragment {s : Single} (hs : Alike ctx ctx')
    (h : Follows foreseen ctx ctx' s.condition) :
    SameUnless foreseen (ctx.singleFragment s) (ctx'.singleFragment s) := by
  unfold singleFragment
  simp only [hs.anyValue, hs.assignment]
  split
  · exact sameUnless_of_eq rfl
  · split
    · next hr => exact sameUnless_of_eq (referenceFragment_eq hs h hr false)
    · refine (sameUnless_of_eq rfl).bind fun a ha => ?_
      exact (sameUnless_valueCondition hs h (liftError_eq_ok.1 ha)).bind_left rfl

theorem sameUnless_multiFragment {m : Multi} (hm : (Leaf.multi m).Made ctx)
    (hs : Alike ctx ctx') (h : ∀ c ∈ m.members, Follows foreseen ctx ctx' c) :
    SameUnless foreseen (ctx.multiFragment m) (ctx'.multiFragment m) := by
  obtain ⟨hmembers, htogether, -⟩ := hm.members
  have hlead : m.lead ∈ m.members := List.mem_cons_self
  unfold multiFragment
  simp only [hs.assignment, hs.alignsDays]
  split
  · next hr =>
    have href : m.lead.isReference = true := (hmembers _ hlead).2.2.trans hr
    exact sameUnless_of_eq (referenceFragment_eq hs (h _ hlead) href _)
  · refine (sameUnless_of_eq rfl).bind fun a ha => ?_
    have hassign : ∀ c ∈ m.members, ctx.assignment c.arg = .ok a := fun c hc => by
      rw [(hmembers c hc).1]
      exact liftError_eq_ok.1 ha
    split
    · next hv =>
      obtain ⟨-, -, hbound, -⟩ := htogether.equality hv
      refine SameUnless.bind_left ?_ rfl
      simp only [inclusiveBound, hs.alignsDays, liftError_bind]
      exact (sameUnless_checkOrder (h _ hlead) hbound (hassign _ hlead)).bind_left rfl
    · split
      · exact sameUnless_of_eq rfl
      · refine SameUnless.bind_left (sameUnless_mapM fun c hc => ?_) rfl
        exact sameUnless_valueCondition hs (h c hc) (hassign c hc)
    · exact (sameUnless_valueCondition hs (h _ hlead) (hassign _ hlead)).bind_left rfl

theorem sameUnless_betweenFragment {b : Between} (hb : (Leaf.between b).Made ctx)
    (hs : Alike ctx ctx') (h : ∀ c ∈ b.members, Follows foreseen ctx ctx' c) :
    SameUnless foreseen (ctx.betweenFragment b) (ctx'.betweenFragment b) := by
  obtain ⟨-, -, hlow, -⟩ := hb.bounds
  have hbound : b.lower.lead.op.isBound = true := by
    have hop : b.lower.leadOp = .greaterThan := by
      simp only [Multi.isLowerBound, Bool.and_eq_true, beq_iff_eq] at hlow
      exact hlow.2
    rw [show b.lower.lead.op = .greaterThan from hop]
    rfl
  have hlead : b.lower.lead ∈ b.members := List.mem_append_left _ List.mem_cons_self
  unfold betweenFragment
  simp only [hs.assignment]
  refine (sameUnless_of_eq rfl).bind fun a ha => SameUnless.bind_left ?_ rfl
  simp only [betweenRange, hs.alignsDays, liftError_bind]
  exact (sameUnless_checkOrder (h _ hlead) hbound (liftError_eq_ok.1 ha)).bind_left rfl

/-- The fragment of a leaf is the same if the contexts agree on its conditions. -/
theorem sameUnless_leafFragment {l : Leaf} (hl : l.Made ctx) (hs : Alike ctx ctx')
    (h : ∀ c ∈ l.conditions, Follows foreseen ctx ctx' c) :
    SameUnless foreseen (ctx.leafFragment l) (ctx'.leafFragment l) := by
  cases l with
  | single s => exact sameUnless_singleFragment hs (h _ (List.mem_singleton_self _))
  | multi m => exact sameUnless_multiFragment hl hs h
  | between b => exact sameUnless_betweenFragment hl hs h

theorem sameUnless_leafComplement {l : Leaf} (hl : l.Made ctx) (hs : Alike ctx ctx')
    (h : ∀ c ∈ l.conditions, Follows foreseen ctx ctx' c) :
    SameUnless foreseen (ctx.leafComplement l) (ctx'.leafComplement l) := by
  unfold leafComplement
  simp only [hs.anyValue]
  exact (sameUnless_leafFragment hl hs h).bind_left rfl

end

end Context

/-! ## Scripts -/

namespace Script

open Context (SameData Follows)

variable {foreseen : Failure → Prop} {ctx ctx' : Context} {here nodeType : String}

/-- Whether every builder runs two lists of steps with the same result, unless the second fails
in a way that is foreseen. -/
def RunsAlike (foreseen : Failure → Prop) (steps steps' : List Step) : Prop :=
  ∀ b : Builder, SameUnless foreseen (b.run steps) (b.run steps')

theorem runsAlike_of_eq {steps steps' : List Step} (h : steps' = steps) :
    RunsAlike foreseen steps steps' := fun _ => sameUnless_of_eq (by rw [h])

theorem RunsAlike.append {xs xs' ys ys' : List Step} (hx : RunsAlike foreseen xs xs')
    (hy : RunsAlike foreseen ys ys') : RunsAlike foreseen (xs ++ ys) (xs' ++ ys') := by
  intro b
  rw [Builder.run_append, Builder.run_append]
  exact (hx b).bind fun b' _ => hy b'

theorem RunsAlike.cons {s : Step} {xs xs' : List Step} (h : RunsAlike foreseen xs xs') :
    RunsAlike foreseen (s :: xs) (s :: xs') :=
  (show RunsAlike foreseen [s] [s] from runsAlike_of_eq rfl).append h

theorem runsAlike_andThen {α : Type} {r r' : Result α} {next next' : α → List Step}
    (hr : SameUnless foreseen r r') (h : ∀ a, RunsAlike foreseen (next a) (next' a)) :
    RunsAlike foreseen (andThen r next) (andThen r' next') := by
  rcases hr with rfl | ⟨f, hf, rfl⟩
  · cases r' with
    | ok a => exact h a
    | error f => exact runsAlike_of_eq rfl
  · exact fun b => .inr ⟨f, hf, rfl⟩

theorem RunsAlike.braced {xs xs' : List Step} (h : RunsAlike foreseen xs xs') :
    RunsAlike foreseen (braced xs) (Script.braced xs') :=
  (h.append (runsAlike_of_eq rfl)).cons

theorem RunsAlike.bracedIf {xs xs' : List Step} (brace : Bool) (h : RunsAlike foreseen xs xs') :
    RunsAlike foreseen (bracedIf brace xs) (Script.bracedIf brace xs') := by
  cases brace with
  | false => exact h
  | true => exact h.braced

theorem startJoin_eq (hs : SameData ctx ctx') : startJoin ctx' = startJoin ctx := by
  funext here nodeType
  simp only [startJoin, hs.documentFilters, hs.mapping]

theorem RunsAlike.joined {xs xs' : List Step} (hs : SameData ctx ctx')
    (h : RunsAlike foreseen xs xs') :
    RunsAlike foreseen (joined ctx here nodeType xs) (Script.joined ctx' here nodeType xs') := by
  unfold Script.joined
  rw [startJoin_eq hs]
  split
  · exact h
  · exact (runsAlike_of_eq rfl).append (h.append (runsAlike_of_eq rfl))

theorem inScope_eq (hs : SameData ctx ctx') : inScope ctx' = inScope ctx := by
  funext here nodeType q
  simp only [inScope, joined, startJoin_eq hs]

theorem complement_eq (hs : SameData ctx ctx') : complement ctx' = complement ctx := by
  funext here nodeType q
  simp only [complement, inScope_eq hs]

theorem knownArgs_eq (hs : SameData ctx ctx') (args : List String) :
    knownArgs ctx' here nodeType args = knownArgs ctx here nodeType args := by
  induction args with
  | nil => rfl
  | cons arg args ih => simp only [knownArgs, hs.anyValue, inScope_eq hs, ih]

theorem runsAlike_ofLeaf {l : Leaf} (hl : l.Made ctx) (hs : SameData ctx ctx')
    (h : ∀ c ∈ l.conditions, Follows foreseen ctx ctx' c) :
    RunsAlike foreseen (ofLeaf ctx here l) (ofLeaf ctx' here l) := by
  have hfragment := Context.sameUnless_leafFragment hl hs.toAlike h
  have hplain : RunsAlike foreseen (plain ctx here l) (plain ctx' here l) := by
    simp only [plain, inScope_eq hs, complement_eq hs]
    exact runsAlike_andThen hfragment fun _ => runsAlike_of_eq rfl
  have hinDocument : RunsAlike foreseen (inDocument ctx here l) (inDocument ctx' here l) := by
    simp only [inDocument, hs.isMultiDoc, hs.anyValue, inScope_eq hs, complement_eq hs]
    refine runsAlike_andThen (sameUnless_of_eq rfl) fun multiDoc => ?_
    split
    · exact runsAlike_andThen (sameUnless_of_eq rfl) fun _ =>
        runsAlike_andThen hfragment fun _ => runsAlike_of_eq rfl
    · exact runsAlike_andThen (Context.sameUnless_leafComplement hl hs.toAlike h) fun _ =>
        runsAlike_of_eq rfl
  have hverified : RunsAlike foreseen (verified ctx here l) (verified ctx' here l) := by
    unfold verified
    split
    · exact runsAlike_of_eq rfl
    · simp only [knownArgs_eq hs, complement_eq hs]
      exact runsAlike_andThen hfragment fun _ => runsAlike_of_eq rfl
  unfold ofLeaf
  split
  · exact hverified
  · split
    · split
      · simp only [hs.anyValue, inScope_eq hs, complement_eq hs]
        exact runsAlike_of_eq rfl
      · exact hplain
    · split
      · exact hinDocument
      · exact hplain
    · split
      · exact hinDocument
      · exact hplain

theorem runsAlike_separated {α : Type} {j : Connective} {f f' : α → List Step} {xs : List α}
    (h : ∀ x ∈ xs, RunsAlike foreseen (f x) (f' x)) :
    RunsAlike foreseen (separated j (xs.map f)) (separated j (xs.map f')) := by
  induction xs with
  | nil => exact runsAlike_of_eq rfl
  | cons x xs ih =>
    rw [List.forall_mem_cons] at h
    cases xs with
    | nil => simpa [separated_singleton] using h.1
    | cons y ys =>
      rw [List.map_cons, List.map_cons, List.map_cons, List.map_cons, separated_cons_cons,
        separated_cons_cons, ← List.map_cons, ← List.map_cons]
      exact h.1.append (ih h.2).cons

/-- Contexts that agree on the conditions of a tree write it alike. -/
theorem runsAlike_ofTree {t : MatchTree} {top : Bool} (hs : SameData ctx ctx')
    (hm : ∀ l ∈ t.leaves, l.Made ctx)
    (h : ∀ l ∈ t.leaves, ∀ c ∈ l.conditions, Follows foreseen ctx ctx' c) :
    RunsAlike foreseen (ofTree ctx here top t) (ofTree ctx' here top t) := by
  induction t using MatchTree.memberInduction generalizing here top with
  | leaf l =>
    have hl := List.mem_singleton_self l
    exact runsAlike_ofLeaf (hm l hl) hs (h l hl)
  | combined j children ih =>
    rw [MatchTree.forall_leaves_combined] at hm h
    rw [ofTree, ofTree, ofTrees_eq_map, ofTrees_eq_map]
    exact (runsAlike_separated fun c hc => ih c hc (hm c hc) (h c hc)).bracedIf _
  | group j nodeType children ih =>
    rw [MatchTree.leaves_group, List.forall_mem_flatMap] at hm h
    rw [ofTree, ofTree, ofTrees_eq_map, ofTrees_eq_map]
    exact ((runsAlike_separated fun c hc => ih c hc (hm c hc) (h c hc)).bracedIf _).joined hs

theorem sameUnless_runAll {α : Type} {f f' : α → List Step} {xs : List α}
    (h : ∀ x ∈ xs, RunsAlike foreseen (f x) (f' x)) (b : Builder) :
    SameUnless foreseen (b.runAll (xs.map f)) (b.runAll (xs.map f')) := by
  induction xs generalizing b with
  | nil => exact sameUnless_of_eq rfl
  | cons x xs ih =>
    rw [List.forall_mem_cons] at h
    refine (h.1 b).bind fun b' _ => (sameUnless_of_eq rfl).bind fun r _ => ?_
    exact (ih h.2 r.2).bind_left rfl

/-- Contexts that agree on the conditions of a tree write the same queries for it. -/
theorem sameUnless_ofRoot {t : MatchTree} (hs : SameData ctx ctx')
    (hm : ∀ l ∈ t.leaves, l.Made ctx)
    (h : ∀ l ∈ t.leaves, ∀ c ∈ l.conditions, Follows foreseen ctx ctx' c) (b : Builder) :
    SameUnless foreseen (b.runAll (ofRoot ctx t)) (b.runAll (ofRoot ctx' t)) := by
  have hparts : parts ctx' t = parts ctx t := by
    unfold parts mainConjuncts
    rw [hs.isMain]
  rw [ofRoot, ofRoot, hparts, hs.mainType]
  refine sameUnless_runAll (fun x hx => runsAlike_ofTree hs ?_ ?_) b
  · exact fun l hl => hm l (mem_leaves_parts hx hl)
  · exact fun l hl => h l (mem_leaves_parts hx hl)

end Script

end AudienceFilter
