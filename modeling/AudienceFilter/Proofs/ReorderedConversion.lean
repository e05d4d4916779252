import AudienceFilter.Proofs.ConversionSafety
import AudienceFilter.Proofs.GroupingExtent
import AudienceFilter.Proofs.ReorderedLevels
import AudienceFilter.Proofs.SeparateQueries

/-!
# Conversion of reordered conjunctions

A conjunction on the main documents becomes one group, whose members get a filter query each, and
the definition sorts the queries by their texts. So the order of the members of a conjunction is
lost, but for what it settled when bounds took their equalities.

* `Classes.merge_uniform`: merging a single class;
* `MatchTree.sameOutcome_grouped`: reordered trees are grouped to reordered parts;
* `MatchTree.sameOutcome_filterQueries`: filter queries;
* `convert_reordered`: query definitions;
* `convert_of_uncontested`: those of conjunctions on whose root level no two bounds compete for an
  equality.
-/

namespace AudienceFilter

/-! ## One class -/

namespace Classes

variable {κ α ε : Type} [DecidableEq κ]

theorem collapse_uniform_kept {replacement? : κ → Option α} {k : κ} (h : replacement? k = none)
    (xs : List α) : collapse replacement? [] (xs.map fun x => (some k, x)) = xs := by
  induction xs with
  | nil => rfl
  | cons x xs ih => rw [List.map_cons, collapse_of_kept _ _ (by simp [replaced?, h]), ih]

theorem collapse_uniform_seen {replacement? : κ → Option α} {k : κ} {r : α}
    (h : replacement? k = some r) (xs : List α) :
    collapse replacement? [k] (xs.map fun x => (some k, x)) = [] := by
  induction xs with
  | nil => rfl
  | cons x xs ih =>
    rw [List.map_cons, collapse_of_replaced (k := k) (r := r) _ _ (by simp [replaced?, h]),
      if_pos (List.mem_singleton_self k), ih]

theorem keys_uniform {xs : List α} (hne : xs ≠ []) (k : κ) :
    keys (xs.map fun x => (some k, x)) = [k] := by
  refine List.perm_singleton.1 (show List.Perm _ (Distinct.ofList [k]) from
    Distinct.perm_ofList fun k' => ?_)
  obtain ⟨x, hx⟩ := List.exists_mem_of_ne_nil xs hne
  simp only [List.mem_filterMap, List.mem_map, List.mem_singleton]
  constructor
  · rintro ⟨_, ⟨_, -, rfl⟩, hk⟩
    exact (Option.some.inj hk).symm
  · rintro rfl
    exact ⟨_, ⟨x, hx, rfl⟩, rfl⟩

/-- A single class is replaced as a whole, or kept. -/
theorem merge_uniform {f : κ → List α → Except ε (Option α)} {xs : List α} (hne : xs ≠ []) (k : κ) :
    merge f (xs.map fun x => (some k, x)) = (f k xs).map fun r => r.elim xs ([·]) := by
  have hmembers : members (xs.map fun x => (some k, x)) k = xs := by
    rw [members_map fun _ => some k]
    exact List.filter_eq_self.2 fun _ _ => decide_eq_true rfl
  rw [merge, keys_uniform hne, List.mapM_cons, hmembers]
  cases f k xs with
  | error e => rfl
  | ok r =>
    have hlookup : lookup [(k, r)] k = r := by simp [lookup]
    refine congrArg Except.ok (show collapse (lookup [(k, r)]) [] _ = r.elim xs ([·]) from ?_)
    cases r with
    | none => exact collapse_uniform_kept hlookup xs
    | some g =>
      obtain ⟨x, rest, rfl⟩ := List.exists_cons_of_ne_nil hne
      rw [List.map_cons, collapse_of_replaced (k := k) (r := g) _ _ (by simp [replaced?, hlookup]),
        if_neg List.not_mem_nil, collapse_uniform_seen hlookup]
      rfl

end Classes

namespace MatchTree

variable {ctx : Context} {j : Connective} {n : String}

/-! ## Groups -/

theorem groupLevel_of_key {members : List MatchTree}
    (hk : ∀ t ∈ members, groupKey? ctx j t = .ok (some n)) (hne : members ≠ []) :
    groupLevel ctx j members = groupTrees j n members >>= fun g =>
      liftFault (joined j (g.elim members ([·]))) := by
  have hkeyed : (members.mapM fun t => (liftError (groupKey? ctx j t)).map fun key => (key, t)) =
      .ok (members.map fun t => (some n, t)) := mapM_eq_ok_map fun t ht => by
    rw [hk t ht]
    rfl
  rw [groupLevel, hkeyed]
  show (Classes.merge (groupTrees j) (members.map fun t => (some n, t)) >>= _) = _
  rw [Classes.merge_uniform hne]
  cases groupTrees j n members with
  | error e => rfl
  | ok g => rfl

theorem groupLevel_singleton {t : MatchTree} (hk : groupKey? ctx j t = .ok (some n)) :
    groupLevel ctx j [t] = .ok t := by
  rw [groupLevel_of_key (n := n) (by simpa using hk) (List.cons_ne_nil t [])]
  rfl

theorem groupLevel_of_two_le {members : List MatchTree}
    (hk : ∀ t ∈ members, groupKey? ctx j t = .ok (some n)) (htwo : 2 ≤ members.length) :
    groupLevel ctx j members =
      liftFault (makeGroup j n (members.flatMap (groupMembers j))) := by
  match members, htwo with
  | a :: b :: rest, _ =>
    rw [groupLevel_of_key hk (List.cons_ne_nil _ _), groupTrees]
    cases makeGroup j n ((a :: b :: rest).flatMap (groupMembers j)) with
    | error f => rfl
    | ok g => rfl

theorem groupKey?_of_joinNodeType? {t : MatchTree} (hn : joinNodeType? t = some n)
    (hone : ∀ l ∈ t.leaves, ∀ arg ∈ l.args, ctx.isMultiDoc arg = .ok false) (j : Connective) :
    groupKey? ctx j t = .ok (some n) := by
  rw [groupKey?, hn]
  cases j with
  | or => rfl
  | and =>
    have hargs : anyMultiDoc ctx t.args = .ok false := anyMultiDoc_of_forall fun arg harg => by
      obtain ⟨l, hl, harg⟩ := mem_args.1 harg
      exact hone l hl arg harg
    dsimp only
    rw [hargs]
    rfl

theorem sameOutcome_makeGroup {members members' : List MatchTree} (h : members.Perm members') :
    SameOutcome (fun g g' => (Script.parts ctx g).Perm (Script.parts ctx g'))
      (makeGroup .and ctx.mainType members) (makeGroup .and ctx.mainType members') := by
  have hparts : ∀ ms, Script.parts ctx (.group .and ctx.mainType ms) = ms := fun ms =>
    if_pos (beq_self_eq_true ctx.mainType)
  rw [makeGroup, makeGroup, h.length_eq, h.any_eq]
  split
  · exact .error _ _
  · split
    · exact .error _ _
    · refine .ok ?_
      rw [hparts, hparts]
      exact h

section Main

variable (hone : ∀ arg, ctx.OnMain arg → ctx.isMultiDoc arg = .ok false)

include hone

theorem oneDoc_of_local {t : MatchTree} (ht : Plain ctx t) (hl : AllConditions ctx.Local t) :
    ∀ l ∈ t.leaves, ∀ arg ∈ l.args, ctx.isMultiDoc arg = .ok false := by
  intro l hlt arg harg
  obtain ⟨c, hc, -⟩ := exists_condition_on_arg l
  rw [← (made_of_plain ht l hlt).args_of_mem c hc] at harg
  exact hone arg (hl l hlt c hc arg harg)

/-- A tree on the main documents is grouped to a tree that may stand in a group on them. -/
theorem groupKey?_grouped {t g : MatchTree} (ht : Plain ctx t) (hl : AllConditions ctx.Local t)
    (h : grouped ctx t = .ok g) (j : Connective) :
    groupKey? ctx j g = .ok (some ctx.mainType) := by
  refine groupKey?_of_joinNodeType? ?_
    ((forall_leaves_grouped h).2 (oneDoc_of_local hone ht hl)) j
  induction t using memberInduction generalizing g with
  | group i nodeType children ih => cases ht
  | leaf l =>
    have hmain := ht.made.isMain (allConditions_leaf.1 hl)
    rw [← Except.ok.inj h, joinNodeType?, if_pos (ht.made.joinable_of_main hmain),
      ← eq_of_beq hmain]
  | combined i children ih =>
    rw [grouped, groupedAll_eq_mapM] at h
    obtain ⟨members, hmembers, h⟩ := bind_eq_ok.1 h
    have hnode : ∀ x ∈ members, joinNodeType? x = some ctx.mainType := by
      intro x hx
      obtain ⟨c, hc, hcx⟩ := mem_of_mapM_eq_ok hmembers hx
      exact ih c hc (ht.children c hc) (allConditions_combined.1 hl c hc) hcx
    have hkey : ∀ x ∈ members, groupKey? ctx i x = .ok (some ctx.mainType) := by
      intro x hx
      obtain ⟨c, hc, hcx⟩ := mem_of_mapM_eq_ok hmembers hx
      exact groupKey?_of_joinNodeType? (hnode x hx) ((forall_leaves_grouped hcx).2
        (oneDoc_of_local hone (ht.children c hc) (allConditions_combined.1 hl c hc))) i
    rcases members with _ | ⟨x, _ | ⟨y, rest⟩⟩
    · cases h
    · rw [groupLevel_singleton (hkey x (List.mem_singleton_self x))] at h
      exact Except.ok.inj h ▸ hnode x (List.mem_singleton_self x)
    · rw [groupLevel_of_two_le hkey (Nat.le_add_left 2 rest.length)] at h
      obtain ⟨-, -, rfl⟩ := makeGroup_eq_ok.1 (liftFault_eq_ok.1 h)
      rfl

/-- Reordered conjunctions on the main documents are grouped to the same parts, up to their
order. -/
theorem sameOutcome_grouped {t t' : MatchTree} (ht : Plain ctx t) (hl : AllConditions ctx.Local t)
    (h : t.Reordered t') :
    SameOutcome (fun g g' => (Script.parts ctx g).Perm (Script.parts ctx g'))
      (grouped ctx t) (grouped ctx t') := by
  cases h with
  | refl t => exact .refl (fun _ => .refl _) _
  | @members ts ts' h =>
    rw [grouped, grouped, groupedAll_eq_mapM, groupedAll_eq_mapM]
    refine (sameOutcome_mapM_perm h).bind fun ms ms' hms _ hperm => ?_
    have hkey : ∀ x ∈ ms, groupKey? ctx .and x = .ok (some ctx.mainType) := by
      intro x hx
      obtain ⟨c, hc, hcx⟩ := mem_of_mapM_eq_ok hms hx
      exact groupKey?_grouped hone (ht.children c hc) (allConditions_combined.1 hl c hc) hcx .and
    by_cases htwo : 2 ≤ ms.length
    · rw [groupLevel_of_two_le hkey htwo, groupLevel_of_two_le
        (fun x hx => hkey x (hperm.mem_iff.2 hx)) (hperm.length_eq ▸ htwo)]
      exact (sameOutcome_makeGroup (hperm.flatMap_right _)).liftFault
    · rw [eq_of_perm_of_length_lt hperm (Nat.not_le.1 htwo)]
      exact .refl (fun _ => .refl _) _

end Main

/-! ## Queries -/

theorem sameOutcome_filterQueries {g g' : MatchTree}
    (h : (Script.parts ctx g).Perm (Script.parts ctx g')) :
    SameOutcome List.Perm (g.filterQueries ctx) (g'.filterQueries ctx) := by
  refine (SameOutcome.refl (fun _ => rfl) _).bind fun b b' hb _ he => ?_
  subst he
  rw [Builder.make_eq_ok (liftName_eq_ok.1 hb), Builder.runAll_fresh, Builder.runAll_fresh]
  exact sameOutcome_mapM_perm (h.map _)

end MatchTree

/-! ## Definitions -/

theorem Definition.same_of_perm {mainQuery uniqueKeyField : String} {qs qs' : List FilterQuery}
    (h : qs.Perm qs') :
    (Definition.make mainQuery qs uniqueKeyField).same
      (.make mainQuery qs' uniqueKeyField) = true := by
  have htexts : (make mainQuery qs uniqueKeyField).filterTexts =
      (make mainQuery qs' uniqueKeyField).filterTexts :=
    filterTexts_congr fun _ => (h.map FilterQuery.text).mem_iff
  rw [same, htexts]
  simp [make]

namespace Context

open MatchTree

variable {ctx : Context} {e e' : Expression}

/-- The trees of the root level of a normalized expression, each consolidated. -/
def rootLevel (ctx : Context) (e : Expression) : Result (List MatchTree) := do
  let tree ← ofExpression ctx e.guarded
  tree.rootLevel ctx

section

variable (hone : ∀ arg, ctx.OnMain arg → ctx.isMultiDoc arg = .ok false)
  (hl : ∀ c ∈ e.conditions, ctx.Local c) (h : e.Reordered e')
  (hsame : ∀ items items', ctx.rootLevel e = .ok items → ctx.rootLevel e' = .ok items' →
    SameFirstBounds .negated items items')

include hone hl h hsame

theorem sameOutcome_groupedTree :
    SameOutcome (fun g g' => (Script.parts ctx g).Perm (Script.parts ctx g'))
      (ctx.groupedTree e) (ctx.groupedTree e') := by
  refine (sameOutcome_ofExpression h.guarded).bind fun t t' ht ht' hr => ?_
  have hcovered := Expression.covered_guarded e
  have hplain := (plain_build ht hcovered).1
  have hlocal : AllConditions ctx.Local t := by
    have hguarded := Expression.forall_conditions_guarded local_unknown hl
    rwa [← (leaves_of_build ht hcovered).2, List.forall_mem_flatMap] at hguarded
  have hroot : ∀ items items', t.rootLevel ctx = .ok items → t'.rootLevel ctx = .ok items' →
      SameFirstBounds .negated items items' := fun items items' hi hi' =>
    hsame items items' (bind_eq_ok.2 ⟨t, ht, hi⟩) (bind_eq_ok.2 ⟨t', ht', hi'⟩)
  refine (sameOutcome_consolidated hplain hlocal hr hroot).bind fun r r' hrc _ hr => ?_
  exact sameOutcome_grouped hone (plain_consolidated hplain hrc)
    (allConditions_consolidated local_unknown local_alignDays hplain hrc hlocal) hr

theorem sameOutcome_filterQueries :
    SameOutcome List.Perm (ctx.filterQueries e) (ctx.filterQueries e') := by
  have hgrouped := sameOutcome_groupedTree hone hl h hsame
  cases h with
  | refl e => exact .refl .refl _
  | members h => exact hgrouped.bind fun g g' _ _ hg => MatchTree.sameOutcome_filterQueries hg

end

theorem sameOutcome_rootLevel (h : e.Reordered e') :
    SameOutcome List.Perm (ctx.rootLevel e) (ctx.rootLevel e') := by
  refine (sameOutcome_ofExpression h.guarded).bind fun t t' _ _ hr => ?_
  cases hr with
  | refl t => exact .refl .refl _
  | members h => exact MatchTree.sameOutcome_rootLevel h

theorem perm_rootLevel {items items' : List MatchTree} (h : e.Reordered e')
    (hi : ctx.rootLevel e = .ok items) (hi' : ctx.rootLevel e' = .ok items') :
    items.Perm items' := by
  have hsame : SameOutcome List.Perm (ctx.rootLevel e) (ctx.rootLevel e') :=
    sameOutcome_rootLevel h
  rw [hi, hi'] at hsame
  cases hsame with
  | ok hperm => exact hperm

theorem sameOutcome_definition (hone : ∀ arg, ctx.OnMain arg → ctx.isMultiDoc arg = .ok false)
    (hl : ∀ c ∈ e.normalized.conditions, ctx.Local c)
    (h : e.normalized.Reordered e'.normalized)
    (hsame : ∀ items items', ctx.rootLevel e.normalized = .ok items →
      ctx.rootLevel e'.normalized = .ok items' → SameFirstBounds .negated items items') :
    SameOutcome (fun q q' => q.same q' = true) (ctx.definition e) (ctx.definition e') := by
  refine (SameOutcome.refl (fun _ => rfl) _).bind fun main main' _ _ hmain => ?_
  refine (SameOutcome.refl (fun _ => rfl) _).bind fun filters filters' _ _ hfilters => ?_
  refine (sameOutcome_filterQueries hone hl h hsame).bind fun qs qs' _ _ hqs => .ok ?_
  rw [hmain, hfilters]
  exact Definition.same_of_perm (hqs.append_left _)

/-- The conditions of a conjunction are on the main documents if the arguments of its members
are. -/
theorem local_setVariables {s : Settings} {ms : List Expression} (vars : Variables)
    (h : ∀ e ∈ ms, ∀ arg ∈ e.args, ∃ a,
      s.mapping.assignment arg = .ok a ∧ a.field.nodeType = s.mapping.main.name) :
    ∀ c ∈ (Expression.combine .and ms).normalized.conditions,
      ((Context.new s).setVariables vars).Local c := by
  intro c hc arg harg
  have hmapping := Context.mapping_setVariables s vars
  obtain ⟨e, he, hc⟩ := Expression.mem_conditions_combine (Expression.mem_conditions_normalized hc)
  obtain ⟨a, ha, hn⟩ := h e he arg (Distinct.mem_ofList.2 (List.mem_flatMap.2 ⟨c, hc, harg⟩))
  refine ⟨a, ?_, ?_⟩
  · rw [Context.assignment, hmapping, ha]
  · rw [hn, Context.mainType, hmapping]

end Context

theorem isMultiDoc_of_onMain {d : Draft} {cat : Catalog} {ctx : Context} (hb : d.build = .ok cat)
    (hm : ctx.mapping = cat.toMapping) (arg : String) (h : ctx.OnMain arg) :
    ctx.isMultiDoc arg = .ok false := by
  obtain ⟨a, ha, hmain⟩ := h
  obtain ⟨-, -, has⟩ := Draft.build_eq_ok hb
  have hassigned : cat.assignment arg = .ok a := by
    rw [Context.assignment, hm] at ha
    exact ha
  have hmulti := (Catalog.assignment_eq_ok hassigned has).multiDoc
  rw [Context.isMultiDoc, ha]
  refine congrArg Except.ok (Bool.eq_false_iff.2 fun h => hmulti h ?_)
  rw [hmain, Context.mainType, hm]
  rfl

theorem Expression.reordered_of_perm {ms ms' : List Expression} (h : ms.Perm ms') :
    (combine .and ms).normalized.Reordered (combine .and ms').normalized :=
  (reordered_combine fun _ => h.mem_iff).normalized

section

variable {s : Settings} {d : Draft} {cat : Catalog} {ms ms' : List Expression} {vars : Variables}

/-- With a mapping that was built, the order of the members of a conjunction on the main documents
does not matter, if the same bounds come first for the equalities on its root level: either both
conversions fail, or both succeed with definitions that ask the same. -/
theorem convert_reordered (hb : d.build = .ok cat) (hm : s.mapping = cat.toMapping)
    (hmain : ∀ e ∈ ms, ∀ arg ∈ e.args, ∃ a,
      s.mapping.assignment arg = .ok a ∧ a.field.nodeType = s.mapping.main.name)
    (hperm : ms.Perm ms')
    (hsame : ∀ items items',
      ((Context.new s).setVariables vars).rootLevel (Expression.combine .and ms).normalized =
        .ok items →
      ((Context.new s).setVariables vars).rootLevel (Expression.combine .and ms').normalized =
        .ok items' →
      MatchTree.SameFirstBounds .negated items items') :
    SameOutcome (fun q q' => q.same q' = true) (s.convert (.combine .and ms) vars)
      (s.convert (.combine .and ms') vars) := by
  have hone := isMultiDoc_of_onMain hb ((Context.mapping_setVariables s vars).trans hm)
  exact Context.sameOutcome_definition hone (Context.local_setVariables vars hmain)
    (Expression.reordered_of_perm hperm) hsame

/-- The order does not matter at all where no two negated bounds on the root level compete for an
equality. -/
theorem convert_of_uncontested (hb : d.build = .ok cat) (hm : s.mapping = cat.toMapping)
    (hmain : ∀ e ∈ ms, ∀ arg ∈ e.args, ∃ a,
      s.mapping.assignment arg = .ok a ∧ a.field.nodeType = s.mapping.main.name)
    (hperm : ms.Perm ms')
    (hfree : ∀ items,
      ((Context.new s).setVariables vars).rootLevel (Expression.combine .and ms).normalized =
        .ok items → MatchTree.Uncontested .negated items) :
    SameOutcome (fun q q' => q.same q' = true) (s.convert (.combine .and ms) vars)
      (s.convert (.combine .and ms') vars) := by
  have hone := isMultiDoc_of_onMain hb ((Context.mapping_setVariables s vars).trans hm)
  have hreordered := Expression.reordered_of_perm hperm
  refine Context.sameOutcome_definition hone (Context.local_setVariables vars hmain) hreordered
    fun items items' hi hi' => ?_
  exact (hfree items hi).sameFirstBounds (Context.perm_rootLevel hreordered hi hi')

end

/-! ## Residents -/

/-- Residents with their age and their town. -/
def Draft.residents : Draft where
  main := { name := "person", nature := .main }
  others := []
  assignments := [
    { arg := "age", argType := .integer,
      field := { nodeType := "person", name := "age", type := { kind := .integer } } },
    { arg := "town", argType := .string,
      field := { nodeType := "person", name := "town", type := { kind := .string } } }]

/-- The catalog of the draft. -/
def Catalog.residents : Catalog where
  main := Draft.residents.main
  others := []
  assignments := Draft.residents.assignments
  policies := []
  nodeTypeField := "node_type"
  uniqueKeyField := "id"
  dependentKeyField := "main_id"

/-- Comparisons of an argument with a value that all have to fail. -/
def Expression.failing (arg value : String) (ops : List Operator) : List Expression :=
  ops.map fun op => .negation false (.withOperator arg op value)

/-- Residents between 2 and 60 outside two towns, whose age is neither above 5 nor below it nor
equal to it. Both bounds by 5 could take the equality. -/
def Expression.residents : List Expression :=
  failing "age" "5" [.greaterThan, .lessThan, .equals] ++
    failing "town" "Oslo" [.equals] ++ failing "town" "Bergen" [.equals] ++
    [.condition (.withOperator "age" .greaterThan "2"),
      .condition (.withOperator "age" .lessThan "60")]

/-- The same conditions in another order, in which the bounds by 5 keep theirs. -/
def Expression.residentsMixed : List Expression :=
  .condition (.withOperator "age" .lessThan "60") ::
    failing "town" "Bergen" [.equals] ++ failing "town" "Oslo" [.equals] ++
    failing "age" "5" [.equals, .greaterThan, .lessThan] ++
    [.condition (.withOperator "age" .greaterThan "2")]

/-- The settings of conversions about residents. -/
def Settings.residents : Settings := { mapping := Catalog.residents.toMapping }

theorem Settings.residents_main {arg : String} (h : arg ∈ ["age", "town"]) :
    ∃ a, Settings.residents.mapping.assignment arg = .ok a ∧
      a.field.nodeType = Settings.residents.mapping.main.name := by
  rcases List.mem_cons.1 h with rfl | h
  · exact ⟨_, rfl, rfl⟩
  · rw [List.mem_singleton.1 h]
    exact ⟨_, rfl, rfl⟩

theorem convert_reordered_residents :
    Draft.residents.build = .ok Catalog.residents ∧
      (∀ e ∈ Expression.residents, ∀ arg ∈ e.args, arg ∈ ["age", "town"]) ∧
      Expression.residents.Perm Expression.residentsMixed ∧
      ∃ q q', Settings.residents.convert (.combine .and Expression.residents) [] = .ok q ∧
        Settings.residents.convert (.combine .and Expression.residentsMixed) [] = .ok q' ∧
        q.same q' = true := by
  have hargs : ∀ e ∈ Expression.residents, ∀ arg ∈ e.args, arg ∈ ["age", "town"] := by
    decide +kernel
  have hperm : Expression.residents.Perm Expression.residentsMixed := by decide +kernel
  let level (ms : List Expression) : Result (List MatchTree) :=
    ((Context.new .residents).setVariables []).rootLevel (Expression.combine .and ms).normalized
  have hbounds : ((level Expression.residents).toOption.all fun items =>
      (level Expression.residentsMixed).toOption.all fun items' =>
        MatchTree.SameFirstBounds .negated items items') = true := by decide +kernel
  have houtcome := convert_reordered (s := .residents) (d := .residents) rfl rfl
    (fun e he arg harg => Settings.residents_main (hargs e he arg harg)) hperm
    fun items items' hitems hitems' => by
      rw [show level Expression.residents = .ok items from hitems,
        show level Expression.residentsMixed = .ok items' from hitems'] at hbounds
      exact of_decide_eq_true hbounds
  obtain ⟨q, hq⟩ := exists_of_isOk (by decide +kernel :
    (Settings.residents.convert (.combine .and Expression.residents) []).isOk = true)
  rw [hq] at houtcome
  obtain ⟨q', hq', hsame⟩ : ∃ q', Settings.residents.convert
      (.combine .and Expression.residentsMixed) [] = .ok q' ∧ q.same q' = true := by
    generalize Settings.residents.convert (.combine .and Expression.residentsMixed) [] = r
      at houtcome
    cases houtcome with
    | ok h => exact ⟨_, rfl, h⟩
  exact ⟨rfl, hargs, hperm, q, q', hq, hq', hsame⟩

/-- The first of two negated bounds takes the negated equality, so the order of the bounds shows in
the filter queries. -/
theorem convert_reordered_contested :
    Draft.residents.build = .ok Catalog.residents ∧
      (∀ e ∈ Expression.failing "age" "5" [.greaterThan, .lessThan, .equals],
        ∀ arg ∈ e.args, arg ∈ ["age", "town"]) ∧
      (Expression.failing "age" "5" [.greaterThan, .lessThan, .equals]).Perm
        (Expression.failing "age" "5" [.lessThan, .greaterThan, .equals]) ∧
      (Settings.residents.convert (.combine .and
          (Expression.failing "age" "5" [.greaterThan, .lessThan, .equals])) []).toOption.map
        Definition.filterTexts = some ["(*:* -age:[* TO 5\x7d)",
          "(age:* -age:[5 TO *]) OR (*:* -age:*)", "node_type:person"] ∧
      (Settings.residents.convert (.combine .and
          (Expression.failing "age" "5" [.lessThan, .greaterThan, .equals])) []).toOption.map
        Definition.filterTexts = some ["(*:* -age:\x7b5 TO *])",
          "(age:* -age:[* TO 5]) OR (*:* -age:*)", "node_type:person"] := by
  refine ⟨rfl, ?_, ?_, ?_, ?_⟩
  all_goals decide +kernel

end AudienceFilter
