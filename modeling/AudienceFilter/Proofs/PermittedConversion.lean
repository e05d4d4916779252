import AudienceFilter.Proofs.Capabilities
import AudienceFilter.Proofs.ConsolidatedConditions
import AudienceFilter.Proofs.ConversionSafety

/-!
# Only what is permitted is converted

Every stage of a conversion keeps the conditions of an expression, or puts others in their place
that need no less: guards are only added, consolidation merges conditions and moves the values of
dates, and grouping changes no leaf. So what the fragments check at the end is checked for every
condition of the expression.

* `allowed_alignDays`: a leaf is allowed if it is after the alignment of its dates;
* `convert_permits`: an expression that is converted has only conditions that are permitted.
-/

namespace AudienceFilter

namespace MatchTree

/-- Whether all conditions of a tree are permitted. -/
def Allowed (ctx : Context) (t : MatchTree) : Prop :=
  ∀ l ∈ t.leaves, ∀ c ∈ l.conditions, ctx.Permits c

variable {ctx : Context}

/-- An aligned leaf needs no less than what it is made from: the order that a bound needs does not
depend on its value, and the equality with a value needs nothing. -/
theorem allowed_alignDays {t t' : MatchTree} (ht : Plain ctx t) (h : alignDays ctx t = .ok t')
    (ha : Allowed ctx t') : Allowed ctx t := by
  rcases alignDays_cases ht h with ⟨rfl, -⟩ | ⟨l, l', rfl, rfl, hl⟩
  · exact ha
  · obtain ⟨x, hx⟩ := List.exists_mem_of_ne_nil _ hl.nonempty
    have hbound := hl.after x hx
    obtain ⟨a, hassign, horder⟩ :=
      (allConditions_leaf.1 ha x hx).order hbound.op hbound.value
    refine allConditions_leaf.2 fun c hc => ?_
    rcases hl.before c hc with hb | ⟨hop, hr⟩
    · rw [hbound.arg, ← hb.arg] at hassign
      refine ⟨fun hop => ?_, fun _ _ => ⟨a, hassign, horder⟩, fun _ other ho => ?_⟩
      · have hop' := hb.op
        rw [hop] at hop'
        cases hop'
      · have hr := hb.value
        rw [Condition.isReference, ho] at hr
        cases hr
    · exact Context.permits_equality hop hr

end MatchTree

namespace Script

variable {ctx : Context}

/-- A script that does not fail has written every leaf of its tree. -/
theorem allowed_ofTree {t : MatchTree} {here : String} {top : Bool}
    (hm : ∀ l ∈ t.leaves, l.Made ctx) (h : Succeeds (ofTree ctx here top t)) : t.Allowed ctx := by
  induction t using MatchTree.memberInduction generalizing here top with
  | leaf l =>
    exact MatchTree.allConditions_leaf.2 (permits_ofLeaf (hm l (List.mem_singleton_self l)) h)
  | combined j children ih =>
    rw [MatchTree.forall_leaves_combined] at hm
    rw [ofTree, ofTrees_eq_map] at h
    have hmembers := succeeds_separated (succeeds_bracedIf h)
    exact MatchTree.allConditions_combined.2 fun c hc =>
      ih c hc (hm c hc) (hmembers _ (List.mem_map_of_mem hc))
  | group j nodeType children ih =>
    rw [MatchTree.forall_leaves_group] at hm
    rw [ofTree, ofTrees_eq_map] at h
    have hmembers := succeeds_separated (succeeds_bracedIf (succeeds_joined h))
    exact MatchTree.forall_leaves_group.2 fun c hc =>
      ih c hc (hm c hc) (hmembers _ (List.mem_map_of_mem hc))

theorem forall_leaves_mainConjuncts {P : Leaf → Prop} {t : MatchTree} :
    (∀ x ∈ mainConjuncts ctx t, ∀ l ∈ x.leaves, P l) ↔ ∀ l ∈ t.leaves, P l := by
  unfold mainConjuncts
  split
  · split
    · exact MatchTree.forall_leaves_group.symm
    · simp
  · simp

/-- The trees that get a filter query each have all leaves. -/
theorem forall_leaves_parts {P : Leaf → Prop} {t : MatchTree} :
    (∀ x ∈ parts ctx t, ∀ l ∈ x.leaves, P l) ↔ ∀ l ∈ t.leaves, P l := by
  unfold parts
  split
  · rw [List.forall_mem_flatMap, MatchTree.forall_leaves_combined]
    exact forall_congr' fun t => forall_congr' fun _ => forall_leaves_mainConjuncts
  · exact forall_leaves_mainConjuncts

end Script

/-- What is written into filter queries is permitted. -/
theorem MatchTree.allowed_filterQueries {ctx : Context} {t : MatchTree} {qs : List FilterQuery}
    (hm : ∀ l ∈ t.leaves, l.Made ctx) (h : t.filterQueries ctx = .ok qs) : t.Allowed ctx := by
  obtain ⟨b, -, h⟩ := bind_eq_ok.1 h
  obtain ⟨-, hall⟩ := Script.succeeds_of_runAll h
  have hparts : ∀ x ∈ Script.parts ctx t, ∀ l ∈ x.leaves, l.Made ctx :=
    Script.forall_leaves_parts.2 hm
  have hallowed : ∀ x ∈ Script.parts ctx t, x.Allowed ctx := fun x hx =>
    Script.allowed_ofTree (hparts x hx) (hall _ (List.mem_map_of_mem hx))
  exact Script.forall_leaves_parts.1 hallowed

namespace Context

theorem permits_filterQueries {ctx : Context} {e : Expression} {qs : List FilterQuery}
    (hs : e.Solid) (h : ctx.filterQueries e = .ok qs) : ∀ c ∈ e.conditions, ctx.Permits c := by
  obtain ⟨g, hg, hqs⟩ := filterQueries_eq_ok hs h
  exact allConditions_of_groupedTree (fun _ _ _ _ => permits_unknown rfl)
    (fun _ _ hplain halign => MatchTree.allowed_alignDays hplain halign) hs hg
    (MatchTree.allowed_filterQueries (made_groupedTree hg) hqs)

end Context

/-- An expression that is converted has, once normalized, only conditions that are permitted under
the directives in effect. -/
theorem convert_permits {s : Settings} {e : Expression} {bindings : Variables} {d : Definition}
    (h : s.convert e bindings = .ok d) :
    ∀ c ∈ e.normalized.conditions, ((Context.new s).setVariables bindings).Permits c := by
  obtain ⟨main, -, h⟩ := bind_eq_ok.1 h
  obtain ⟨filters, -, h⟩ := bind_eq_ok.1 h
  obtain ⟨qs, hqs, -⟩ := bind_eq_ok.1 h
  rcases Expression.solid_normalized e with ⟨x, hx⟩ | hs
  · rw [hx]
    exact fun c hc => absurd hc List.not_mem_nil
  · exact Context.permits_filterQueries hs hqs

/-- Part of a name, a name that is not late, and a city that may not equal its code. -/
def Expression.earlyNamed : Expression :=
  .combined .and [.condition (.withOperator "name" .contains "Ada"),
    .negation false (.withOperator "name" .greaterThan "M"),
    .negation true (.withReference "city" .equals "code")]

theorem convert_permits_earlyNamed :
    ∃ d, Settings.convert { mapping := Catalog.people.toMapping } .earlyNamed [] = .ok d ∧
      Expression.earlyNamed.normalized.conditions.length = 3 ∧
      ∀ c ∈ Expression.earlyNamed.normalized.conditions,
        ((Context.new { mapping := Catalog.people.toMapping }).setVariables []).Permits c := by
  have hok : (Settings.convert { mapping := Catalog.people.toMapping } .earlyNamed []).isOk =
      true := by
    decide +kernel
  obtain ⟨d, hd⟩ := exists_of_isOk hok
  exact ⟨d, hd, by decide +kernel, convert_permits hd⟩

end AudienceFilter
