import AudienceFilter.Proofs.BuilderRun
import AudienceFilter.Proofs.QueryMeaning

/-!
# Conversions meet no faults

Whatever the expression, the variables, the directives and the style are: a conversion with a
mapping that was checked gives a definition or an error to report.

* `MatchTree.yields_filterQueries`: the filter queries of a tree that can be written;
* `convert_no_fault`: conversions.
-/

namespace AudienceFilter

open MatchTree (Writable)

variable {ctx : Context}

namespace Script

theorem mem_leaves_mainConjuncts {t x : MatchTree} {l : Leaf} (hx : x ∈ mainConjuncts ctx t)
    (hl : l ∈ x.leaves) : l ∈ t.leaves := by
  unfold mainConjuncts at hx
  split at hx
  · split at hx
    · rw [MatchTree.leaves_group]
      exact List.mem_flatMap.2 ⟨x, hx, hl⟩
    · exact List.mem_singleton.1 hx ▸ hl
  · exact List.mem_singleton.1 hx ▸ hl

theorem mem_leaves_parts {t x : MatchTree} {l : Leaf} (hx : x ∈ parts ctx t) (hl : l ∈ x.leaves) :
    l ∈ t.leaves := by
  unfold parts at hx
  split at hx
  · obtain ⟨c, hc, hx⟩ := List.mem_flatMap.1 hx
    rw [MatchTree.leaves_combined]
    exact List.mem_flatMap.2 ⟨c, hc, mem_leaves_mainConjuncts hx hl⟩
  · exact mem_leaves_mainConjuncts hx hl

theorem writable_parts {t : MatchTree} (ht : Writable ctx t) :
    ∀ c ∈ parts ctx t, Writable ctx c := fun c hc =>
  ⟨grouped_parts ht.grouped c hc, fun l hl => ht.leaves l (mem_leaves_parts hc hl)⟩

/-- The script of each filter query runs. -/
theorem runs_ofRoot {t : MatchTree} (hctx : ctx.Checked) (ht : Writable ctx t) :
    ∀ steps ∈ ofRoot ctx t, Runs ctx ctx.mainType steps := by
  refine List.forall_mem_map.2 fun c hc => ?_
  have hw := writable_parts ht c hc
  obtain ⟨φ, hφ, -⟩ := asks_grouped hctx hw.grouped
  exact runs_of_query hφ (clean_ofTree hctx hw)

end Script

theorem Builder.make_eq_ok {names : IndexNames} {style : Style} {b : Builder}
    (h : make names style = .ok b) : b = fresh names style := by
  obtain ⟨_, -, h⟩ := bind_eq_ok.1 h
  obtain ⟨_, -, h⟩ := bind_eq_ok.1 h
  obtain ⟨_, -, h⟩ := bind_eq_ok.1 h
  exact (pure_eq_ok.1 h).symm

/-- The filter queries of a tree that can be written are written. -/
theorem MatchTree.yields_filterQueries {t : MatchTree} (hctx : ctx.Checked)
    (ht : Writable ctx t) : Yields (t.filterQueries ctx) fun _ => True := by
  refine yields_liftName.bind fun b _ hb => ?_
  rw [Builder.make_eq_ok hb]
  exact Script.yields_runAll (Script.runs_ofRoot hctx ht) ⟨rfl, rfl, fun _ => rfl⟩ rfl

namespace Context

theorem yields_filterQueries {e : Expression} (hctx : ctx.Checked)
    (he : ∀ c ∈ e.conditions, c.Comparable) :
    Yields (ctx.filterQueries e.normalized) fun _ => True := by
  rcases Expression.buildable_normalized he with ⟨x, hx⟩ | hb
  · rw [hx]
    cases x with
    | all => exact yields_pure trivial
    | none => exact yields_nothing.bind fun _ _ _ => yields_pure trivial
  · unfold filterQueries
    split
    · exact yields_pure trivial
    · exact yields_nothing.bind fun _ _ _ => yields_pure trivial
    · exact (yields_groupedTree hctx hb).bind fun t _ ht =>
        MatchTree.yields_filterQueries hctx ht

theorem yields_definition {e : Expression} (hctx : ctx.Checked)
    (he : ∀ c ∈ e.conditions, c.Comparable) : Yields (ctx.definition e) fun _ => True := by
  refine yields_mainFilter.bind fun main _ _ => ?_
  refine yields_documentFilters.bind fun filters _ _ => ?_
  exact (yields_filterQueries hctx he).bind fun queries _ _ => yields_pure trivial

theorem mapping_setVariables (s : Settings) (bindings : Variables) :
    ((Context.new s).setVariables bindings).mapping = s.mapping := by
  rw [mapping, setVariables, refresh_eq, new, refresh_eq]

end Context

/-- With a mapping that was built, the conversion of an expression of valid conditions gives a
definition or an error to report, and never meets a fault. -/
theorem convert_no_fault {s : Settings} {d : Draft} {cat : Catalog} {e : Expression}
    (hb : d.build = .ok cat) (hm : s.mapping = cat.toMapping)
    (he : ∀ c ∈ e.conditions, c.isValid = true) (bindings : Variables) :
    (∃ q, s.convert e bindings = .ok q) ∨ ∃ err, s.convert e bindings = .error (.error err) := by
  have hctx := Draft.checked hb ((Context.mapping_setVariables s bindings).trans hm)
  have hyields : Yields (s.convert e bindings) fun _ => True :=
    Context.yields_definition hctx fun c hc => Condition.comparable_of_isValid (he c hc)
  cases hr : s.convert e bindings with
  | ok q => exact .inl ⟨q, rfl⟩
  | error f =>
    cases f with
    | error err => exact .inr ⟨err, rfl⟩
    | fault f => exact absurd hr (hyields.1 f)

/-- An expression that is not normalized: a conjunction of one member, which holds the set of
everyone and a disjunction with a strict comparison inside nested documents. -/
def Expression.looselyPut : Expression :=
  .combined .and [.combined .and [.extent .all,
    .combined .or [.negation true (.withReference "city" .equals "code"),
      .condition (.withOperator "name" .contains "Ada")]]]

theorem convert_no_fault_looselyPut :
    Draft.people.build = .ok Catalog.people ∧
      (∀ c ∈ Expression.looselyPut.conditions, c.isValid = true) ∧
      ((∃ q, Settings.convert { mapping := Catalog.people.toMapping, style := .pretty }
          .looselyPut [] = .ok q) ∨
        ∃ err, Settings.convert { mapping := Catalog.people.toMapping, style := .pretty }
          .looselyPut [] = .error (.error err)) :=
  have hvalid : ∀ c ∈ Expression.looselyPut.conditions, c.isValid = true := by decide +kernel
  ⟨rfl, hvalid, convert_no_fault (d := .people) rfl rfl hvalid []⟩

end AudienceFilter
