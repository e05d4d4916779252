import AudienceFilter.Proofs.ConsolidatingAgain
import AudienceFilter.Proofs.PermittedConversion
import AudienceFilter.Proofs.ScriptAgreement

/-!
# Directives that change nothing

A directive that disables snippets, bounds or comparisons of arguments has no effect on an
expression without them, with one exception. The equality with a day is written as two bounds, so
where bounds are disabled it is refused, although the expression has no bound.

* `Context.Restricts`: a context with one more directive in effect;
* `sameUnless_definition`: nothing changes unless an equality with a day is refused;
* `not_dayEquality_of_unbounded`: an equality with a day leaves bounds in the consolidated tree;
* `convert_withDirective`: both together.
-/

namespace AudienceFilter

/-- The settings with one more directive in effect. -/
def Settings.withDirective (s : Settings) (d : Directive) : Settings :=
  { s with directives := Sorted.insert d s.directives }

/-- Whether a directive disables conditions of the kind of this one. -/
def Directive.disables : Directive → Condition → Bool
  | disableContains, c => c.op == .contains
  | disableOrder, c => c.op.isBound
  | disableReferences, c => c.isReference
  | disableAlignment, _ => false

namespace Context

/-- Whether a second context differs from the first by one more directive. -/
structure Restricts (d : Directive) (ctx ctx' : Context) : Prop where
  mapping : ctx'.mapping = ctx.mapping
  style : ctx'.settings.style = ctx.settings.style
  bindings : ctx'.bindings = ctx.bindings
  isEnabled : ∀ x, ctx'.isEnabled x = (x == d || ctx.isEnabled x)

theorem restricts_withDirective (s : Settings) (d : Directive) (vars : Variables) :
    Restricts d ((Context.new s).setVariables vars)
      ((Context.new (s.withDirective d)).setVariables vars) := by
  rw [setVariables_new, setVariables_new, refresh_eq, refresh_eq]
  refine ⟨rfl, rfl, rfl, fun x => ?_⟩
  rw [Bool.eq_iff_iff]
  simp only [Settings.withDirective, isEnabled, List.contains_iff_mem, Bool.or_eq_true, beq_iff_eq,
    Sorted.mem_union, Sorted.mem_insert]
  exact or_left_comm

variable {d : Directive} {ctx ctx' : Context}

theorem Restricts.sameData (h : Restricts d ctx ctx') (hd : d ≠ .disableAlignment) :
    SameData ctx ctx' where
  mapping := h.mapping
  alignment := by
    rw [h.isEnabled, show (Directive.disableAlignment == d) = false by simp [Ne.symm hd]]
    rfl
  bindings := h.bindings

theorem Restricts.isEnabled_of_ne (h : Restricts d ctx ctx') {x : Directive} (hx : x ≠ d) :
    ctx'.isEnabled x = ctx.isEnabled x := by
  simp [h.isEnabled, hx]

end Context

/-! ## Bounds that days leave behind -/

namespace MatchTree

variable {ctx : Context} {j : Connective} {items : List MatchTree} {known : List String}
  {t r : MatchTree}

/-- Whether a tree has no bounds. -/
abbrev Unbounded (t : MatchTree) : Prop := t.AllConditions fun c => c.op.isBound = false

theorem not_unbounded_of_realigned {l l' : Leaf} (h : Realigned ctx l l') :
    ¬ Unbounded (.leaf l') := by
  intro hu
  obtain ⟨c, hc⟩ := List.exists_mem_of_ne_nil _ h.nonempty
  cases (h.after c hc).op.symm.trans (allConditions_leaf.1 hu c hc)

theorem unbounded_of_alignDays {t' : MatchTree} (ht : Plain ctx t)
    (h : alignDays ctx t = .ok t') (hu : Unbounded t') : Unbounded t := by
  rcases alignDays_cases ht h with ⟨rfl, -⟩ | ⟨l, l', rfl, rfl, hl⟩
  · exact hu
  · exact absurd hu (not_unbounded_of_realigned hl)

theorem unbounded_of_level (hi : ∀ t ∈ items, Plain ctx t)
    (h : consolidateLevel ctx j known items = .ok r) (hr : Unbounded r) :
    ∀ t ∈ items, Unbounded t :=
  allConditions_of_level (fun _ _ _ _ => rfl)
    (fun _ _ ht h' => unbounded_of_alignDays ht h') hi h hr

/-- Without bounds there is none that could be merged with an equality. -/
theorem boundPair?_of_unbounded {p : Polarity} (h : ∀ t ∈ items, Unbounded t) :
    boundPair? p items = none := by
  cases hpair : boundPair? p items with
  | none => rfl
  | some pair =>
    obtain ⟨bound, i, k⟩ := pair
    obtain ⟨-, hmem, -, -, -, hop, -⟩ := boundPair?_eq_some hpair
    have hu := allConditions_leaf.1 (h _ (List.mem_of_getElem? hmem)) bound.condition
      (List.mem_singleton_self _)
    cases hop.symm.trans hu

/-- An equality with a day on a level leaves bounds in the tree that the level becomes. -/
theorem not_dayEquality_of_level (hi : ∀ t ∈ items, Plain ctx t)
    (h : consolidateLevel ctx j known items = .ok r) (hr : Unbounded r) {s : Single}
    (hs : .leaf (.single s) ∈ items) : ¬ ctx.DayEquality s.condition := by
  have hitems := unbounded_of_level hi h hr
  obtain ⟨paired, aligned, haligned, -, hpaired, -, hP⟩ :=
    allConditions_consolidateLevel (P := fun c => c.op.isBound = false) (fun _ _ _ _ => rfl) hi h
  -- No bound is there to take the equality in, so it is the alignment that meets it.
  rw [mergeBoundPairs_of_unpaired (boundPair?_of_unbounded hitems)] at hpaired
  obtain rfl := Except.ok.inj hpaired
  obtain ⟨t', ht', halign⟩ := exists_of_mapM_eq_ok haligned hs
  rcases alignDays_cases (hi _ hs) halign with ⟨-, hnone⟩ | ⟨l, l', -, rfl, hl⟩
  · exact hnone s rfl
  · exact absurd (hP.1 hr _ ht') (not_unbounded_of_realigned hl)

/-- An equality with a day in a combination leaves bounds in the consolidated tree. -/
theorem not_dayEquality_of_below (ht : Plain ctx t)
    (h : consolidateBelow ctx known t = .ok r) (hr : Unbounded r) (hl : t.leaf? = none) :
    ∀ s, .single s ∈ t.leaves → ¬ ctx.DayEquality s.condition := by
  induction t using memberInduction generalizing known r with
  | group j nodeType children ih => cases ht
  | leaf l => cases hl
  | combined j children ih =>
    intro s hs
    rw [leaves_combined, List.mem_flatMap] at hs
    obtain ⟨c, hc, hs⟩ := hs
    rw [consolidateBelow, consolidateEach_eq_mapM] at h
    obtain ⟨items, hitems, h⟩ := bind_eq_ok.1 h
    obtain ⟨y, hy, hcy⟩ := exists_of_mapM_eq_ok hitems hc
    have hplain : ∀ x ∈ flattened j items, Plain ctx x := plain_flattened ht.children hitems
    cases c with
    | leaf l =>
      -- A leaf is consolidated on the level of the combination.
      obtain rfl := List.mem_singleton.1 hs
      obtain rfl := Except.ok.inj hcy
      refine not_dayEquality_of_level hplain h hr ?_
      exact mem_flattened.2 ⟨_, hy, List.mem_singleton_self _⟩
    | group i nodeType children' => cases ht.children _ hc
    | combined i children' =>
      have hlevel := unbounded_of_level hplain h hr
      exact ih _ hc (ht.children _ hc) hcy (allConditions_flattened.1 hlevel y hy) rfl s hs

/-- An equality with a day leaves bounds in the consolidated tree. -/
theorem not_dayEquality_of_unbounded (ht : Plain ctx t) (h : consolidated ctx t = .ok r)
    (hr : Unbounded r) : ∀ s, .single s ∈ t.leaves → ¬ ctx.DayEquality s.condition := by
  cases t with
  | group j nodeType children => cases ht
  | combined j children => exact not_dayEquality_of_below ht h hr rfl
  | leaf l =>
    intro s hs
    obtain rfl := List.mem_singleton.1 hs
    exact not_dayEquality_of_level (by simpa using ht) h hr (List.mem_singleton_self _)

theorem unbounded_of_allowed (ho : ctx.isEnabled .disableOrder = true) (h : t.Allowed ctx) :
    Unbounded t := by
  intro l hl c hc
  have hpermits := h l hl c hc
  refine Bool.eq_false_iff.2 fun hb => ?_
  cases hr : c.reference? with
  | none =>
    obtain ⟨-, -, he, -⟩ := hpermits.order hb (by rw [Condition.isReference, hr]; rfl)
    cases ho.symm.trans he
  | some other =>
    have hne : c.op ≠ .isUnknown := by
      intro hop
      rw [hop] at hb
      cases hb
    obtain ⟨a, b, -, -, hcompare⟩ := hpermits.comparison hne other hr
    cases ho.symm.trans (hcompare.order hb).1

end MatchTree

namespace Context

variable {d : Directive} {ctx ctx' : Context} {e : Expression}

/-- Where bounds are disabled, what is converted has no equality with a day. -/
theorem not_dayEquality_of_filterQueries {qs : List FilterQuery}
    (ho : ctx.isEnabled .disableOrder = true) (hs : e.Solid) (h : ctx.filterQueries e = .ok qs) :
    ∀ c ∈ e.conditions, ¬ ctx.DayEquality c := by
  obtain ⟨g, hg, hqs⟩ := filterQueries_eq_ok hs h
  have hunbounded := MatchTree.unbounded_of_allowed ho
    (MatchTree.allowed_filterQueries (made_groupedTree hg) hqs)
  obtain ⟨built, merged, hplain, hc, -, hgroup, hsingle, hconditions⟩ := groupedTree_eq_ok hg
  have hnone := MatchTree.not_dayEquality_of_unbounded hplain hc
    ((MatchTree.forall_leaves_grouped hgroup).1 hunbounded)
  intro c hmem
  have hmem := Expression.mem_conditions_guarded hs hmem
  rw [← hconditions, List.mem_flatMap] at hmem
  obtain ⟨l, hl, hcl⟩ := hmem
  obtain ⟨s, rfl⟩ := hsingle l hl
  rw [List.mem_singleton.1 hcl]
  exact hnone s hl

/-! ## What is left of a directive -/

/-- Whether a directive does not disable a condition, or it is a bound that an equality with a day
may have become. The arguments that are compared with days are given. -/
structure Spares (d : Directive) (ctx : Context) (days : String → Prop) (c : Condition) : Prop where
  spared : d.disables c = true → d = .disableOrder ∧ c.isReference = false ∧ days c.arg
  day : ctx.DayEquality c → days c.arg

variable {days : String → Prop}

theorem spares_unknown (arg : String) : Spares d ctx days (.unknown arg) where
  spared h := by cases d <;> cases h
  day h := by cases h.op

/-- A bound that comes from a day is spared. -/
theorem spares_boundOn {arg : String} {c : Condition} (h : MatchTree.BoundOn arg c)
    (hdays : days arg) : Spares d ctx days c where
  spared hc := by
    refine ⟨?_, h.value, h.arg ▸ hdays⟩
    cases d with
    | disableOrder => rfl
    | disableContains =>
      have hop := h.op
      rw [beq_iff_eq.1 hc] at hop
      cases hop
    | disableReferences => cases h.value.symm.trans hc
    | disableAlignment => cases hc
  day _ := h.arg ▸ hdays

theorem spares_alignDays {t t' : MatchTree} (ht : MatchTree.Plain ctx t)
    (h : MatchTree.alignDays ctx t = .ok t') (hP : t.AllConditions (Spares d ctx days)) :
    t'.AllConditions (Spares d ctx days) := by
  rcases MatchTree.alignDays_cases ht h with ⟨rfl, -⟩ | ⟨l, l', rfl, rfl, hl⟩
  · exact hP
  · obtain ⟨c, hc, harg, hday⟩ := hl.day
    have hdays : days l.arg := harg ▸ (MatchTree.allConditions_leaf.1 hP c hc).day hday
    exact MatchTree.allConditions_leaf.2 fun x hx => spares_boundOn (hl.after x hx) hdays

/-- The failure that an equality with a day is refused. -/
def RefusesDay (d : Directive) (ctx : Context) (days : String → Prop) (f : Failure) : Prop :=
  d = .disableOrder ∧ ∃ arg a, days arg ∧ ctx.assignment arg = .ok a ∧
    f = .error (.orderNotSupported a.arg .disabledByDirective)

theorem follows_of_spares {c : Condition} (h : Restricts d ctx ctx')
    (hc : Spares d ctx days c) : Follows (RefusesDay d ctx days) ctx ctx' c where
  snippet hop := by
    refine h.isEnabled_of_ne ?_
    rintro rfl
    cases (hc.spared (beq_iff_eq.2 hop)).1
  comparison hr := by
    refine h.isEnabled_of_ne ?_
    rintro rfl
    cases (hc.spared hr).1
  order hb := by
    by_cases hd : .disableOrder = d
    · subst hd
      obtain ⟨-, hr, hdays⟩ := hc.spared hb
      refine .inr ⟨hr, by simp [h.isEnabled], fun a ha => ⟨rfl, c.arg, a, hdays, ha, rfl⟩⟩
    · exact .inl (h.isEnabled_of_ne hd)

variable (h : Restricts d ctx ctx') (hd : d ≠ .disableAlignment)

include h hd

theorem sameUnless_filterQueries (he : ∀ c ∈ e.conditions, Spares d ctx days c) :
    SameUnless (RefusesDay d ctx days) (ctx.filterQueries e) (ctx'.filterQueries e) := by
  have hs := h.sameData hd
  unfold filterQueries
  rw [hs.nothing]
  split
  · exact sameUnless_of_eq rfl
  · exact sameUnless_of_eq rfl
  · rw [hs.groupedTree]
    refine (sameUnless_of_eq rfl).bind fun g hg => ?_
    have hspares := allConditions_groupedTree (fun _ _ arg _ => spares_unknown arg)
      (fun _ _ ht halign hP => spares_alignDays ht halign hP) hg he
    unfold MatchTree.filterQueries
    rw [h.mapping, h.style]
    refine (sameUnless_of_eq rfl).bind fun b _ => ?_
    exact Script.sameUnless_ofRoot hs (made_groupedTree hg)
      (fun l hl c hc => follows_of_spares h (hspares l hl c hc)) b

theorem sameUnless_definition (he : ∀ c ∈ e.normalized.conditions, Spares d ctx days c) :
    SameUnless (RefusesDay d ctx days) (ctx.definition e) (ctx'.definition e) := by
  have hs := h.sameData hd
  unfold definition
  rw [hs.mainFilter, hs.documentFilters, hs.mainType, h.mapping]
  refine (sameUnless_of_eq rfl).bind fun main _ => (sameUnless_of_eq rfl).bind fun filters _ => ?_
  exact (sameUnless_filterQueries h hd he).bind_left rfl

omit hd in
/-- Where bounds are disabled in addition, what is converted has no equality with a day. -/
theorem not_dayEquality_of_definition (ho : d = .disableOrder) {r : Definition}
    (hr : ctx'.definition e = .ok r) : ∀ c ∈ e.normalized.conditions, ¬ ctx.DayEquality c := by
  obtain ⟨main, -, hr⟩ := bind_eq_ok.1 hr
  obtain ⟨filters, -, hr⟩ := bind_eq_ok.1 hr
  obtain ⟨qs, hqs, -⟩ := bind_eq_ok.1 hr
  rcases Expression.solid_normalized e with ⟨x, hx⟩ | hsolid
  · rw [hx]
    exact fun c hc => absurd hc List.not_mem_nil
  · have hs := h.sameData (by rw [ho]; decide)
    have hdisabled : ctx'.isEnabled .disableOrder = true := by simp [h.isEnabled, ho]
    intro c hc hday
    refine not_dayEquality_of_filterQueries hdisabled hsolid hqs c hc ⟨hday.op, hday.value, ?_⟩
    rw [hs.alignsDaysOf]
    exact hday.aligned

end Context

/-- A directive that disables snippets, bounds or comparisons of arguments changes nothing for an
expression that has none, unless it refuses bounds and with them the equality with a day; and if
the expression is converted without the directive, this happens exactly if there is such an
equality. -/
theorem convert_withDirective {s : Settings} {d : Directive} {e : Expression}
    (hd : d ≠ .disableAlignment) (he : ∀ c ∈ e.normalized.conditions, d.disables c = false)
    (vars : Variables) :
    ((s.withDirective d).convert e vars = s.convert e vars ∨
      d = .disableOrder ∧ ∃ c ∈ e.normalized.conditions, ∃ a,
        ((Context.new s).setVariables vars).DayEquality c ∧ s.mapping.assignment c.arg = .ok a ∧
          (s.withDirective d).convert e vars =
            .error (.error (.orderNotSupported a.arg .disabledByDirective))) ∧
      ∀ r, s.convert e vars = .ok r → ((s.withDirective d).convert e vars = .ok r ↔
        (d = .disableOrder → ∀ c ∈ e.normalized.conditions,
          ¬ ((Context.new s).setVariables vars).DayEquality c)) := by
  have h := Context.restricts_withDirective s d vars
  have hspares : ∀ c ∈ e.normalized.conditions,
      Context.Spares d ((Context.new s).setVariables vars)
        (fun arg => ∃ c ∈ e.normalized.conditions,
          ((Context.new s).setVariables vars).DayEquality c ∧ c.arg = arg) c := fun c hc =>
    ⟨fun hdis => absurd hdis (Bool.eq_false_iff.1 (he c hc)), fun hday => ⟨c, hc, hday, rfl⟩⟩
  have hsame := Context.sameUnless_definition h hd hspares
  refine ⟨?_, fun r hr => ⟨fun hr' ho => ?_, fun hnone => ?_⟩⟩
  · rcases hsame with hsame | ⟨-, ⟨ho, -, a, ⟨c, hc, hday, rfl⟩, ha, rfl⟩, hf⟩
    · exact .inl hsame
    · rw [Context.assignment, Context.mapping_setVariables] at ha
      exact .inr ⟨ho, c, hc, a, hday, ha, hf⟩
  · exact Context.not_dayEquality_of_definition h ho hr'
  · rcases hsame with hsame | ⟨-, ⟨ho, -, -, ⟨c, hc, hday, -⟩, -, -⟩, -⟩
    · exact hsame.trans hr
    · exact absurd hday (hnone ho c hc)

/-- Part of a name, and a city that may not equal its code. -/
def Expression.namedInTown : Expression :=
  .combined .and [.condition (.withOperator "name" .contains "Ada"),
    .negation true (.withReference "city" .equals "code")]

theorem convert_withDirective_namedInTown :
    (∀ c ∈ Expression.namedInTown.normalized.conditions,
        Directive.disableOrder.disables c = false) ∧
      ∃ r, Settings.convert { mapping := Catalog.people.toMapping } .namedInTown [] = .ok r ∧
        ((Settings.withDirective { mapping := Catalog.people.toMapping } .disableOrder).convert
            .namedInTown [] = .ok r ↔
          (Directive.disableOrder = .disableOrder →
            ∀ c ∈ Expression.namedInTown.normalized.conditions, ¬ ((Context.new
              { mapping := Catalog.people.toMapping }).setVariables []).DayEquality c)) := by
  have he : ∀ c ∈ Expression.namedInTown.normalized.conditions,
      Directive.disableOrder.disables c = false := by
    decide +kernel
  have hok : (Settings.convert { mapping := Catalog.people.toMapping } .namedInTown []).isOk =
      true := by
    decide +kernel
  obtain ⟨r, hr⟩ := exists_of_isOk hok
  exact ⟨he, r, hr, (convert_withDirective (by decide) he []).2 r hr⟩

/-- Visits on a day. -/
def Expression.onADay : Expression := .condition (.withOperator "day" .equals "2025-03-01")

/-- The equality with a day has no bound, and is refused where bounds are disabled. -/
theorem convert_withDirective_onADay :
    Draft.visits.build = .ok Catalog.visits ∧
      (∀ c ∈ Expression.onADay.normalized.conditions, Directive.disableOrder.disables c = false) ∧
      (∃ r, Settings.convert { mapping := Catalog.visits.toMapping } .onADay [] = .ok r) ∧
      (Settings.withDirective { mapping := Catalog.visits.toMapping } .disableOrder).convert
        .onADay [] = .error (.error (.orderNotSupported "day" .disabledByDirective)) := by
  have hok : (Settings.convert { mapping := Catalog.visits.toMapping } .onADay []).isOk = true := by
    decide +kernel
  exact ⟨rfl, by decide +kernel, exists_of_isOk hok, eq_error_of_failure? (by decide +kernel)⟩

end AudienceFilter
