import AudienceFilter.MatchTree.OfExpression
import AudienceFilter.Proofs.Combination
import AudienceFilter.Proofs.LeafConstruction
import AudienceFilter.Proofs.TreeStructure

/-!
# Guards cover all strict negations

A strict negation is covered if each of its arguments has a guard among the members of some
conjunction around it. `CoveredBy` says so from the root down, with the arguments that are
guarded above an expression.

* `weave?_eq_none_iff`: nothing is added exactly where nothing is missing;
* `coveredBy_weave?`: what is added covers everything, although joining the members anew moves
  guards from one conjunction to another;
* `ofNegation_of_coveredBy`: a covered negation becomes a plain complement;
* `leaves_of_build`: the leaves of a covered expression are its conditions, so none of them
  has to require values of its own and no guard is added;
* `guarded_covers`: all of this for `guarded?`.
-/

namespace AudienceFilter.Expression

mutual

/-- Whether every strict negation has its arguments in `known` or guarded by a member of a
conjunction around it. -/
def CoveredBy (known : List String) : Expression → Prop
  | .negation strict c => isStrict strict c → ∀ arg ∈ c.args, arg ∈ known
  | .combined .and members => CoveredEach (known ++ members.filterMap guardArg?) members
  | .combined .or members => CoveredEach known members
  | _ => True

@[inherit_doc CoveredBy]
def CoveredEach (known : List String) : List Expression → Prop
  | [] => True
  | e :: rest => CoveredBy known e ∧ CoveredEach known rest

end

/-- Whether every strict negation of the expression is guarded inside it. -/
def Covered (e : Expression) : Prop := CoveredBy [] e

theorem coveredEach_iff {known : List String} {es : List Expression} :
    CoveredEach known es ↔ ∀ e ∈ es, CoveredBy known e := by
  induction es with
  | nil => simp [CoveredEach]
  | cons e es ih => simp [CoveredEach, ih]

/-- The arguments that are guarded for the members of a combination. -/
def knownIn (j : Connective) (known : List String) (members : List Expression) : List String :=
  match j with
  | .and => known ++ members.filterMap guardArg?
  | .or => known

theorem coveredBy_combined {known : List String} {j : Connective} {members : List Expression} :
    CoveredBy known (.combined j members) ↔
      ∀ m ∈ members, CoveredBy (knownIn j known members) m := by
  cases j with
  | and => rw [CoveredBy, coveredEach_iff, knownIn]
  | or => rw [CoveredBy, coveredEach_iff, knownIn]

theorem mem_knownIn {j : Connective} {known : List String} {members : List Expression}
    {arg : String} :
    arg ∈ knownIn j known members ↔
      arg ∈ known ∨ j = .and ∧ ∃ m ∈ members, guardArg? m = some arg := by
  cases j <;> simp [knownIn]

theorem CoveredBy.mono {known known' : List String} {e : Expression} (h : CoveredBy known e)
    (hk : known ⊆ known') : CoveredBy known' e := by
  induction e using memberInduction generalizing known known' with
  | condition c => trivial
  | extent e => trivial
  | negation s c => exact fun hs arg ha => hk (h hs arg ha)
  | combined j members ih =>
    rw [coveredBy_combined] at h ⊢
    refine fun m hm => ih m hm (h m hm) fun arg ha => ?_
    rw [mem_knownIn] at ha ⊢
    exact ha.imp_left fun ha => hk ha

/-! ## Guards as members -/

theorem guardArg?_guard (arg : String) : guardArg? (guard arg) = some arg := rfl

theorem guardArg?_eq_some {e : Expression} {arg : String} (h : guardArg? e = some arg) :
    ∃ s c, e = .negation s c ∧ c.op = .isUnknown ∧ c.arg = arg := by
  cases e with
  | negation s c =>
    rw [guardArg?] at h
    split at h
    · next hop => exact ⟨s, c, rfl, hop, Option.some.inj h⟩
    · cases h
  | condition c => cases h
  | combined j members => cases h
  | extent e => cases h

/-- A guard is covered whatever is known. -/
theorem coveredBy_of_guardArg? {known : List String} {e : Expression} {arg : String}
    (h : guardArg? e = some arg) : CoveredBy known e := by
  obtain ⟨s, c, rfl, hop, -⟩ := guardArg?_eq_some h
  rw [CoveredBy]
  intro hs
  simp [isStrict, hop] at hs

/-- Guards stay where they are when members are taken apart. -/
theorem opened_of_guardArg? {j : Connective} {e : Expression} {arg : String}
    (h : guardArg? e = some arg) : opened j e = [e] := by
  obtain ⟨s, c, rfl, -, -⟩ := guardArg?_eq_some h
  rfl

theorem coveredBy_ofMembers {known : List String} {j : Connective} {out : List Expression}
    (h : ∀ x ∈ out, CoveredBy (knownIn j known out) x) : CoveredBy known (ofMembers j out) := by
  rcases out with _ | ⟨a, _ | ⟨b, rest⟩⟩
  · trivial
  · -- A lone member keeps nothing that guards it but itself, and then it is a guard.
    show CoveredBy known a
    cases hg : guardArg? a with
    | some arg => exact coveredBy_of_guardArg? hg
    | none =>
      refine (h a List.mem_cons_self).mono fun arg ha => ?_
      simpa [mem_knownIn, hg] using ha
  · exact coveredBy_combined.2 h

/-- Joining members keeps them covered: guards that move, move to a conjunction further up. -/
theorem coveredBy_combine {known : List String} {j : Connective} {members : List Expression}
    (h : ∀ m ∈ members, CoveredBy (knownIn j known members) m) :
    CoveredBy known (combine j members) := by
  rcases combine_cases j members with ⟨-, he⟩ | ⟨-, out, he, hout⟩
  · rw [he]
    trivial
  · rw [he]
    have hup : knownIn j known members ⊆ knownIn j known out := by
      intro arg ha
      rw [mem_knownIn] at ha ⊢
      refine ha.imp_right fun ⟨hj, m, hm, hg⟩ => ⟨hj, m, (hout m).2 ⟨m, hm, ?_⟩, hg⟩
      rw [opened_of_guardArg? hg]
      exact List.mem_singleton_self m
    refine coveredBy_ofMembers fun x hx => ?_
    obtain ⟨m, hm, hx⟩ := (hout x).1 hx
    have hcov := h m hm
    cases m with
    | extent e => exact absurd hx List.not_mem_nil
    | condition c =>
      rw [opened_condition, List.mem_singleton] at hx
      exact hx ▸ hcov.mono hup
    | negation s c =>
      rw [opened_negation, List.mem_singleton] at hx
      exact hx ▸ hcov.mono hup
    | combined i inner =>
      by_cases hi : i = j
      · subst hi
        rw [opened_combined, if_pos rfl] at hx
        refine (coveredBy_combined.1 hcov x hx).mono fun arg ha => ?_
        rcases mem_knownIn.1 ha with ha | ⟨hj, g, hg, ha⟩
        · exact hup ha
        · refine mem_knownIn.2 (.inr ⟨hj, g, (hout g).2 ⟨_, hm, ?_⟩, ha⟩)
          rwa [opened_combined, if_pos rfl]
      · rw [opened_combined, if_neg hi, List.mem_singleton] at hx
        exact hx ▸ hcov.mono hup

/-! ## What is needed and what is missing -/

theorem needsEach_eq_map (es : List Expression) : needsEach es = es.map needs := by
  induction es with
  | nil => rfl
  | cons e es ih => rw [needsEach, ih, List.map_cons]

theorem mem_needsEach {members : List Expression} {arg : String} :
    arg ∈ (needsEach members).flatten ↔ ∃ m ∈ members, arg ∈ needs m := by
  rw [needsEach_eq_map, ← List.flatMap_def, List.mem_flatMap]

theorem mem_needs_and {members : List Expression} {arg : String} :
    arg ∈ needs (.combined .and members) ↔
      (∃ m ∈ members, arg ∈ needs m) ∧ arg ∉ members.filterMap guardArg? := by
  rw [needs, Distinct.mem_ofList, List.mem_filter, mem_needsEach]
  simp only [Bool.not_eq_true', List.contains_eq_mem, decide_eq_false_iff_not]

theorem mem_needs_or {members : List Expression} {arg : String}
    (h : arg ∈ needs (.combined .or members)) :
    (∃ m, m ∈ members) ∧ ∀ m ∈ members, arg ∈ needs m := by
  rw [needs, needsEach_eq_map] at h
  cases members with
  | nil => simp [common] at h
  | cons m rest =>
    simp only [List.map_cons, common, List.mem_filter, List.all_eq_true, List.mem_map,
      List.contains_iff_mem] at h
    refine ⟨⟨m, List.mem_cons_self⟩, fun x hx => ?_⟩
    rcases List.mem_cons.1 hx with rfl | hx
    · exact h.1
    · exact h.2 _ ⟨x, hx, rfl⟩

/-- A covered expression needs nothing beyond what is known. -/
theorem needs_subset_of_coveredBy {known : List String} {e : Expression} (h : CoveredBy known e) :
    needs e ⊆ known := by
  induction e using memberInduction generalizing known with
  | condition c => exact fun _ ha => absurd ha List.not_mem_nil
  | extent e => exact fun _ ha => absurd ha List.not_mem_nil
  | negation s c =>
    intro arg ha
    rw [needs] at ha
    split at ha
    · next hs => exact h hs arg ha
    · exact absurd ha List.not_mem_nil
  | combined j members ih =>
    rw [coveredBy_combined] at h
    intro arg ha
    cases j with
    | and =>
      obtain ⟨⟨m, hm, ha⟩, hg⟩ := mem_needs_and.1 ha
      rcases List.mem_append.1 (ih m hm (h m hm) ha) with hk | hk
      · exact hk
      · exact absurd hk hg
    | or =>
      obtain ⟨⟨m, hm⟩, hall⟩ := mem_needs_or ha
      exact ih m hm (h m hm) (hall m hm)

/-- Outside combinations the needs say all. -/
theorem coveredBy_of_needs_subset {known : List String} {e : Expression}
    (hc : e.isCombined = false) (h : needs e ⊆ known) : CoveredBy known e := by
  cases e with
  | condition c => trivial
  | extent e => trivial
  | negation s c =>
    rw [CoveredBy]
    intro hs arg ha
    exact h (by rwa [needs, if_pos hs])
  | combined j members => cases hc

theorem weaveEach_eq_map (provided : List String) (es : List Expression) :
    weaveEach provided es = es.map (weave? provided) := by
  induction es with
  | nil => rfl
  | cons e es ih => rw [weaveEach, ih, List.map_cons]

/-- The change of a member of a conjunction. -/
def changeNested (provided : List String) (e : Expression) : Option Expression :=
  if e.isCombined then weave? provided e else none

theorem weaveNested_eq_map (provided : List String) (es : List Expression) :
    weaveNested provided es = es.map (changeNested provided) := by
  induction es with
  | nil => rfl
  | cons e es ih => rw [weaveNested, ih, List.map_cons, changeNested]

theorem updated_map (f : Expression → Option Expression) (es : List Expression) :
    updated (es.map f) es = es.map fun e => (f e).getD e := by
  rw [updated, List.zipWith_map_left, List.zipWith_self]

/-- The guards that a conjunction has to add, given what is guarded above it or by its own
members. -/
def missingIn (own : List String) (members : List Expression) : List String :=
  Distinct.ofList ((needsEach members).flatten.filter fun name => !own.contains name)

theorem mem_missingIn {own : List String} {members : List Expression} {arg : String} :
    arg ∈ missingIn own members ↔ (∃ m ∈ members, arg ∈ needs m) ∧ arg ∉ own := by
  rw [missingIn, Distinct.mem_ofList, List.mem_filter, mem_needsEach]
  simp only [Bool.not_eq_true', List.contains_eq_mem, decide_eq_false_iff_not]

/-- The arguments guarded above a conjunction or by its members. -/
def ownIn (provided : List String) (members : List Expression) : List String :=
  Distinct.append provided (members.filterMap guardArg?)

theorem mem_ownIn {provided : List String} {members : List Expression} {arg : String} :
    arg ∈ ownIn provided members ↔ arg ∈ knownIn .and provided members := by
  rw [ownIn, Distinct.mem_append, knownIn, List.mem_append]

/-- The arguments guarded in a conjunction once its guards are added. -/
def wovenIn (provided : List String) (members : List Expression) : List String :=
  Distinct.append (ownIn provided members) (missingIn (ownIn provided members) members)

theorem mem_wovenIn {provided : List String} {members : List Expression} {arg : String} :
    arg ∈ wovenIn provided members ↔ arg ∈ knownIn .and provided members ∨
      arg ∈ missingIn (ownIn provided members) members := by
  rw [wovenIn, Distinct.mem_append, mem_ownIn]

theorem weave?_and (provided : List String) (members : List Expression) :
    weave? provided (.combined .and members) =
      if missingIn (ownIn provided members) members = [] ∧
          ∀ m ∈ members, changeNested (wovenIn provided members) m = none then none
      else some (combine .and ((missingIn (ownIn provided members) members).map guard ++
        members.map fun m => (changeNested (wovenIn provided members) m).getD m)) := by
  rw [weave?]
  simp only [weaveNested_eq_map, updated_map]
  simp only [← missingIn.eq_1, ← ownIn.eq_1, ← wovenIn.eq_1, List.all_map, Bool.and_eq_true,
    List.isEmpty_iff, List.all_eq_true, Function.comp_apply, Option.isNone_iff_eq_none]

theorem weave?_or (provided : List String) (members : List Expression) :
    weave? provided (.combined .or members) =
      if ∀ m ∈ members, weave? provided m = none then none
      else some (combine .or (members.map fun m => (weave? provided m).getD m)) := by
  rw [weave?]
  simp only [weaveEach_eq_map, updated_map, List.all_map, List.all_eq_true, Function.comp_apply,
    Option.isNone_iff_eq_none]

theorem changeNested_of_combined {provided : List String} {e : Expression}
    (h : e.isCombined = true) : changeNested provided e = weave? provided e := if_pos h

theorem changeNested_of_not_combined {provided : List String} {e : Expression}
    (h : e.isCombined = false) : changeNested provided e = none := by
  rw [changeNested, h]
  rfl

/-- Without a missing guard nothing more is known in a conjunction than before. -/
theorem wovenIn_subset {provided : List String} {members : List Expression}
    (h : missingIn (ownIn provided members) members = []) :
    wovenIn provided members ⊆ knownIn .and provided members := by
  intro arg ha
  rw [mem_wovenIn, h] at ha
  exact ha.resolve_right List.not_mem_nil

/-- What a member needs is known once the guards of its conjunction are added. -/
theorem needs_subset_wovenIn {provided : List String} {members : List Expression}
    {m : Expression} (hm : m ∈ members) : needs m ⊆ wovenIn provided members := by
  intro arg ha
  rw [mem_wovenIn, ← mem_ownIn]
  by_cases ho : arg ∈ ownIn provided members
  · exact .inl ho
  · exact .inr (mem_missingIn.2 ⟨⟨m, hm, ha⟩, ho⟩)

/-! ## Weaving -/

/-- Nothing is added exactly where nothing is missing. -/
theorem weave?_eq_none_iff {provided : List String} {e : Expression} :
    weave? provided e = none ↔ CoveredBy provided e := by
  induction e using memberInduction generalizing provided with
  | condition c => simp [weave?, CoveredBy]
  | extent e => simp [weave?, CoveredBy]
  | negation s c =>
    rw [weave?, CoveredBy]
    split
    · next hs => simp [hs]
    · next hs => simp [hs]
  | combined j members ih =>
    rw [coveredBy_combined]
    cases j with
    | or =>
      rw [weave?_or]
      simp only [ite_eq_left_iff, reduceCtorEq, imp_false, Classical.not_not]
      exact forall_congr' fun m => forall_congr' fun hm => ih m hm
    | and =>
      rw [weave?_and]
      simp only [ite_eq_left_iff, reduceCtorEq, imp_false, Classical.not_not]
      constructor
      · rintro ⟨hmissing, hchanges⟩ m hm
        refine CoveredBy.mono ?_ (wovenIn_subset hmissing)
        cases hc : m.isCombined with
        | true => exact (ih m hm).1 (changeNested_of_combined hc ▸ hchanges m hm)
        | false => exact coveredBy_of_needs_subset hc (needs_subset_wovenIn hm)
      · intro h
        refine ⟨List.eq_nil_iff_forall_not_mem.2 fun arg ha => ?_, fun m hm => ?_⟩
        · obtain ⟨⟨m, hm, ha⟩, ho⟩ := mem_missingIn.1 ha
          exact ho (mem_ownIn.2 (needs_subset_of_coveredBy (h m hm) ha))
        · cases hc : m.isCombined with
          | true =>
            rw [changeNested_of_combined hc]
            exact (ih m hm).2 ((h m hm).mono fun arg ha => mem_wovenIn.2 (.inl ha))
          | false => exact changeNested_of_not_combined hc

/-- A member of a conjunction is covered after its change, once the guards of the conjunction
are added. -/
theorem coveredBy_changeNested {provided : List String} {members : List Expression}
    {m : Expression} (hm : m ∈ members)
    (h : ∀ x, weave? (wovenIn provided members) m = some x →
      CoveredBy (wovenIn provided members) x) :
    CoveredBy (wovenIn provided members)
      ((changeNested (wovenIn provided members) m).getD m) := by
  cases hc : m.isCombined with
  | false =>
    rw [changeNested_of_not_combined hc]
    exact coveredBy_of_needs_subset hc (needs_subset_wovenIn hm)
  | true =>
    rw [changeNested_of_combined hc]
    cases hw : weave? (wovenIn provided members) m with
    | none => exact weave?_eq_none_iff.1 hw
    | some x => exact h x hw

/-- Guards cover the members that they are joined with. -/
theorem coveredBy_combine_guards {provided names : List String} {members : List Expression}
    (h : ∀ m ∈ members, CoveredBy (knownIn .and provided (names.map guard ++ members)) m) :
    CoveredBy provided (combine .and (names.map guard ++ members)) := by
  refine coveredBy_combine fun m hm => ?_
  rcases List.mem_append.1 hm with hm | hm
  · obtain ⟨arg, -, rfl⟩ := List.mem_map.1 hm
    exact coveredBy_of_guardArg? (guardArg?_guard arg)
  · exact h m hm

theorem mem_knownIn_guards {provided names : List String} {members : List Expression}
    {arg : String} (h : arg ∈ names) :
    arg ∈ knownIn .and provided (names.map guard ++ members) :=
  mem_knownIn.2 (.inr ⟨rfl, guard arg, List.mem_append_left _ (List.mem_map_of_mem h), rfl⟩)

/-- The guards of a conjunction, old and new, are among the members it is joined from. -/
theorem wovenIn_subset_knownIn {provided : List String} {members : List Expression} :
    wovenIn provided members ⊆ knownIn .and provided
      ((missingIn (ownIn provided members) members).map guard ++
        members.map fun m => (changeNested (wovenIn provided members) m).getD m) := by
  intro arg ha
  rcases mem_wovenIn.1 ha with ha | ha
  · rw [mem_knownIn]
    refine (mem_knownIn.1 ha).imp_right fun ⟨_, g, hg, ha⟩ => ⟨rfl, g, ?_, ha⟩
    refine List.mem_append_right _ (List.mem_map.2 ⟨g, hg, ?_⟩)
    obtain ⟨s, c, rfl, -, -⟩ := guardArg?_eq_some ha
    rfl
  · exact mem_knownIn_guards ha

/-- What is added covers everything. -/
theorem coveredBy_weave? {provided : List String} {e e' : Expression}
    (h : weave? provided e = some e') : CoveredBy provided e' := by
  induction e using memberInduction generalizing provided e' with
  | condition c => simp [weave?] at h
  | extent e => simp [weave?] at h
  | negation s c =>
    rw [weave?] at h
    split at h
    · next hs =>
      simp only [Option.ite_none_left_eq_some, Option.some.injEq] at h
      rw [← h.2]
      refine coveredBy_combine_guards fun m hm => ?_
      rw [List.mem_singleton.1 hm, CoveredBy]
      intro _ arg ha
      by_cases hp : arg ∈ provided
      · exact mem_knownIn.2 (.inl hp)
      · exact mem_knownIn_guards (List.mem_filter.2 ⟨ha, by simpa using hp⟩)
    · cases h
  | combined j members ih =>
    cases j with
    | or =>
      rw [weave?_or] at h
      split at h
      · cases h
      rw [← Option.some.inj h]
      refine coveredBy_combine fun m hm => ?_
      obtain ⟨x, hx, rfl⟩ := List.mem_map.1 hm
      cases hw : weave? provided x with
      | none => exact weave?_eq_none_iff.1 hw
      | some x' => exact ih x hx hw
    | and =>
      rw [weave?_and] at h
      split at h
      · cases h
      rw [← Option.some.inj h]
      refine coveredBy_combine_guards fun m hm => ?_
      obtain ⟨x, hx, rfl⟩ := List.mem_map.1 hm
      exact (coveredBy_changeNested hx fun _ hw => ih x hx hw).mono wovenIn_subset_knownIn

/-- The guards of all that an expression needs, beside the expression with what it lacks below,
cover everything. -/
theorem coveredBy_guards (e : Expression) :
    Covered (combine .and ((needs e).map guard ++ [(weave? (needs e) e).getD e])) := by
  refine coveredBy_combine_guards fun m hm => ?_
  rw [List.mem_singleton.1 hm]
  refine CoveredBy.mono ?_ fun arg ha => mem_knownIn_guards ha
  cases hw : weave? (needs e) e with
  | none => exact weave?_eq_none_iff.1 hw
  | some x => exact coveredBy_weave? hw

/-- What the guards of an expression are: those that it lacks below, unless it needs some as a
whole. -/
theorem guarded?_cases (e : Expression) :
    guarded? e = weave? [] e ∨ needs e ≠ [] ∧
      guarded? e = some (combine .and ((needs e).map guard ++ [(weave? (needs e) e).getD e])) := by
  unfold guarded?
  split
  · exact .inl rfl
  · simp only [List.isEmpty_iff]
    split
    · exact .inl rfl
    · next hn => exact .inr ⟨hn, rfl⟩

theorem guarded?_eq_none_iff {e : Expression} : e.guarded? = none ↔ Covered e := by
  rcases guarded?_cases e with h | ⟨hn, h⟩
  · rw [h, weave?_eq_none_iff, Covered]
  · rw [h]
    refine ⟨nofun, fun hc => absurd ?_ hn⟩
    exact List.eq_nil_iff_forall_not_mem.2 fun arg ha =>
      List.not_mem_nil (needs_subset_of_coveredBy hc ha)

theorem covered_guarded (e : Expression) : Covered e.guarded := by
  rw [guarded]
  cases hg : guarded? e with
  | none => exact guarded?_eq_none_iff.1 hg
  | some x =>
    rcases guarded?_cases e with h | ⟨-, h⟩
    · exact coveredBy_weave? (h.symm.trans hg)
    · rw [Option.getD_some, ← Option.some.inj (h.symm.trans hg)]
      exact coveredBy_guards e

theorem conditionsOf_eq_flatMap (es : List Expression) :
    conditionsOf es = es.flatMap conditions := by
  induction es with
  | nil => rfl
  | cons e es ih => rw [conditionsOf, ih, List.flatMap_cons]

theorem conditions_combined (j : Connective) (members : List Expression) :
    (Expression.combined j members).conditions = members.flatMap conditions := by
  rw [conditions, conditionsOf_eq_flatMap]

/-- Only the arguments of conditions are needed. -/
theorem mem_args_of_mem_needs {e : Expression} {arg : String} (h : arg ∈ needs e) :
    ∃ c ∈ e.conditions, arg ∈ c.args := by
  induction e using memberInduction with
  | condition c => exact absurd h List.not_mem_nil
  | extent e => exact absurd h List.not_mem_nil
  | negation s c =>
    rw [needs] at h
    split at h
    · exact ⟨c, List.mem_singleton_self c, h⟩
    · exact absurd h List.not_mem_nil
  | combined j members ih =>
    obtain ⟨m, hm, harg⟩ : ∃ m ∈ members, arg ∈ needs m := by
      cases j with
      | and => exact (mem_needs_and.1 h).1
      | or =>
        obtain ⟨⟨m, hm⟩, hall⟩ := mem_needs_or h
        exact ⟨m, hm, hall m hm⟩
    obtain ⟨c, hc, harg⟩ := ih m hm harg
    rw [conditions_combined]
    exact ⟨c, List.mem_flatMap.2 ⟨m, hm, hc⟩, harg⟩

end AudienceFilter.Expression

/-! ## Trees of covered expressions -/

namespace AudienceFilter.MatchTree

open Expression (CoveredBy knownIn)

variable {ctx : Context} {known : List String}

theorem buildAll_eq_mapM (ctx : Context) (known : List String) (es : List Expression) :
    buildAll ctx known es = es.mapM (build ctx known) := by
  induction es with
  | nil => rfl
  | cons e es ih => rw [buildAll, List.mapM_cons, ih]

theorem build_combined (ctx : Context) (known : List String) (j : Connective)
    (members : List Expression) :
    build ctx known (.combined j members) =
      members.mapM (build ctx (knownIn j known members)) >>= fun children =>
        liftFault (combine j children) := by
  cases j with
  | and => rw [build, buildAll_eq_mapM]; rfl
  | or => rw [build, buildAll_eq_mapM]; rfl

theorem build_combined_eq_ok {j : Connective} {members : List Expression} {t : MatchTree} :
    build ctx known (.combined j members) = .ok t ↔
      ∃ children, members.mapM (build ctx (knownIn j known members)) = .ok children ∧
        2 ≤ children.length ∧ t = .combined j children := by
  rw [build_combined, bind_eq_ok]
  simp only [liftFault_eq_ok, combine_eq_ok]

/-- A covered negation becomes the plain complement of its condition. -/
theorem ofNegation_of_coveredBy {strict : Bool} {c : Condition}
    (h : CoveredBy known (.negation strict c)) :
    ofNegation ctx known strict c = ctx.singleTree c .negated := by
  rw [CoveredBy] at h
  rw [ofNegation]
  split
  · next hs =>
    have harg : known.contains c.arg = true :=
      List.contains_iff_mem.2 (h hs c.arg List.mem_cons_self)
    split
    · next other ho =>
      have hother : known.contains other = true := by
        refine List.contains_iff_mem.2 (h hs other ?_)
        simp [Condition.args, ho]
      rw [harg, hother]
      rfl
    · rw [harg]
      exact bind_pure _
  · rfl

/-- The leaves of a covered expression are its conditions, and none requires values. -/
theorem leaves_of_build {e : Expression} {t : MatchTree} (hb : build ctx known e = .ok t)
    (h : CoveredBy known e) :
    (∀ l ∈ t.leaves, l.polarity.verifies = false) ∧
      t.leaves.flatMap Leaf.conditions = e.conditions := by
  induction e using Expression.memberInduction generalizing known t with
  | extent e => cases hb
  | condition c =>
    obtain ⟨s, hs, rfl⟩ := singleTree_eq_ok.1 hb
    obtain ⟨-, -, -, -, -, -, -, hc, hp⟩ := Context.single_eq_ok hs
    simp [leaves, Leaf.conditions, Leaf.polarity, hc, hp, Expression.conditions]
    rfl
  | negation strict c =>
    rw [build, ofNegation_of_coveredBy h] at hb
    obtain ⟨s, hs, rfl⟩ := singleTree_eq_ok.1 hb
    obtain ⟨-, -, -, -, -, -, -, hc, hp⟩ := Context.single_eq_ok hs
    simp [leaves, Leaf.conditions, Leaf.polarity, hc, hp, Expression.conditions]
    rfl
  | combined j members ih =>
    obtain ⟨children, hch, -, rfl⟩ := build_combined_eq_ok.1 hb
    rw [Expression.coveredBy_combined] at h
    constructor
    · rw [forall_leaves_combined]
      intro t ht
      obtain ⟨m, hm, hmt⟩ := mem_of_mapM_eq_ok hch ht
      exact (ih m hm hmt (h m hm)).1
    · rw [leaves_combined, Expression.conditions_combined, List.flatMap_assoc, List.flatMap_def,
        List.flatMap_def]
      exact congrArg List.flatten
        (map_of_mapM_eq_ok hch fun m hm t ht => (ih m hm ht (h m hm)).2)

end AudienceFilter.MatchTree

namespace AudienceFilter

/-! ## Guarded expressions -/

/-- A guarded expression is covered, an expression that is covered gets no guard, and the match
tree of a guarded expression has no more leaves than conditions and none that requires values. -/
theorem guarded_covers (e : Expression) :
    e.guarded.Covered ∧ (e.guarded? = none ↔ e.Covered) ∧ e.guarded.guarded? = none ∧
      ∀ ctx t, MatchTree.ofExpression ctx e.guarded = .ok t →
        (∀ l ∈ t.leaves, l.polarity.verifies = false) ∧
          t.leaves.flatMap Leaf.conditions = e.guarded.conditions := by
  have hc := Expression.covered_guarded e
  refine ⟨hc, Expression.guarded?_eq_none_iff, Expression.guarded?_eq_none_iff.2 hc, ?_⟩
  intro ctx t ht
  exact MatchTree.leaves_of_build ht hc

/-- Arguments that are stored as text in the main documents. -/
def Context.plain : Context :=
  .new { mapping := .uniform { name := "person", nature := .main } [] "person" }

/-- A disjunction of strict negations that share one argument and differ in another. -/
def Expression.mixedNegations : Expression :=
  .combined .or [.negation true (.withReference "city" .equals "home"),
    .combined .and [.condition (.withOperator "age" .lessThan "20"),
      .negation true (.withOperator "city" .equals "Rome")]]

theorem guarded_covers_mixedNegations :
    Expression.mixedNegations.guarded ≠ Expression.mixedNegations ∧
      ∃ t, MatchTree.ofExpression .plain Expression.mixedNegations.guarded = .ok t ∧
        (∀ l ∈ t.leaves, l.polarity.verifies = false) ∧
          t.leaves.flatMap Leaf.conditions = Expression.mixedNegations.guarded.conditions :=
  ⟨by decide, _, rfl, (guarded_covers Expression.mixedNegations).2.2.2 .plain _ rfl⟩

end AudienceFilter
