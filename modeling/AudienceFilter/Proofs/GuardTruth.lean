import AudienceFilter.Proofs.GuardCoverage

/-!
# Guards keep the truth

A guard that is added says no more than the strict negations that it is added for, and once all
guards are in place the strict negations say no more than the complements (`Valuation.lax`).
`Valuation.Knows` is all that this takes: guards hold for known arguments only, and a strict
negation is the complement where its arguments are known.

* `holds_weave?`, `holds_guarded`: an expression with its guards is as true as without them;
* `holds_lax`: a covered expression is as true with its strict negations taken for complements;
* `guarded_truth`: both for the valuations by what is known (`Valuation.ofKnown`).
-/

namespace AudienceFilter

namespace Valuation

/-- What a valuation says about known arguments. -/
structure Knows (v : Valuation) (known : String → Bool) : Prop where
  guard (arg : String) : v.negation false (.unknown arg) = known arg
  given {strict : Bool} {c : Condition} (hop : c.op = .isUnknown)
    (h : v.negation strict c = true) : known c.arg = true
  strict {strict : Bool} {c : Condition} (hs : Expression.isStrict strict c = true) :
    v.negation strict c = (v.negation false c && c.args.all known)

/-- The valuation that takes a strict negation for the complement of its condition. Guards are
read as before. -/
def lax (v : Valuation) : Valuation where
  condition := v.condition
  negation strict c := v.negation (strict && !Expression.isStrict strict c) c

theorem knows_ofKnown (known : String → Bool) (meets : Condition → Bool) :
    (ofKnown known meets).Knows known where
  guard arg := by simp [ofKnown, conditionOfKnown, Condition.unknown]
  given {strict c} hop h := by
    simp only [ofKnown, conditionOfKnown, hop, if_true, Bool.not_not, Bool.and_eq_true] at h
    exact h.1
  strict {strict c} hs := by
    have hstrict : strict = true := (Bool.and_eq_true_iff.1 hs).1
    simp [ofKnown, hstrict]

variable {v : Valuation} {known : String → Bool}

theorem Knows.known_of_strict (hv : v.Knows known) {strict : Bool} {c : Condition}
    (hs : Expression.isStrict strict c = true) (h : v.negation strict c = true) {arg : String}
    (ha : arg ∈ c.args) : known arg = true := by
  rw [hv.strict hs, Bool.and_eq_true, List.all_eq_true] at h
  exact h.2 arg ha

/-- Where the arguments of a strict negation are known, it is the complement. -/
theorem Knows.negation_lax (hv : v.Knows known) {strict : Bool} {c : Condition}
    (hk : Expression.isStrict strict c = true → ∀ arg ∈ c.args, known arg = true) :
    v.lax.negation strict c = v.negation strict c := by
  show v.negation (strict && !Expression.isStrict strict c) c = v.negation strict c
  cases hs : Expression.isStrict strict c with
  | false => rw [Bool.not_false, Bool.and_true]
  | true =>
    rw [Bool.not_true, Bool.and_false, hv.strict hs, List.all_eq_true.2 (hk hs), Bool.and_true]

end Valuation

namespace Expression

variable {v : Valuation} {known : String → Bool}

/-- What an expression needs is known where it holds. -/
theorem known_of_mem_needs (hv : v.Knows known) {e : Expression} (h : e.holds v = true)
    {arg : String} (ha : arg ∈ needs e) : known arg = true := by
  induction e using memberInduction with
  | condition c => exact absurd ha List.not_mem_nil
  | extent e => exact absurd ha List.not_mem_nil
  | negation s c =>
    rw [needs] at ha
    split at ha
    · next hs => exact hv.known_of_strict hs h ha
    · exact absurd ha List.not_mem_nil
  | combined j members ih =>
    rw [holds_combined] at h
    cases j with
    | and =>
      obtain ⟨⟨m, hm, ha⟩, -⟩ := mem_needs_and.1 ha
      refine ih m hm ?_ ha
      exact Connective.truth_map_eq_neutral.1 h m hm
    | or =>
      obtain ⟨-, hall⟩ := mem_needs_or ha
      simp only [Connective.truth, List.any_map, List.any_eq_true, Function.comp_apply, id] at h
      obtain ⟨m, hm, h⟩ := h
      exact ih m hm h (hall m hm)

/-- Guards beside members that need them add nothing to a conjunction. -/
theorem holds_combine_guards (hv : v.Knows known) {names : List String}
    {members : List Expression}
    (h : ∀ arg ∈ names, ∃ m ∈ members, m.holds v = true → known arg = true) :
    (combine .and (names.map guard ++ members)).holds v =
      Connective.truth .and (members.map (holds v)) := by
  rw [holds_combine]
  refine Connective.truth_map_congr ⟨fun hall m hm => ?_, fun hall m hm => ?_⟩
  · exact hall m (List.mem_append_right _ hm)
  · rcases List.mem_append.1 hm with hm | hm
    · obtain ⟨arg, ha, rfl⟩ := List.mem_map.1 hm
      obtain ⟨x, hx, hk⟩ := h arg ha
      rw [guard, holds, hv.guard]
      exact hk (hall x hx)
    · exact hall m hm

/-- Adding the guards that are missing below an expression keeps its truth. -/
theorem holds_weave? (hv : v.Knows known) {provided : List String} {e : Expression} :
    ((weave? provided e).getD e).holds v = e.holds v := by
  induction e using memberInduction generalizing provided with
  | condition c => rfl
  | extent e => rfl
  | negation s c =>
    rw [weave?]
    split
    · next hs =>
      simp only
      split
      · rfl
      · rw [Option.getD_some, holds_combine_guards hv fun arg ha => ?_]
        · simp [Connective.truth]
        · refine ⟨_, List.mem_singleton_self _, fun h => ?_⟩
          exact hv.known_of_strict hs h (List.mem_filter.1 ha).1
    · rfl
  | combined j members ih =>
    cases j with
    | or =>
      rw [weave?_or]
      split
      · rfl
      · rw [Option.getD_some, holds_combine, holds_combined, List.map_map]
        exact congrArg _ (List.map_congr_left fun m hm => ih m hm)
    | and =>
      rw [weave?_and]
      split
      · rfl
      · have hchange : ∀ m ∈ members,
            ((changeNested (wovenIn provided members) m).getD m).holds v = m.holds v := by
          intro m hm
          rw [changeNested]
          split
          · exact ih m hm
          · rfl
        rw [Option.getD_some, holds_combine_guards hv fun arg ha => ?_]
        · rw [holds_combined, List.map_map]
          exact congrArg _ (List.map_congr_left hchange)
        · obtain ⟨⟨m, hm, ha⟩, -⟩ := mem_missingIn.1 ha
          refine ⟨_, List.mem_map_of_mem hm, fun h => ?_⟩
          exact known_of_mem_needs hv (hchange m hm ▸ h) ha

/-- An expression with the guards of its strict negations is as true as without them. -/
theorem holds_guarded (hv : v.Knows known) (e : Expression) : e.guarded.holds v = e.holds v := by
  rw [guarded]
  rcases guarded?_cases e with h | ⟨-, h⟩
  · rw [h, holds_weave? hv]
  · rw [h, Option.getD_some, holds_combine_guards hv fun arg ha => ?_]
    · simp [Connective.truth, holds_weave? hv]
    · refine ⟨_, List.mem_singleton_self _, fun hw => ?_⟩
      rw [holds_weave? hv] at hw
      exact known_of_mem_needs hv hw ha

/-! ## Strict negations as complements -/

theorem known_of_guardArg? (hv : v.Knows known) {e : Expression} {arg : String}
    (hg : guardArg? e = some arg) (h : e.holds v = true) : known arg = true := by
  obtain ⟨s, c, rfl, hop, rfl⟩ := guardArg?_eq_some hg
  exact hv.given hop h

theorem holds_lax_of_guardArg? (hv : v.Knows known) {e : Expression} {arg : String}
    (hg : guardArg? e = some arg) : e.holds v.lax = e.holds v := by
  obtain ⟨s, c, rfl, hop, rfl⟩ := guardArg?_eq_some hg
  exact hv.negation_lax fun hs => by simp [isStrict, hop] at hs

/-- A covered expression is as true with its strict negations taken for complements, if the
arguments that it counts on are known. -/
theorem holds_lax (hv : v.Knows known) {names : List String} {e : Expression}
    (h : CoveredBy names e) (hk : ∀ arg ∈ names, known arg = true) :
    e.holds v.lax = e.holds v := by
  induction e using memberInduction generalizing names with
  | condition c => rfl
  | extent e => rfl
  | negation s c => exact hv.negation_lax fun hs arg ha => hk arg (h hs arg ha)
  | combined j members ih =>
    rw [coveredBy_combined] at h
    rw [holds_combined, holds_combined]
    by_cases hall : ∀ arg ∈ knownIn j names members, known arg = true
    · exact congrArg j.truth (List.map_congr_left fun m hm => ih m hm (h m hm) hall)
    · -- Only a guard of a conjunction can fail here, and it fails in both readings.
      simp only [Classical.not_forall] at hall
      obtain ⟨arg, ha, hun⟩ := hall
      rcases mem_knownIn.1 ha with ha | ⟨rfl, g, hg, harg⟩
      · exact absurd (hk arg ha) hun
      · have hfails : g.holds v ≠ true := fun hg => hun (known_of_guardArg? hv harg hg)
        refine Connective.truth_map_congr ⟨fun hall => ?_, fun hall => ?_⟩
        · exact absurd (hall g hg) (holds_lax_of_guardArg? hv harg ▸ hfails)
        · exact absurd (hall g hg) hfails

end Expression

/-- By what is known about the arguments, an expression with its guards is as true as without
them, and so it is with its strict negations taken for complements. -/
theorem guarded_truth (known : String → Bool) (meets : Condition → Bool) (e : Expression) :
    e.guarded.holds (.ofKnown known meets) = e.holds (.ofKnown known meets) ∧
      e.guarded.holds (Valuation.ofKnown known meets).lax = e.holds (.ofKnown known meets) := by
  have hv := Valuation.knows_ofKnown known meets
  have hkept := Expression.holds_guarded hv e
  refine ⟨hkept, ?_⟩
  rw [Expression.holds_lax hv (Expression.covered_guarded e) fun _ ha => absurd ha List.not_mem_nil]
  exact hkept

end AudienceFilter
