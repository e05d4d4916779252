import AudienceFilter.Proofs.GuardCoverage
import AudienceFilter.Proofs.Reordering

/-!
# Conjunctions with their members in another order

Normalization, guards and the match tree of a conjunction only look at which members there are.
Guards stand in the order in which they are first needed, and the trees of the members in the
order of the members, so the order carries over from one stage to the next:

* `Expression.reordered_combine`, `Expression.Reordered.normalized`: joined members;
* `Expression.Reordered.guarded`: guarded expressions;
* `MatchTree.sameOutcome_ofExpression`: match trees.
-/

namespace AudienceFilter

namespace Expression

/-- Whether two expressions are the same, or conjunctions of the same members. -/
inductive Reordered : Expression → Expression → Prop
  | refl (e : Expression) : Reordered e e
  | members {ms ms' : List Expression} (h : ms.Perm ms') :
      Reordered (.combined .and ms) (.combined .and ms')

theorem reordered_ofMembers {ms ms' : List Expression} (h : ms.Perm ms') :
    Reordered (ofMembers .and ms) (ofMembers .and ms') := by
  by_cases hlen : ms.length < 2
  · rw [eq_of_perm_of_length_lt h hlen]
    exact .refl _
  · have htwo := Nat.not_lt.1 hlen
    rw [ofMembers_of_two_le htwo, ofMembers_of_two_le (h.length_eq ▸ htwo)]
    exact .members h

/-- A conjunction depends only on which members it has, up to their order. -/
theorem reordered_combine {ms ms' : List Expression} (h : ∀ m, m ∈ ms ↔ m ∈ ms') :
    Reordered (combine .and ms) (combine .and ms') := by
  rw [combine_eq, combine_eq]
  by_cases ha : .extent (Connective.absorbing .and) ∈ ms
  · rw [if_pos ha, if_pos ((h _).1 ha)]
    exact .refl _
  · rw [if_neg ha, if_neg fun ha' => ha ((h _).2 ha')]
    exact reordered_ofMembers (Distinct.perm_ofList fun x => by simp only [List.mem_flatMap, h])

theorem Reordered.normalized {e e' : Expression} (h : Reordered e e') :
    Reordered e.normalized e'.normalized := by
  cases h with
  | refl e => exact .refl _
  | members h =>
    rw [Expression.normalized, Expression.normalized, normalizedAll_eq_map, normalizedAll_eq_map]
    exact reordered_combine fun _ => (h.map _).mem_iff

/-! ## Guards -/

theorem missingIn_congr {own own' : List String} {members : List Expression}
    (h : ∀ arg, arg ∈ own ↔ arg ∈ own') : missingIn own members = missingIn own' members := by
  simp only [missingIn, List.contains_eq_mem, h]

theorem changeNested_congr {provided provided' : List String} {e : Expression}
    (h : weave? provided e = weave? provided' e) :
    changeNested provided e = changeNested provided' e := by
  rw [changeNested, changeNested, h]

/-- It does not matter in which order arguments are guarded above an expression. -/
theorem weave?_congr {provided provided' : List String} {e : Expression}
    (h : ∀ arg, arg ∈ provided ↔ arg ∈ provided') : weave? provided e = weave? provided' e := by
  induction e using memberInduction generalizing provided provided' with
  | condition c => rfl
  | extent e => rfl
  | negation s c => simp only [weave?, List.contains_eq_mem, h]
  | combined j members ih =>
    cases j with
    | or =>
      rw [weave?, weave?, weaveEach_eq_map, weaveEach_eq_map,
        List.map_congr_left fun m hm => ih m hm h]
    | and =>
      have hown : ∀ arg, arg ∈ ownIn provided members ↔ arg ∈ ownIn provided' members := by
        intro arg
        rw [mem_ownIn, mem_ownIn, mem_knownIn, mem_knownIn, h]
      have hsame : ∀ m ∈ members, changeNested (wovenIn provided members) m =
          changeNested (wovenIn provided' members) m := fun m hm => by
        refine changeNested_congr (ih m hm fun arg => ?_)
        rw [mem_wovenIn, mem_wovenIn, ← mem_ownIn, ← mem_ownIn, hown, missingIn_congr hown]
      have hchanged := List.map_congr_left fun m hm => congrArg (Option.getD · m) (hsame m hm)
      have hnone : (∀ m ∈ members, changeNested (wovenIn provided members) m = none) ↔
          ∀ m ∈ members, changeNested (wovenIn provided' members) m = none :=
        forall_congr' fun m => forall_congr' fun hm => by rw [hsame m hm]
      rw [weave?_and, weave?_and, missingIn_congr hown, hchanged]
      simp only [hnone]

/-- The guards of a conjunction, its own and the missing ones, do not depend on the order of its
members. -/
theorem mem_missingIn_perm {ms ms' : List Expression} (h : ms.Perm ms') (arg : String) :
    arg ∈ missingIn (ownIn [] ms) ms ↔ arg ∈ missingIn (ownIn [] ms') ms' := by
  simp only [mem_missingIn, mem_ownIn, mem_knownIn, h.mem_iff]

theorem Reordered.guarded {e e' : Expression} (h : Reordered e e') :
    Reordered e.guarded e'.guarded := by
  cases h with
  | refl e => exact .refl _
  | @members ms ms' h =>
    have hmissing := mem_missingIn_perm h
    have hwoven : ∀ arg, arg ∈ wovenIn [] ms ↔ arg ∈ wovenIn [] ms' := fun arg => by
      rw [mem_wovenIn, mem_wovenIn, hmissing, mem_knownIn, mem_knownIn]
      simp only [h.mem_iff]
    have hsame : ∀ m, changeNested (wovenIn [] ms) m = changeNested (wovenIn [] ms') m := fun m =>
      changeNested_congr (weave?_congr hwoven)
    have hnone : (missingIn (ownIn [] ms) ms = [] ∧
          ∀ m ∈ ms, changeNested (wovenIn [] ms) m = none) ↔
        missingIn (ownIn [] ms') ms' = [] ∧
          ∀ m ∈ ms', changeNested (wovenIn [] ms') m = none := by
      simp only [List.eq_nil_iff_forall_not_mem, hmissing, hsame, h.mem_iff]
    rw [Expression.guarded, Expression.guarded, guarded?, guarded?, weave?_and, weave?_and]
    by_cases hn : missingIn (ownIn [] ms) ms = [] ∧
        ∀ m ∈ ms, changeNested (wovenIn [] ms) m = none
    · rw [if_pos hn, if_pos (hnone.1 hn)]
      exact .members h
    · rw [if_neg hn, if_neg fun hn' => hn (hnone.2 hn')]
      refine reordered_combine fun x => ?_
      simp only [List.mem_append, List.mem_map, hmissing, hsame, h.mem_iff]

end Expression

/-! ## Match trees -/

namespace MatchTree

/-- Whether two trees are the same, or conjunctions of the same members. -/
inductive Reordered : MatchTree → MatchTree → Prop
  | refl (t : MatchTree) : Reordered t t
  | members {ts ts' : List MatchTree} (h : ts.Perm ts') :
      Reordered (.combined .and ts) (.combined .and ts')

variable {ctx : Context}

theorem sameOutcome_combine {ts ts' : List MatchTree} (h : ts.Perm ts') :
    SameOutcome Reordered (combine .and ts) (combine .and ts') := by
  rw [combine, combine, h.length_eq]
  split
  · exact .error _ _
  · exact .ok (.members h)

/-- It does not matter in which order arguments are guarded above an expression. -/
theorem build_congr {known known' : List String} {e : Expression}
    (h : ∀ arg, arg ∈ known ↔ arg ∈ known') : build ctx known e = build ctx known' e := by
  induction e using Expression.memberInduction generalizing known known' with
  | condition c => rfl
  | extent e => rfl
  | negation s c => simp only [build, ofNegation, List.contains_eq_mem, h]
  | combined j members ih =>
    rw [build_combined, build_combined, mapM_congr fun m hm => ih m hm fun arg => ?_]
    rw [Expression.mem_knownIn, Expression.mem_knownIn, h]

/-- The match trees of reordered expressions are reordered. -/
theorem sameOutcome_ofExpression {e e' : Expression} (h : e.Reordered e') :
    SameOutcome Reordered (ofExpression ctx e) (ofExpression ctx e') := by
  cases h with
  | refl e => exact .refl .refl _
  | @members ms ms' h =>
    rw [ofExpression, ofExpression, build_combined, build_combined]
    have hsame : ms.mapM (build ctx (Expression.knownIn .and [] ms)) =
        ms.mapM (build ctx (Expression.knownIn .and [] ms')) :=
      mapM_congr fun m _ => build_congr fun arg => by
        simp only [Expression.mem_knownIn, h.mem_iff]
    rw [hsame]
    exact (sameOutcome_mapM_perm h).bind fun ts ts' _ _ hts => (sameOutcome_combine hts).liftFault

end MatchTree

end AudienceFilter
