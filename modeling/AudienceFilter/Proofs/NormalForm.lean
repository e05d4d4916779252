import AudienceFilter.Proofs.Combination

/-!
# The normal form of expressions

A normalized expression is one of the two sets, or it holds no set at all, its combinations have
two or more members, and all nesting and repetition that says nothing is gone. `Flat` is the last
part, `IsNormal` the whole.

* `isNormal_normalized`, `normalized_of_isNormal`: normalization reaches the normal form and
  leaves it as it is;
* `normalized_normalForm`: the normal form consists of the expressions that normalization leaves
  as they are;
* `normalized_truth`: neither joining members nor normalization changes the truth;
* `opened_combine`: what a combination of normal members brings into a combination of its kind
  are the members it was made from;
* `combine_combine`: a combination of normal members may be joined before or together with what
  stands beside it.
-/

namespace AudienceFilter

namespace Expression

variable {j : Connective}

mutual

/-- Whether the members of every combination are distinct and none of them is a combination of
the same kind. -/
def Flat : Expression → Prop
  | .combined j members =>
    members.Nodup ∧ (∀ inner, .combined j inner ∉ members) ∧ FlatEach members
  | _ => True

@[inherit_doc Flat]
def FlatEach : List Expression → Prop
  | [] => True
  | e :: rest => Flat e ∧ FlatEach rest

end

/-- Whether the expression is one of the two sets, or a solid one without nesting and repetition
that says nothing. -/
def IsNormal (e : Expression) : Prop := (∃ x, e = .extent x) ∨ Solid e ∧ Flat e

theorem flatEach_iff {es : List Expression} : FlatEach es ↔ ∀ e ∈ es, Flat e := by
  induction es with
  | nil => simp [FlatEach]
  | cons e es ih => simp [FlatEach, ih]

theorem flat_combined {members : List Expression} :
    Flat (.combined j members) ↔
      members.Nodup ∧ (∀ inner, .combined j inner ∉ members) ∧ ∀ m ∈ members, Flat m := by
  rw [Flat, flatEach_iff]

/-! ## Normalization reaches the normal form -/

/-- What a flat member brings in is flat, and no combination of the kind it is brought into. -/
theorem flat_opened {m x : Expression} (h : Flat m) (hx : x ∈ opened j m) :
    Flat x ∧ ∀ inner, x ≠ .combined j inner := by
  cases m with
  | extent e => exact absurd hx List.not_mem_nil
  | condition c =>
    obtain rfl := List.mem_singleton.1 hx
    exact ⟨h, fun _ he => nomatch he⟩
  | negation s c =>
    obtain rfl := List.mem_singleton.1 hx
    exact ⟨h, fun _ he => nomatch he⟩
  | combined i inner =>
    rw [opened_combined] at hx
    split at hx
    · next hi =>
      obtain ⟨-, hkind, hflat⟩ := flat_combined.1 h
      exact ⟨hflat x hx, fun _ he => hkind _ (hi ▸ he ▸ hx)⟩
    · next hi =>
      obtain rfl := List.mem_singleton.1 hx
      exact ⟨h, fun _ he => hi (combined.inj he).1⟩

theorem flat_ofMembers {out : List Expression} (hn : out.Nodup)
    (h : ∀ x ∈ out, Flat x ∧ ∀ inner, x ≠ .combined j inner) : Flat (ofMembers j out) := by
  rcases out with _ | ⟨a, _ | ⟨b, rest⟩⟩
  · trivial
  · exact (h a List.mem_cons_self).1
  · exact flat_combined.2 ⟨hn, fun inner hm => (h _ hm).2 inner rfl, fun m hm => (h m hm).1⟩

/-- Joining flat members gives a flat expression. -/
theorem flat_combine {members : List Expression} (h : ∀ m ∈ members, Flat m) :
    Flat (combine j members) := by
  rw [combine_eq]
  split
  · trivial
  · refine flat_ofMembers (Distinct.nodup_ofList _) fun x hx => ?_
    obtain ⟨m, hm, hx⟩ := List.mem_flatMap.1 (Distinct.mem_ofList.1 hx)
    exact flat_opened (h m hm) hx

theorem flat_normalized (e : Expression) : Flat e.normalized := by
  induction e using memberInduction with
  | condition c => trivial
  | negation s c => trivial
  | extent e => trivial
  | combined j members ih =>
    rw [normalized, normalizedAll_eq_map]
    exact flat_combine (List.forall_mem_map.2 ih)

/-- A normalized expression is normal. -/
theorem isNormal_normalized (e : Expression) : IsNormal e.normalized :=
  (solid_normalized e).imp_right fun hs => ⟨hs, flat_normalized e⟩

/-! ## Normalization leaves the normal form as it is -/

/-- What a normal member brings in stands for itself. -/
theorem opened_of_mem_opened {m x : Expression} (h : IsNormal m) (hx : x ∈ opened j m) :
    opened j x = [x] := by
  rcases h with ⟨e, rfl⟩ | ⟨hs, hf⟩
  · exact absurd hx List.not_mem_nil
  · have hsolid : Solid x := (solid_opened hs).2 x hx
    have hkind := (flat_opened hf hx).2
    cases x with
    | extent e => exact hsolid.elim
    | condition c => rfl
    | negation s c => rfl
    | combined i inner =>
      have hi : i ≠ j := fun hi => hkind inner (congrArg (combined · inner) hi)
      exact if_neg hi

theorem isNormal_combined {members : List Expression} :
    IsNormal (.combined j members) ↔
      Solid (.combined j members) ∧ Flat (.combined j members) := by
  refine ⟨?_, .inr⟩
  rintro (⟨e, he⟩ | h)
  · cases he
  · exact h

/-- Members of a normal combination are joined to the combination that they are taken from. -/
theorem combine_of_isNormal {members : List Expression} (h : IsNormal (.combined j members)) :
    combine j members = .combined j members := by
  obtain ⟨hs, hf⟩ := isNormal_combined.1 h
  have hset : .extent j.absorbing ∉ members := fun hm => (solid_combined.1 hs).2 _ hm
  have hself : ∀ m ∈ members, opened j m = [m] := fun m hm =>
    opened_of_mem_opened h (by rwa [opened_combined, if_pos rfl])
  rw [combine_eq, if_neg hset, Distinct.flatMap_of_self hself,
    Distinct.ofList_of_nodup (flat_combined.1 hf).1]
  exact ofMembers_of_two_le (solid_combined.1 hs).1

/-- A normal expression stays as it is. -/
theorem normalized_of_isNormal {e : Expression} (h : IsNormal e) : e.normalized = e := by
  induction e using memberInduction with
  | condition c => rfl
  | negation s c => rfl
  | extent e => rfl
  | combined j members ih =>
    obtain ⟨hs, hf⟩ := isNormal_combined.1 h
    have hsame : members.map normalized = members.map id := List.map_congr_left fun m hm =>
      ih m hm (.inr ⟨(solid_combined.1 hs).2 m hm, (flat_combined.1 hf).2.2 m hm⟩)
    rw [normalized, normalizedAll_eq_map, hsame, List.map_id, combine_of_isNormal h]

theorem normalized_eq_self_iff {e : Expression} : e.normalized = e ↔ IsNormal e :=
  ⟨fun h => h ▸ isNormal_normalized e, normalized_of_isNormal⟩

/-! ## Combinations within combinations -/

theorem opened_ofMembers {out : List Expression} (h : ∀ x ∈ out, opened j x = [x]) :
    opened j (ofMembers j out) = out := by
  rcases out with _ | ⟨a, _ | ⟨b, rest⟩⟩
  · rfl
  · exact h a List.mem_cons_self
  · exact if_pos rfl

theorem ofMembers_ne_absorbing {out : List Expression} (h : ∀ x ∈ out, opened j x = [x]) :
    ofMembers j out ≠ .extent j.absorbing := by
  intro he
  have hout : out = [] := by rw [← opened_ofMembers h, he, opened_extent]
  rw [hout] at he
  cases j <;> cases he

/-- Joined normal members decide nothing unless one of them does, and bring into a combination of
their kind what they would bring in by themselves. -/
theorem opened_combine {members : List Expression} (h : ∀ m ∈ members, IsNormal m)
    (hset : .extent j.absorbing ∉ members) :
    combine j members ≠ .extent j.absorbing ∧
      opened j (combine j members) = Distinct.ofList (members.flatMap (opened j)) := by
  have hself : ∀ x ∈ Distinct.ofList (members.flatMap (opened j)), opened j x = [x] := by
    intro x hx
    obtain ⟨m, hm, hx⟩ := List.mem_flatMap.1 (Distinct.mem_ofList.1 hx)
    exact opened_of_mem_opened (h m hm) hx
  rw [combine_eq, if_neg hset]
  exact ⟨ofMembers_ne_absorbing hself, opened_ofMembers hself⟩

theorem combine_congr {members members' : List Expression}
    (hset : .extent j.absorbing ∈ members ↔ .extent j.absorbing ∈ members')
    (hout : Distinct.ofList (members.flatMap (opened j)) =
      Distinct.ofList (members'.flatMap (opened j))) :
    combine j members = combine j members' := by
  rw [combine_eq, combine_eq, hout]
  simp only [hset]

/-- Normal members may be joined before they are joined with what stands around them. -/
theorem combine_nested {ys : List Expression} (h : ∀ y ∈ ys, IsNormal y)
    (xs zs : List Expression) :
    combine j (xs ++ [combine j ys] ++ zs) = combine j (xs ++ ys ++ zs) := by
  by_cases hset : .extent j.absorbing ∈ ys
  · -- The deciding set stands for the inner combination, and then for both sides.
    have hys : combine j ys = .extent j.absorbing := by rw [combine_eq, if_pos hset]
    rw [hys, combine_eq, combine_eq, if_pos (by simp), if_pos (by simp [hset])]
  · obtain ⟨hne, hopened⟩ := opened_combine h hset
    refine combine_congr ?_ ?_
    · simp [hset, Ne.symm hne]
    · rw [List.flatMap_append, List.flatMap_append, List.flatMap_singleton, hopened,
        Distinct.ofList_append_ofList, ← List.flatMap_append, ← List.flatMap_append]

end Expression

open Expression (combine)

/-- A normalized expression is in normal form, and exactly the expressions in normal form stay as
they are; so a second normalization changes nothing. -/
theorem normalized_normalForm (e : Expression) :
    e.normalized.IsNormal ∧ (e.normalized = e ↔ e.IsNormal) ∧
      e.normalized.normalized = e.normalized :=
  ⟨Expression.isNormal_normalized e, Expression.normalized_eq_self_iff,
    Expression.normalized_of_isNormal (Expression.isNormal_normalized e)⟩

/-- Whatever the truth of conditions and negations is, normalization keeps the truth of an
expression, and joining members keeps the truth of their combination. -/
theorem normalized_truth (v : Valuation) :
    (∀ e : Expression, e.normalized.holds v = e.holds v) ∧
      ∀ (j : Connective) (members : List Expression),
        (combine j members).holds v = j.truth (members.map (Expression.holds v)) :=
  ⟨Expression.holds_normalized v, Expression.holds_combine v⟩

/-- A combination of normalized expressions may be joined first and then become a member, or its
members may be joined with the others at once. -/
theorem combine_combine (j : Connective) (xs ys zs : List Expression)
    (h : ∀ y ∈ ys, y.normalized = y) :
    combine j (xs ++ [combine j ys] ++ zs) = combine j (xs ++ ys ++ zs) :=
  Expression.combine_nested (fun y hy => Expression.normalized_eq_self_iff.1 (h y hy)) xs zs

-- Each time it is joined, a member nested twice loses a level, which shows beside other members.
example :
    let twice : Expression := .combined .and [.combined .and [.condition (.unknown "city"),
      .condition (.unknown "home")]]
    combine .and [.condition (.unknown "age"), combine .and [twice]] ≠
      combine .and [.condition (.unknown "age"), twice] := by
  decide

/-- The people of a city. -/
def Expression.livesIn (city : String) : Expression :=
  .condition (.withOperator "city" .equals city)

/-- The people whose home is known. -/
def Expression.housed : Expression := .negation true (.unknown "home")

/-- Members of which one is taken apart and one is neutral. -/
def Expression.settlers : List Expression :=
  [.livesIn "Rome", .combined .and [.housed, .livesIn "Oslo"], .extent .all]

/-- What the settlers share with the members around them is kept once, where it comes first. -/
theorem combine_combine_settlers :
    (∀ y ∈ Expression.settlers, y.normalized = y) ∧
      combine .and ([Expression.livesIn "Oslo"] ++ [combine .and Expression.settlers] ++
        [Expression.housed]) = .combined .and [.livesIn "Oslo", .livesIn "Rome", .housed] := by
  have hnormal : ∀ y ∈ Expression.settlers, y.normalized = y :=
    List.forall_mem_cons.2 ⟨rfl, List.forall_mem_cons.2 ⟨by decide, List.forall_mem_singleton.2 rfl⟩⟩
  refine ⟨hnormal, ?_⟩
  rw [combine_combine .and _ _ _ hnormal]
  decide

end AudienceFilter
