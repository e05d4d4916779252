import AudienceFilter.Expression.Truth

/-!
# What combination and normalization keep

`Expression.combine` takes members apart, drops neutral sets and repetitions, and stops at a
deciding set. None of this changes what the combination means or lets a malformed expression
in:

* `Connective.truth_eq_neutral`: a combination is neutral exactly if all of its members are, for
  both connectives alike, so that everything below is proved once for both;
* `Expression.combine_eq`: a combination in terms of what its members bring in;
* `Expression.holds_combine`, `Expression.holds_normalized`: the truth is kept;
* `Expression.solid_combine`, `Expression.solid_normalized`: no set is left inside, and every
  combination has at least two members.
-/

namespace AudienceFilter

namespace Connective

theorem absorbing_truth (j : Connective) : j.absorbing.truth = !j.neutral.truth := by
  cases j <;> rfl

theorem eq_neutral_of_ne_absorbing {j : Connective} {e : Extent} (h : e ≠ j.absorbing) :
    e = j.neutral := by
  cases j <;> cases e <;> first | rfl | exact absurd rfl h

/-- A combination is neutral exactly if all of its members are. -/
theorem truth_eq_neutral {j : Connective} {bs : List Bool} :
    j.truth bs = j.neutral.truth ↔ ∀ b ∈ bs, b = j.neutral.truth := by
  cases j with
  | and => simp [truth, neutral, Extent.truth]
  | or => simp [truth, neutral, Extent.truth]

theorem truth_map_eq_neutral {α : Type} {j : Connective} {f : α → Bool} {xs : List α} :
    j.truth (xs.map f) = j.neutral.truth ↔ ∀ x ∈ xs, f x = j.neutral.truth := by
  rw [truth_eq_neutral, List.forall_mem_map]

/-- Two truth values agree if they are neutral together. -/
theorem eq_of_neutral_iff (j : Connective) {a b : Bool}
    (h : a = j.neutral.truth ↔ b = j.neutral.truth) : a = b := by
  cases a <;> cases b <;> cases hj : j.neutral.truth <;> simp_all

/-- Combinations agree if their members are neutral together. -/
theorem truth_map_congr {α β : Type} {j : Connective} {f : α → Bool} {g : β → Bool}
    {xs : List α} {ys : List β}
    (h : (∀ x ∈ xs, f x = j.neutral.truth) ↔ ∀ y ∈ ys, g y = j.neutral.truth) :
    j.truth (xs.map f) = j.truth (ys.map g) := by
  refine eq_of_neutral_iff j ?_
  rw [truth_map_eq_neutral, truth_map_eq_neutral, h]

end Connective

namespace Expression

/-- Induction over expressions, with the hypothesis for all members of a combination. -/
theorem memberInduction {P : Expression → Prop} (condition : ∀ c, P (.condition c))
    (negation : ∀ s c, P (.negation s c))
    (combined : ∀ j members, (∀ m ∈ members, P m) → P (.combined j members))
    (extent : ∀ e, P (.extent e)) (e : Expression) : P e := by
  refine @Expression.rec P (fun members => ∀ m ∈ members, P m)
    condition negation combined extent ?_ ?_ e
  · intro m hm
    exact absurd hm List.not_mem_nil
  · intro e rest he hrest m hm
    rcases List.mem_cons.1 hm with rfl | hm
    · exact he
    · exact hrest m hm

theorem holds_combined (v : Valuation) (j : Connective) (members : List Expression) :
    (Expression.combined j members).holds v = j.truth (members.map (holds v)) := by
  rw [holds, holdsEach_eq_map]

/-! ## Members -/

/-- What a member brings into a combination: nothing if it is a set, its own members if it is a
combination of the same kind. -/
def opened (j : Connective) : Expression → List Expression
  | .extent _ => []
  | .combined i inner => if i = j then inner else [.combined i inner]
  | m => [m]

@[simp] theorem opened_condition (j : Connective) (c : Condition) :
    opened j (.condition c) = [.condition c] := rfl

@[simp] theorem opened_negation (j : Connective) (s : Bool) (c : Condition) :
    opened j (.negation s c) = [.negation s c] := rfl

@[simp] theorem opened_extent (j : Connective) (e : Extent) : opened j (.extent e) = [] := rfl

theorem opened_combined (j i : Connective) (inner : List Expression) :
    opened j (.combined i inner) = if i = j then inner else [.combined i inner] := rfl

/-- The combination of members that were taken apart. -/
def ofMembers (j : Connective) : List Expression → Expression
  | [] => .extent j.neutral
  | [m] => m
  | ms => .combined j ms

theorem ofMembers_of_two_le {j : Connective} {out : List Expression} (h : 2 ≤ out.length) :
    ofMembers j out = .combined j out := by
  rcases out with _ | ⟨a, _ | ⟨b, rest⟩⟩
  · exact absurd h (Nat.not_succ_le_zero 1)
  · exact absurd h (Nat.not_succ_le_self 1)
  · rfl

theorem gather_cons {j : Connective} {m : Expression} (hm : m ≠ .extent j.absorbing)
    (acc rest : List Expression) :
    gather j acc (m :: rest) = gather j (Distinct.append acc (opened j m)) rest := by
  cases m with
  | extent e =>
    have he : e ≠ j.absorbing := fun he => hm (congrArg _ he)
    rw [gather, if_neg he]
    rfl
  | combined i inner =>
    rw [gather, opened_combined]
    split <;> rfl
  | condition c => rfl
  | negation s c => rfl

/-- What a combination is left with: nothing if a member decides it, and otherwise all that its
members bring in. -/
theorem gather_eq (j : Connective) (acc members : List Expression) :
    gather j acc members = if .extent j.absorbing ∈ members then none
      else some (Distinct.append acc (members.flatMap (opened j))) := by
  induction members generalizing acc with
  | nil => rfl
  | cons m rest ih =>
    by_cases hm : m = .extent j.absorbing
    · rw [hm, if_pos List.mem_cons_self]
      exact if_pos rfl
    · rw [gather_cons hm, ih, Distinct.append_append, ← List.flatMap_cons]
      simp only [List.mem_cons, Ne.symm hm, false_or]

/-- A combination is the deciding set if it has that member, and is otherwise made from what its
members bring in. -/
theorem combine_eq (j : Connective) (members : List Expression) :
    combine j members = if .extent j.absorbing ∈ members then .extent j.absorbing
      else ofMembers j (Distinct.ofList (members.flatMap (opened j))) := by
  rw [combine, gather_eq, Distinct.ofList]
  by_cases hm : .extent j.absorbing ∈ members
  · rw [if_pos hm, if_pos hm]
  · rw [if_neg hm, if_neg hm]
    rcases Distinct.append [] (members.flatMap (opened j)) with _ | ⟨a, _ | ⟨b, rest⟩⟩ <;> rfl

theorem combine_cases (j : Connective) (members : List Expression) :
    (.extent j.absorbing ∈ members ∧ combine j members = .extent j.absorbing) ∨
      (.extent j.absorbing ∉ members ∧ ∃ out, combine j members = ofMembers j out ∧
        ∀ x, x ∈ out ↔ ∃ m ∈ members, x ∈ opened j m) := by
  rw [combine_eq]
  split
  · next hm => exact .inl ⟨hm, rfl⟩
  · next hm => exact .inr ⟨hm, _, rfl, fun x => by rw [Distinct.mem_ofList, List.mem_flatMap]⟩

/-! ## Truth -/

/-- A member is neutral exactly if all that it brings in is, unless it is the deciding set. -/
theorem holds_eq_neutral_iff_opened {v : Valuation} {j : Connective} {m : Expression}
    (hm : m ≠ .extent j.absorbing) :
    m.holds v = j.neutral.truth ↔ ∀ x ∈ opened j m, x.holds v = j.neutral.truth := by
  cases m with
  | extent e =>
    have he : e = j.neutral := Connective.eq_neutral_of_ne_absorbing fun h => hm (h ▸ rfl)
    simp [holds, he]
  | combined i inner =>
    by_cases hi : i = j
    · subst hi
      rw [holds_combined, Connective.truth_map_eq_neutral, opened_combined, if_pos rfl]
    · simp [opened_combined, hi]
  | condition c => simp
  | negation s c => simp

theorem holds_ofMembers (v : Valuation) (j : Connective) (out : List Expression) :
    (ofMembers j out).holds v = j.truth (out.map (holds v)) := by
  rcases out with _ | ⟨a, _ | ⟨b, rest⟩⟩
  · cases j <;> rfl
  · cases j <;> simp [ofMembers, Connective.truth]
  · exact holds_combined v j _

/-- Joining members keeps the truth of their combination. -/
theorem holds_combine (v : Valuation) (j : Connective) (members : List Expression) :
    (combine j members).holds v = j.truth (members.map (holds v)) := by
  rcases combine_cases j members with ⟨hm, h⟩ | ⟨hm, out, h, hout⟩
  · rw [h, holds, Connective.absorbing_truth]
    have hne : j.truth (members.map (holds v)) ≠ j.neutral.truth := by
      intro hj
      have := Connective.truth_map_eq_neutral.1 hj _ hm
      rw [holds, Connective.absorbing_truth] at this
      exact absurd this (by cases j.neutral.truth <;> decide)
    cases hn : j.neutral.truth <;> simp_all
  · rw [h, holds_ofMembers]
    refine Connective.truth_map_congr ⟨fun hall m hmem => ?_, fun hall x hx => ?_⟩
    · refine (holds_eq_neutral_iff_opened fun e => hm (e ▸ hmem)).2 fun x hx => ?_
      exact hall x ((hout x).2 ⟨m, hmem, hx⟩)
    · obtain ⟨m, hmem, hx⟩ := (hout x).1 hx
      exact (holds_eq_neutral_iff_opened fun e => hm (e ▸ hmem)).1 (hall m hmem) x hx

theorem normalizedAll_eq_map (es : List Expression) : normalizedAll es = es.map normalized := by
  induction es with
  | nil => rfl
  | cons e es ih => rw [normalizedAll, ih, List.map_cons]

/-- Normalization keeps the truth of an expression. -/
theorem holds_normalized (v : Valuation) (e : Expression) : e.normalized.holds v = e.holds v := by
  induction e using memberInduction with
  | condition c => rfl
  | negation s c => rfl
  | extent e => rfl
  | combined j members ih =>
    rw [normalized, normalizedAll_eq_map, holds_combine, holds_combined, List.map_map]
    exact congrArg j.truth (List.map_congr_left ih)

/-! ## Solid expressions -/

mutual

/-- Whether an expression holds no set and only combinations of two or more members. -/
def Solid : Expression → Prop
  | .combined _ members => 2 ≤ members.length ∧ SolidEach members
  | .extent _ => False
  | _ => True

@[inherit_doc Solid]
def SolidEach : List Expression → Prop
  | [] => True
  | e :: rest => Solid e ∧ SolidEach rest

end

theorem solidEach_iff {es : List Expression} : SolidEach es ↔ ∀ e ∈ es, Solid e := by
  induction es with
  | nil => simp [SolidEach]
  | cons e es ih => simp [SolidEach, ih]

theorem solid_combined {j : Connective} {members : List Expression} :
    Solid (.combined j members) ↔ 2 ≤ members.length ∧ ∀ m ∈ members, Solid m := by
  rw [Solid, solidEach_iff]

/-- What a solid member brings in is solid, and there is something. -/
theorem solid_opened {j : Connective} {m : Expression} (h : Solid m) :
    opened j m ≠ [] ∧ ∀ x ∈ opened j m, Solid x := by
  cases m with
  | extent e => exact h.elim
  | combined i inner =>
    rw [opened_combined]
    split
    · have := solid_combined.1 h
      exact ⟨List.ne_nil_of_length_pos (by omega), this.2⟩
    · simp [h]
  | condition c => simp [Solid]
  | negation s c => simp [Solid]

theorem solid_ofMembers {j : Connective} {out : List Expression} (hne : out ≠ [])
    (h : ∀ x ∈ out, Solid x) : Solid (ofMembers j out) := by
  rcases out with _ | ⟨a, _ | ⟨b, rest⟩⟩
  · exact absurd rfl hne
  · exact h a List.mem_cons_self
  · exact solid_combined.2 ⟨by simp, h⟩

/-- Joining solid members, of which there is one, gives a solid expression. -/
theorem solid_combine {j : Connective} {members : List Expression} (hne : members ≠ [])
    (h : ∀ m ∈ members, Solid m) : Solid (combine j members) := by
  rcases combine_cases j members with ⟨hm, -⟩ | ⟨-, out, he, hout⟩
  · exact (h _ hm).elim
  · obtain ⟨m, hm⟩ := List.exists_mem_of_ne_nil members hne
    obtain ⟨x, hx⟩ := List.exists_mem_of_ne_nil _ (solid_opened (h m hm)).1
    rw [he]
    refine solid_ofMembers (List.ne_nil_of_mem ((hout x).2 ⟨m, hm, hx⟩)) fun y hy => ?_
    obtain ⟨m', hm', hy⟩ := (hout y).1 hy
    exact (solid_opened (h m' hm')).2 y hy

/-- Joining solid members and sets gives a solid expression or a set. -/
theorem extent_or_solid_combine {j : Connective} {members : List Expression}
    (h : ∀ m ∈ members, (∃ x, m = .extent x) ∨ Solid m) :
    (∃ x, combine j members = .extent x) ∨ Solid (combine j members) := by
  rcases combine_cases j members with ⟨-, he⟩ | ⟨-, out, he, hout⟩
  · exact .inl ⟨_, he⟩
  · rw [he]
    have hsolid : ∀ x ∈ out, Solid x := by
      intro x hx
      obtain ⟨m, hm, hx⟩ := (hout x).1 hx
      rcases h m hm with ⟨e, rfl⟩ | hs
      · exact absurd hx List.not_mem_nil
      · exact (solid_opened hs).2 x hx
    rcases out with _ | ⟨a, rest⟩
    · exact .inl ⟨_, rfl⟩
    · exact .inr (solid_ofMembers (List.cons_ne_nil a rest) hsolid)

/-- A normalized expression is one of the two sets or solid. -/
theorem solid_normalized (e : Expression) :
    (∃ x, e.normalized = .extent x) ∨ Solid e.normalized := by
  induction e using memberInduction with
  | condition c => exact .inr trivial
  | negation s c => exact .inr trivial
  | extent e => exact .inl ⟨e, rfl⟩
  | combined j members ih =>
    rw [normalized, normalizedAll_eq_map]
    exact extent_or_solid_combine (List.forall_mem_map.2 ih)

end Expression

end AudienceFilter
