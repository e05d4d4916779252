import AudienceFilter.Proofs.ClassMerging

/-!
# Lists in another order

Where a step fails for several elements of a list, the order of the list decides which failure is
reported. That it fails does not depend on the order, and if it succeeds the same elements come
out:

* `SameOutcome`: two results fail both, or succeed both with related values;
* `sameOutcome_mapM`: lists that are mapped;
* `Distinct.perm_ofList`: lists without repetition;
* `Classes.sameOutcome_merge`: lists whose classes are merged.
-/

namespace AudienceFilter

variable {ε α β γ δ : Type}

/-- Whether two results fail both, or succeed both with related values. -/
inductive SameOutcome (R : α → β → Prop) : Except ε α → Except ε β → Prop
  | ok {a : α} {b : β} (h : R a b) : SameOutcome R (.ok a) (.ok b)
  | error (e e' : ε) : SameOutcome R (.error e) (.error e')

namespace SameOutcome

variable {R : α → β → Prop} {S : γ → δ → Prop}

theorem refl {R : α → α → Prop} (h : ∀ a, R a a) (x : Except ε α) : SameOutcome R x x := by
  cases x with
  | ok a => exact .ok (h a)
  | error e => exact .error e e

theorem trans {R' : β → γ → Prop} {R'' : α → γ → Prop} {x : Except ε α} {y : Except ε β}
    {z : Except ε γ} (h : SameOutcome R x y) (h' : SameOutcome R' y z)
    (ht : ∀ a b c, R a b → R' b c → R'' a c) : SameOutcome R'' x z := by
  cases h with
  | ok h =>
    cases h' with
    | ok h' => exact .ok (ht _ _ _ h h')
  | error e e' =>
    cases h' with
    | error _ e'' => exact .error e e''

theorem bind {x : Except ε α} {y : Except ε β} {f : α → Except ε γ} {g : β → Except ε δ}
    (h : SameOutcome R x y)
    (hf : ∀ a b, x = .ok a → y = .ok b → R a b → SameOutcome S (f a) (g b)) :
    SameOutcome S (x >>= f) (y >>= g) := by
  cases h with
  | ok h => exact hf _ _ rfl rfl h
  | error e e' => exact .error e e'

theorem map {x : Except ε α} {y : Except ε β} {f : α → γ} {g : β → δ} (h : SameOutcome R x y)
    (hf : ∀ a b, R a b → S (f a) (g b)) : SameOutcome S (x.map f) (y.map g) := by
  cases h with
  | ok h => exact .ok (hf _ _ h)
  | error e e' => exact .error e e'

theorem liftFault {x : Except Fault α} {y : Except Fault β} (h : SameOutcome R x y) :
    SameOutcome R (AudienceFilter.liftFault x) (AudienceFilter.liftFault y) := by
  cases h with
  | ok h => exact .ok h
  | error e e' => exact .error _ _

end SameOutcome

/-! ## Mapped lists -/

theorem sameOutcome_mapM_congr {f g : α → Except ε β} {xs : List α}
    (h : ∀ x ∈ xs, SameOutcome Eq (f x) (g x)) : SameOutcome Eq (xs.mapM f) (xs.mapM g) := by
  induction xs with
  | nil => exact .ok rfl
  | cons x xs ih =>
    rw [List.forall_mem_cons] at h
    rw [List.mapM_cons, List.mapM_cons]
    refine h.1.bind fun a b _ _ hab => (ih h.2).bind fun as bs _ _ habs => ?_
    exact .ok (hab ▸ habs ▸ rfl)

theorem sameOutcome_mapM_perm {f : α → Except ε β} {xs ys : List α} (h : xs.Perm ys) :
    SameOutcome List.Perm (xs.mapM f) (ys.mapM f) := by
  induction h with
  | nil => exact .ok .nil
  | cons x _ ih =>
    rw [List.mapM_cons, List.mapM_cons]
    refine (SameOutcome.refl (fun _ => rfl) (f x)).bind fun a b _ _ hab => ?_
    exact ih.bind fun as bs _ _ h => .ok (hab ▸ h.cons a)
  | swap x y l =>
    simp only [List.mapM_cons]
    cases f x with
    | error e =>
      cases f y with
      | error e' => exact .error e' e
      | ok b => exact .error e e
    | ok a =>
      cases f y with
      | error e' => exact .error e' e'
      | ok b =>
        cases l.mapM f with
        | error e => exact .error e e
        | ok cs => exact .ok (.swap a b cs)
  | trans _ _ ih ih' => exact ih.trans ih' fun _ _ _ h h' => h.trans h'

/-- Lists with the same elements are mapped to lists with the same elements. -/
theorem sameOutcome_mapM {f g : α → Except ε β} {xs ys : List α} (h : xs.Perm ys)
    (hf : ∀ x ∈ xs, SameOutcome Eq (f x) (g x)) :
    SameOutcome List.Perm (xs.mapM f) (ys.mapM g) := by
  have hsame := sameOutcome_mapM_congr fun x hx => hf x (h.mem_iff.2 hx)
  refine (sameOutcome_mapM_perm h).trans hsame ?_
  rintro as bs _ hperm rfl
  exact hperm

/-- Lists of fewer than two elements have one order. -/
theorem eq_of_perm_of_length_lt {xs ys : List α} (h : xs.Perm ys) (hlen : xs.length < 2) :
    xs = ys := by
  rcases xs with _ | ⟨x, _ | ⟨y, rest⟩⟩
  · exact h.nil_eq
  · exact List.singleton_perm.1 h
  · exact absurd hlen (Nat.not_lt.2 (Nat.le_add_left 2 rest.length))

/-! ## Lists without repetition -/

/-- Of a list without repetition only the order depends on the order of its elements. -/
theorem Distinct.perm_ofList [DecidableEq α] {xs ys : List α} (h : ∀ x, x ∈ xs ↔ x ∈ ys) :
    (ofList xs).Perm (ofList ys) := by
  rw [List.perm_ext_iff_of_nodup (nodup_ofList xs) (nodup_ofList ys)]
  intro x
  rw [mem_ofList, mem_ofList, h]

/-! ## Classes -/

namespace Classes

variable {κ : Type} {keyed keyed' : List (Option κ × α)}

/-- The class of an element that is replaced, with its replacement. -/
def replaced? (replacement? : κ → Option α) (p : Option κ × α) : Option (κ × α) :=
  p.1.bind fun k => (replacement? k).map fun r => (k, r)

theorem replacement?_of_replaced? {replacement? : κ → Option α} {p : Option κ × α} {k : κ} {r : α}
    (h : replaced? replacement? p = some (k, r)) : replacement? k = some r := by
  obtain ⟨k', -, h⟩ := Option.bind_eq_some_iff.1 h
  obtain ⟨r', hr, h⟩ := Option.map_eq_some_iff.1 h
  cases h
  exact hr

variable [DecidableEq κ]

theorem perm_members (h : keyed.Perm keyed') (k : κ) :
    (members keyed k).Perm (members keyed' k) := h.filterMap _

theorem perm_keys (h : keyed.Perm keyed') : (keys keyed).Perm (keys keyed') :=
  Distinct.perm_ofList fun _ => (h.filterMap _).mem_iff

theorem collapse_of_kept {replacement? : κ → Option α} {p : Option κ × α} (seen : List κ)
    (rest : List (Option κ × α)) (h : replaced? replacement? p = none) :
    collapse replacement? seen (p :: rest) = p.2 :: collapse replacement? seen rest := by
  rcases p with ⟨_ | k, a⟩
  · rfl
  · have hk : replacement? k = none := by simpa [replaced?] using h
    rw [collapse, hk]

theorem collapse_of_replaced {replacement? : κ → Option α} {p : Option κ × α} {k : κ} {r : α}
    (seen : List κ) (rest : List (Option κ × α)) (h : replaced? replacement? p = some (k, r)) :
    collapse replacement? seen (p :: rest) = if k ∈ seen then collapse replacement? seen rest
      else r :: collapse replacement? (k :: seen) rest := by
  rcases p with ⟨_ | k', a⟩
  · cases h
  · obtain ⟨hk, rfl⟩ : replacement? k' = some r ∧ k' = k := by simpa [replaced?] using h
    rw [collapse, hk]

/-- It does not matter in which order classes were seen, nor what other classes would be replaced
by. -/
theorem collapse_congr {replacement? replacement'? : κ → Option α} {seen seen' : List κ}
    (hr : ∀ k a, (some k, a) ∈ keyed → replacement? k = replacement'? k)
    (h : ∀ k, k ∈ seen ↔ k ∈ seen') :
    collapse replacement? seen keyed = collapse replacement'? seen' keyed := by
  induction keyed generalizing seen seen' with
  | nil => rfl
  | cons p rest ih =>
    have ih := fun {seen seen'} => @ih seen seen' fun k a ha => hr k a (List.mem_cons_of_mem p ha)
    have hsame : replaced? replacement'? p = replaced? replacement? p := by
      rcases p with ⟨_ | k, a⟩
      · rfl
      · rw [replaced?, replaced?, Option.bind_some, Option.bind_some, hr k a List.mem_cons_self]
    cases hp : replaced? replacement? p with
    | none =>
      rw [collapse_of_kept seen rest hp, collapse_of_kept seen' rest (hsame.trans hp), ih h]
    | some kr =>
      have hcons : ∀ k, k ∈ kr.1 :: seen ↔ k ∈ kr.1 :: seen' := fun k => by simp [h]
      rw [collapse_of_replaced seen rest hp, collapse_of_replaced seen' rest (hsame.trans hp), ih h,
        ih hcons]
      simp only [h]

theorem perm_collapse_swap {replacement? : κ → Option α} (p q : Option κ × α) (seen : List κ)
    (rest : List (Option κ × α)) :
    (collapse replacement? seen (p :: q :: rest)).Perm
      (collapse replacement? seen (q :: p :: rest)) := by
  cases hp : replaced? replacement? p with
  | none =>
    cases hq : replaced? replacement? q with
    | none =>
      simp only [collapse_of_kept _ _ hp, collapse_of_kept _ _ hq]
      exact .swap _ _ _
    | some kr =>
      simp only [collapse_of_kept _ _ hp, collapse_of_replaced _ _ hq]
      split
      · exact .refl _
      · exact .swap _ _ _
  | some kr =>
    cases hq : replaced? replacement? q with
    | none =>
      simp only [collapse_of_replaced _ _ hp, collapse_of_kept _ _ hq]
      split
      · exact .refl _
      · exact .swap _ _ _
    | some kr' =>
      obtain ⟨k, r⟩ := kr
      obtain ⟨k', r'⟩ := kr'
      have hseen : collapse replacement? (k' :: k :: seen) rest =
          collapse replacement? (k :: k' :: seen) rest :=
        collapse_congr (fun _ _ _ => rfl) fun x => by grind
      simp only [collapse_of_replaced _ _ hp, collapse_of_replaced _ _ hq, hseen, List.mem_cons]
      by_cases hkk : k = k'
      · -- Two members of one class leave its replacement once.
        subst hkk
        have hr : r = r' := by
          have := (replacement?_of_replaced? hp).symm.trans (replacement?_of_replaced? hq)
          exact Option.some.inj this
        simp [hr]
      · have hkk' : k' ≠ k := fun h => hkk h.symm
        simp only [hkk, hkk', false_or]
        split <;> split
        · exact .refl _
        · exact .refl _
        · exact .refl _
        · exact .swap _ _ _

theorem perm_collapse {replacement? : κ → Option α} (h : keyed.Perm keyed') (seen : List κ) :
    (collapse replacement? seen keyed).Perm (collapse replacement? seen keyed') := by
  induction h generalizing seen with
  | nil => exact .nil
  | cons p _ ih =>
    cases hp : replaced? replacement? p with
    | none =>
      rw [collapse_of_kept _ _ hp, collapse_of_kept _ _ hp]
      exact (ih seen).cons _
    | some kr =>
      rw [collapse_of_replaced _ _ hp, collapse_of_replaced _ _ hp]
      split
      · exact ih seen
      · exact (ih (kr.1 :: seen)).cons kr.2
  | swap p q l => exact perm_collapse_swap q p seen l
  | trans _ _ ih ih' => exact (ih seen).trans (ih' seen)

/-- Merged classes of reordered lists have the same elements, if the replacement of a class does
not depend on the order of its members. -/
theorem sameOutcome_merge {f : κ → List α → Except ε (Option α)} (h : keyed.Perm keyed')
    (hf : ∀ k ∈ keys keyed, SameOutcome Eq (f k (members keyed k)) (f k (members keyed' k))) :
    SameOutcome List.Perm (merge f keyed) (merge f keyed') := by
  have hmade : SameOutcome List.Perm
      ((keys keyed).mapM fun k => (f k (members keyed k)).map fun r => (k, r))
      ((keys keyed').mapM fun k => (f k (members keyed' k)).map fun r => (k, r)) :=
    sameOutcome_mapM (perm_keys h) fun k hk => (hf k hk).map fun _ _ he => he ▸ rfl
  refine hmade.bind fun made made' hmade hmade' _ => .ok ?_
  refine (perm_collapse h []).trans (.of_eq (collapse_congr (fun k a ha => ?_) fun _ => Iff.rfl))
  -- Both replacements of a class were made from the same answer.
  have hk' : k ∈ keys keyed' := mem_keys.2 ⟨a, ha⟩
  have hk : k ∈ keys keyed := (perm_keys h).mem_iff.2 hk'
  have hsame := hf k hk
  rw [lookup_of_mem hmade hk, lookup_of_mem hmade' hk'] at hsame
  cases hsame with
  | ok he => exact he

end Classes

end AudienceFilter
