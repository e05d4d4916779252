import AudienceFilter.Definition
import AudienceFilter.Proofs.LeafConstruction

/-!
# Canonical order

Lists that are sorted and rid of repetitions are strictly increasing, so they are settled by what
they hold. The conditions of a leaf are in such an order, and so are the texts of a definition.

* `Sorted.increasing_sortedDistinct`: what sorting and dropping repetitions gives is increasing;
* `Sorted.eq_of_increasing`: increasing lists with the same elements are equal;
* `Multi.canonical_congr`: the conditions on one argument can be given in any order;
* `Definition.filterTexts_congr`: so can the filter queries of a definition.
-/

namespace AudienceFilter

namespace Sorted

variable {α : Type} {cmp : α → α → Ordering}

/-- Whether each element of a list comes before all that follow. -/
abbrev Increasing (cmp : α → α → Ordering) (xs : List α) : Prop :=
  xs.Pairwise fun a b => cmp a b = .lt

theorem dedupBy_subset {eq : α → α → Bool} {xs : List α} : dedupBy eq xs ⊆ xs := by
  induction xs with
  | nil => exact List.nil_subset _
  | cons a rest ih =>
    rw [dedupBy]
    split
    · simp
    · next b tail h =>
      rw [h] at ih
      split <;> grind

variable [Std.TransCmp cmp]

theorem pairwise_insertBy {a : α} {xs : List α} (h : xs.Pairwise fun a b => (cmp a b).isLE) :
    (insertBy (fun a b => (cmp a b).isLE) a xs).Pairwise fun a b => (cmp a b).isLE := by
  induction xs with
  | nil => exact List.pairwise_singleton _ _
  | cons b rest ih =>
    obtain ⟨hb, hrest⟩ := List.pairwise_cons.1 h
    rw [insertBy]
    split
    · next hab =>
      exact .cons (List.forall_mem_cons.2
        ⟨hab, fun x hx => Std.TransCmp.isLE_trans hab (hb x hx)⟩) h
    · next hab =>
      refine .cons (fun x hx => ?_) (ih hrest)
      rcases mem_insertBy.1 hx with rfl | hx
      · rw [Std.OrientedCmp.lt_of_not_isLE hab]
        rfl
      · exact hb x hx

theorem pairwise_sortBy (xs : List α) :
    (sortBy (fun a b => (cmp a b).isLE) xs).Pairwise fun a b => (cmp a b).isLE := by
  induction xs with
  | nil => exact .nil
  | cons a xs ih => exact pairwise_insertBy ih

/-- Without repetitions, a list in order is increasing. -/
theorem increasing_dedupBy {eq : α → α → Bool} {xs : List α}
    (hsorted : xs.Pairwise fun a b => (cmp a b).isLE)
    (heq : ∀ a ∈ xs, ∀ b ∈ xs, cmp a b = .eq → eq a b = true) :
    Increasing cmp (dedupBy eq xs) := by
  induction xs with
  | nil => exact .nil
  | cons a rest ih =>
    obtain ⟨ha, hrest⟩ := List.pairwise_cons.1 hsorted
    have ih := ih hrest fun x hx y hy =>
      heq x (List.mem_cons_of_mem _ hx) y (List.mem_cons_of_mem _ hy)
    rw [dedupBy]
    split
    · exact List.pairwise_singleton _ _
    · next b tail htail =>
      rw [htail] at ih
      have hb : b ∈ rest := dedupBy_subset (htail ▸ List.mem_cons_self)
      obtain ⟨hbtail, hincreasing⟩ := List.pairwise_cons.1 ih
      have hatail : ∀ x ∈ tail, cmp a x = .lt := fun x hx =>
        Std.TransCmp.lt_of_isLE_of_lt (ha b hb) (hbtail x hx)
      split
      · exact .cons hatail hincreasing
      · next hne =>
        have hab : cmp a b = .lt := by
          have hle := ha b hb
          cases h : cmp a b with
          | lt => rfl
          | eq => exact absurd (heq a List.mem_cons_self b (List.mem_cons_of_mem _ hb) h) hne
          | gt => rw [h] at hle; cases hle
        exact .cons (List.forall_mem_cons.2 ⟨hab, hatail⟩) ih

/-- What is sorted and rid of repetitions is increasing. -/
theorem increasing_sortedDistinct {eq : α → α → Bool} {xs : List α}
    (heq : ∀ a ∈ xs, ∀ b ∈ xs, cmp a b = .eq → eq a b = true) :
    Increasing cmp (dedupBy eq (sortBy (fun a b => (cmp a b).isLE) xs)) :=
  increasing_dedupBy (pairwise_sortBy xs) fun a ha b hb =>
    heq a (mem_sortBy.1 ha) b (mem_sortBy.1 hb)

theorem not_mem_of_increasing {a : α} {xs : List α} (h : Increasing cmp (a :: xs)) : a ∉ xs := by
  intro ha
  have hself : cmp a a = .eq := Std.ReflCmp.compare_self
  cases hself.symm.trans ((List.pairwise_cons.1 h).1 a ha)

/-- Increasing lists are settled by what they hold. -/
theorem eq_of_increasing {xs ys : List α} (hx : Increasing cmp xs) (hy : Increasing cmp ys)
    (h : ∀ a, a ∈ xs ↔ a ∈ ys) : xs = ys := by
  induction xs generalizing ys with
  | nil =>
    cases ys with
    | nil => rfl
    | cons b bs => exact absurd ((h b).2 List.mem_cons_self) List.not_mem_nil
  | cons a as ih =>
    cases ys with
    | nil => exact absurd ((h a).1 List.mem_cons_self) List.not_mem_nil
    | cons b bs =>
      obtain ⟨hfirst, has⟩ := List.pairwise_cons.1 hx
      obtain ⟨hfirst', hbs⟩ := List.pairwise_cons.1 hy
      -- Each head is in the other list, and it cannot stand behind the head there.
      have hab : a = b := by
        rcases List.mem_cons.1 ((h a).1 List.mem_cons_self) with hab | ha
        · exact hab
        rcases List.mem_cons.1 ((h b).2 List.mem_cons_self) with hba | hb
        · exact hba.symm
        cases (Std.OrientedCmp.gt_iff_lt.2 (hfirst b hb)).symm.trans (hfirst' a ha)
      subst hab
      refine congrArg (a :: ·) (ih has hbs fun x => ?_)
      have hx' := not_mem_of_increasing hx
      have hy' := not_mem_of_increasing hy
      have := h x
      grind

end Sorted

/-! ## Conditions -/

/-- The place of an operand: that it is missing, a value or a reference, and then its text. -/
def Operand.place : Option Operand → Nat × String
  | none => (0, "")
  | some (.value v) => (1, v)
  | some (.reference r) => (2, r)

theorem Operand.place_inj {a b : Option Operand} (h : place a = place b) : a = b := by
  rcases a with _ | v | r <;> rcases b with _ | w | q <;> simp_all [place]

theorem Operand.orderOption_eq (a b : Option Operand) :
    orderOption a b =
      (compare (place a).1 (place b).1).then (compare (place a).2 (place b).2) := by
  rcases a with _ | v | r <;> rcases b with _ | w | q <;> rfl

namespace Multi

theorem operatorRank_inj {a b : Operator} (h : operatorRank a = operatorRank b) : a = b := by
  cases a <;> cases b <;> cases h <;> rfl

/-- The canonical order of conditions on one argument. -/
def order : Condition → Condition → Ordering :=
  compareLex (compareOn fun c => operatorRank c.op)
    (compareLex (compareOn fun c => (Operand.place c.operand).1)
      (compareOn fun c => (Operand.place c.operand).2))

instance : Std.TransCmp order := inferInstanceAs (Std.TransCmp (compareLex _ _))

theorem le_eq : le = fun a b => (order a b).isLE := by
  funext a b
  rw [le, Operand.orderOption_eq]
  rfl

/-- On one argument, conditions at the same place are equal. -/
theorem eq_of_order {a b : Condition} (harg : a.arg = b.arg) (h : order a b = .eq) : a = b := by
  obtain ⟨hop, h⟩ := Ordering.then_eq_eq.1 h
  obtain ⟨hkind, htext⟩ := Ordering.then_eq_eq.1 h
  have hop := operatorRank_inj (Std.LawfulEqOrd.eq_of_compare hop)
  have hoperand := Operand.place_inj (Prod.ext (Std.LawfulEqOrd.eq_of_compare hkind)
    (Std.LawfulEqOrd.eq_of_compare htext))
  cases a
  cases b
  simp_all

/-- The conditions of a leaf are increasing. -/
theorem increasing_canonical {members : List Condition} {arg : String}
    (h : ∀ c ∈ members, c.arg = arg) : Sorted.Increasing order (canonical members) := by
  rw [canonical, le_eq]
  refine Sorted.increasing_sortedDistinct fun a ha b hb hab => ?_
  exact beq_iff_eq.2 (eq_of_order ((h a ha).trans (h b hb).symm) hab)

/-- The canonical order of conditions on one argument depends only on which there are. -/
theorem canonical_congr {members members' : List Condition} {arg : String}
    (h : ∀ c ∈ members, c.arg = arg) (hmem : ∀ c, c ∈ members ↔ c ∈ members') :
    canonical members = canonical members' := by
  refine Sorted.eq_of_increasing (increasing_canonical h)
    (increasing_canonical fun c hc => h c ((hmem c).2 hc)) fun c => ?_
  rw [mem_canonical, mem_canonical, hmem]

end Multi

/-! ## Definitions -/

namespace Definition

variable {mainQuery uniqueKeyField : String} {queries queries' : List FilterQuery}

theorem increasing_filterTexts :
    Sorted.Increasing compare (make mainQuery queries uniqueKeyField).filterTexts := by
  have h : Sorted.Increasing (compareOn FilterQuery.text)
      (make mainQuery queries uniqueKeyField).filterQueries :=
    Sorted.increasing_sortedDistinct fun _ _ _ _ hab =>
      beq_iff_eq.2 (Std.LawfulEqOrd.eq_of_compare hab)
  exact List.pairwise_map.2 h

/-- The texts of a definition depend only on which there are. -/
theorem filterTexts_congr
    (h : ∀ text, text ∈ queries.map FilterQuery.text ↔ text ∈ queries'.map FilterQuery.text) :
    (make mainQuery queries uniqueKeyField).filterTexts =
      (make mainQuery queries' uniqueKeyField).filterTexts := by
  refine Sorted.eq_of_increasing increasing_filterTexts increasing_filterTexts fun text => ?_
  rw [mem_filterTexts_make, mem_filterTexts_make, h]

end Definition

end AudienceFilter
