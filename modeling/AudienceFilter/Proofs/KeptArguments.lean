import AudienceFilter.Proofs.ConsolidatedConditions

/-!
# Conversion keeps the arguments

Guards and the branches for unknown arguments are on arguments that are there anyway, and a date
is aligned on the argument that it is compared with. So the grouped tree of an expression has the
arguments of the expression, no more and no less.

* `Leaf.Made.args_of_mem`: the conditions of a leaf have the same arguments;
* `MatchTree.lacks_alignDays`: aligned leaves keep their argument;
* `Context.mem_args_groupedTree`: the whole way from an expression to its grouped tree.
-/

namespace AudienceFilter

namespace Condition

theorem reference?_eq_none {c : Condition} (h : c.isReference = false) : c.reference? = none := by
  rwa [isReference, Option.isSome_eq_false_iff, Option.isNone_iff_eq_none] at h

theorem args_of_isReference_eq_false {c : Condition} (h : c.isReference = false) :
    c.args = [c.arg] := by
  rw [args, reference?_eq_none h]
  rfl

end Condition

namespace Leaf

variable {ctx : Context}

theorem Made.args_of_mem_members {m : Multi} (h : Made ctx (.multi m)) :
    ∀ c ∈ m.members, c.args = m.arg :: m.reference?.toList := by
  obtain ⟨hmembers, htogether, -⟩ := h.members
  intro c hc
  obtain ⟨harg, -, href⟩ := hmembers c hc
  rw [Condition.args, harg, Multi.reference?]
  cases hs : m.shape.isReference with
  | true =>
    rcases List.mem_cons.1 hc with rfl | hc
    · rfl
    · rw [Condition.reference?, Condition.reference?,
        (htogether.equality_of_reference hs c hc).2]
  | false =>
    have hnone : ∀ x ∈ m.members, x.reference? = none := fun x hx =>
      Condition.reference?_eq_none ((hmembers x hx).2.2.trans hs)
    rw [hnone c hc, hnone m.lead List.mem_cons_self]

/-- The conditions of a leaf have the same arguments. -/
theorem Made.args_of_mem {l : Leaf} (h : Made ctx l) : ∀ c ∈ l.conditions, c.args = l.args := by
  cases l with
  | single s => exact List.forall_mem_singleton.2 rfl
  | multi m => exact h.args_of_mem_members
  | between b =>
    obtain ⟨hl, hu, hlower, hupper, harg, -⟩ := h.bounds
    have hvalue : ∀ m : Multi, Made ctx (.multi m) → m.shape.isReference = false →
        m.arg = b.arg → ∀ c ∈ m.members, c.args = [b.arg] := by
      intro m hm hs ha c hc
      obtain ⟨hc, -, href⟩ := hm.members.1 c hc
      rw [Condition.args_of_isReference_eq_false (href.trans hs), hc, ha]
    refine List.forall_mem_append.2 ⟨hvalue b.lower hl ?_ rfl, hvalue b.upper hu ?_ harg⟩
    · exact (by simpa [Multi.isLowerBound] using hlower : _ ∧ _).1
    · exact (by simpa [Multi.isUpperBound] using hupper : _ ∧ _).1

end Leaf

namespace MatchTree

variable {ctx : Context} {arg : String}

/-- Whether no condition of a tree is on an argument. -/
abbrev Lacks (arg : String) (t : MatchTree) : Prop := t.AllConditions fun c => arg ∉ c.args

theorem lacks_leaf {l : Leaf} (h : l.Made ctx) : Lacks arg (.leaf l) ↔ arg ∉ l.args := by
  rw [Lacks, allConditions_leaf]
  constructor
  · intro hl
    obtain ⟨c, hc, -⟩ := exists_condition_on_arg l
    exact h.args_of_mem c hc ▸ hl c hc
  · intro hl c hc
    rwa [h.args_of_mem c hc]

theorem lacks_iff {t : MatchTree} (h : ∀ l ∈ t.leaves, l.Made ctx) :
    Lacks arg t ↔ arg ∉ t.args := by
  rw [mem_args]
  constructor
  · rintro ht ⟨l, hl, harg⟩
    exact (lacks_leaf (h l hl)).1 (allConditions_leaf.2 (ht l hl)) harg
  · intro ht l hl
    exact allConditions_leaf.1 ((lacks_leaf (h l hl)).2 fun harg => ht ⟨l, hl, harg⟩)

/-- The bounds of an aligned leaf are on its argument, like the equality with a day. -/
theorem lacks_alignDays {t t' : MatchTree} (ht : Plain ctx t) (h : alignDays ctx t = .ok t') :
    Lacks arg t' ↔ Lacks arg t := by
  rcases alignDays_cases ht h with ⟨rfl, -⟩ | ⟨l, l', rfl, rfl, hl⟩
  · rfl
  · have hbefore : l.args = [l.arg] := by
      obtain ⟨c, hc, harg, hday⟩ := hl.day
      rw [← ht.made.args_of_mem c hc, ← harg]
      exact Condition.args_of_isReference_eq_false (Condition.isReference_of_value hday.value)
    have hafter : ∀ c ∈ l'.conditions, c.args = [l.arg] := by
      intro c hc
      have hbound := hl.after c hc
      rw [Condition.args_of_isReference_eq_false hbound.value, hbound.arg]
    rw [lacks_leaf ht.made, hbefore, Lacks, allConditions_leaf]
    constructor
    · intro hl'
      obtain ⟨c, hc⟩ := List.exists_mem_of_ne_nil _ hl.nonempty
      exact hafter c hc ▸ hl' c hc
    · intro harg c hc
      rwa [hafter c hc]

end MatchTree

namespace Context

open MatchTree

variable {ctx : Context} {e : Expression} {g : MatchTree} {arg : String}

/-- A grouped tree has the arguments of its expression. -/
theorem mem_args_groupedTree (hs : e.Solid) (h : ctx.groupedTree e = .ok g) :
    arg ∈ g.args ↔ arg ∈ e.args := by
  have hu : ∀ c : Condition, arg ∉ c.args → ∀ a ∈ c.args, arg ∉ (Condition.unknown a).args := by
    intro c hc a ha harg
    rw [List.mem_singleton.1 harg] at hc
    exact hc ha
  -- That an argument is missing goes through all stages, forwards and backwards.
  have hlacks : Lacks arg g ↔ ∀ c ∈ e.conditions, arg ∉ c.args := by
    constructor
    · exact allConditions_of_groupedTree hu
        (fun _ _ ht halign => (lacks_alignDays ht halign).1) hs h
    · exact allConditions_groupedTree hu (fun _ _ ht halign => (lacks_alignDays ht halign).2) h
  rw [lacks_iff (made_groupedTree h)] at hlacks
  rw [← Decidable.not_iff_not, hlacks, Expression.args, Distinct.mem_ofList, List.mem_flatMap]
  simp only [not_exists, not_and]

end Context

end AudienceFilter
