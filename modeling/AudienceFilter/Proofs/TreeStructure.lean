import AudienceFilter.MatchTree.Assigned
import AudienceFilter.MatchTree.Truth
import AudienceFilter.Proofs.Results

/-!
# The structure of match trees

Induction over match trees, their leaves and subtrees, and what the constructors of single leaves,
combinations and groups give.
-/

namespace AudienceFilter.MatchTree

/-- Induction over match trees, with the hypothesis for all members of a combination or group. -/
theorem memberInduction {P : MatchTree → Prop} (leaf : ∀ l, P (.leaf l))
    (combined : ∀ j children, (∀ t ∈ children, P t) → P (.combined j children))
    (group : ∀ j nodeType children, (∀ t ∈ children, P t) → P (.group j nodeType children))
    (t : MatchTree) : P t := by
  refine @MatchTree.rec P (fun children => ∀ t ∈ children, P t) leaf combined group ?_ ?_ t
  · intro t ht
    exact absurd ht List.not_mem_nil
  · intro t rest ht hrest x hx
    rcases List.mem_cons.1 hx with rfl | hx
    · exact ht
    · exact hrest x hx

theorem leavesOf_eq_flatMap (ts : List MatchTree) : leavesOf ts = ts.flatMap leaves := by
  induction ts with
  | nil => rfl
  | cons t ts ih => rw [leavesOf, ih, List.flatMap_cons]

theorem leaves_combined (j : Connective) (children : List MatchTree) :
    (MatchTree.combined j children).leaves = children.flatMap leaves := by
  rw [leaves, leavesOf_eq_flatMap]

theorem leaves_group (j : Connective) (nodeType : String) (children : List MatchTree) :
    (MatchTree.group j nodeType children).leaves = children.flatMap leaves := by
  rw [leaves, leavesOf_eq_flatMap]

theorem forall_leaves_combined {p : Leaf → Prop} {j : Connective} {children : List MatchTree} :
    (∀ l ∈ (MatchTree.combined j children).leaves, p l) ↔
      ∀ t ∈ children, ∀ l ∈ t.leaves, p l := by
  rw [leaves_combined]
  simp only [List.mem_flatMap]
  exact ⟨fun h t ht l hl => h l ⟨t, ht, hl⟩, fun h l ⟨t, ht, hl⟩ => h t ht l hl⟩

theorem mem_args {t : MatchTree} {arg : String} :
    arg ∈ t.args ↔ ∃ l ∈ t.leaves, arg ∈ l.args := by
  rw [args, Distinct.mem_ofList, List.mem_flatMap]

/-! ## Subtrees -/

mutual

/-- The tree itself and all trees below it. -/
def subtrees : MatchTree → List MatchTree
  | .leaf l => [.leaf l]
  | .combined j children => .combined j children :: subtreesOf children
  | .group j nodeType children => .group j nodeType children :: subtreesOf children

/-- The subtrees of trees. -/
def subtreesOf : List MatchTree → List MatchTree
  | [] => []
  | t :: rest => subtrees t ++ subtreesOf rest

end

theorem subtreesOf_eq_flatMap (ts : List MatchTree) : subtreesOf ts = ts.flatMap subtrees := by
  induction ts with
  | nil => rfl
  | cons t ts ih => rw [subtreesOf, ih, List.flatMap_cons]

theorem mem_subtrees_leaf {s : MatchTree} {l : Leaf} :
    s ∈ (MatchTree.leaf l).subtrees ↔ s = .leaf l := by
  rw [subtrees, List.mem_singleton]

theorem mem_subtrees_combined {s : MatchTree} {j : Connective} {children : List MatchTree} :
    s ∈ (MatchTree.combined j children).subtrees ↔
      s = .combined j children ∨ ∃ t ∈ children, s ∈ t.subtrees := by
  rw [subtrees, List.mem_cons, subtreesOf_eq_flatMap, List.mem_flatMap]

theorem mem_subtrees_group {s : MatchTree} {j : Connective} {nodeType : String}
    {children : List MatchTree} :
    s ∈ (MatchTree.group j nodeType children).subtrees ↔
      s = .group j nodeType children ∨ ∃ t ∈ children, s ∈ t.subtrees := by
  rw [subtrees, List.mem_cons, subtreesOf_eq_flatMap, List.mem_flatMap]

theorem self_mem_subtrees (t : MatchTree) : t ∈ t.subtrees := by
  cases t <;> exact List.mem_cons_self

/-! ## Construction -/

theorem combine_eq_ok {j : Connective} {children : List MatchTree} {t : MatchTree} :
    combine j children = .ok t ↔ 2 ≤ children.length ∧ t = .combined j children := by
  rw [combine]
  split
  · next h => simp only [reduceCtorEq, false_iff, not_and]; omega
  · next h => simp only [Except.ok.injEq, eq_comm, iff_and_self]; omega

/-- Joined trees are a single tree or the combination of several. -/
theorem joined_eq_ok {j : Connective} {children : List MatchTree} {t : MatchTree} :
    joined j children = .ok t ↔
      children = [t] ∨ 2 ≤ children.length ∧ t = .combined j children := by
  rcases children with _ | ⟨a, _ | ⟨b, rest⟩⟩
  · simp [joined, combine]
  · simp [joined]
  · simp [joined, combine_eq_ok]

theorem makeGroup_eq_ok {j : Connective} {nodeType : String} {children : List MatchTree}
    {t : MatchTree} :
    makeGroup j nodeType children = .ok t ↔ 2 ≤ children.length ∧
      (∀ c ∈ children, c.commonNodeType = some nodeType) ∧ t = .group j nodeType children := by
  rw [makeGroup]
  split
  · next h => simp only [reduceCtorEq, false_iff, not_and]; omega
  · next h =>
    split
    · next hn =>
      simp only [List.any_eq_true, decide_eq_true_eq] at hn
      obtain ⟨c, hc, hne⟩ := hn
      simp only [reduceCtorEq, false_iff, not_and]
      exact fun _ hall => absurd (hall c hc) hne
    · next hn =>
      simp only [List.any_eq_true, decide_eq_true_eq, not_exists, not_and,
        Classical.not_not] at hn
      simp only [Except.ok.injEq, eq_comm, and_iff_right (show 2 ≤ children.length by omega)]
      exact ⟨fun h => ⟨fun c hc => (hn c hc).symm, h⟩, fun h => h.2⟩

theorem singleTree_eq_ok {ctx : Context} {c : Condition} {p : Polarity} {t : MatchTree} :
    ctx.singleTree c p = .ok t ↔ ∃ s, ctx.single c p = .ok s ∧ t = .leaf (.single s) := by
  rw [Context.singleTree, bind_eq_ok]
  refine exists_congr fun s => and_congr_right fun _ => ?_
  rw [pure_eq_ok, eq_comm]

end AudienceFilter.MatchTree
