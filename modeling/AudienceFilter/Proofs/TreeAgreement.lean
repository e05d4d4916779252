import AudienceFilter.Conversion
import AudienceFilter.Proofs.ConsolidationTruth
import AudienceFilter.Proofs.GroupingTruth
import AudienceFilter.Proofs.GuardCoverage

/-!
# Contexts that build the same trees

A match tree depends on where arguments are stored and on which of them are compared by whole
days, and on nothing else in a context: not on variables, not on the style, and on one directive
only.

* `Alike`: contexts that agree on that much;
* `Alike.groupedTree`: they have the same grouped trees, and the same failures on the way there.
-/

namespace AudienceFilter

/-- Whether two contexts have the same mapping and compare the same arguments by whole days. -/
structure Context.Alike (ctx ctx' : Context) : Prop where
  mapping : ctx'.mapping = ctx.mapping
  alignment : ctx'.isEnabled .disableAlignment = ctx.isEnabled .disableAlignment

namespace Context.Alike

variable {ctx ctx' : Context}

/-! ## Leaves -/

theorem mainType (h : Alike ctx ctx') : ctx'.mainType = ctx.mainType := by
  simp only [Context.mainType, h.mapping]

theorem isMain (h : Alike ctx ctx') : ctx'.isMain = ctx.isMain := by
  funext nodeType
  simp only [Context.isMain, h.mainType]

theorem assignment (h : Alike ctx ctx') : ctx'.assignment = ctx.assignment := by
  funext arg
  simp only [Context.assignment, h.mapping]

theorem isMultiDoc (h : Alike ctx ctx') : ctx'.isMultiDoc = ctx.isMultiDoc := by
  funext arg
  simp only [Context.isMultiDoc, h.assignment]

theorem alignsDays (h : Alike ctx ctx') : ctx'.alignsDays = ctx.alignsDays := by
  funext a
  simp only [Context.alignsDays, h.alignment]

theorem alignsDaysOf (h : Alike ctx ctx') : ctx'.alignsDaysOf = ctx.alignsDaysOf := by
  funext arg
  simp only [Context.alignsDaysOf, h.assignment, h.alignsDays]

theorem mayJoin (h : Alike ctx ctx') : ctx'.mayJoin = ctx.mayJoin := by
  funext nodeType arg isComplement inDocument verifies
  simp only [Context.mayJoin, h.isMain, h.isMultiDoc]

theorem singleTree (h : Alike ctx ctx') : ctx'.singleTree = ctx.singleTree := by
  funext c p
  simp only [Context.singleTree, Context.single, h.assignment, h.mayJoin]

theorem multi (h : Alike ctx ctx') : ctx'.multi = ctx.multi := by
  funext nodeType first rest p
  simp only [Context.multi, h.mayJoin]

theorem between (h : Alike ctx ctx') : ctx'.between = ctx.between := by
  funext lower upper
  simp only [Context.between, h.mayJoin]

/-! ## Building -/

theorem build (h : Alike ctx ctx') (known : List String) (e : Expression) :
    MatchTree.build ctx' known e = MatchTree.build ctx known e := by
  induction e using Expression.memberInduction generalizing known with
  | condition c => simp only [MatchTree.build, h.singleTree]
  | negation strict c => simp only [MatchTree.build, MatchTree.ofNegation, h.singleTree]
  | extent x => simp only [MatchTree.build]
  | combined j members ih =>
    rw [MatchTree.build_combined, MatchTree.build_combined]
    rw [mapM_congr fun e he => ih e he _]

/-! ## Consolidation -/

theorem mergeBoundPairs (h : Alike ctx ctx') (p : Polarity) (items : List MatchTree) :
    MatchTree.mergeBoundPairs ctx' p items = MatchTree.mergeBoundPairs ctx p items := by
  fun_induction MatchTree.mergeBoundPairs ctx p items with
  | case1 items hnone =>
    rw [MatchTree.mergeBoundPairs]
    split
    · rfl
    · next hsome => cases hnone.symm.trans hsome
  | case2 items bound i k hsome equality ih =>
    rw [MatchTree.mergeBoundPairs]
    split
    · next hnone => cases hnone.symm.trans hsome
    · next bound' i' k' hsome' =>
      obtain ⟨rfl, rfl, rfl⟩ := by simpa using hsome.symm.trans hsome'
      simp only [h.multi, ih]
      rfl

theorem alignDays (h : Alike ctx ctx') :
    MatchTree.alignDays ctx' = MatchTree.alignDays ctx := by
  funext t
  simp only [MatchTree.alignDays, MatchTree.alignEquality, MatchTree.alignBound, h.alignsDaysOf,
    h.multi, h.between, h.singleTree]

theorem mergeBounds (h : Alike ctx ctx') :
    MatchTree.mergeBounds ctx' = MatchTree.mergeBounds ctx := by
  have htoMulti : MatchTree.toMulti? ctx' = MatchTree.toMulti? ctx := by
    funext t
    simp only [MatchTree.toMulti?, h.multi]
  have hpair : MatchTree.pairBounds ctx' = MatchTree.pairBounds ctx := by
    funext arg bounds
    simp only [MatchTree.pairBounds, MatchTree.isSingleValued, h.assignment, h.between, htoMulti]
  funext p items
  rw [MatchTree.mergeBounds, MatchTree.mergeBounds, hpair]

theorem mergeValues (h : Alike ctx ctx') :
    MatchTree.mergeValues ctx' = MatchTree.mergeValues ctx := by
  have hkey : MatchTree.mergeKey? ctx' = MatchTree.mergeKey? ctx := by
    funext p t
    simp only [MatchTree.mergeKey?, h.alignsDaysOf]
  have hmembers : MatchTree.mergeMembers ctx' = MatchTree.mergeMembers ctx := by
    funext p trees
    simp only [MatchTree.mergeMembers, h.multi]
  funext p items
  rw [MatchTree.mergeValues, MatchTree.mergeValues, hkey, hmembers]

theorem addUnknown (h : Alike ctx ctx') (j : Connective) (known : List String)
    (done rest : List MatchTree) :
    MatchTree.addUnknown ctx' j known done rest = MatchTree.addUnknown ctx j known done rest := by
  induction rest generalizing done with
  | nil => rfl
  | cons t rest ih => simp only [MatchTree.addUnknown, h.singleTree, ih]

theorem consolidateLevel (h : Alike ctx ctx') :
    MatchTree.consolidateLevel ctx' = MatchTree.consolidateLevel ctx := by
  funext j known items
  simp only [MatchTree.consolidateLevel, h.mergeBoundPairs, h.alignDays, h.mergeBounds,
    h.mergeValues, h.addUnknown]

theorem consolidateBelow (h : Alike ctx ctx') (known : List String) (t : MatchTree) :
    MatchTree.consolidateBelow ctx' known t = MatchTree.consolidateBelow ctx known t := by
  induction t using MatchTree.memberInduction generalizing known with
  | leaf l => simp only [MatchTree.consolidateBelow]
  | group j nodeType children _ => simp only [MatchTree.consolidateBelow]
  | combined j children ih =>
    simp only [MatchTree.consolidateBelow, MatchTree.consolidateEach_eq_mapM, h.consolidateLevel]
    rw [mapM_congr fun t ht => ih t ht _]

theorem consolidated (h : Alike ctx ctx') :
    MatchTree.consolidated ctx' = MatchTree.consolidated ctx := by
  funext t
  simp only [MatchTree.consolidated, h.consolidateBelow, h.consolidateLevel]

/-! ## Grouping -/

theorem anyMultiDoc (h : Alike ctx ctx') (args : List String) :
    MatchTree.anyMultiDoc ctx' args = MatchTree.anyMultiDoc ctx args := by
  induction args with
  | nil => rfl
  | cons arg args ih => simp only [MatchTree.anyMultiDoc, h.isMultiDoc, ih]

theorem grouped (h : Alike ctx ctx') (t : MatchTree) :
    MatchTree.grouped ctx' t = MatchTree.grouped ctx t := by
  have hkey : MatchTree.groupKey? ctx' = MatchTree.groupKey? ctx := by
    funext j t
    simp only [MatchTree.groupKey?, h.anyMultiDoc]
  induction t using MatchTree.memberInduction with
  | leaf l => simp only [MatchTree.grouped]
  | group j nodeType children _ => simp only [MatchTree.grouped]
  | combined j children ih =>
    simp only [MatchTree.grouped, MatchTree.groupedAll_eq_mapM, MatchTree.groupLevel, hkey]
    rw [mapM_congr ih]

/-- Contexts that are alike have the same grouped trees. -/
theorem groupedTree (h : Alike ctx ctx') (e : Expression) :
    ctx'.groupedTree e = ctx.groupedTree e := by
  simp only [Context.groupedTree, MatchTree.ofExpression, h.build, h.consolidated, h.grouped]

end Context.Alike

end AudienceFilter
