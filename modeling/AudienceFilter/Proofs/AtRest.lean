import AudienceFilter.Proofs.ConsolidationTruth

/-!
# Trees at rest

A level is at rest if each step of consolidation finds nothing to do on it: no bound stands beside
its equality, days are aligned, no two bounds make a pair, conditions that could be merged are one
tree, and complements have their branches (`LevelAtRest`). A tree is at rest if all its levels are
(`AtRest`).

The steps compare trees by their place in a level, so what is at rest can still change: two equal
trees are merged, or one of them is dropped. Consolidation leaves a tree at rest alone if no level
repeats a tree:

* `consolidateLevel_atRest`, `consolidateBelow_atRest`: one level and whole trees.
-/

namespace AudienceFilter.MatchTree

/-! ## Repetitions -/

mutual

/-- Whether no combination or group has a member twice. -/
def unrepeated : MatchTree → Bool
  | .leaf _ => true
  | .combined _ children => decide children.Nodup && unrepeatedEach children
  | .group _ _ children => decide children.Nodup && unrepeatedEach children

/-- Whether no combination or group in any of the trees has a member twice. -/
def unrepeatedEach : List MatchTree → Bool
  | [] => true
  | t :: rest => unrepeated t && unrepeatedEach rest

end

theorem unrepeatedEach_iff {ts : List MatchTree} :
    unrepeatedEach ts = true ↔ ∀ t ∈ ts, t.unrepeated = true := by
  induction ts with
  | nil => simp [unrepeatedEach]
  | cons t ts ih => simp [unrepeatedEach, ih]

theorem unrepeated_combined {j : Connective} {children : List MatchTree} :
    (MatchTree.combined j children).unrepeated = true ↔
      children.Nodup ∧ ∀ t ∈ children, t.unrepeated = true := by
  rw [unrepeated, Bool.and_eq_true, decide_eq_true_eq, unrepeatedEach_iff]

/-- The number of leaves that compare an argument, which are all but those that only ask whether
it is known. -/
def comparisons (t : MatchTree) : Nat := t.leaves.countP fun l => !l.isUnknownCheck

theorem comparisons_leaf {l : Leaf} (h : l.isUnknownCheck = false) :
    (MatchTree.leaf l).comparisons = 1 := by
  simp [comparisons, leaves, h]

theorem comparisons_combined (j : Connective) (children : List MatchTree) :
    (MatchTree.combined j children).comparisons = (children.map comparisons).sum := by
  rw [comparisons, leaves_combined]
  exact List.countP_flatMap

/-! ## Levels at rest -/

/-- Whether the steps that replace trees find nothing to do on a level. The trees without
comparisons are not repeated: no step takes one away, and the last one adds only what is missing. -/
structure LevelMerged (ctx : Context) (j : Connective) (items : List MatchTree) : Prop where
  unpaired : boundPair? (mergePolarity j) items = none
  aligned : ∀ t ∈ items, alignDays ctx t = .ok t
  bounds : ∀ arg, pairBounds ctx arg
    (items.filter fun t => boundArg? (boundPolarity j) t = some arg) = .ok none
  values : ∀ x ∈ items, ∀ y ∈ items, ∀ key, mergeKey? ctx (mergePolarity j) x = .ok (some key) →
    mergeKey? ctx (mergePolarity j) y = .ok (some key) → x = y
  flat : ∀ t ∈ items, opened j t = [t]
  checks : (items.filter fun t => t.comparisons = 0).Nodup

/-- Whether each step of consolidation finds nothing to do on a level. -/
structure LevelAtRest (ctx : Context) (j : Connective) (covered : List String)
    (items : List MatchTree) : Prop extends LevelMerged ctx j items where
  branched : ∀ t ∈ items, ∀ arg, complementArg? t = some arg → arg ∈ covered ∨
    j = .or ∧ ∃ u ∈ items, ctx.singleTree (.unknown arg) .positive = .ok u

/-- Whether all levels of a tree are at rest, given the arguments that are known above it. -/
inductive AtRest (ctx : Context) : List String → MatchTree → Prop
  | leaf {covered : List String} {l : Leaf} : AtRest ctx covered (.leaf l)
  | combined {covered : List String} {j : Connective} {children : List MatchTree}
      (hl : 2 ≤ children.length)
      (h : LevelAtRest ctx j (coveredOn j covered children) children)
      (hc : ∀ t ∈ children, AtRest ctx (coveredOn j covered children) t) :
      AtRest ctx covered (.combined j children)

variable {ctx : Context} {j : Connective} {covered covered' : List String}
  {items : List MatchTree}

theorem LevelAtRest.mono (h : LevelAtRest ctx j covered items)
    (hc : ∀ arg ∈ covered, arg ∈ covered') : LevelAtRest ctx j covered' items :=
  { h with branched := fun t ht arg ha => (h.branched t ht arg ha).imp_left (hc arg) }

theorem coveredOn_mono {children : List MatchTree} (hc : ∀ arg ∈ covered, arg ∈ covered') :
    ∀ arg ∈ coveredOn j covered children, arg ∈ coveredOn j covered' children := by
  intro arg ha
  rw [mem_coveredOn] at ha ⊢
  exact ha.imp_left (hc arg)

theorem AtRest.mono {t : MatchTree} (h : AtRest ctx covered t)
    (hc : ∀ arg ∈ covered, arg ∈ covered') : AtRest ctx covered' t := by
  induction h generalizing covered' with
  | leaf => exact .leaf
  | combined hl h _ ih =>
    exact .combined hl (h.mono (coveredOn_mono hc)) fun t ht => ih t ht (coveredOn_mono hc)

/-! ## Steps that find nothing to do -/

theorem mergeBoundPairs_of_unpaired {p : Polarity} (h : boundPair? p items = none) :
    mergeBoundPairs ctx p items = .ok items := by
  unfold mergeBoundPairs
  split
  · rfl
  · next hpair =>
    rw [h] at hpair
    cases hpair

theorem mergeBounds_of_settled {p : Polarity}
    (h : ∀ arg, pairBounds ctx arg (items.filter fun t => boundArg? p t = some arg) = .ok none) :
    mergeBounds ctx p items = .ok items := by
  rw [mergeBounds, Classes.merge_eq_ok_self fun arg _ => by rw [Classes.members_map, h arg]]
  simp [Function.comp_def]

/-- A tree whose days are aligned has an argument that is assigned, so that its key is found. -/
theorem mergeKey?_of_aligned {p : Polarity} {t : MatchTree} (h : alignDays ctx t = .ok t) :
    ∃ key?, mergeKey? ctx p t = .ok key? := by
  rw [mergeKey?]
  split
  · next arg hk =>
    obtain ⟨l, rfl, harg⟩ : ∃ l, t = .leaf l ∧ l.arg = arg := by
      cases t with
      | combined i children => cases hk
      | group i nodeType children => cases hk
      | leaf l =>
        cases l with
        | between b => cases hk
        | single s =>
          simp only [valueKey?, Option.ite_none_right_eq_some, Option.some.injEq,
            Prod.mk.injEq] at hk
          exact ⟨_, rfl, hk.2.1⟩
        | multi m =>
          simp only [valueKey?, Option.ite_none_right_eq_some, Option.some.injEq,
            Prod.mk.injEq] at hk
          exact ⟨_, rfl, hk.2.1⟩
    obtain ⟨aligned, ha, -⟩ := bind_eq_ok.1 h
    rw [harg] at ha
    exact ⟨_, bind_eq_ok.2 ⟨aligned, ha, rfl⟩⟩
  · exact ⟨_, rfl⟩

theorem mergeMembers_of_length_le_one {p : Polarity} {trees : List MatchTree}
    (h : trees.length ≤ 1) : mergeMembers ctx p trees = .ok none := by
  rcases trees with _ | ⟨t, _ | ⟨t', rest⟩⟩
  · rfl
  · cases t <;> rfl
  · simp at h

theorem mergeValues_of_settled {p : Polarity} (hn : items.Nodup)
    (ha : ∀ t ∈ items, alignDays ctx t = .ok t)
    (hv : ∀ x ∈ items, ∀ y ∈ items, ∀ key, mergeKey? ctx p x = .ok (some key) →
      mergeKey? ctx p y = .ok (some key) → x = y) :
    mergeValues ctx p items = .ok items := by
  -- The keys that are found make the list of pairs, whose second halves are the trees.
  let key (t : MatchTree) : Option (String × Operator) :=
    match mergeKey? ctx p t with
    | .ok key? => key?
    | .error _ => none
  have hkey : ∀ t ∈ items, mergeKey? ctx p t = .ok (key t) := by
    intro t ht
    obtain ⟨key?, hk⟩ := mergeKey?_of_aligned (p := p) (ha t ht)
    rw [show key t = key? by simp only [key, hk], hk]
  have hkeyed : (items.mapM fun t => (mergeKey? ctx p t).map fun key => (key, t)) =
      .ok (items.map fun t => (key t, t)) :=
    mapM_eq_ok_map fun t ht => by rw [hkey t ht]; rfl
  refine bind_eq_ok.2 ⟨_, hkeyed, ?_⟩
  rw [Classes.merge_eq_ok_self fun k _ => mergeMembers_of_length_le_one ?_]
  · simp [Function.comp_def]
  · -- The members of a class are equal, and none is repeated.
    rw [Classes.members_map]
    have hclass := hn.sublist (List.filter_sublist (p := fun t => key t = some k))
    have hmem : ∀ t ∈ items.filter (fun t => key t = some k), t ∈ items ∧ key t = some k :=
      fun t ht => by simpa using ht
    generalize items.filter (fun t => key t = some k) = members at hclass hmem ⊢
    rcases members with _ | ⟨x, _ | ⟨y, rest⟩⟩
    · exact Nat.zero_le 1
    · exact Nat.le_refl 1
    · obtain ⟨hx, hxk⟩ := hmem x List.mem_cons_self
      obtain ⟨hy, hyk⟩ := hmem y (List.mem_cons_of_mem x List.mem_cons_self)
      have hxy : x = y := hv x hx y hy k (hxk ▸ hkey x hx) (hyk ▸ hkey y hy)
      rw [hxy] at hclass
      exact absurd List.mem_cons_self (List.nodup_cons.1 hclass).1

theorem addUnknown_of_branched {done : List MatchTree}
    (h : ∀ t ∈ items, ∀ arg, complementArg? t = some arg → arg ∈ covered ∨
      j = .or ∧ ∃ u ∈ done ++ items, ctx.singleTree (.unknown arg) .positive = .ok u) :
    addUnknown ctx j covered done items = .ok (done ++ items) := by
  induction items generalizing done with
  | nil => rw [addUnknown, List.append_nil]
  | cons t rest ih =>
    rw [List.forall_mem_cons, List.append_cons] at h
    have hrest := ih h.2
    rw [← List.append_cons] at hrest
    rw [addUnknown]
    split
    · exact hrest
    · next arg hf =>
      obtain ⟨ha, hc⟩ := Option.filter_eq_some_iff.1 hf
      rcases h.1 arg ha with hin | ⟨rfl, u, hu, hmade⟩
      · rw [List.contains_iff_mem.2 hin] at hc
        cases hc
      · rw [← List.append_cons] at hu
        rw [hmade]
        exact (if_pos hu).trans hrest

/-! ## What is at rest stays -/

theorem consolidateLevel_atRest (h : LevelAtRest ctx j covered items) (hn : items.Nodup) :
    consolidateLevel ctx j covered items = liftFault (joined j items) := by
  rw [consolidateLevel, mergeBoundPairs_of_unpaired h.unpaired]
  show (items.mapM (alignDays ctx) >>= _) = _
  rw [mapM_eq_ok_self h.aligned]
  show (mergeBounds ctx (boundPolarity j) items >>= _) = _
  rw [mergeBounds_of_settled h.bounds]
  show (mergeValues ctx (mergePolarity j) items >>= _) = _
  rw [mergeValues_of_settled hn h.aligned h.values]
  show (addUnknown ctx j covered [] items >>= _) = _
  rw [addUnknown_of_branched h.branched]
  rfl

theorem flattened_eq_ofList (j : Connective) (trees : List MatchTree) :
    flattened j trees = Distinct.ofList (trees.flatMap (opened j)) := by
  rw [flattened, Distinct.ofList]
  generalize ([] : List MatchTree) = acc
  induction trees generalizing acc with
  | nil => rfl
  | cons t ts ih =>
    rw [List.foldl_cons, ih, List.flatMap_cons, Distinct.append, Distinct.append, List.foldl_append]
    congr 1
    cases t with
    | leaf l => rfl
    | group i nodeType children => rfl
    | combined i children =>
      by_cases hi : i = j
      · simp only [hi, if_true, opened, Distinct.append]
      · simp only [hi, if_false, opened]
        rfl

/-- Trees that open to themselves make the level that they are, if none is repeated. -/
theorem flattened_of_flat (hf : ∀ t ∈ items, opened j t = [t]) (hn : items.Nodup) :
    flattened j items = items := by
  rw [flattened_eq_ofList, Distinct.flatMap_of_self hf, Distinct.ofList_of_nodup hn]

/-- A tree at rest stays as it is if no level of it repeats a tree. -/
theorem consolidateBelow_atRest {t : MatchTree} (h : AtRest ctx covered t)
    (hu : t.unrepeated = true) : consolidateBelow ctx covered t = .ok t := by
  induction h with
  | leaf => rfl
  | @combined covered j children hl h _ ih =>
    obtain ⟨hn, hu⟩ := unrepeated_combined.1 hu
    have heach : children.mapM (consolidateBelow ctx (coveredOn j covered children)) =
        .ok children := mapM_eq_ok_self fun t ht => ih t ht (hu t ht)
    rw [consolidateBelow, consolidateEach_eq_mapM, heach]
    show consolidateLevel ctx j _ (flattened j children) = _
    rw [flattened_of_flat h.flat hn, consolidateLevel_atRest h hn]
    exact liftFault_eq_ok.2 (joined_eq_ok.2 (.inr ⟨hl, rfl⟩))

end AudienceFilter.MatchTree
