import AudienceFilter.Proofs.RestReached
import AudienceFilter.Proofs.TreeMeaning

/-!
# Consolidating again

A level drops repetitions before its steps run and not behind them, so a step can make a tree equal
to one beside it. A second consolidation drops or merges these trees. It changes nothing else:

* `comparisons_consolidateBelow_le`: no step makes comparisons, and a tree that keeps all of them
  has no repetitions;
* `consolidated_again_iff`: a consolidated tree stays as it is exactly if no level of it repeats a
  tree.
-/

namespace AudienceFilter

/-! ## Fewer comparisons -/

/-- Dropping repetitions makes nothing heavier, and drops only what weighs nothing if the weight
stays. -/
theorem Distinct.sum_append_le {α : Type} [DecidableEq α] (w : α → Nat) (xs ys : List α) :
    ((append xs ys).map w).sum ≤ (xs.map w).sum + (ys.map w).sum ∧
      (((append xs ys).map w).sum = (xs.map w).sum + (ys.map w).sum →
        (ys.filter fun y => w y ≠ 0).Nodup ∧ ∀ y ∈ ys, w y ≠ 0 → y ∉ xs) := by
  induction ys generalizing xs with
  | nil => simp [append]
  | cons y ys ih =>
    have hstep : append xs (y :: ys) = append (push xs y) ys := rfl
    rw [hstep, List.map_cons, List.sum_cons]
    by_cases hy : y ∈ xs
    · rw [push, if_pos hy]
      obtain ⟨hle, heq⟩ := ih xs
      refine ⟨by omega, fun h => ?_⟩
      have hzero : w y = 0 := by omega
      obtain ⟨hn, hnew⟩ := heq (by omega)
      refine ⟨by simpa [hzero] using hn, fun z hz hw => ?_⟩
      rcases List.mem_cons.1 hz with rfl | hz
      · exact absurd hzero hw
      · exact hnew z hz hw
    · rw [push, if_neg hy]
      obtain ⟨hle, heq⟩ := ih (xs ++ [y])
      have hsum : ((xs ++ [y]).map w).sum = (xs.map w).sum + w y := by simp
      rw [hsum] at hle heq
      refine ⟨by omega, fun h => ?_⟩
      obtain ⟨hn, hnew⟩ := heq (by omega)
      constructor
      · rw [List.filter_cons]
        split
        · next hw =>
          refine List.nodup_cons.2 ⟨fun hmem => ?_, hn⟩
          exact hnew y (List.mem_filter.1 hmem).1 (by simpa using hw) (by simp)
        · exact hn
      · intro z hz hw
        rcases List.mem_cons.1 hz with rfl | hz
        · exact hy
        · exact fun hzx => hnew z hz hw (List.mem_append_left _ hzx)

namespace MatchTree

variable {ctx : Context} {j : Connective} {covered : List String} {items out : List MatchTree}

theorem sum_mergeBoundPairs_le {p : Polarity} (h : mergeBoundPairs ctx p items = .ok out) :
    (out.map comparisons).sum ≤ (items.map comparisons).sum := by
  fun_induction mergeBoundPairs ctx p items with
  | case1 items hpair => exact Nat.le_of_eq (by rw [Except.ok.inj h])
  | case2 items bound i k hpair equality ih =>
    obtain ⟨m, -, h⟩ := bind_eq_ok.1 h
    obtain ⟨e, hi, hk, hb, he⟩ := comparisons_boundPair hpair
    obtain ⟨x, y, front, mid, back, hxs, hset, hxy⟩ :=
      exists_of_replace (z := MatchTree.leaf (.multi m)) hi hk (ne_of_boundPair? hpair)
    have hm : (MatchTree.leaf (.multi m)).comparisons = 1 := comparisons_leaf rfl
    refine Nat.le_trans (ih m h) ?_
    rw [hset, hxs]
    rcases hxy with ⟨rfl, rfl⟩ | ⟨rfl, rfl⟩ <;>
      simp only [List.map_append, List.map_cons, List.sum_append, List.sum_cons, hm, hb, he] <;>
      omega

theorem sum_alignDays (hi : ∀ t ∈ items, Assembled ctx t)
    (h : items.mapM (alignDays ctx) = .ok out) :
    (out.map comparisons).sum = (items.map comparisons).sum := by
  refine sum_of_mapM_eq_ok h fun t ht t' h' => ?_
  rcases comparisons_alignDays (hi t ht) h' with rfl | ⟨hc, hc'⟩
  · rfl
  · rw [hc, hc']

theorem sum_mergeBounds_le {p : Polarity} (h : mergeBounds ctx p items = .ok out) :
    (out.map comparisons).sum ≤ (items.map comparisons).sum := by
  have hle := Classes.sum_merge_le (w := comparisons) h fun arg r hr t ht => ?_
  · simpa [Function.comp_def] using hle
  · obtain ⟨-, -, -, -, b, -, -, rfl, -⟩ := pairBounds_eq_ok hr
    rw [Classes.members_map, List.mem_filter, decide_eq_true_eq] at ht
    exact Nat.le_of_eq ((comparisons_leaf rfl).trans (comparisons_of_boundArg? ht.2).symm)

theorem sum_mergeValues_le {p : Polarity} (h : mergeValues ctx p items = .ok out)
    (hi : ∀ t ∈ items, Assembled ctx t) (hv : p.verifies = false) :
    (out.map comparisons).sum ≤ (items.map comparisons).sum := by
  obtain ⟨keyed, hkeyed, h⟩ := bind_eq_ok.1 h
  rw [← Classes.map_snd_of_keyed hkeyed]
  refine Classes.sum_merge_le h fun key r hr t ht => ?_
  have hclass := mem_valueClass hi hkeyed key
  obtain ⟨m, rfl, -⟩ := mergeMembers_key hclass hv hr
  obtain ⟨l, rfl, -, -, hu, -⟩ := valueKey?_eq_some (hclass t ht).1 (hclass t ht).2
  exact Nat.le_of_eq ((comparisons_leaf rfl).trans (comparisons_leaf hu).symm)

/-- Branches for unknown arguments compare nothing. -/
theorem sum_addUnknown (h : addUnknown ctx j covered [] items = .ok out) :
    (out.map comparisons).sum = (items.map comparisons).sum := by
  cases j with
  | and =>
    obtain ⟨_, hxs, rfl⟩ := addUnknown_and h
    refine sum_of_mapM_eq_ok hxs fun t _ x hw => ?_
    rcases withUnknown_eq_ok hw with ⟨rfl, -⟩ | ⟨l, arg, u, rfl, -, hu, rfl⟩
    · rfl
    · obtain ⟨-, -, -, -, -, hzero⟩ := unknown_idle hu
      simp [comparisons_combined, hzero]
  | or =>
    have hdone : ∀ (rest done : List MatchTree), addUnknown ctx .or covered done rest = .ok out →
        (out.map comparisons).sum = ((done ++ rest).map comparisons).sum := by
      intro rest
      induction rest with
      | nil =>
        intro done h
        rw [Except.ok.inj h, List.append_nil]
      | cons t rest ih =>
        intro done h
        rw [addUnknown] at h
        split at h
        · rw [ih _ h, ← List.append_cons]
        · obtain ⟨u, hu, h⟩ := bind_eq_ok.1 h
          obtain ⟨-, -, -, -, -, hzero⟩ := unknown_idle hu
          simp only at h
          split at h
          · rw [ih _ h, ← List.append_cons]
          · rw [ih _ h]
            simp [hzero]
    exact hdone items [] h

theorem comparisons_consolidateLevel_le {r : MatchTree} (hi : ∀ t ∈ items, Assembled ctx t)
    (h : consolidateLevel ctx j covered items = .ok r) :
    r.comparisons ≤ (items.map comparisons).sum := by
  obtain ⟨items₁, h₁, h⟩ := bind_eq_ok.1 h
  obtain ⟨items₂, h₂, h⟩ := bind_eq_ok.1 h
  obtain ⟨items₃, h₃, h⟩ := bind_eq_ok.1 h
  obtain ⟨items₄, h₄, h⟩ := bind_eq_ok.1 h
  obtain ⟨out, hout, h⟩ := bind_eq_ok.1 h
  have s₁ := sameLevel_mergeBoundPairs hi h₁
  have s₂ := s₁.trans (sameLevel_alignDays (s₁.assembled hi) h₂)
  have s₃ := s₂.trans (sameLevel_mergeBounds (s₂.assembled hi) h₃)
  have hr : r.comparisons = (out.map comparisons).sum := by
    rcases joined_eq_ok.1 (liftFault_eq_ok.1 h) with rfl | ⟨-, rfl⟩
    · simp
    · rw [comparisons_combined]
  calc r.comparisons = (items₄.map comparisons).sum := by rw [hr, sum_addUnknown hout]
    _ ≤ (items₃.map comparisons).sum :=
        sum_mergeValues_le h₄ (s₃.assembled hi) (mergePolarity_verifies j)
    _ ≤ (items₂.map comparisons).sum := sum_mergeBounds_le h₃
    _ = (items₁.map comparisons).sum := sum_alignDays (s₁.assembled hi) h₂
    _ ≤ (items.map comparisons).sum := sum_mergeBoundPairs_le h₁

theorem comparisons_opened (j : Connective) (t : MatchTree) :
    ((opened j t).map comparisons).sum = t.comparisons := by
  cases t with
  | leaf l => simp [opened]
  | group i nodeType children => simp [opened]
  | combined i children =>
    by_cases hi : i = j
    · rw [hi, opened_combined_self, comparisons_combined]
    · simp [opened_combined_of_ne hi]

/-- Opening the trees of a level changes no comparison, and dropping repetitions makes none. -/
theorem sum_flattened_le (j : Connective) (trees : List MatchTree) :
    ((flattened j trees).map comparisons).sum ≤ (trees.map comparisons).sum ∧
      (((flattened j trees).map comparisons).sum = (trees.map comparisons).sum →
        ((trees.flatMap (opened j)).filter fun t => t.comparisons ≠ 0).Nodup) := by
  have hopened :
      ((trees.flatMap (opened j)).map comparisons).sum = (trees.map comparisons).sum := by
    induction trees with
    | nil => rfl
    | cons t ts ih => simp [ih, comparisons_opened]
  obtain ⟨hle, heq⟩ := Distinct.sum_append_le comparisons [] (trees.flatMap (opened j))
  rw [flattened_eq_ofList, Distinct.ofList, ← hopened]
  simp only [List.map_nil, List.sum_nil, Nat.zero_add] at hle heq
  exact ⟨hle, fun h => (heq h).1⟩

/-- A list has no repetitions if neither its elements of a kind nor the others are repeated. -/
theorem nodup_of_filter {α : Type} {P : α → Bool} {xs : List α} (h : (xs.filter P).Nodup)
    (h' : (xs.filter fun x => !P x).Nodup) : xs.Nodup := by
  induction xs with
  | nil => exact List.nodup_nil
  | cons x xs ih =>
    cases hx : P x with
    | true =>
      simp only [List.filter_cons, hx, Bool.not_true, Bool.false_eq_true, if_true, if_false,
        List.nodup_cons, List.mem_filter, and_true] at h h'
      exact List.nodup_cons.2 ⟨h.1, ih h.2 h'⟩
    | false =>
      simp only [List.filter_cons, hx, Bool.not_false, Bool.false_eq_true, if_true, if_false,
        List.nodup_cons, List.mem_filter, and_true] at h h'
      exact List.nodup_cons.2 ⟨h'.1, ih h h'.2⟩

/-- Consolidating a tree at rest makes no comparisons, and if it keeps all of them then no level
repeats a tree. -/
theorem comparisons_consolidateBelow_le {t r : MatchTree} (ht : AtRest ctx covered t)
    (hp : Plain ctx t) (h : consolidateBelow ctx covered t = .ok r) :
    r.comparisons ≤ t.comparisons ∧ (r.comparisons = t.comparisons → t.unrepeated = true) := by
  induction ht generalizing r with
  | leaf =>
    cases h
    exact ⟨Nat.le_refl _, fun _ => rfl⟩
  | @combined covered j children hl hlevel hrest ih =>
    rw [consolidateBelow, consolidateEach_eq_mapM] at h
    obtain ⟨items, hitems, h⟩ := bind_eq_ok.1 h
    have hplain : ∀ x ∈ flattened j items, Plain ctx x := by
      intro x hx
      obtain ⟨y, hy, hxy⟩ := mem_flattened.1 hx
      obtain ⟨c, hc, hcy⟩ := mem_of_mapM_eq_ok hitems hy
      exact plain_opened (plain_consolidateBelow (hp.children c hc) hcy) hxy
    have hlast := comparisons_consolidateLevel_le (assembled_of_plain hplain) h
    obtain ⟨hflat, hflateq⟩ := sum_flattened_le j items
    obtain ⟨hsum, hsumeq⟩ := sum_of_mapM_le (w := comparisons) hitems
      fun c hc x hx => (ih c hc (hp.children c hc) hx).1
    rw [comparisons_combined]
    refine ⟨by omega, fun heq => ?_⟩
    have hchild : ∀ c ∈ children, c.unrepeated = true := by
      intro c hc
      obtain ⟨x, -, hx⟩ := exists_of_mapM_eq_ok hitems hc
      exact (ih c hc (hp.children c hc) hx).2 (hsumeq (by omega) c hc x hx)
    -- So the members stay as they are, and those that compare are the ones that were counted.
    have hself : items = children := by
      have hmapM := mapM_eq_ok_self fun c hc => consolidateBelow_atRest (hrest c hc) (hchild c hc)
      rw [hitems] at hmapM
      exact Except.ok.inj hmapM
    subst hself
    have hcompare := hflateq (by omega)
    rw [Distinct.flatMap_of_self hlevel.flat] at hcompare
    exact unrepeated_combined.2 ⟨nodup_of_filter hlevel.checks (by simpa using hcompare), hchild⟩

end MatchTree

/-! ## Consolidating twice -/

/-- A consolidated tree stays as it is when it is consolidated again exactly if no combination in
it has a member twice. -/
theorem consolidated_again_iff {ctx : Context} {e : Expression} {t r : MatchTree}
    (hb : MatchTree.ofExpression ctx e.normalized.guarded = .ok t)
    (hr : MatchTree.consolidated ctx t = .ok r) :
    MatchTree.consolidated ctx r = .ok r ↔ r.unrepeated = true := by
  have hplain := (MatchTree.plain_build hb (Expression.covered_guarded e.normalized)).1
  obtain ⟨hrp, hrest, hleaf⟩ := MatchTree.atRest_consolidated hplain hr
  cases r with
  | group j nodeType children => cases hrp
  | leaf l =>
    have hlevel : MatchTree.LevelAtRest ctx .and (MatchTree.coveredOn .and [] [.leaf l])
        [.leaf l] := (hleaf l rfl).mono fun _ ha => absurd ha List.not_mem_nil
    refine iff_of_true ?_ rfl
    rw [MatchTree.consolidated, MatchTree.consolidateLevel_atRest hlevel (by simp)]
    rfl
  | combined j children =>
    refine ⟨fun h => ?_, fun h => MatchTree.consolidateBelow_atRest hrest h⟩
    exact (MatchTree.comparisons_consolidateBelow_le hrest hrp h).2 rfl

/-- Two names, and two cities that are excluded. -/
def Expression.namedElsewhere : Expression :=
  .combined .and [.negation false (.withOperator "city" .equals "Rome"),
    .combined .or [.condition (.withOperator "name" .equals "Ada"),
      .condition (.withOperator "name" .equals "Bob")],
    .negation false (.withOperator "city" .equals "Oslo")]

theorem consolidated_again_namedElsewhere :
    ∃ t r, MatchTree.ofExpression .people Expression.namedElsewhere.normalized.guarded = .ok t ∧
      MatchTree.consolidated .people t = .ok r ∧ r.unrepeated = true ∧
      MatchTree.consolidated .people r = .ok r := by
  have hrun : (MatchTree.ofExpression .people Expression.namedElsewhere.normalized.guarded >>=
      MatchTree.consolidated .people).toOption.any MatchTree.unrepeated = true := by
    decide +kernel
  obtain ⟨r, hr, hu⟩ := (Option.any_eq_true _ _).1 hrun
  obtain ⟨t, ht, hr⟩ := bind_eq_ok.1 (eq_ok_of_toOption hr)
  exact ⟨t, r, ht, hr, hu, (consolidated_again_iff ht hr).2 hu⟩

/-! ## Visits and their days -/

/-- Visits on a day, which is stored as a date and as milliseconds. -/
def Draft.visits : Draft where
  main := { name := "visit", nature := .main }
  others := []
  assignments := [
    { arg := "day", argType := .date,
      field := { nodeType := "visit", name := "day", type := { kind := .date } } },
    { arg := "logged", argType := .date,
      field := { nodeType := "visit", name := "logged", type := { kind := .long } } }]

/-- The catalog of the draft. -/
def Catalog.visits : Catalog where
  main := Draft.visits.main
  others := []
  assignments := Draft.visits.assignments
  policies := []
  nodeTypeField := "node_type"
  uniqueKeyField := "id"
  dependentKeyField := "main_id"

/-- The context of conversions about visits. -/
def Context.visits : Context := .new { mapping := Catalog.visits.toMapping }

/-- A day, and a time on it. -/
def Expression.dayAndNoon : Expression :=
  .combined .or [.condition (.withOperator "day" .equals "2025-03-01"),
    .condition (.withOperator "day" .equals "2025-03-01 12:30:00")]

/-- Alignment makes both conditions the same two bounds, of which one is dropped the second time. -/
theorem consolidated_again_dayAndNoon :
    Draft.visits.build = .ok Catalog.visits ∧ ∃ t r again,
      MatchTree.ofExpression .visits Expression.dayAndNoon.normalized.guarded = .ok t ∧
      MatchTree.consolidated .visits t = .ok r ∧ MatchTree.consolidated .visits r = .ok again ∧
      again ≠ r := by
  let twice : Result (MatchTree × MatchTree) := do
    let t ← MatchTree.ofExpression .visits Expression.dayAndNoon.normalized.guarded
    let r ← MatchTree.consolidated .visits t
    let again ← MatchTree.consolidated .visits r
    return (r, again)
  have hrun : twice.toOption.any (fun p => decide (p.2 ≠ p.1)) = true := by decide +kernel
  obtain ⟨⟨r, again⟩, hp, hne⟩ := (Option.any_eq_true _ _).1 hrun
  obtain ⟨t, ht, h⟩ := bind_eq_ok.1 (eq_ok_of_toOption hp)
  obtain ⟨r', hr, h⟩ := bind_eq_ok.1 h
  obtain ⟨again', ha, h⟩ := bind_eq_ok.1 h
  cases pure_eq_ok.1 h
  exact ⟨rfl, t, r, again, ht, hr, ha, of_decide_eq_true hne⟩

end AudienceFilter
