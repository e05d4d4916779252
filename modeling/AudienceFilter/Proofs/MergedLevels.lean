import AudienceFilter.Proofs.AtRest
import AudienceFilter.Proofs.GatheredClasses

/-!
# Merged levels

Each step of consolidation that replaces trees does all that it can on a level, and the steps
behind it give it nothing new to do: bounds are only paired after days are aligned, and what a step
puts in the place of other trees is of no interest to the steps before it.

* `unpaired_mergeBoundPairs`, `aligned_alignDays`, `settled_mergeBounds`, `settled_mergeValues`:
  what is left to do after a step;
* `Later`: what the steps behind a step may do to a level;
* `levelMerged_of_steps`: all four steps.
-/

namespace AudienceFilter.MatchTree

variable {ctx : Context} {j : Connective} {items out : List MatchTree}

/-! ## Inclusive bounds -/

theorem boundPair?_eq_none_iff {p : Polarity} :
    boundPair? p items = none ↔ ∀ b e : Single, .leaf (.single b) ∈ items →
      .leaf (.single e) ∈ items → b.polarity = p → b.condition.op.isBound = true →
        isEqualityOf b (.leaf (.single e)) = false := by
  rw [boundPair?, List.findSome?_eq_none_iff]
  constructor
  · intro h b e hb he hp hbound
    obtain ⟨i, hi⟩ := List.mem_iff_getElem?.1 hb
    have hnone := h (.leaf (.single b), i) (List.mem_zipIdx_iff_getElem?.2 hi)
    have hsome : singleBound? p (.leaf (.single b)) = some b := by
      simp [singleBound?, single?, Option.filter_some, hp, hbound]
    simp only [hsome, Option.pure_def, Option.bind_eq_bind, Option.bind_some,
      Option.bind_eq_none_iff, reduceCtorEq, imp_false] at hnone
    refine List.findIdx?_eq_none_iff.1 (Option.eq_none_iff_forall_ne_some.2 fun k => ?_) _ he
    exact hnone k
  · rintro h ⟨t, i⟩ ht
    simp only [Option.pure_def, Option.bind_eq_bind, Option.bind_eq_none_iff]
    intro b hb k hk
    obtain ⟨hs, hbound⟩ := Option.filter_eq_some_iff.1 hb
    simp only [Bool.and_eq_true, decide_eq_true_eq] at hbound
    obtain ⟨hlt, heq, -⟩ := List.findIdx?_eq_some_iff_getElem.1 hk
    obtain ⟨e, he, -⟩ := (Option.any_eq_true _ _).1 heq
    have hmem : items[k] ∈ items := List.getElem_mem hlt
    rw [single?_eq_some he] at heq hmem
    have ht : t ∈ items := List.mem_of_getElem? (List.mem_zipIdx_iff_getElem?.1 ht)
    rw [single?_eq_some hs] at ht
    rw [h b e ht hmem hbound.1 hbound.2] at heq
    cases heq

theorem unpaired_mergeBoundPairs {p : Polarity}
    (h : mergeBoundPairs ctx p items = .ok out) : boundPair? p out = none := by
  fun_induction mergeBoundPairs ctx p items with
  | case1 items hpair => exact Except.ok.inj h ▸ hpair
  | case2 items bound i k hpair equality ih =>
    obtain ⟨m, -, h⟩ := bind_eq_ok.1 h
    exact ih m h

/-- A bound and its equality compare, as the leaf that they become does. -/
theorem comparisons_boundPair {p : Polarity} {bound : Single} {i k : Nat}
    (h : boundPair? p items = some (bound, i, k)) :
    ∃ e : Single, items[i]? = some (.leaf (.single bound)) ∧
      items[k]? = some (.leaf (.single e)) ∧
      (MatchTree.leaf (.single bound)).comparisons = 1 ∧
      (MatchTree.leaf (.single e)).comparisons = 1 := by
  obtain ⟨e, hi, hk, -, -, hbound, -, hc⟩ := boundPair?_eq_some h
  refine ⟨e, hi, hk, comparisons_leaf (Leaf.isUnknownCheck_single.2 fun hop => ?_),
    comparisons_leaf (Leaf.isUnknownCheck_single.2 fun hop => ?_)⟩
  · rw [hop] at hbound
    cases hbound
  · rw [hc] at hop
    cases hop

theorem checks_mergeBoundPairs {p : Polarity} (h : mergeBoundPairs ctx p items = .ok out) :
    (out.filter fun t => t.comparisons = 0) = items.filter fun t => t.comparisons = 0 := by
  fun_induction mergeBoundPairs ctx p items with
  | case1 items hpair => rw [Except.ok.inj h]
  | case2 items bound i k hpair equality ih =>
    obtain ⟨m, -, h⟩ := bind_eq_ok.1 h
    obtain ⟨e, hi, hk, hb, he⟩ := comparisons_boundPair hpair
    obtain ⟨x, y, front, mid, back, hxs, hset, hxy⟩ :=
      exists_of_replace (z := MatchTree.leaf (.multi m)) hi hk (ne_of_boundPair? hpair)
    have hm : (MatchTree.leaf (.multi m)).comparisons = 1 := comparisons_leaf rfl
    rw [ih m h, hset, hxs]
    rcases hxy with ⟨rfl, rfl⟩ | ⟨rfl, rfl⟩ <;> simp [hm, hb, he]

/-! ## Whole days -/

/-- A leaf that is neither an equality with a value nor an inclusive bound needs no alignment. -/
theorem alignDays_of_made {l : Leaf} (hm : l.Made ctx)
    (hs : ∀ s, l = .single s → s.condition.op ≠ .equals ∨ s.condition.value? = none)
    (hv : ∀ m, l = .multi m → m.shape ≠ .valueOrEqual) :
    alignDays ctx (.leaf l) = .ok (.leaf l) := by
  obtain ⟨a, ha, -⟩ := hm.assignment
  have haligned : liftError (ctx.alignsDaysOf l.arg) = .ok (ctx.alignsDays a) := by
    rw [Context.alignsDaysOf, ha]
    rfl
  refine bind_eq_ok.2 ⟨_, haligned, ?_⟩
  split
  · cases l with
    | between b => rfl
    | multi m => exact if_neg (hv m rfl)
    | single s =>
      simp only
      split
      · next value hop hval =>
        rcases hs s rfl with h | h
        · exact absurd hop h
        · rw [h] at hval
          cases hval
      · rfl
  · rfl

theorem alignDays_single {s : Single} (hm : Leaf.Made ctx (.single s))
    (hop : s.condition.op ≠ .equals) :
    alignDays ctx (.leaf (.single s)) = .ok (.leaf (.single s)) := by
  refine alignDays_of_made hm (fun s' hs => .inl ?_) fun _ hv => nomatch hv
  cases hs
  exact hop

theorem alignDays_between {b : Between} (hm : Leaf.Made ctx (.between b)) :
    alignDays ctx (.leaf (.between b)) = .ok (.leaf (.between b)) :=
  alignDays_of_made hm (fun _ hs => nomatch hs) fun _ hv => nomatch hv

/-- What alignment changes becomes two bounds, or a bound by a day. -/
theorem alignDays_changed {t t' : MatchTree} (h : alignDays ctx t = .ok t') :
    t' = t ∨ (∃ b, t' = .leaf (.between b)) ∨
      ∃ s : Single, t' = .leaf (.single s) ∧ s.condition.op ≠ .equals ∧
        s.condition.op ≠ .isUnknown ∧ s.condition.value?.isSome ∧
        ctx.alignsDaysOf s.condition.arg = .ok true := by
  cases t with
  | combined i children => exact .inl (pure_eq_ok.1 h).symm
  | group i nodeType children => exact .inl (pure_eq_ok.1 h).symm
  | leaf l =>
    obtain ⟨aligned, ha, h⟩ := bind_eq_ok.1 h
    split at h
    · next hal =>
      split at h
      · split at h
        · obtain ⟨before, -, h⟩ := bind_eq_ok.1 h
          obtain ⟨after, -, h⟩ := bind_eq_ok.1 h
          obtain ⟨lower, -, h⟩ := bind_eq_ok.1 h
          obtain ⟨upper, -, h⟩ := bind_eq_ok.1 h
          obtain ⟨b, -, h⟩ := bind_eq_ok.1 h
          exact .inr (.inl ⟨b, (pure_eq_ok.1 h).symm⟩)
        · exact .inl (pure_eq_ok.1 h).symm
      · next m _ =>
        have ham : ctx.alignsDaysOf m.arg = .ok true := hal ▸ liftError_eq_ok.1 ha
        split at h
        · refine .inr (.inr ?_)
          -- Whichever bound it is, the new leaf is a strict one on the same argument.
          have hsingle : ∀ op moved, op = .greaterThan ∨ op = .lessThan →
              ctx.singleTree (.withOperator m.arg op moved) m.polarity = .ok t' →
              ∃ s : Single, t' = .leaf (.single s) ∧ s.condition.op ≠ .equals ∧
                s.condition.op ≠ .isUnknown ∧ s.condition.value?.isSome ∧
                ctx.alignsDaysOf s.condition.arg = .ok true := by
            intro op moved hop ht
            obtain ⟨s, hs, rfl⟩ := singleTree_eq_ok.1 ht
            obtain ⟨-, -, -, -, -, -, -, hc, -⟩ := Context.single_eq_ok hs
            refine ⟨s, rfl, ?_⟩
            rw [hc]
            refine ⟨?_, ?_, rfl, ham⟩ <;>
              rcases hop with rfl | rfl <;> simp [Condition.withOperator]
          unfold alignBound at h
          simp only at h
          split at h
          · obtain ⟨moved, -, h⟩ := bind_eq_ok.1 h
            exact hsingle _ moved (.inl rfl) h
          · obtain ⟨moved, -, h⟩ := bind_eq_ok.1 h
            exact hsingle _ moved (.inr rfl) h
        · exact .inl (pure_eq_ok.1 h).symm
      · exact .inl (pure_eq_ok.1 h).symm
    · exact .inl (pure_eq_ok.1 h).symm

theorem aligned_alignDays (hi : ∀ t ∈ items, Assembled ctx t)
    (h : items.mapM (alignDays ctx) = .ok out) : ∀ t ∈ out, alignDays ctx t = .ok t := by
  intro t' ht'
  obtain ⟨t, ht, h'⟩ := mem_of_mapM_eq_ok h ht'
  have hassembled := (sameLevel_alignDays (j := .and) hi h).assembled hi t' ht'
  rcases alignDays_changed h' with rfl | ⟨b, rfl⟩ | ⟨s, rfl, hop, -, -, -⟩
  · exact h'
  · exact alignDays_between hassembled.made
  · exact alignDays_single hassembled.made hop

/-- An equality that stays as it is is not compared by whole days. -/
theorem alignsDaysOf_of_aligned {s : Single}
    (h : alignDays ctx (.leaf (.single s)) = .ok (.leaf (.single s)))
    (hop : s.condition.op = .equals) (hv : s.condition.value?.isSome) :
    ctx.alignsDaysOf s.condition.arg = .ok false := by
  obtain ⟨value, hv⟩ := Option.isSome_iff_exists.1 hv
  obtain ⟨aligned, ha, h⟩ := bind_eq_ok.1 h
  cases aligned with
  | false => exact liftError_eq_ok.1 ha
  | true =>
    simp only [if_true, hop, hv] at h
    obtain ⟨_, -, h⟩ := bind_eq_ok.1 h
    obtain ⟨_, -, h⟩ := bind_eq_ok.1 h
    obtain ⟨_, -, h⟩ := bind_eq_ok.1 h
    obtain ⟨_, -, h⟩ := bind_eq_ok.1 h
    obtain ⟨_, -, h⟩ := bind_eq_ok.1 h
    cases h

/-- Alignment makes no bound that an equality beside it belongs to: that would have been aligned
too. -/
theorem unpaired_alignDays {p : Polarity} (hu : boundPair? p items = none)
    (h : items.mapM (alignDays ctx) = .ok out) : boundPair? p out = none := by
  rw [boundPair?_eq_none_iff] at hu ⊢
  intro b e hb he hp hbound
  rw [Bool.eq_false_iff]
  intro heq
  have heqs := heq
  simp only [isEqualityOf, single?, Option.any_some, Bool.and_eq_true, beq_iff_eq] at heqs
  obtain ⟨⟨⟨⟨-, hop⟩, harg⟩, -⟩, hoperand⟩ := heqs
  obtain ⟨te, hte, hea⟩ := mem_of_mapM_eq_ok h he
  rcases alignDays_changed hea with hsame | ⟨-, ⟨⟩⟩ | ⟨s, hs, hne, -⟩
  · obtain ⟨tb, htb, hba⟩ := mem_of_mapM_eq_ok h hb
    rcases alignDays_changed hba with hbsame | ⟨-, ⟨⟩⟩ | ⟨s, hs, -, -, hval, hal⟩
    · rw [← hbsame] at htb
      rw [← hsame] at hte
      rw [hu b e htb hte hp hbound] at heq
      cases heq
    · -- The equality has the value of the new bound, whose argument is compared by days.
      cases hs
      have hev : e.condition.value?.isSome := by
        rwa [Condition.value?, hoperand, ← Condition.value?]
      rw [← hsame] at hea
      have hfalse := alignsDaysOf_of_aligned hea hop hev
      rw [harg, hal] at hfalse
      cases hfalse
  · cases hs
    exact hne hop

/-- What changes compares before and after. -/
theorem comparisons_alignDays {t t' : MatchTree} (ht : Assembled ctx t)
    (h : alignDays ctx t = .ok t') : t' = t ∨ t.comparisons = 1 ∧ t'.comparisons = 1 := by
  refine (alignDays_eq_ok ht h).imp_right ?_
  rintro ⟨l, l', rfl, rfl, -, -, hu, hu', -⟩
  exact ⟨comparisons_leaf hu, comparisons_leaf hu'⟩

theorem checks_alignDays (hi : ∀ t ∈ items, Assembled ctx t)
    (h : items.mapM (alignDays ctx) = .ok out) :
    (out.filter fun t => t.comparisons = 0) = items.filter fun t => t.comparisons = 0 :=
  filter_of_mapM_eq_ok h fun t ht t' h' =>
    (comparisons_alignDays (hi t ht) h').imp_right fun ⟨hc, hc'⟩ => by simp [hc, hc']

/-! ## Later steps -/

/-- What the steps behind the alignment of days may do to a level: they make no single comparisons
and nothing to align. -/
structure Later (ctx : Context) (items out : List MatchTree) : Prop where
  singles : ∀ s : Single, s.condition.op ≠ .isUnknown → .leaf (.single s) ∈ out →
    .leaf (.single s) ∈ items
  aligned : (∀ t ∈ items, alignDays ctx t = .ok t) → ∀ t ∈ out, alignDays ctx t = .ok t

theorem Later.trans {mid : List MatchTree} (h : Later ctx items mid) (h' : Later ctx mid out) :
    Later ctx items out where
  singles s hs ht := h.singles s hs (h'.singles s hs ht)
  aligned ha := h'.aligned (h.aligned ha)

theorem Later.unpaired {p : Polarity} (h : Later ctx items out)
    (hu : boundPair? p items = none) : boundPair? p out = none := by
  rw [boundPair?_eq_none_iff] at hu ⊢
  intro b e hb he hp hbound
  by_cases heop : e.condition.op = .equals
  · refine hu b e (h.singles b (fun hop => ?_) hb) (h.singles e ?_ he) hp hbound
    · rw [hop] at hbound
      cases hbound
    · rw [heop]
      exact nofun
  · simp [isEqualityOf, single?, heop]

/-! ## Bounds on either side -/

theorem comparisons_of_boundArg? {p : Polarity} {t : MatchTree} {arg : String}
    (h : boundArg? p t = some arg) : t.comparisons = 1 := by
  obtain ⟨l, rfl, -, -, hu⟩ := boundArg?_eq_some h
  exact comparisons_leaf hu

theorem settled_mergeBounds {p : Polarity} (h : mergeBounds ctx p items = .ok out) (arg : String) :
    pairBounds ctx arg (out.filter fun t => boundArg? p t = some arg) = .ok none := by
  refine Classes.merge_settled h (fun arg bounds r hr => ?_) (fun arg => rfl) arg
  obtain ⟨-, -, -, -, b, -, -, rfl, -⟩ := pairBounds_eq_ok hr
  rfl

theorem checks_mergeBounds {p : Polarity} (h : mergeBounds ctx p items = .ok out) :
    (out.filter fun t => t.comparisons = 0) = items.filter fun t => t.comparisons = 0 := by
  rw [Classes.filter_merge h]
  · simp [Function.comp_def]
  · intro arg r hr
    obtain ⟨-, -, -, -, b, -, -, rfl, -⟩ := pairBounds_eq_ok hr
    have hb : (MatchTree.leaf (.between b)).comparisons = 1 := comparisons_leaf rfl
    refine ⟨by simp [hb], fun t ht => ?_⟩
    rw [Classes.members_map, List.mem_filter, decide_eq_true_eq] at ht
    simp [comparisons_of_boundArg? ht.2]

/-- Where bounds were paired, a tree was there before or has two bounds. -/
theorem mem_mergeBounds {p : Polarity} (h : mergeBounds ctx p items = .ok out) :
    ∀ t ∈ out, t ∈ items ∨ ∃ b, t = .leaf (.between b) := by
  intro t ht
  rcases Classes.mem_merge h ht with ⟨p, hp, rfl⟩ | ⟨arg, hr⟩
  · obtain ⟨t', ht', rfl⟩ := List.mem_map.1 hp
    exact .inl ht'
  · obtain ⟨-, -, -, -, b, -, -, rfl, -⟩ := pairBounds_eq_ok hr
    exact .inr ⟨b, rfl⟩

theorem later_mergeBounds (hi : ∀ t ∈ items, Assembled ctx t)
    (h : mergeBounds ctx (boundPolarity j) items = .ok out) : Later ctx items out := by
  constructor
  · intro s _ hs
    rcases mem_mergeBounds h _ hs with hs | ⟨b, ⟨⟩⟩
    exact hs
  · intro ha t ht
    have hassembled := (sameLevel_mergeBounds hi h).assembled hi t ht
    rcases mem_mergeBounds h t ht with ht | ⟨b, rfl⟩
    · exact ha t ht
    · exact alignDays_between hassembled.made

/-! ## Several values -/

/-- The leaf of several conditions under a key has that key, if any, and is no bound. -/
theorem mergeMembers_key {p : Polarity} {key : String × Operator} {trees : List MatchTree}
    {r : MatchTree} (hk : ∀ t ∈ trees, Assembled ctx t ∧ valueKey? p t = some key)
    (hv : p.verifies = false) (h : mergeMembers ctx p trees = .ok (some r)) :
    ∃ m, r = .leaf (.multi m) ∧ Plain ctx (.leaf (.multi m)) ∧ m.shape ≠ .valueOrEqual ∧
      m.arg = key.1 ∧ m.leadOp = key.2 := by
  obtain ⟨first, c, cs, m, hfirst, hconds, hm, rfl⟩ := mergeMembers_eq_ok h
  have hcond : ∀ x ∈ c :: cs, x.arg = key.1 ∧ x.op = key.2 := by
    intro x hx
    rw [← hconds, List.mem_flatMap] at hx
    obtain ⟨l, hl, hx⟩ := hx
    obtain ⟨hlp, hlk⟩ := hk _ (mem_filterMap_leaf?.1 hl)
    obtain ⟨_, ⟨⟩, -, -, -, -, hargs, -⟩ := valueKey?_eq_some hlp hlk
    exact ⟨(hargs x hx).1, (hargs x hx).2.1⟩
  obtain ⟨hfp, hfk⟩ := hk _ (mem_filterMap_leaf?.1 hfirst)
  obtain ⟨_, ⟨⟩, -, hfa, -, hop, -⟩ := valueKey?_eq_some hfp hfk
  obtain ⟨hplain, -, hmem, -⟩ := plain_multi hfp.made
    ((hcond c List.mem_cons_self).1.trans hfa.symm) hv hm
  obtain ⟨harg, hlead⟩ := hcond m.lead ((hmem _).1 List.mem_cons_self)
  refine ⟨m, rfl, hplain, fun hs => ?_, harg, hlead⟩
  obtain ⟨-, -, hbound, -⟩ := hplain.made.members.2.1.equality hs
  rcases hop with hop | hop <;> rw [hlead, hop] at hbound <;> cases hbound

theorem boundArg?_of_valueKey? {p p' : Polarity} {t : MatchTree} {key : String × Operator}
    (h : valueKey? p t = some key) : boundArg? p' t = none := by
  cases t with
  | combined i children => rfl
  | group i nodeType children => rfl
  | leaf l =>
    cases l with
    | between b => rfl
    | single s =>
      simp only [valueKey?, Option.ite_none_right_eq_some] at h
      refine if_neg fun hb => ?_
      rcases h.1.2.1 with hop | hop <;> rw [hop] at hb <;> exact absurd hb.2.1 (by decide)
    | multi m =>
      simp only [valueKey?, Option.ite_none_right_eq_some] at h
      refine if_neg fun hb => ?_
      rw [h.1.2] at hb
      exact absurd hb.2 (by decide)

section MergedValues

variable {p : Polarity}

/-- Where values were merged, elements of a kind that no condition with a key has are as before. -/
theorem filter_mergeValues {P : MatchTree → Bool} (h : mergeValues ctx p items = .ok out)
    (hi : ∀ t ∈ items, Assembled ctx t) (hv : p.verifies = false)
    (hkey : ∀ t key, Assembled ctx t → valueKey? p t = some key → P t = false)
    (hnew : ∀ m, m.shape ≠ .valueOrEqual → P (.leaf (.multi m)) = false) :
    out.filter P = items.filter P := by
  obtain ⟨keyed, hkeyed, h⟩ := bind_eq_ok.1 h
  rw [Classes.filter_merge h, Classes.map_snd_of_keyed hkeyed]
  intro key r hr
  have hclass := mem_valueClass hi hkeyed key
  obtain ⟨m, rfl, -, hs, -⟩ := mergeMembers_key hclass hv hr
  exact ⟨hnew m hs, fun t ht => hkey t key (hclass t ht).1 (hclass t ht).2⟩

theorem checks_mergeValues (h : mergeValues ctx p items = .ok out)
    (hi : ∀ t ∈ items, Assembled ctx t) (hv : p.verifies = false) :
    (out.filter fun t => t.comparisons = 0) = items.filter fun t => t.comparisons = 0 := by
  refine filter_mergeValues h hi hv (fun t key ht hk => ?_) fun m _ => ?_
  · obtain ⟨l, rfl, -, -, hu, -⟩ := valueKey?_eq_some ht hk
    simp [comparisons_leaf hu]
  · simp [comparisons_leaf (l := .multi m) rfl]

theorem boundClass_mergeValues {p' : Polarity} (h : mergeValues ctx p items = .ok out)
    (hi : ∀ t ∈ items, Assembled ctx t) (hv : p.verifies = false) (arg : String) :
    (out.filter fun t => boundArg? p' t = some arg) =
      items.filter fun t => boundArg? p' t = some arg := by
  refine filter_mergeValues h hi hv (fun t key _ hk => ?_) fun m hm => ?_
  · simp [boundArg?_of_valueKey? hk]
  · simp [boundArg?, hm]

/-- A class of leaves that stays as it is has one member. -/
theorem mergeMembers_eq_none {trees : List MatchTree} (hl : ∀ t ∈ trees, ∃ l, t = .leaf l)
    (h : mergeMembers ctx p trees = .ok none) : trees.length ≤ 1 := by
  rcases trees with _ | ⟨t, _ | ⟨t', rest⟩⟩
  · exact Nat.zero_le 1
  · exact Nat.le_refl 1
  · obtain ⟨l, rfl⟩ := hl t List.mem_cons_self
    obtain ⟨l', rfl⟩ := hl t' (List.mem_cons_of_mem _ List.mem_cons_self)
    have hc : l.conditions ≠ [] := by cases l <;> exact List.cons_ne_nil _ _
    obtain ⟨c, cs, hc⟩ := List.exists_cons_of_ne_nil hc
    simp only [mergeMembers, List.filterMap_cons, leaf?, List.flatMap_cons, hc,
      List.cons_append] at h
    obtain ⟨m, -, h⟩ := bind_eq_ok.1 h
    cases h

/-- After values were merged, no two conditions have one key. -/
theorem pairwise_mergeValues (h : mergeValues ctx p items = .ok out)
    (hi : ∀ t ∈ items, Assembled ctx t) (hv : p.verifies = false) :
    out.Pairwise fun x y => ∀ key, mergeKey? ctx p x = .ok (some key) →
      mergeKey? ctx p y ≠ .ok (some key) := by
  obtain ⟨keyed, hkeyed, h⟩ := bind_eq_ok.1 h
  let key (t : MatchTree) : Option (String × Operator) := (mergeKey? ctx p t).toOption.join
  have hkey : ∀ t k?, mergeKey? ctx p t = .ok k? → key t = k? := by
    intro t k? hk
    simp only [key, hk]
    rfl
  have hkeys : keyed = items.map fun t => (key t, t) :=
    Classes.keyed_eq_map hkeyed fun t _ => hkey t
  have hclass : ∀ k, ∀ t ∈ Classes.withKey key k items,
      Assembled ctx t ∧ valueKey? p t = some k := by
    intro k
    rw [Classes.withKey, ← Classes.members_map, ← hkeys]
    exact mem_valueClass hi hkeyed k
  rw [hkeys] at h
  obtain ⟨hlen, hall⟩ := Classes.merge_eq_gather h fun k hnone =>
    mergeMembers_eq_none (fun t ht => by
      obtain ⟨l, hl, -⟩ := valueKey?_eq_some (hclass k t ht).1 (hclass k t ht).2
      exact ⟨l, hl⟩) hnone
  -- A tree with a key stands for a block that has it.
  have hblock : ∀ q ∈ (Classes.gather key items).zip out, ∀ k,
      mergeKey? ctx p q.2 = .ok (some k) → ∃ t ∈ q.1, key t = some k := by
    intro q hq k hk
    rcases hall q hq with hone | ⟨k', hsame, hr⟩
    · exact ⟨q.2, hone ▸ List.mem_singleton_self q.2, hkey q.2 _ hk⟩
    · obtain ⟨first, -, -, -, hfirst, -⟩ := mergeMembers_eq_ok hr
      obtain ⟨m, hm, -, -, harg, hlead⟩ := mergeMembers_key (fun t ht => hclass k' t
        (Classes.mem_withKey.2 ⟨(Classes.sublist_of_mem_gather (List.of_mem_zip hq).1).subset ht,
          hsame t ht⟩)) hv hr
      have hvk := mergeKey?_eq_ok hk
      rw [hm] at hvk
      simp only [valueKey?, Option.ite_none_right_eq_some, Option.some.injEq] at hvk
      obtain rfl : k = k' := by rw [← hvk.2, harg, hlead]
      exact ⟨_, mem_filterMap_leaf?.1 hfirst, hsame _ (mem_filterMap_leaf?.1 hfirst)⟩
  refine pairwise_of_zip hlen (Classes.gather_pairwise key items) ?_
  intro a ha b hb hab k hka hkb
  obtain ⟨t, ht, htk⟩ := hblock a ha k hka
  obtain ⟨u, hu, huk⟩ := hblock b hb k hkb
  exact hab t ht u hu k htk huk

/-- After values were merged, conditions with one key are one tree. -/
theorem settled_mergeValues (h : mergeValues ctx p items = .ok out)
    (hi : ∀ t ∈ items, Assembled ctx t) (hv : p.verifies = false) :
    ∀ x ∈ out, ∀ y ∈ out, ∀ key, mergeKey? ctx p x = .ok (some key) →
      mergeKey? ctx p y = .ok (some key) → x = y := by
  intro x hx y hy key hkx hky
  refine Classes.eq_of_pairwise (pairwise_mergeValues h hi hv) hx hy ?_ ?_
  · exact fun hne => hne key hkx hky
  · exact fun hne => hne key hky hkx

/-- Where values were merged, a tree was there before or has the values under a key. -/
theorem mem_mergeValues (h : mergeValues ctx p items = .ok out)
    (hi : ∀ t ∈ items, Assembled ctx t) (hv : p.verifies = false) :
    ∀ t ∈ out, t ∈ items ∨ ∃ m : Multi, t = .leaf (.multi m) ∧ Plain ctx (.leaf (.multi m)) ∧
      m.shape ≠ .valueOrEqual ∧ ∃ x ∈ items, mergeKey? ctx p x = .ok (some (m.arg, m.leadOp)) := by
  obtain ⟨keyed, hkeyed, h⟩ := bind_eq_ok.1 h
  have hmem := Classes.mem_keyed hkeyed
  intro t ht
  rcases Classes.mem_merge h ht with ⟨q, hq, rfl⟩ | ⟨key, hr⟩
  · exact .inl (hmem q hq).1
  · obtain ⟨first, -, -, -, hfirst, -⟩ := mergeMembers_eq_ok hr
    obtain ⟨m, rfl, hplain, hs, harg, hlead⟩ :=
      mergeMembers_key (mem_valueClass hi hkeyed key) hv hr
    obtain ⟨hx, hk⟩ := hmem _ (Classes.mem_members.1 (mem_filterMap_leaf?.1 hfirst))
    exact .inr ⟨m, rfl, hplain, hs, _, hx, by rw [hk, harg, hlead]⟩

theorem later_mergeValues (h : mergeValues ctx p items = .ok out)
    (hi : ∀ t ∈ items, Assembled ctx t) (hv : p.verifies = false) : Later ctx items out := by
  have hnew := mem_mergeValues h hi hv
  constructor
  · intro s _ hs
    rcases hnew _ hs with hs | ⟨m, ⟨⟩, -⟩
    exact hs
  · intro ha t ht
    rcases hnew t ht with ht | ⟨m, rfl, hplain, hs, -⟩
    · exact ha t ht
    · refine alignDays_of_made hplain.made (fun _ hs => nomatch hs) fun m' hm' => ?_
      cases hm'
      exact hs

end MergedValues

/-- The steps that replace trees do all that they can. -/
theorem levelMerged_of_steps {items₁ items₂ items₃ : List MatchTree}
    (hi : ∀ t ∈ items, Assembled ctx t) (hn : items.Nodup) (hf : ∀ t ∈ items, opened j t = [t])
    (h₁ : mergeBoundPairs ctx (mergePolarity j) items = .ok items₁)
    (h₂ : items₁.mapM (alignDays ctx) = .ok items₂)
    (h₃ : mergeBounds ctx (boundPolarity j) items₂ = .ok items₃)
    (h₄ : mergeValues ctx (mergePolarity j) items₃ = .ok out) :
    SameLevel ctx j items out ∧ LevelMerged ctx j out := by
  have hv := mergePolarity_verifies j
  have s₁ := sameLevel_mergeBoundPairs hi h₁
  have s₂ := s₁.trans (sameLevel_alignDays (s₁.assembled hi) h₂)
  have s₃ := s₂.trans (sameLevel_mergeBounds (s₂.assembled hi) h₃)
  have s₄ := s₃.trans (sameLevel_mergeValues (s₃.assembled hi) h₄)
  have later := (later_mergeBounds (s₂.assembled hi) h₃).trans
    (later_mergeValues h₄ (s₃.assembled hi) hv)
  refine ⟨s₄, ?_, ?_, fun arg => ?_, settled_mergeValues h₄ (s₃.assembled hi) hv,
    fun t ht => ?_, ?_⟩
  · exact later.unpaired (unpaired_alignDays (unpaired_mergeBoundPairs h₁) h₂)
  · exact later.aligned (aligned_alignDays (s₁.assembled hi) h₂)
  · rw [boundClass_mergeValues h₄ (s₃.assembled hi) hv]
    exact settled_mergeBounds h₃ arg
  · rcases s₄.origin t ht with ht | ⟨l, rfl, -⟩
    · exact hf t ht
    · rfl
  · rw [checks_mergeValues h₄ (s₃.assembled hi) hv, checks_mergeBounds h₃,
      checks_alignDays (s₁.assembled hi) h₂, checks_mergeBoundPairs h₁]
    exact hn.sublist List.filter_sublist

end AudienceFilter.MatchTree
