import AudienceFilter.Proofs.ConsolidationTruth
import AudienceFilter.Proofs.LeafSafety

/-!
# Consolidation without faults

What consolidation merges belongs together, and no level runs empty:

* `Sound`: trees of sound leaves in which every combination has at least two members;
* `SoundLevel`: the trees of a level, of which there is at least one;
* `yields_consolidateLevel`, `yields_consolidated`: consolidation gives sound trees.
-/

namespace AudienceFilter

namespace MatchTree

/-- Whether a tree has sound leaves and no groups, and every combination has two members. -/
inductive Sound (ctx : Context) : MatchTree → Prop
  | leaf {l : Leaf} (h : l.Sound ctx) : Sound ctx (.leaf l)
  | combined {j : Connective} {children : List MatchTree} (hlen : 2 ≤ children.length)
      (h : ∀ t ∈ children, Sound ctx t) : Sound ctx (.combined j children)

/-- Whether the trees of a level are sound, and there is one. -/
structure SoundLevel (ctx : Context) (items : List MatchTree) : Prop where
  ne_nil : items ≠ []
  sound : ∀ t ∈ items, Sound ctx t

variable {ctx : Context} {p : Polarity}

theorem yields_singleTree {c : Condition} (hctx : ctx.Checked) (hv : p.verifies = false)
    (hc : c.Comparable) : Yields (ctx.singleTree c p) (Sound ctx) :=
  (Context.yields_single hctx hv hc).bind fun _ _ hs => yields_pure (.leaf hs.1)

theorem Sound.plain {t : MatchTree} (h : Sound ctx t) : Plain ctx t := by
  induction h with
  | leaf h => exact h.plain
  | combined hlen h ih => exact .combined ih

theorem Sound.ofLeaf {l : Leaf} (h : Sound ctx (.leaf l)) : l.Sound ctx := by
  cases h with
  | leaf h => exact h

/-! ## Inclusive bounds -/

/-- A level stays sound if two of its trees are replaced by a sound one. -/
theorem SoundLevel.replace {items : List MatchTree} {t : MatchTree} {i k : Nat}
    (h : SoundLevel ctx items) (hi : i < items.length) (hk : k < items.length) (hne : i ≠ k)
    (ht : Sound ctx t) : SoundLevel ctx ((items.set (min i k) t).eraseIdx (max i k)) := by
  constructor
  · refine List.ne_nil_of_length_pos ?_
    rw [List.length_eraseIdx_of_lt (by rw [List.length_set]; omega), List.length_set]
    omega
  · intro x hx
    rcases List.mem_or_eq_of_mem_set (List.mem_of_mem_eraseIdx hx) with hx | rfl
    · exact h.sound x hx
    · exact ht

theorem yields_mergeBoundPairs {items : List MatchTree} (hv : p.verifies = false)
    (h : SoundLevel ctx items) : Yields (mergeBoundPairs ctx p items) (SoundLevel ctx) := by
  fun_induction mergeBoundPairs ctx p items with
  | case1 items hpair => exact yields_ok h
  | case2 items bound i k hpair equality ih =>
    obtain ⟨e, hbi, -, -, -, hbound, -, -⟩ := boundPair?_eq_some hpair
    obtain ⟨hil, hkl⟩ := lt_length_of_boundPair? hpair
    have hleaf := (h.sound _ (List.mem_of_getElem? hbi)).ofLeaf
    refine (Context.yields_inclusive hleaf.made hv rfl hbound).bind fun m _ hm => ?_
    exact ih m (h.replace hil hkl (ne_of_boundPair? hpair) (.leaf hm))

/-! ## Whole days -/

theorem yields_alignEquality {s : Single} {value : String} (hs : (Leaf.single s).Sound ctx) :
    Yields (alignEquality ctx s value) (Sound ctx) := by
  have hbound : ∀ {op value'}, op ≠ .isUnknown →
      Yields (ctx.multi s.nodeType (.withOperator s.condition.arg op value') [] s.polarity) fun m =>
        (Leaf.multi m).Sound ctx ∧ m.lead = .withOperator s.condition.arg op value' ∧
          m.polarity = s.polarity ∧ m.shape = .value := by
    intro op value' hop
    have halone := Context.yields_alone (c := .withOperator s.condition.arg op value') hs.made
      hs.verifies rfl hop (Condition.comparable_withOperator _ _ _)
    exact halone.mono fun m _ hm => ⟨hm.1, hm.2.2.1, hm.2.2.2.1, hm.2.2.2.2⟩
  refine yields_liftError.bind fun before _ _ => ?_
  refine yields_liftError.bind fun after _ _ => ?_
  refine (hbound (show Operator.greaterThan ≠ .isUnknown from nofun)).bind fun lower _ hl => ?_
  refine (hbound (show Operator.lessThan ≠ .isUnknown from nofun)).bind fun upper _ hu => ?_
  obtain ⟨hlower, hll, hlp, hls⟩ := hl
  obtain ⟨hupper, hul, hup, hus⟩ := hu
  refine (Context.yields_between hlower hupper ?_ ?_ ?_ (hlp.trans hup.symm)).bind
    fun b _ hb => yields_pure (.leaf hb)
  · rw [Multi.isLowerBound, Multi.leadOp, hll, hls]
    rfl
  · rw [Multi.isUpperBound, Multi.leadOp, hul, hus]
    rfl
  · rw [Multi.arg, Multi.arg, hll, hul]
    rfl

theorem yields_alignBound {m : Multi} (hctx : ctx.Checked) (hm : (Leaf.multi m).Sound ctx) :
    Yields (alignBound ctx m) (Sound ctx) := by
  have htree : ∀ {op value}, Yields (ctx.singleTree (.withOperator m.arg op value) m.polarity)
      (Sound ctx) := yields_singleTree hctx hm.verifies (Condition.comparable_withOperator _ _ _)
  unfold alignBound
  dsimp only
  split
  · exact yields_liftError.bind fun _ _ _ => htree
  · exact yields_liftError.bind fun _ _ _ => htree

theorem yields_alignDays {t : MatchTree} (hctx : ctx.Checked) (ht : Sound ctx t) :
    Yields (alignDays ctx t) (Sound ctx) := by
  cases t with
  | combined j children => exact yields_pure ht
  | group j nodeType children => exact yields_pure ht
  | leaf l =>
    refine yields_liftError.bind fun aligned _ _ => ?_
    split
    · cases l with
      | single s =>
        dsimp only
        split
        · exact yields_alignEquality ht.ofLeaf
        · exact yields_pure ht
      | multi m =>
        dsimp only
        split
        · exact yields_alignBound hctx ht.ofLeaf
        · exact yields_pure ht
      | between b => exact yields_pure ht
    · exact yields_pure ht

/-! ## Bounds on either side -/

/-- A bound as a leaf that can be strict or inclusive. -/
theorem yields_toMulti? {t : MatchTree} {arg : String} (ht : Sound ctx t)
    (hb : boundArg? p t = some arg) :
    Yields (toMulti? ctx t) fun r => ∀ m, r = some m →
      (Leaf.multi m).Sound ctx ∧ m.arg = arg ∧ m.polarity = p := by
  obtain ⟨l, rfl, hp, rfl, hu⟩ := boundArg?_eq_some hb
  cases l with
  | between b => cases hb
  | multi m =>
    refine yields_ok ?_
    rintro _ ⟨⟩
    exact ⟨ht.ofLeaf, rfl, hp⟩
  | single s =>
    have hs := ht.ofLeaf
    refine (Context.yields_alone hs.made hs.verifies rfl (Leaf.isUnknownCheck_single.1 hu)
      (hs.comparable _ (List.mem_singleton_self _))).map fun m hm => ?_
    rintro _ ⟨⟩
    refine ⟨hm.1, ?_, hm.2.2.2.1.trans hp⟩
    rw [Multi.arg, hm.2.2.1]
    rfl

theorem yields_pairBounds {arg : String} {bounds : List MatchTree}
    (hb : ∀ t ∈ bounds, Sound ctx t ∧ boundArg? p t = some arg) :
    Yields (pairBounds ctx arg bounds) fun r => ∀ t, r = some t → Sound ctx t := by
  have hnone : Yields (pure none : Result (Option MatchTree)) fun r =>
      ∀ t, r = some t → Sound ctx t := yields_pure nofun
  unfold pairBounds
  split
  · next x y =>
    refine yields_liftError.bind fun single _ _ => ?_
    split
    · obtain ⟨hx, hxb⟩ := hb x List.mem_cons_self
      obtain ⟨hy, hyb⟩ := hb y (List.mem_cons_of_mem _ List.mem_cons_self)
      refine (yields_toMulti? hx hxb).bind fun x? _ hx => ?_
      refine (yields_toMulti? hy hyb).bind fun y? _ hy => ?_
      rcases x? with _ | a
      · exact hnone
      rcases y? with _ | b
      · exact hnone
      obtain ⟨ha, haa, hap⟩ := hx a rfl
      obtain ⟨hb, hba, hbp⟩ := hy b rfl
      dsimp only
      have hpair : ∀ {lower upper : Multi}, (Leaf.multi lower).Sound ctx →
          (Leaf.multi upper).Sound ctx → lower.arg = upper.arg → lower.polarity = upper.polarity →
          (lower.isLowerBound && upper.isUpperBound) = true →
          Yields ((ctx.between lower upper).map fun pair => some (.leaf (.between pair))) fun r =>
            ∀ t, r = some t → Sound ctx t := by
        intro lower upper hl hu harg hpol hbounds
        rw [Bool.and_eq_true] at hbounds
        refine (Context.yields_between hl hu hbounds.1 hbounds.2 harg hpol).map fun b hb => ?_
        rintro _ ⟨⟩
        exact .leaf hb
      split
      · next h => exact hpair ha hb (haa.trans hba.symm) (hap.trans hbp.symm) h
      split
      · next h => exact hpair hb ha (hba.trans haa.symm) (hbp.trans hap.symm) h
      · exact hnone
    · exact hnone
  · exact hnone

theorem yields_mergeBounds {items : List MatchTree} (h : SoundLevel ctx items) :
    Yields (mergeBounds ctx p items) (SoundLevel ctx) := by
  refine (Classes.yields_merge (fun arg => yields_pairBounds (p := p) fun t ht => ?_) ?_).mono
    fun out _ hout => ⟨hout.1 ?_, hout.2⟩
  · obtain ⟨t', ht', he⟩ := List.mem_map.1 (Classes.mem_members.1 ht)
    simp only [Prod.mk.injEq] at he
    obtain ⟨hk, rfl⟩ := he
    exact ⟨h.sound t' ht', hk⟩
  · exact List.forall_mem_map.2 h.sound
  · simpa using h.ne_nil

/-! ## Several values -/

theorem yields_mergeMembers {key : String × Operator} {trees : List MatchTree}
    (hv : p.verifies = false) (hk : ∀ t ∈ trees, Sound ctx t ∧ valueKey? p t = some key) :
    Yields (mergeMembers ctx p trees) fun r => ∀ t, r = some t → Sound ctx t := by
  have hnone : Yields (pure none : Result (Option MatchTree)) fun r =>
      ∀ t, r = some t → Sound ctx t := yields_pure nofun
  have hleaf : ∀ l ∈ trees.filterMap leaf?, l.Sound ctx ∧ l.arg = key.1 ∧
      (key.2 = .equals ∨ key.2 = .contains) ∧
      ∀ c ∈ l.conditions, c.arg = key.1 ∧ c.op = key.2 ∧ c.value?.isSome := by
    intro l hl
    obtain ⟨hs, hkey⟩ := hk _ (mem_filterMap_leaf?.1 hl)
    obtain ⟨_, ⟨⟩, -, harg, -, hop, hconds, -⟩ := valueKey?_eq_some hs.plain.assembled hkey
    exact ⟨hs.ofLeaf, harg, hop, hconds⟩
  unfold mergeMembers
  split
  · next first second rest hl =>
    rw [hl] at hleaf
    obtain ⟨hfirst, harg, hop, -⟩ := hleaf first List.mem_cons_self
    split
    · next c cs hc =>
      refine (Context.yields_values hfirst.made hv hop fun x hx => ?_).bind fun m _ hm => ?_
      · obtain ⟨l, hl, hx⟩ := List.mem_flatMap.1 (hc ▸ hx)
        obtain ⟨ha, hrest⟩ := (hleaf l hl).2.2.2 x hx
        exact ⟨ha.trans harg.symm, hrest⟩
      · refine yields_pure ?_
        rintro _ ⟨⟩
        exact .leaf hm
    · exact hnone
  · exact hnone

theorem yields_mergeValues {items : List MatchTree} (hv : p.verifies = false)
    (h : SoundLevel ctx items) : Yields (mergeValues ctx p items) (SoundLevel ctx) := by
  have hkey : ∀ t, Yields (mergeKey? ctx p t) fun _ => True := by
    intro t
    unfold mergeKey?
    split
    · exact yields_liftError.bind fun _ _ _ => yields_pure trivial
    · exact yields_pure trivial
  refine (Classes.yields_keyed fun t _ => hkey t).bind fun keyed _ hkeyed => ?_
  have hclass : ∀ key, ∀ t ∈ Classes.members keyed key,
      Sound ctx t ∧ valueKey? p t = some key := by
    intro key t ht
    obtain ⟨hti, hk⟩ := hkeyed.2 _ (Classes.mem_members.1 ht)
    exact ⟨h.sound t hti, mergeKey?_eq_ok hk⟩
  refine (Classes.yields_merge (fun key => yields_mergeMembers hv (hclass key)) ?_).mono
    fun out _ hout => ⟨hout.1 (hkeyed.1 h.ne_nil), hout.2⟩
  exact fun q hq => h.sound _ (hkeyed.2 q hq).1

/-! ## Unknown arguments -/

theorem yields_addUnknown {j : Connective} {covered : List String} {done rest : List MatchTree}
    (hctx : ctx.Checked) (hd : ∀ t ∈ done, Sound ctx t) (hr : ∀ t ∈ rest, Sound ctx t)
    (hne : done ++ rest ≠ []) : Yields (addUnknown ctx j covered done rest) (SoundLevel ctx) := by
  induction rest generalizing done with
  | nil => exact yields_ok ⟨by simpa using hne, hd⟩
  | cons t rest ih =>
    rw [List.forall_mem_cons] at hr
    have hmore : ∀ ts, (∀ t ∈ ts, Sound ctx t) → ts ≠ [] →
        Yields (addUnknown ctx j covered (done ++ ts) rest) (SoundLevel ctx) := by
      intro ts hts hnil
      refine ih ?_ hr.2 (by simp [hnil])
      exact fun x hx => (List.mem_append.1 hx).elim (hd x) (hts x)
    have hone := hmore [t] (by simpa using hr.1) (List.cons_ne_nil _ _)
    rw [addUnknown]
    split
    · exact hone
    · next arg harg =>
      refine (yields_singleTree hctx rfl (Condition.comparable_unknown arg)).bind
        fun unknown _ hu => ?_
      have htwo : ∀ x ∈ [t, unknown], Sound ctx x := by simpa using ⟨hr.1, hu⟩
      cases j with
      | or =>
        dsimp only
        split
        · exact hone
        · exact hmore _ htwo (List.cons_ne_nil _ _)
      | and =>
        have hcombine : combine .or [t, unknown] = .ok (.combined .or [t, unknown]) := rfl
        refine (yields_liftFault (P := Sound ctx) hcombine
          (.combined (Nat.le_refl 2) htwo)).bind fun branches _ hb => ?_
        exact hmore [branches] (by simpa using hb) (List.cons_ne_nil _ _)

/-! ## Levels -/

/-- A level that is not empty is joined to one tree. -/
theorem yields_joined {P : MatchTree → Prop} {j : Connective} {items : List MatchTree}
    (hne : items ≠ []) (hone : ∀ t ∈ items, P t)
    (hmany : 2 ≤ items.length → P (.combined j items)) : Yields (liftFault (joined j items)) P := by
  match items with
  | [t] => exact yields_liftFault rfl (hone t (List.mem_singleton_self t))
  | _ :: _ :: _ => exact yields_liftFault rfl (hmany (by simp))

/-- Consolidating a level gives a sound tree. -/
theorem yields_consolidateLevel {j : Connective} {covered : List String} {items : List MatchTree}
    (hctx : ctx.Checked) (h : SoundLevel ctx items) :
    Yields (consolidateLevel ctx j covered items) (Sound ctx) := by
  have hv := mergePolarity_verifies j
  refine (yields_mergeBoundPairs hv h).bind fun paired _ hp => ?_
  refine (yields_mapM fun t ht => yields_alignDays hctx (hp.sound t ht)).bind
    fun aligned _ ha => ?_
  have haligned : SoundLevel ctx aligned := by
    refine ⟨fun hnil => hp.ne_nil (List.eq_nil_of_length_eq_zero ?_), ha.2⟩
    rw [← ha.1, hnil]
    rfl
  refine (yields_mergeBounds haligned).bind fun bounded _ hb => ?_
  refine (yields_mergeValues hv hb).bind fun merged _ hm => ?_
  have hnone : ∀ t ∈ ([] : List MatchTree), Sound ctx t := nofun
  refine (yields_addUnknown hctx hnone hm.sound hm.ne_nil).bind fun out _ ho => ?_
  exact yields_joined ho.ne_nil ho.sound fun hlen => .combined hlen ho.sound

theorem Sound.opened {j : Connective} {t : MatchTree} (h : Sound ctx t) :
    SoundLevel ctx (opened j t) := by
  have hself : SoundLevel ctx [t] := ⟨List.cons_ne_nil _ _, by simpa using h⟩
  cases h with
  | leaf hl => exact hself
  | @combined i children hlen hc =>
    by_cases hi : i = j
    · subst hi
      rw [opened_combined_self]
      exact ⟨List.ne_nil_of_length_pos (by omega), hc⟩
    · rw [opened_combined_of_ne hi]
      exact hself

theorem SoundLevel.flattened {j : Connective} {items : List MatchTree} (h : SoundLevel ctx items) :
    SoundLevel ctx (flattened j items) := by
  constructor
  · obtain ⟨t, ht⟩ := List.exists_mem_of_ne_nil items h.ne_nil
    obtain ⟨x, hx⟩ := List.exists_mem_of_ne_nil _ (h.sound t ht).opened.ne_nil
    exact List.ne_nil_of_mem (mem_flattened.2 ⟨t, ht, hx⟩)
  · intro x hx
    obtain ⟨t, ht, hxt⟩ := mem_flattened.1 hx
    exact (h.sound t ht).opened.sound x hxt

theorem yields_consolidateBelow {covered : List String} {t : MatchTree} (hctx : ctx.Checked)
    (h : Sound ctx t) : Yields (consolidateBelow ctx covered t) (Sound ctx) := by
  induction t using memberInduction generalizing covered with
  | leaf l => exact yields_ok h
  | group j nodeType children ih => exact yields_ok h
  | combined j children ih =>
    cases h with
    | combined hlen hc =>
      rw [consolidateBelow, consolidateEach_eq_mapM]
      refine (yields_mapM fun t ht => ih t ht (hc t ht)).bind fun items _ hitems => ?_
      have hlevel : SoundLevel ctx items :=
        ⟨List.ne_nil_of_length_pos (by omega), hitems.2⟩
      exact yields_consolidateLevel hctx hlevel.flattened

/-- A sound tree is consolidated to a sound tree. -/
theorem yields_consolidated {t : MatchTree} (hctx : ctx.Checked) (h : Sound ctx t) :
    Yields (consolidated ctx t) (Sound ctx) := by
  cases t with
  | combined j children => exact yields_consolidateBelow hctx h
  | group j nodeType children => exact yields_ok h
  | leaf l => exact yields_consolidateLevel hctx ⟨List.cons_ne_nil _ _, by simpa using h⟩

end MatchTree

end AudienceFilter
