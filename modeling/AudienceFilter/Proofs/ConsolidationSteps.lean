import AudienceFilter.Proofs.ClassMerging
import AudienceFilter.Proofs.Combination
import AudienceFilter.Proofs.LeafTruth

/-!
# Steps of consolidation

Each step on a level replaces leaves by leaves and keeps what the level says: all trees are
neutral after it exactly if they were before (`SameLevel`). Leaves are read plainly here, since it
is only decided after the last step whether a complement gets a branch for the unknown argument.

* `sameLevel_mergeBoundPairs`, `sameLevel_alignDays`, `sameLevel_mergeBounds`,
  `sameLevel_mergeValues`: the four steps that replace leaves.
-/

namespace AudienceFilter

/-! ## Plain trees -/

namespace MatchTree

/-- Whether a tree has no groups, and only leaves that were made in a context and require no
values by their polarity. -/
inductive Plain (ctx : Context) : MatchTree → Prop
  | leaf {l : Leaf} (hm : l.Made ctx) (hv : l.polarity.verifies = false) : Plain ctx (.leaf l)
  | combined {j : Connective} {children : List MatchTree} (h : ∀ t ∈ children, Plain ctx t) :
      Plain ctx (.combined j children)

variable {ctx : Context}

theorem Plain.made {l : Leaf} (h : Plain ctx (.leaf l)) : l.Made ctx := by
  cases h with
  | leaf hm hv => exact hm

theorem Plain.verifies {l : Leaf} (h : Plain ctx (.leaf l)) : l.polarity.verifies = false := by
  cases h with
  | leaf hm hv => exact hv

theorem made_of_plain {t : MatchTree} (h : Plain ctx t) : ∀ l ∈ t.leaves, l.Made ctx := by
  induction h with
  | leaf hm hv => exact fun l hl => List.mem_singleton.1 hl ▸ hm
  | combined _ ih => exact forall_leaves_combined.2 ih

theorem Plain.children {j : Connective} {children : List MatchTree}
    (h : Plain ctx (.combined j children)) : ∀ t ∈ children, Plain ctx t := by
  cases h with
  | combined h => exact h

/-- Whether a tree has no groups, and only leaves that were made in a context. -/
inductive Assembled (ctx : Context) : MatchTree → Prop
  | leaf {l : Leaf} (hm : l.Made ctx) : Assembled ctx (.leaf l)
  | combined {j : Connective} {children : List MatchTree} (h : ∀ t ∈ children, Assembled ctx t) :
      Assembled ctx (.combined j children)

theorem Assembled.made {l : Leaf} (h : Assembled ctx (.leaf l)) : l.Made ctx := by
  cases h with
  | leaf hm => exact hm

theorem Assembled.children {j : Connective} {children : List MatchTree}
    (h : Assembled ctx (.combined j children)) : ∀ t ∈ children, Assembled ctx t := by
  cases h with
  | combined h => exact h

theorem Plain.assembled {t : MatchTree} (h : Plain ctx t) : Assembled ctx t := by
  induction h with
  | leaf hm hv => exact .leaf hm
  | combined _ ih => exact .combined ih

theorem assembled_of_plain {items : List MatchTree} (h : ∀ t ∈ items, Plain ctx t) :
    ∀ t ∈ items, Assembled ctx t :=
  fun t ht => (h t ht).assembled

end MatchTree

/-! ## Levels -/

namespace World

variable {V : Type}

/-- How a tree of a level is read: leaves plainly, everything else with arguments given. -/
def readsItem (ctx : Context) (w : World V) (given : String → Bool) : MatchTree → Bool
  | .leaf l => w.plainly ctx l
  | t => t.holds (w.reads ctx given)

theorem readsItem_leaf (ctx : Context) (w : World V) (given : String → Bool) (l : Leaf) :
    w.readsItem ctx given (.leaf l) = w.plainly ctx l := rfl

theorem readsItem_combined (ctx : Context) (w : World V) (given : String → Bool) (j : Connective)
    (children : List MatchTree) : w.readsItem ctx given (.combined j children) =
      (MatchTree.combined j children).holds (w.reads ctx given) := rfl

end World

namespace MatchTree

/-- Whether a step keeps what a level says: new trees are leaves, guards stay, and all trees are
neutral after the step exactly if they were before. -/
structure SameLevel (ctx : Context) (j : Connective) (items out : List MatchTree) : Prop where
  origin : ∀ t ∈ out, t ∈ items ∨ ∃ l, t = .leaf l ∧ Plain ctx (.leaf l)
  guards : ∀ s : Single, s.isGuard = true → .leaf (.single s) ∈ items → .leaf (.single s) ∈ out
  neutral : ∀ {V : Type} (w : World V), w.Fits ctx → ∀ given,
    (∀ t ∈ out, w.readsItem ctx given t = j.neutral.truth) ↔
      ∀ t ∈ items, w.readsItem ctx given t = j.neutral.truth

variable {ctx : Context} {j : Connective}

theorem SameLevel.refl (items : List MatchTree) : SameLevel ctx j items items where
  origin _ ht := .inl ht
  guards _ _ h := h
  neutral _ _ _ := Iff.rfl

theorem SameLevel.trans {items mid out : List MatchTree} (h : SameLevel ctx j items mid)
    (h' : SameLevel ctx j mid out) : SameLevel ctx j items out where
  origin t ht := (h'.origin t ht).elim (h.origin t) .inr
  guards s hs ht := h'.guards s hs (h.guards s hs ht)
  neutral w hw given := (h'.neutral w hw given).trans (h.neutral w hw given)

theorem SameLevel.plain {items out : List MatchTree} (h : SameLevel ctx j items out)
    (hi : ∀ t ∈ items, Plain ctx t) : ∀ t ∈ out, Plain ctx t := by
  intro t ht
  rcases h.origin t ht with ht | ⟨l, rfl, hl⟩
  · exact hi t ht
  · exact hl

theorem SameLevel.assembled {items out : List MatchTree} (h : SameLevel ctx j items out)
    (hi : ∀ t ∈ items, Assembled ctx t) : ∀ t ∈ out, Assembled ctx t := by
  intro t ht
  rcases h.origin t ht with ht | ⟨l, rfl, hl⟩
  · exact hi t ht
  · exact hl.assembled

end MatchTree

namespace World

variable {V : Type} {ctx : Context} {w : World V} {j : Connective}

/-- Where conditions are merged, a leaf is neutral if it finds nothing. -/
theorem plainly_eq_neutral_of_mergePolarity {l : Leaf}
    (hp : l.polarity = MatchTree.mergePolarity j) (hu : l.isUnknownCheck = false) :
    w.plainly ctx l = j.neutral.truth ↔ w.found ctx l = false := by
  rw [plainly, Leaf.isComplement_eq, hp, hu]
  cases j <;> cases w.found ctx l <;> decide

/-- Where bounds are paired, a leaf is neutral if it finds something. -/
theorem plainly_eq_neutral_of_boundPolarity {l : Leaf}
    (hp : l.polarity = MatchTree.boundPolarity j) (hu : l.isUnknownCheck = false) :
    w.plainly ctx l = j.neutral.truth ↔ w.found ctx l = true := by
  rw [plainly, Leaf.isComplement_eq, hp, hu]
  cases j <;> cases w.found ctx l <;> decide

end World

theorem MatchTree.mergePolarity_verifies (j : Connective) :
    (mergePolarity j).verifies = false := by
  cases j <;> rfl

/-! ## Inclusive bounds -/

namespace MatchTree

variable {ctx : Context} {j : Connective}

theorem op_of_isGuard {s : Single} (h : s.isGuard = true) : s.condition.op = .isUnknown := by
  simp only [Single.isGuard, Single.isUnknownCheck, Bool.and_eq_true, beq_iff_eq] at h
  exact h.1

/-- An element that no other list lacks either. -/
theorem mem_of_forall_ne_iff {α : Type} {xs ys : List α} {a : α}
    (h : (∀ y ∈ ys, y ≠ a) ↔ ∀ x ∈ xs, x ≠ a) (ha : a ∈ xs) : a ∈ ys :=
  Classical.byContradiction fun hn => h.1 (fun _ hy e => hn (e ▸ hy)) a ha rfl

theorem single?_eq_some {t : MatchTree} {s : Single} (h : t.single? = some s) :
    t = .leaf (.single s) := by
  cases t with
  | leaf l =>
    cases l with
    | single s' => rw [Option.some.inj h]
    | multi m => cases h
    | between b => cases h
  | combined j children => cases h
  | group j nodeType children => cases h

/-- A bound and the equality that belongs to it, with their places. -/
theorem boundPair?_eq_some {p : Polarity} {items : List MatchTree} {bound : Single} {i k : Nat}
    (h : boundPair? p items = some (bound, i, k)) :
    ∃ e : Single, items[i]? = some (.leaf (.single bound)) ∧
      items[k]? = some (.leaf (.single e)) ∧ bound.polarity = p ∧ e.polarity = p ∧
      bound.condition.op.isBound = true ∧ e.nodeType = bound.nodeType ∧
      e.condition = { bound.condition with op := .equals } := by
  obtain ⟨⟨t, n⟩, hm, h⟩ := List.exists_of_findSome?_eq_some h
  simp only [Option.pure_def, Option.bind_eq_bind] at h
  obtain ⟨b, hb, h⟩ := Option.bind_eq_some_iff.1 h
  obtain ⟨m, hk, h⟩ := Option.bind_eq_some_iff.1 h
  simp only [Option.some.injEq, Prod.mk.injEq] at h
  obtain ⟨rfl, rfl, rfl⟩ := h
  obtain ⟨hs, hbound⟩ := Option.filter_eq_some_iff.1 hb
  simp only [Bool.and_eq_true, decide_eq_true_eq] at hbound
  obtain ⟨hlt, hp, -⟩ := List.findIdx?_eq_some_iff_getElem.1 hk
  rw [isEqualityOf, Option.any_eq_true] at hp
  obtain ⟨e, he, hp⟩ := hp
  simp only [Bool.and_eq_true, beq_iff_eq] at hp
  obtain ⟨⟨⟨⟨hpol, hop⟩, harg⟩, hnode⟩, hoperand⟩ := hp
  refine ⟨e, ?_, ?_, hbound.1, hpol.trans hbound.1, hbound.2, hnode, ?_⟩
  · rw [← single?_eq_some hs]
    exact List.mem_zipIdx_iff_getElem?.1 hm
  · rw [List.getElem?_eq_getElem hlt, single?_eq_some he]
  · rcases e with ⟨en, ⟨ea, eo, ed⟩, ep, ej⟩
    simp only at hop harg hoperand
    rw [hop, harg, hoperand]

theorem ne_of_boundPair? {p : Polarity} {items : List MatchTree} {bound : Single} {i k : Nat}
    (h : boundPair? p items = some (bound, i, k)) : i ≠ k := by
  obtain ⟨e, hbi, hek, -, -, hbound, -, hcond⟩ := boundPair?_eq_some h
  rintro rfl
  rw [hbi] at hek
  cases hek
  rw [hcond] at hbound
  cases hbound

/-- Two elements that were replaced by one, and what stands around them. -/
theorem exists_of_replace {α : Type} {xs : List α} {x y z : α} {i k : Nat}
    (hi : xs[i]? = some x) (hk : xs[k]? = some y) (hne : i ≠ k) :
    ∃ a b front mid back, xs = front ++ a :: (mid ++ b :: back) ∧
      (xs.set (min i k) z).eraseIdx (max i k) = front ++ z :: (mid ++ back) ∧
      (a = x ∧ b = y ∨ a = y ∧ b = x) := by
  have hordered : ∀ (xs : List α) (x y : α) (i k : Nat), i < k → xs[i]? = some x →
      xs[k]? = some y → ∃ front mid back, xs = front ++ x :: (mid ++ y :: back) ∧
        (xs.set i z).eraseIdx k = front ++ z :: (mid ++ back) := by
    intro xs x y i
    induction i generalizing xs with
    | zero =>
      rintro (_ | k) hlt hx hy
      · omega
      · rcases xs with _ | ⟨c, xs⟩
        · cases hx
        obtain rfl : c = x := by simpa using hx
        rw [List.getElem?_cons_succ] at hy
        obtain ⟨hlt, rfl⟩ := List.getElem?_eq_some_iff.1 hy
        refine ⟨[], xs.take k, xs.drop (k + 1), ?_, ?_⟩
        · simp
        · simp [List.eraseIdx_eq_take_drop_succ]
    | succ i ih =>
      rintro (_ | k) hlt hx hy
      · omega
      · rcases xs with _ | ⟨c, xs⟩
        · cases hx
        rw [List.getElem?_cons_succ] at hx hy
        obtain ⟨front, mid, back, hxs, hset⟩ := ih xs k (by omega) hx hy
        exact ⟨c :: front, mid, back, by rw [hxs]; rfl,
          by rw [List.set_cons_succ, List.eraseIdx_cons_succ, hset]; rfl⟩
  rcases Nat.lt_or_gt_of_ne hne with hlt | hlt
  · obtain ⟨front, mid, back, hxs, hset⟩ := hordered xs x y i k hlt hi hk
    rw [Nat.min_eq_left (Nat.le_of_lt hlt), Nat.max_eq_right (Nat.le_of_lt hlt)]
    exact ⟨x, y, front, mid, back, hxs, hset, .inl ⟨rfl, rfl⟩⟩
  · obtain ⟨front, mid, back, hxs, hset⟩ := hordered xs y x k i hlt hk hi
    rw [Nat.min_eq_right (Nat.le_of_lt hlt), Nat.max_eq_left (Nat.le_of_lt hlt)]
    exact ⟨y, x, front, mid, back, hxs, hset, .inr ⟨rfl, rfl⟩⟩

/-- All elements have a property after two of them were replaced by one, if it stands for both. -/
theorem forall_mem_replace {α : Type} {P : α → Prop} {xs : List α} {x y z : α} {i k : Nat}
    (hi : xs[i]? = some x) (hk : xs[k]? = some y) (hne : i ≠ k) (hz : P z ↔ P x ∧ P y) :
    (∀ a ∈ (xs.set (min i k) z).eraseIdx (max i k), P a) ↔ ∀ a ∈ xs, P a := by
  obtain ⟨a, b, front, mid, back, hxs, hset, hab⟩ := exists_of_replace (z := z) hi hk hne
  have hz : P z ↔ P a ∧ P b := by
    rcases hab with ⟨rfl, rfl⟩ | ⟨rfl, rfl⟩
    · exact hz
    · rw [hz, and_comm]
  rw [hset, hxs]
  simp only [List.forall_mem_append, List.forall_mem_cons, hz]
  grind

/-- Several conditions on the argument of a leaf, on its node type, make a plain leaf. -/
theorem plain_multi {l : Leaf} (hl : l.Made ctx) {c : Condition} {cs : List Condition}
    {p : Polarity} {m : Multi} (hc : c.arg = l.arg) (hv : p.verifies = false)
    (h : ctx.multi l.nodeType c cs p = .ok m) :
    Plain ctx (.leaf (.multi m)) ∧ m.polarity = p ∧
      (∀ x, x ∈ m.members ↔ x ∈ c :: cs) ∧ ∀ x ∈ c :: cs, x.op ≠ .isUnknown := by
  obtain ⟨a, ha, hn, -⟩ := hl.assignment
  have hmade : (Leaf.multi m).Made ctx := .multi (hc.symm ▸ ha) (hn ▸ h)
  obtain ⟨-, hmem, -, -, -, -, hp, -⟩ := Multi.make_eq_ok (Context.multi_eq_ok h).2
  have hx : ∀ x, x ∈ m.members ↔ x ∈ c :: cs := fun x => by rw [hmem, Multi.mem_canonical]
  exact ⟨.leaf hmade (by rw [Leaf.polarity, hp, hv]), hp, hx,
    fun x h => (hmade.members.1 x ((hx x).2 h)).2.1⟩

/-- Merging one bound with its equality keeps what a level says. -/
theorem sameLevel_boundPair {items : List MatchTree} {bound : Single} {i k : Nat} {m : Multi}
    (hi : ∀ t ∈ items, Assembled ctx t)
    (h : boundPair? (mergePolarity j) items = some (bound, i, k))
    (hm : ctx.multi bound.nodeType bound.condition [{ bound.condition with op := .equals }]
      (mergePolarity j) = .ok m) :
    SameLevel ctx j items ((items.set (min i k) (.leaf (.multi m))).eraseIdx (max i k)) := by
  obtain ⟨e, hbi, hek, hbp, hep, hbound, hnode, hcond⟩ := boundPair?_eq_some h
  have hplain := hi _ (List.mem_of_getElem? hbi)
  obtain ⟨hmp, hpol, hmem, hop⟩ := plain_multi (l := .single bound) hplain.made rfl
    (mergePolarity_verifies j) hm
  have hne := ne_of_boundPair? h
  have hbop : bound.condition.op ≠ .isUnknown := hop _ List.mem_cons_self
  have heop : e.condition.op ≠ .isUnknown := by rw [hcond]; exact nofun
  constructor
  · intro t ht
    rcases List.mem_or_eq_of_mem_set (List.mem_of_mem_eraseIdx ht) with ht | rfl
    · exact .inl ht
    · exact .inr ⟨_, rfl, hmp⟩
  · intro s hs
    refine mem_of_forall_ne_iff (forall_mem_replace hbi hek hne ⟨fun _ => ⟨?_, ?_⟩, nofun⟩)
    · rintro ⟨⟩
      exact hbop (op_of_isGuard hs)
    · rintro ⟨⟩
      exact heop (op_of_isGuard hs)
  · intro V w _ given
    refine forall_mem_replace hbi hek hne ?_
    -- Of these leaves each finds what one of its conditions does.
    have hfound : w.found ctx (.multi m) = true ↔
        w.found ctx (.single bound) = true ∨ w.found ctx (.single e) = true := by
      rw [World.found_multi fun c hc => hop c ((hmem c).1 hc), World.found_single hbop,
        World.found_single heop, hcond]
      simp [hmem]
    simp only [World.readsItem]
    rw [World.plainly_eq_neutral_of_mergePolarity (l := .multi m) hpol rfl,
      World.plainly_eq_neutral_of_mergePolarity (l := .single bound) hbp
        (Leaf.isUnknownCheck_single.2 hbop),
      World.plainly_eq_neutral_of_mergePolarity (l := .single e) hep
        (Leaf.isUnknownCheck_single.2 heop)]
    simp only [Bool.eq_false_iff, ne_eq, hfound, not_or]

/-- Merging bounds with their equalities keeps what a level says. -/
theorem sameLevel_mergeBoundPairs {items out : List MatchTree} (hi : ∀ t ∈ items, Assembled ctx t)
    (h : mergeBoundPairs ctx (mergePolarity j) items = .ok out) : SameLevel ctx j items out := by
  fun_induction mergeBoundPairs ctx (mergePolarity j) items with
  | case1 items hpair => exact Except.ok.inj h ▸ .refl items
  | case2 items bound i k hpair equality ih =>
    obtain ⟨m, hm, h⟩ := bind_eq_ok.1 h
    have hstep := sameLevel_boundPair hi hpair hm
    exact hstep.trans (ih m (hstep.assembled hi) h)

/-! ## Whole days -/

/-- What a date is compared with by whole days, leaves find alike. -/
theorem alignDays_eq_ok {t t' : MatchTree} (ht : Assembled ctx t) (h : alignDays ctx t = .ok t') :
    t' = t ∨ ∃ l l', t = .leaf l ∧ t' = .leaf l' ∧ Plain ctx (.leaf l') ∧
      l'.polarity = l.polarity ∧ l.isUnknownCheck = false ∧ l'.isUnknownCheck = false ∧
      ∀ {V : Type} (w : World V), w.found ctx l' = w.found ctx l := by
  cases t with
  | combined i children => exact .inl (pure_eq_ok.1 h).symm
  | group i nodeType children => exact .inl (pure_eq_ok.1 h).symm
  | leaf l =>
    obtain ⟨aligned, ha, h⟩ := bind_eq_ok.1 h
    split at h
    · next hal =>
      have ha := liftError_eq_ok.1 ha
      rw [hal] at ha
      split at h
      · next s =>
        split at h
        · next value hop hv =>
          obtain ⟨b, rfl, hb, hp, hf⟩ := World.found_alignEquality h ht.made hop hv ha
          have hv : b.polarity.verifies = false := hb.bounds.2.2.2.2.2.2.2
          refine .inr ⟨_, _, rfl, rfl, .leaf hb hv, hp, ?_, rfl, hf⟩
          exact Leaf.isUnknownCheck_single.2 (by rw [hop]; exact nofun)
        · exact .inl (pure_eq_ok.1 h).symm
      · next m =>
        split at h
        · next hs =>
          obtain ⟨s, rfl, hsm, hp, hop, hf⟩ := World.found_alignBound h ht.made hs ha
          have hv : s.polarity.verifies = false := by
            rw [hp, Bool.eq_false_iff]
            intro hv
            have href := ht.made.members.2.2 hv
            rw [hs] at href
            cases href
          exact .inr ⟨_, _, rfl, rfl, .leaf hsm hv, hp, rfl, Leaf.isUnknownCheck_single.2 hop, hf⟩
        · exact .inl (pure_eq_ok.1 h).symm
      · exact .inl (pure_eq_ok.1 h).symm
    · exact .inl (pure_eq_ok.1 h).symm

/-- Comparing by whole days keeps what a level says. -/
theorem sameLevel_alignDays {items out : List MatchTree} (hi : ∀ t ∈ items, Assembled ctx t)
    (h : items.mapM (alignDays ctx) = .ok out) : SameLevel ctx j items out := by
  have hread : ∀ t ∈ items, ∀ t', alignDays ctx t = .ok t' → ∀ {V : Type} (w : World V) given,
      w.readsItem ctx given t' = w.readsItem ctx given t := by
    intro t ht t' h' V w given
    rcases alignDays_eq_ok (hi t ht) h' with rfl | ⟨l, l', rfl, rfl, -, hp, hu, hu', hf⟩
    · rfl
    · simp only [World.readsItem, World.plainly, hf w, Leaf.isComplement_eq, hp, hu, hu']
  constructor
  · intro t' ht'
    obtain ⟨t, ht, h'⟩ := mem_of_mapM_eq_ok h ht'
    rcases alignDays_eq_ok (hi t ht) h' with rfl | ⟨l, l', rfl, rfl, hl', -⟩
    · exact .inl ht
    · exact .inr ⟨l', rfl, hl'⟩
  · intro s hs ht
    obtain ⟨t', ht', h'⟩ := exists_of_mapM_eq_ok h ht
    rcases alignDays_eq_ok (hi _ ht) h' with rfl | ⟨_, l', ⟨⟩, rfl, -, -, hu, -⟩
    · exact ht'
    · exact absurd (op_of_isGuard hs) (Leaf.isUnknownCheck_single.1 hu)
  · intro V w _ given
    constructor
    · intro hall t ht
      obtain ⟨t', ht', h'⟩ := exists_of_mapM_eq_ok h ht
      rw [← hread t ht t' h' w given]
      exact hall t' ht'
    · intro hall t' ht'
      obtain ⟨t, ht, h'⟩ := mem_of_mapM_eq_ok h ht'
      rw [hread t ht t' h' w given]
      exact hall t ht

/-! ## Bounds on either side -/

theorem boundArg?_eq_some {p : Polarity} {t : MatchTree} {arg : String}
    (h : boundArg? p t = some arg) :
    ∃ l, t = .leaf l ∧ l.polarity = p ∧ l.arg = arg ∧ l.isUnknownCheck = false := by
  cases t with
  | combined i children => cases h
  | group i nodeType children => cases h
  | leaf l =>
    cases l with
    | between b => cases h
    | single s =>
      simp only [boundArg?, Option.ite_none_right_eq_some, Option.some.injEq] at h
      obtain ⟨⟨hp, hb, -⟩, ha⟩ := h
      refine ⟨_, rfl, hp, ha, Leaf.isUnknownCheck_single.2 fun hop => ?_⟩
      rw [hop] at hb
      cases hb
    | multi m =>
      simp only [boundArg?, Option.ite_none_right_eq_some, Option.some.injEq] at h
      exact ⟨_, rfl, h.1.1, h.2, rfl⟩

/-- A bound that can be strict or inclusive finds what it was made from. -/
theorem toMulti?_eq_ok {l : Leaf} {m : Multi} (hl : Plain ctx (.leaf l))
    (h : toMulti? ctx (.leaf l) = .ok (some m)) :
    Plain ctx (.leaf (.multi m)) ∧ m.polarity = l.polarity ∧ m.arg = l.arg ∧
      ∀ {V : Type} (w : World V), w.found ctx (.multi m) = w.found ctx l := by
  cases l with
  | between b => cases h
  | multi m' =>
    cases h
    exact ⟨hl, rfl, rfl, fun w => rfl⟩
  | single s =>
    obtain ⟨m', hm, h⟩ := map_eq_ok.1 h
    cases h
    obtain ⟨hplain, hp, hmem, hop⟩ := plain_multi (l := .single s) hl.made rfl hl.verifies hm
    have hop := hop _ List.mem_cons_self
    refine ⟨hplain, hp, ?_, fun w => ?_⟩
    · rw [Multi.arg, (List.cons.inj (Context.members_of_multi hm).1).1]
      rfl
    · rw [Bool.eq_iff_iff,
        World.found_multi fun c hc => (List.mem_singleton.1 ((hmem c).1 hc)) ▸ hop,
        World.found_single hop]
      simp [hmem]

theorem pairBounds_eq_ok {arg : String} {bounds : List MatchTree} {r : MatchTree}
    (h : pairBounds ctx arg bounds = .ok (some r)) :
    ∃ x y lower upper b, isSingleValued ctx arg = .ok true ∧
      ctx.between lower upper = .ok b ∧ r = .leaf (.between b) ∧
      toMulti? ctx x = .ok (some lower) ∧ toMulti? ctx y = .ok (some upper) ∧
      (bounds = [x, y] ∨ bounds = [y, x]) := by
  unfold pairBounds at h
  split at h
  · next x y =>
    obtain ⟨single, hs, h⟩ := bind_eq_ok.1 h
    split at h
    · next hsingle =>
      have hs := liftError_eq_ok.1 hs
      rw [hsingle] at hs
      obtain ⟨x?, hx, h⟩ := bind_eq_ok.1 h
      obtain ⟨y?, hy, h⟩ := bind_eq_ok.1 h
      rcases x? with _ | a
      · cases h
      rcases y? with _ | b
      · cases h
      simp only at h
      split at h
      · obtain ⟨pair, hb, hr⟩ := map_eq_ok.1 h
        exact ⟨x, y, a, b, pair, hs, hb, (Option.some.inj hr).symm, hx, hy, .inl rfl⟩
      split at h
      · obtain ⟨pair, hb, hr⟩ := map_eq_ok.1 h
        exact ⟨y, x, b, a, pair, hs, hb, (Option.some.inj hr).symm, hy, hx, .inr rfl⟩
      · cases h
    · cases h
  · cases h

/-- Two bounds as one leaf say what both of them do. -/
theorem neutral_pairBounds {arg : String} {bounds : List MatchTree} {r : MatchTree}
    (hb : ∀ t ∈ bounds, Assembled ctx t ∧ boundArg? (boundPolarity j) t = some arg)
    (h : pairBounds ctx arg bounds = .ok (some r)) :
    (∃ l, r = .leaf l ∧ Plain ctx (.leaf l)) ∧
      ∀ {V : Type} (w : World V), w.Fits ctx → ∀ given,
        w.readsItem ctx given r = j.neutral.truth ↔
          ∀ t ∈ bounds, w.readsItem ctx given t = j.neutral.truth := by
  obtain ⟨x, y, lower, upper, b, hs, hbetween, rfl, hx, hy, hxy⟩ := pairBounds_eq_ok h
  have hmem : ∀ t, t ∈ bounds ↔ t = x ∨ t = y := by
    rcases hxy with rfl | rfl
    · simp
    · simp [or_comm]
  obtain ⟨hxp, hxb⟩ := hb x ((hmem x).2 (.inl rfl))
  obtain ⟨hyp, hyb⟩ := hb y ((hmem y).2 (.inr rfl))
  obtain ⟨lx, rfl, hlxp, rfl, hlxu⟩ := boundArg?_eq_some hxb
  obtain ⟨ly, rfl, hlyp, hlya, hlyu⟩ := boundArg?_eq_some hyb
  have hv : (boundPolarity j).verifies = false := by cases j <;> rfl
  obtain ⟨hlower, hlp, hla, hlf⟩ := toMulti?_eq_ok (.leaf hxp.made (hlxp ▸ hv)) hx
  obtain ⟨hupper, -, -, huf⟩ := toMulti?_eq_ok (.leaf hyp.made (hlyp ▸ hv)) hy
  have hmade : (Leaf.between b).Made ctx := .between hlower.made hupper.made hbetween
  obtain ⟨-, -, -, -, -, hv, he⟩ := Between.make_eq_ok (Context.between_eq_ok hbetween).2
  obtain rfl : b.lower = lower := congrArg Between.lower he
  obtain rfl : b.upper = upper := congrArg Between.upper he
  refine ⟨⟨_, rfl, .leaf hmade hv⟩, fun w hw given => ?_⟩
  simp only [hmem, forall_eq_or_imp, forall_eq, World.readsItem]
  rw [World.plainly_eq_neutral_of_boundPolarity (l := .between b) (hlp.trans hlxp) rfl,
    World.plainly_eq_neutral_of_boundPolarity hlxp hlxu,
    World.plainly_eq_neutral_of_boundPolarity hlyp hlyu, ← hlf w, ← huf w]
  exact World.found_between hw hmade (by rw [Between.arg, hla]; exact hs)

/-- Pairing bounds keeps what a level says. -/
theorem sameLevel_mergeBounds {items out : List MatchTree} (hi : ∀ t ∈ items, Assembled ctx t)
    (h : mergeBounds ctx (boundPolarity j) items = .ok out) : SameLevel ctx j items out := by
  have hclass : ∀ arg, ∀ t ∈ Classes.members (items.map fun t =>
      (boundArg? (boundPolarity j) t, t)) arg,
      Assembled ctx t ∧ boundArg? (boundPolarity j) t = some arg := by
    intro arg t ht
    obtain ⟨t', ht', he⟩ := List.mem_map.1 (Classes.mem_members.1 ht)
    simp only [Prod.mk.injEq] at he
    obtain ⟨hk, rfl⟩ := he
    exact ⟨hi t' ht', hk⟩
  constructor
  · intro t ht
    rcases Classes.mem_merge h ht with ⟨p, hp, rfl⟩ | ⟨arg, hr⟩
    · obtain ⟨t', ht', rfl⟩ := List.mem_map.1 hp
      exact .inl ht'
    · exact .inr (neutral_pairBounds (hclass arg) hr).1
  · intro s hs ht
    refine mem_of_forall_ne_iff ?_ ht
    rw [Classes.forall_merge h fun arg r hr => ?_, List.forall_mem_map]
    obtain ⟨-, -, -, -, b, -, -, rfl, -⟩ := pairBounds_eq_ok hr
    refine ⟨fun _ t ht e => ?_, fun _ => nofun⟩
    obtain ⟨l, rfl, -, -, hu⟩ := boundArg?_eq_some (hclass arg t ht).2
    cases e
    exact Leaf.isUnknownCheck_single.1 hu (op_of_isGuard hs)
  · intro V w hw given
    rw [Classes.forall_merge h fun arg r hr => (neutral_pairBounds (hclass arg) hr).2 w hw given]
    exact List.forall_mem_map

/-! ## Several values -/

theorem mem_filterMap_leaf? {trees : List MatchTree} {l : Leaf} :
    l ∈ trees.filterMap leaf? ↔ .leaf l ∈ trees := by
  rw [List.mem_filterMap]
  constructor
  · rintro ⟨t, ht, he⟩
    cases t with
    | leaf l' => exact Option.some.inj he ▸ ht
    | combined i children => cases he
    | group i nodeType children => cases he
  · intro ht
    exact ⟨_, ht, rfl⟩

/-- A tree with a key is a leaf of equalities, or of snippets, that finds what one of its
conditions does. -/
theorem valueKey?_eq_some {p : Polarity} {t : MatchTree} {key : String × Operator}
    (ht : Assembled ctx t) (h : valueKey? p t = some key) :
    ∃ l, t = .leaf l ∧ l.polarity = p ∧ l.arg = key.1 ∧ l.isUnknownCheck = false ∧
      (key.2 = .equals ∨ key.2 = .contains) ∧
      (∀ c ∈ l.conditions, c.arg = key.1 ∧ c.op = key.2 ∧ c.value?.isSome) ∧
      ∀ {V : Type} (w : World V),
        w.found ctx l = true ↔ ∃ c ∈ l.conditions, w.satisfies ctx c = true := by
  cases t with
  | combined i children => cases h
  | group i nodeType children => cases h
  | leaf l =>
    cases l with
    | between b => cases h
    | single s =>
      simp only [valueKey?, Option.ite_none_right_eq_some, Option.some.injEq] at h
      obtain ⟨⟨hp, hop, hv⟩, rfl⟩ := h
      have hu : s.condition.op ≠ .isUnknown := by
        rcases hop with hop | hop <;> rw [hop] <;> exact nofun
      refine ⟨_, rfl, hp, rfl, Leaf.isUnknownCheck_single.2 hu, hop, ?_, fun w => ?_⟩
      · simpa [Leaf.conditions] using hv
      · rw [World.found_single hu]
        simp [Leaf.conditions]
    | multi m =>
      simp only [valueKey?, Option.ite_none_right_eq_some, Option.some.injEq] at h
      obtain ⟨⟨hp, hs⟩, rfl⟩ := h
      obtain ⟨hm, htogether, -⟩ := ht.made.members
      obtain ⟨hop, hall⟩ := htogether.values_of_shape hs
      refine ⟨_, rfl, hp, rfl, rfl, hop, fun c hc => ⟨(hm c hc).1, hall c hc⟩, fun w => ?_⟩
      exact World.found_multi fun c hc => (hm c hc).2.1

theorem mergeMembers_eq_ok {p : Polarity} {trees : List MatchTree} {r : MatchTree}
    (h : mergeMembers ctx p trees = .ok (some r)) :
    ∃ first c cs m, first ∈ trees.filterMap leaf? ∧
      (trees.filterMap leaf?).flatMap Leaf.conditions = c :: cs ∧
      ctx.multi first.nodeType c cs p = .ok m ∧ r = .leaf (.multi m) := by
  unfold mergeMembers at h
  split at h
  · next first second rest hl =>
    split at h
    · next c cs hc =>
      obtain ⟨m, hm, h⟩ := bind_eq_ok.1 h
      refine ⟨first, c, cs, m, ?_, hl ▸ hc, hm, (Option.some.inj (pure_eq_ok.1 h)).symm⟩
      rw [hl]
      exact List.mem_cons_self
    · cases h
  · cases h

/-- Conditions on one argument as one leaf say what all of them do. -/
theorem neutral_mergeMembers {key : String × Operator} {trees : List MatchTree} {r : MatchTree}
    (hk : ∀ t ∈ trees, Assembled ctx t ∧ valueKey? (mergePolarity j) t = some key)
    (h : mergeMembers ctx (mergePolarity j) trees = .ok (some r)) :
    (∃ l, r = .leaf l ∧ Plain ctx (.leaf l)) ∧
      ∀ {V : Type} (w : World V) given,
        w.readsItem ctx given r = j.neutral.truth ↔
          ∀ t ∈ trees, w.readsItem ctx given t = j.neutral.truth := by
  obtain ⟨first, c, cs, m, hfirst, hconds, hm, rfl⟩ := mergeMembers_eq_ok h
  have hcond : ∀ x, x ∈ c :: cs ↔ ∃ l, .leaf l ∈ trees ∧ x ∈ l.conditions := by
    intro x
    simp only [← hconds, List.mem_flatMap, mem_filterMap_leaf?]
  obtain ⟨hfp, hfk⟩ := hk _ (mem_filterMap_leaf?.1 hfirst)
  obtain ⟨_, ⟨⟩, -, hfa, -⟩ := valueKey?_eq_some hfp hfk
  have hc : c.arg = first.arg := by
    obtain ⟨l, hl, hcl⟩ := (hcond c).1 List.mem_cons_self
    obtain ⟨hlp, hlk⟩ := hk _ hl
    obtain ⟨_, ⟨⟩, -, -, -, -, hargs, -⟩ := valueKey?_eq_some hlp hlk
    rw [(hargs c hcl).1, hfa]
  obtain ⟨hplain, hp, hmem, hop⟩ := plain_multi hfp.made hc (mergePolarity_verifies j) hm
  refine ⟨⟨_, rfl, hplain⟩, fun w given => ?_⟩
  have hfound : w.found ctx (.multi m) = true ↔ ∃ l, .leaf l ∈ trees ∧ w.found ctx l = true := by
    rw [World.found_multi fun x hx => hop x ((hmem x).1 hx)]
    simp only [hmem, hcond]
    constructor
    · rintro ⟨x, ⟨l, hl, hx⟩, hs⟩
      obtain ⟨_, ⟨⟩, -, -, -, -, -, hf⟩ := valueKey?_eq_some (hk _ hl).1 (hk _ hl).2
      exact ⟨l, hl, (hf w).2 ⟨x, hx, hs⟩⟩
    · rintro ⟨l, hl, hlf⟩
      obtain ⟨_, ⟨⟩, -, -, -, -, -, hf⟩ := valueKey?_eq_some (hk _ hl).1 (hk _ hl).2
      obtain ⟨x, hx, hs⟩ := (hf w).1 hlf
      exact ⟨x, ⟨l, hl, hx⟩, hs⟩
  have htree : ∀ t ∈ trees, ∃ l, t = .leaf l ∧
      (w.plainly ctx l = j.neutral.truth ↔ w.found ctx l = false) := by
    intro t ht
    obtain ⟨l, rfl, hlp, -, hlu, -⟩ := valueKey?_eq_some (hk t ht).1 (hk t ht).2
    exact ⟨l, rfl, World.plainly_eq_neutral_of_mergePolarity hlp hlu⟩
  rw [World.readsItem, World.plainly_eq_neutral_of_mergePolarity (l := .multi m) hp rfl,
    Bool.eq_false_iff, ne_eq, hfound]
  constructor
  · intro hnone t ht
    obtain ⟨l, rfl, hl⟩ := htree t ht
    rw [World.readsItem, hl, Bool.eq_false_iff]
    exact fun hf => hnone ⟨l, ht, hf⟩
  · rintro hall ⟨l, ht, hf⟩
    obtain ⟨_, ⟨⟩, hl⟩ := htree _ ht
    rw [hl.1 (hall _ ht)] at hf
    cases hf

theorem mergeKey?_eq_ok {p : Polarity} {t : MatchTree} {key : String × Operator}
    (h : mergeKey? ctx p t = .ok (some key)) : valueKey? p t = some key := by
  unfold mergeKey? at h
  split at h
  · next arg hk =>
    obtain ⟨aligned, -, h⟩ := bind_eq_ok.1 h
    have h := pure_eq_ok.1 h
    split at h
    · cases h
    · rw [hk, h]
  · exact pure_eq_ok.1 h

/-- The members of a class are assembled and have its key. -/
theorem mem_valueClass {p : Polarity} {items : List MatchTree}
    {keyed : List (Option (String × Operator) × MatchTree)} (hi : ∀ t ∈ items, Assembled ctx t)
    (h : (items.mapM fun t => (mergeKey? ctx p t).map fun key => (key, t)) = .ok keyed)
    (key : String × Operator) :
    ∀ t ∈ Classes.members keyed key, Assembled ctx t ∧ valueKey? p t = some key := by
  intro t ht
  obtain ⟨hti, hk⟩ := Classes.mem_keyed h _ (Classes.mem_members.1 ht)
  exact ⟨hi t hti, mergeKey?_eq_ok hk⟩

/-- Merging values keeps what a level says. -/
theorem sameLevel_mergeValues {items out : List MatchTree} (hi : ∀ t ∈ items, Assembled ctx t)
    (h : mergeValues ctx (mergePolarity j) items = .ok out) : SameLevel ctx j items out := by
  obtain ⟨keyed, hkeyed, h⟩ := bind_eq_ok.1 h
  have hmem := Classes.mem_keyed hkeyed
  have hclass := mem_valueClass hi hkeyed
  constructor
  · intro t ht
    rcases Classes.mem_merge h ht with ⟨p, hp, rfl⟩ | ⟨key, hr⟩
    · exact .inl (hmem p hp).1
    · exact .inr (neutral_mergeMembers (hclass key) hr).1
  · intro s hs ht
    refine mem_of_forall_ne_iff ((Classes.forall_merge h fun key r hr => ?_).trans
      (Classes.forall_keyed (P := (· ≠ .leaf (.single s))) hkeyed)) ht
    obtain ⟨-, -, -, m, -, -, -, rfl⟩ := mergeMembers_eq_ok hr
    refine ⟨fun _ t ht e => ?_, fun _ => nofun⟩
    obtain ⟨l, rfl, -, -, hu, -⟩ := valueKey?_eq_some (hclass key t ht).1 (hclass key t ht).2
    cases e
    exact Leaf.isUnknownCheck_single.1 hu (op_of_isGuard hs)
  · intro V w _ given
    rw [Classes.forall_merge h fun key r hr => (neutral_mergeMembers (hclass key) hr).2 w given]
    exact Classes.forall_keyed (P := (w.readsItem ctx given · = j.neutral.truth)) hkeyed

end MatchTree

end AudienceFilter
