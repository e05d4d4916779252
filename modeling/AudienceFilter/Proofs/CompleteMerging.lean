import AudienceFilter.Proofs.RestReached
import AudienceFilter.Proofs.TreeMeaning

/-!
# Consolidation merges completely

After consolidation no level holds conditions that could still be merged. What a level at rest says
about the steps of consolidation, `FullyMerged` says about the leaves themselves.

* `FullyMerged`: what cannot stand beside each other;
* `Collected`: values under one key stand in one leaf on every level;
* `collected_consolidateLevel`, `collected_consolidated`: one level and whole trees;
* `fullyMerged_of_level`, `AtRest.fullyMerged`: levels that are at rest and collected.
-/

namespace AudienceFilter.MatchTree

/-! ## Merged levels, by their leaves -/

/-- Whether a leaf of the given polarity compares an argument with values by an operator, be it
one value or several. -/
def ComparesValues (p : Polarity) (arg : String) (op : Operator) : MatchTree → Prop
  | .leaf (.single s) =>
    s.polarity = p ∧ s.condition.arg = arg ∧ s.condition.op = op ∧ s.condition.value?.isSome
  | .leaf (.multi m) => m.polarity = p ∧ m.arg = arg ∧ m.leadOp = op ∧ m.shape = .values
  | _ => False

/-- The operator of a bound by a value, strict or inclusive, that a leaf of the given polarity puts
on an argument. -/
def boundOp? (p : Polarity) (arg : String) : MatchTree → Option Operator
  | .leaf (.single s) =>
    if s.polarity = p ∧ s.condition.arg = arg ∧ s.condition.op.isBound ∧
        s.condition.value?.isSome then
      some s.condition.op
    else none
  | .leaf (.multi m) =>
    if m.polarity = p ∧ m.arg = arg ∧ m.shape = .valueOrEqual then some m.leadOp else none
  | _ => none

/-- What is merged on a level: nothing is left that could be. -/
structure FullyMerged (ctx : Context) (j : Connective) (children : List MatchTree) : Prop where
  /-- No member is a combination of the same kind. -/
  flat : ∀ inner, .combined j inner ∉ children
  /-- The values that an argument is compared with by one operator stand in one leaf. -/
  values : ∀ arg op, op = .equals ∨ op = .contains → children.Pairwise fun x y =>
    ComparesValues (mergePolarity j) arg op x → ¬ComparesValues (mergePolarity j) arg op y
  /-- No bound stands beside the equality with its operand. -/
  inclusive : ∀ b e : Single, .leaf (.single b) ∈ children → .leaf (.single e) ∈ children →
    b.polarity = mergePolarity j → e.polarity = mergePolarity j →
    b.condition.op.isBound = true → e.condition.op = .equals →
    e.condition.arg = b.condition.arg → e.condition.operand ≠ b.condition.operand
  /-- The bounds of an argument with one value are not two, one on either side. -/
  ranges : ∀ arg, isSingleValued ctx arg = .ok true →
    children.filterMap (boundOp? (boundPolarity j) arg) ≠ [.greaterThan, .lessThan] ∧
      children.filterMap (boundOp? (boundPolarity j) arg) ≠ [.lessThan, .greaterThan]

variable {ctx : Context} {j : Connective} {covered : List String} {items out : List MatchTree}

/-! ## Collected values -/

/-- Whether a leaf of several equalities is on an argument that is not compared by whole days:
days become bounds before they could be collected. -/
def DaysApart (ctx : Context) (l : Leaf) : Prop :=
  ∀ m, l = .multi m → m.shape = .values → m.leadOp = .equals →
    ctx.alignsDaysOf m.arg = .ok false

/-- Whether no two trees of a level could be merged as values. -/
def KeysApart (ctx : Context) (j : Connective) (items : List MatchTree) : Prop :=
  items.Pairwise fun x y => ∀ key, mergeKey? ctx (mergePolarity j) x = .ok (some key) →
    mergeKey? ctx (mergePolarity j) y ≠ .ok (some key)

/-- Whether all values that could be merged are, on every level of a tree. -/
inductive Collected (ctx : Context) : MatchTree → Prop
  | leaf {l : Leaf} (h : DaysApart ctx l) : Collected ctx (.leaf l)
  | combined {j : Connective} {children : List MatchTree} (h : KeysApart ctx j children)
      (hc : ∀ t ∈ children, Collected ctx t) : Collected ctx (.combined j children)

theorem collected_single (s : Single) : Collected ctx (.leaf (.single s)) := by
  refine .leaf fun m hm => ?_
  cases hm

theorem collected_between (b : Between) : Collected ctx (.leaf (.between b)) := by
  refine .leaf fun m hm => ?_
  cases hm

theorem collected_unknown {arg : String} {u : MatchTree}
    (h : ctx.singleTree (.unknown arg) .positive = .ok u) : Collected ctx u := by
  obtain ⟨⟨s, rfl, -⟩, -⟩ := unknown_idle h
  exact collected_single s

theorem collected_opened {t x : MatchTree} (ht : Collected ctx t) (hx : x ∈ opened j t) :
    Collected ctx x := by
  cases ht with
  | leaf h => exact List.mem_singleton.1 hx ▸ .leaf h
  | @combined i children h hc =>
    by_cases hi : i = j
    · subst hi
      exact hc x (opened_combined_self i children ▸ hx)
    · rw [opened_combined_of_ne hi, List.mem_singleton] at hx
      exact hx ▸ .combined h hc

/-! ## One level -/

theorem shape_of_isBound {nodeType : String} {c : Condition} {cs : List Condition} {p : Polarity}
    {m : Multi} (h : ctx.multi nodeType c cs p = .ok m) (hb : c.op.isBound = true) :
    m.shape ≠ .values := by
  intro hs
  obtain ⟨-, hmem, -, hclass, -⟩ := Multi.make_eq_ok (Context.multi_eq_ok h).2
  obtain ⟨hop, hall⟩ := (Multi.classify_cases hclass).2.values_of_shape hs
  have hc : c ∈ m.members := hmem ▸ Multi.mem_canonical.2 List.mem_cons_self
  rw [(hall c hc).1] at hb
  rcases hop with hop | hop <;> rw [hop] at hb <;> cases hb

theorem collected_mergeBoundPairs {p : Polarity} (hc : ∀ t ∈ items, Collected ctx t)
    (h : mergeBoundPairs ctx p items = .ok out) : ∀ t ∈ out, Collected ctx t := by
  fun_induction mergeBoundPairs ctx p items with
  | case1 items hpair => exact Except.ok.inj h ▸ hc
  | case2 items bound i k hpair equality ih =>
    obtain ⟨m, hm, h⟩ := bind_eq_ok.1 h
    obtain ⟨-, -, -, -, -, hbound, -⟩ := boundPair?_eq_some hpair
    refine ih m (fun t ht => ?_) h
    rcases List.mem_or_eq_of_mem_set (List.mem_of_mem_eraseIdx ht) with ht | rfl
    · exact hc t ht
    · refine .leaf fun m' hm' hs => ?_
      cases hm'
      exact absurd hs (shape_of_isBound hm hbound)

theorem collected_alignDays (hc : ∀ t ∈ items, Collected ctx t)
    (h : items.mapM (alignDays ctx) = .ok out) : ∀ t ∈ out, Collected ctx t := by
  intro t' ht'
  obtain ⟨t, ht, h'⟩ := mem_of_mapM_eq_ok h ht'
  rcases alignDays_changed h' with rfl | ⟨b, rfl⟩ | ⟨s, rfl, -⟩
  · exact hc t' ht
  · exact collected_between b
  · exact collected_single s

theorem collected_mergeBounds {p : Polarity} (hc : ∀ t ∈ items, Collected ctx t)
    (h : mergeBounds ctx p items = .ok out) : ∀ t ∈ out, Collected ctx t := by
  intro t ht
  rcases mem_mergeBounds h t ht with ht | ⟨b, rfl⟩
  · exact hc t ht
  · exact collected_between b

/-- Equalities with a key are not compared by whole days. -/
theorem alignsDaysOf_of_mergeKey? {p : Polarity} {t : MatchTree} {arg : String}
    (h : mergeKey? ctx p t = .ok (some (arg, .equals))) : ctx.alignsDaysOf arg = .ok false := by
  have hk := mergeKey?_eq_ok h
  rw [mergeKey?, hk] at h
  obtain ⟨aligned, ha, h⟩ := bind_eq_ok.1 h
  cases aligned with
  | true => cases h
  | false => exact liftError_eq_ok.1 ha

theorem collected_mergeValues {p : Polarity} (hi : ∀ t ∈ items, Assembled ctx t)
    (hc : ∀ t ∈ items, Collected ctx t) (hv : p.verifies = false)
    (h : mergeValues ctx p items = .ok out) : ∀ t ∈ out, Collected ctx t := by
  intro t ht
  rcases mem_mergeValues h hi hv t ht with ht | ⟨m, rfl, -, -, x, -, hk⟩
  · exact hc t ht
  · refine .leaf fun m' hm' _ hop => ?_
    cases hm'
    rw [hop] at hk
    exact alignsDaysOf_of_mergeKey? hk

theorem mergeKey?_combined (p : Polarity) (i : Connective) (children : List MatchTree) :
    mergeKey? ctx p (.combined i children) = .ok none := rfl

theorem mergeKey?_unknown {p : Polarity} {arg : String} {u : MatchTree}
    (h : ctx.singleTree (.unknown arg) .positive = .ok u) : mergeKey? ctx p u = .ok none := by
  obtain ⟨-, -, -, huv, -, -⟩ := unknown_idle h
  rw [mergeKey?, huv]
  rfl

/-- Branches for unknown arguments bring no keys. -/
theorem keysApart_addUnknown (hk : KeysApart ctx j items)
    (h : addUnknown ctx j covered [] items = .ok out) : KeysApart ctx j out := by
  cases j with
  | and =>
    obtain ⟨_, hxs, rfl⟩ := addUnknown_and h
    obtain ⟨hlen, hall⟩ := zip_of_mapM_eq_ok hxs
    refine pairwise_of_zip hlen hk fun a ha b hb hab key hka hkb => ?_
    rcases withUnknown_eq_ok (hall a ha) with ⟨hae, -⟩ | ⟨l, arg, u, -, -, -, hae⟩
    · rcases withUnknown_eq_ok (hall b hb) with ⟨hbe, -⟩ | ⟨l, arg, u, -, -, -, hbe⟩
      · exact hab key (hae ▸ hka) (hbe ▸ hkb)
      · rw [hbe, mergeKey?_combined] at hkb
        cases hkb
    · rw [hae, mergeKey?_combined] at hka
      cases hka
  | or =>
    let keyed (t : MatchTree) : Bool :=
      (mergeKey? ctx (mergePolarity .or) t).toOption.join.isSome
    have hkeyed : ∀ t key, mergeKey? ctx (mergePolarity .or) t = .ok (some key) →
        keyed t = true := by
      intro t key hk
      simp only [keyed, hk]
      rfl
    have hfilter : out.filter keyed = items.filter keyed :=
      filter_addUnknown_or (fun arg u hu => by simp only [keyed, mergeKey?_unknown hu]; rfl) h
    have hpair := List.Pairwise.filter keyed hk
    rw [← hfilter, List.pairwise_filter] at hpair
    refine hpair.imp fun hxy key hkx hky => ?_
    exact hxy (hkeyed _ key hkx) (hkeyed _ key hky) key hkx hky

/-- A complement and the branch for its argument are collected. -/
theorem collected_branches {t u : MatchTree} {arg : String} (ht : Collected ctx t)
    (hu : ctx.singleTree (.unknown arg) .positive = .ok u) :
    Collected ctx (.combined .or [t, u]) := by
  refine .combined (List.pairwise_pair.2 fun key _ hk => ?_) fun x hx => ?_
  · rw [mergeKey?_unknown hu] at hk
    cases hk
  · rcases List.mem_cons.1 hx with rfl | hx
    · exact ht
    · exact List.mem_singleton.1 hx ▸ collected_unknown hu

theorem collected_consolidateLevel {r : MatchTree} (hi : ∀ t ∈ items, Assembled ctx t)
    (hc : ∀ t ∈ items, Collected ctx t) (h : consolidateLevel ctx j covered items = .ok r) :
    Collected ctx r := by
  obtain ⟨items₁, h₁, h⟩ := bind_eq_ok.1 h
  obtain ⟨items₂, h₂, h⟩ := bind_eq_ok.1 h
  obtain ⟨items₃, h₃, h⟩ := bind_eq_ok.1 h
  obtain ⟨items₄, h₄, h⟩ := bind_eq_ok.1 h
  obtain ⟨out, hout, h⟩ := bind_eq_ok.1 h
  have hv := mergePolarity_verifies j
  have s₁ := sameLevel_mergeBoundPairs hi h₁
  have s₂ := s₁.trans (sameLevel_alignDays (s₁.assembled hi) h₂)
  have s₃ := s₂.trans (sameLevel_mergeBounds (s₂.assembled hi) h₃)
  have c₃ := collected_mergeBounds (collected_alignDays (collected_mergeBoundPairs hc h₁) h₂) h₃
  have c₄ := collected_mergeValues (s₃.assembled hi) c₃ hv h₄
  have hcollected : ∀ t ∈ out, Collected ctx t :=
    forall_mem_addUnknown c₄ (fun arg u hu => collected_unknown hu)
      (fun t ht arg u hu => collected_branches (c₄ t ht) hu) hout
  rcases joined_eq_ok.1 (liftFault_eq_ok.1 h) with rfl | ⟨-, rfl⟩
  · exact hcollected r List.mem_cons_self
  · refine .combined (keysApart_addUnknown ?_ hout) hcollected
    exact pairwise_mergeValues h₄ (s₃.assembled hi) hv

/-! ## Whole trees -/

theorem collected_consolidateBelow {t r : MatchTree} (ht : Assembled ctx t)
    (hl : ∀ l ∈ t.leaves, DaysApart ctx l) (h : consolidateBelow ctx covered t = .ok r) :
    Collected ctx r := by
  induction t using memberInduction generalizing covered r with
  | group j nodeType children ih => cases ht
  | leaf l =>
    cases h
    exact .leaf (hl l (List.mem_singleton_self l))
  | combined j children ih =>
    rw [consolidateBelow, consolidateEach_eq_mapM] at h
    obtain ⟨items, hitems, h⟩ := bind_eq_ok.1 h
    rw [forall_leaves_combined] at hl
    have hflat : ∀ x ∈ flattened j items, Assembled ctx x ∧ Collected ctx x := by
      intro x hx
      obtain ⟨y, hy, hxy⟩ := mem_flattened.1 hx
      obtain ⟨c, hc, hcy⟩ := mem_of_mapM_eq_ok hitems hy
      exact ⟨assembled_opened (atRest_consolidateBelow (ht.children c hc) hcy).1 hxy,
        collected_opened (ih c hc (ht.children c hc) (hl c hc) hcy) hxy⟩
    exact collected_consolidateLevel (fun x hx => (hflat x hx).1) (fun x hx => (hflat x hx).2) h

theorem collected_consolidated {t r : MatchTree} (ht : Assembled ctx t)
    (hl : ∀ l ∈ t.leaves, DaysApart ctx l) (h : consolidated ctx t = .ok r) :
    Collected ctx r := by
  cases t with
  | group j nodeType children => cases ht
  | combined j children => exact collected_consolidateBelow ht hl h
  | leaf l =>
    refine collected_consolidateLevel (by simpa using ht) (fun t ht => ?_) h
    exact List.mem_singleton.1 ht ▸ .leaf (hl l (List.mem_singleton_self l))

/-! ## What is merged -/

/-- Equalities of days have become bounds, so what has a key can be merged. -/
theorem mergeKey?_of_valueKey? {p : Polarity} {t : MatchTree} {key : String × Operator}
    (ha : alignDays ctx t = .ok t) (hc : Collected ctx t) (hk : valueKey? p t = some key) :
    mergeKey? ctx p t = .ok (some key) := by
  unfold mergeKey?
  split
  · next arg hk' =>
    have haligned : ctx.alignsDaysOf arg = .ok false := by
      cases hc with
      | combined h hc => cases hk'
      | @leaf l h =>
        cases l with
        | between b => cases hk'
        | single s =>
          simp only [valueKey?, Option.ite_none_right_eq_some, Option.some.injEq,
            Prod.mk.injEq] at hk'
          obtain ⟨⟨-, -, hv⟩, rfl, hop⟩ := hk'
          exact alignsDaysOf_of_aligned ha hop hv
        | multi m =>
          simp only [valueKey?, Option.ite_none_right_eq_some, Option.some.injEq,
            Prod.mk.injEq] at hk'
          obtain ⟨⟨-, hs⟩, rfl, hop⟩ := hk'
          exact h m rfl hs hop
    rw [haligned, ← hk, hk']
    rfl
  · rw [hk]
    rfl

theorem valueKey?_of_comparesValues {p : Polarity} {arg : String} {op : Operator} {t : MatchTree}
    (hop : op = .equals ∨ op = .contains) (h : ComparesValues p arg op t) :
    valueKey? p t = some (arg, op) := by
  cases t with
  | combined i children => cases h
  | group i nodeType children => cases h
  | leaf l =>
    cases l with
    | between b => cases h
    | single s =>
      obtain ⟨hp, rfl, rfl, hv⟩ := h
      exact if_pos ⟨hp, hop, hv⟩
    | multi m =>
      obtain ⟨hp, rfl, rfl, hs⟩ := h
      exact if_pos ⟨hp, hs⟩

theorem boundArg?_eq_some_iff {p : Polarity} {arg : String} {t : MatchTree} :
    boundArg? p t = some arg ↔ (boundOp? p arg t).isSome = true := by
  cases t with
  | combined i children => simp [boundArg?, boundOp?]
  | group i nodeType children => simp [boundArg?, boundOp?]
  | leaf l =>
    cases l with
    | between b => simp [boundArg?, boundOp?]
    | single s =>
      simp only [boundArg?, boundOp?, Option.ite_none_right_eq_some, Option.some.injEq]
      grind
    | multi m =>
      simp only [boundArg?, boundOp?, Option.ite_none_right_eq_some, Option.some.injEq]
      grind

/-- A bound by a value keeps its side as a leaf that can be strict or inclusive. -/
theorem toMulti?_of_boundOp? {p : Polarity} {arg : String} {op : Operator} {t : MatchTree}
    {m? : Option Multi} (h : boundOp? p arg t = some op) (hm : toMulti? ctx t = .ok m?) :
    ∃ m, m? = some m ∧ m.leadOp = op ∧ m.shape.isReference = false := by
  cases t with
  | combined i children => cases h
  | group i nodeType children => cases h
  | leaf l =>
    cases l with
    | between b => cases h
    | single s =>
      simp only [boundOp?, Option.ite_none_right_eq_some, Option.some.injEq] at h
      obtain ⟨⟨-, -, -, hv⟩, rfl⟩ := h
      obtain ⟨m, hmulti, rfl⟩ := map_eq_ok.1 hm
      have hlead : m.lead = s.condition := (List.cons.inj (Context.members_of_multi hmulti).1).1
      obtain ⟨-, -, -, hclass, -⟩ := Multi.make_eq_ok (Context.multi_eq_ok hmulti).2
      refine ⟨m, rfl, by rw [Multi.leadOp, hlead], ?_⟩
      rw [← (Multi.classify_cases hclass).2.isReference m.lead List.mem_cons_self, hlead]
      exact Condition.isReference_of_value hv
    | multi m =>
      simp only [boundOp?, Option.ite_none_right_eq_some, Option.some.injEq] at h
      cases hm
      refine ⟨m, rfl, h.2, ?_⟩
      rw [h.1.2.2]
      rfl

/-- Two bounds of an argument with one value, one on either side, do not stay. -/
theorem pairBounds_ne_none {p : Polarity} {arg : String} {op op' : Operator} {x y : MatchTree}
    (hs : isSingleValued ctx arg = .ok true) (hx : boundOp? p arg x = some op)
    (hy : boundOp? p arg y = some op')
    (hops : op = .greaterThan ∧ op' = .lessThan ∨ op = .lessThan ∧ op' = .greaterThan) :
    pairBounds ctx arg [x, y] ≠ .ok none := by
  intro h
  obtain ⟨single, hsingle, h⟩ := bind_eq_ok.1 h
  cases (liftError_eq_ok.1 hsingle).symm.trans hs
  obtain ⟨x?, hxm, h⟩ := bind_eq_ok.1 h
  obtain ⟨y?, hym, h⟩ := bind_eq_ok.1 h
  obtain ⟨a, rfl, hal, har⟩ := toMulti?_of_boundOp? hx hxm
  obtain ⟨b, rfl, hbl, hbr⟩ := toMulti?_of_boundOp? hy hym
  rcases hops with ⟨rfl, rfl⟩ | ⟨rfl, rfl⟩ <;>
    simp [Multi.isLowerBound, Multi.isUpperBound, hal, hbl, har, hbr] at h <;>
    obtain ⟨pair, -, h⟩ := map_eq_ok.1 h <;> cases h

theorem ranges_of_settled {p : Polarity} {arg : String} {children : List MatchTree}
    {op op' : Operator} (hs : isSingleValued ctx arg = .ok true)
    (h : pairBounds ctx arg (children.filter fun t => boundArg? p t = some arg) = .ok none)
    (hops : op = .greaterThan ∧ op' = .lessThan ∨ op = .lessThan ∧ op' = .greaterThan) :
    children.filterMap (boundOp? p arg) ≠ [op, op'] := by
  intro hchildren
  have hbounds : (children.filter fun t => boundArg? p t = some arg).map (boundOp? p arg) =
      [some op, some op'] := by
    have hsome : (children.filterMap (boundOp? p arg)).map some =
        (children.map (boundOp? p arg)).filter fun b => b.isSome :=
      List.map_filterMap_some_eq_filter_map_isSome
    rw [hchildren, List.filter_map] at hsome
    simp only [boundArg?_eq_some_iff, Bool.decide_eq_true]
    exact hsome.symm
  obtain ⟨x, rest, hx, hxo, hrest⟩ := List.map_eq_cons_iff.1 hbounds
  obtain ⟨y, rest, rfl, hyo, hnil⟩ := List.map_eq_cons_iff.1 hrest
  rw [List.map_eq_nil_iff.1 hnil] at hx
  rw [hx] at h
  exact pairBounds_ne_none hs hxo hyo hops h

theorem combined_not_mem {children : List MatchTree} (hf : ∀ t ∈ children, opened j t = [t])
    (inner : List MatchTree) : .combined j inner ∉ children := by
  intro hmem
  have hself := hf _ hmem
  rw [opened_combined_self] at hself
  have hsize := congrArg sizeOf hself
  simp at hsize
  omega

/-- What a merged level says of its steps, its leaves say themselves. -/
theorem fullyMerged_of_level {children : List MatchTree} (hm : LevelMerged ctx j children)
    (ha : ∀ t ∈ children, Assembled ctx t) (hk : KeysApart ctx j children)
    (hc : ∀ t ∈ children, Collected ctx t) : FullyMerged ctx j children where
  flat := combined_not_mem hm.flat
  values arg op hop := by
    have hkey : ∀ t ∈ children, ComparesValues (mergePolarity j) arg op t →
        mergeKey? ctx (mergePolarity j) t = .ok (some (arg, op)) := fun t ht h =>
      mergeKey?_of_valueKey? (hm.aligned t ht) (hc t ht) (valueKey?_of_comparesValues hop h)
    exact hk.imp_of_mem fun hx hy hxy h h' => hxy _ (hkey _ hx h) (hkey _ hy h')
  inclusive b e hb he hbp hep hbound hop harg hoperand := by
    have hnone := boundPair?_eq_none_iff.1 hm.unpaired b e hb he hbp hbound
    -- Leaves on one argument are on one node type.
    have hnode : e.nodeType = b.nodeType := by
      obtain ⟨a, hba, hbn, -⟩ := (ha _ hb).made.assignment
      obtain ⟨a', hea, hen, -⟩ := (ha _ he).made.assignment
      rw [show (Leaf.single e).arg = (Leaf.single b).arg from harg, hba] at hea
      cases hea
      exact hen.trans hbn.symm
    simp [isEqualityOf, single?, hbp, hep, hop, harg, hnode, hoperand] at hnone
  ranges arg hs :=
    ⟨ranges_of_settled hs (hm.bounds arg) (.inl ⟨rfl, rfl⟩),
      ranges_of_settled hs (hm.bounds arg) (.inr ⟨rfl, rfl⟩)⟩

theorem AtRest.fullyMerged {t : MatchTree} (h : AtRest ctx covered t) (ha : Assembled ctx t)
    (hc : Collected ctx t) {children : List MatchTree}
    (hmem : .combined j children ∈ t.subtrees) : FullyMerged ctx j children := by
  induction h with
  | leaf => cases mem_subtrees_leaf.1 hmem
  | combined hl hlevel hrest ih =>
    cases hc with
    | combined hk hcc =>
      rcases mem_subtrees_combined.1 hmem with hmem | ⟨t, ht, hmem⟩
      · cases hmem
        exact fullyMerged_of_level hlevel.toLevelMerged ha.children hk hcc
      · exact ih t ht (ha.children t ht) (hcc t ht) hmem

/-- On no level of the consolidated tree of an expression is anything left to be merged. -/
theorem consolidated_fullyMerged {e : Expression} {t r : MatchTree}
    (hb : ofExpression ctx e = .ok t) (h : consolidated ctx t = .ok r) :
    ∀ j children, .combined j children ∈ r.subtrees → FullyMerged ctx j children := by
  intro j children hmem
  obtain ⟨ha, hsingle⟩ := assembled_build hb
  obtain ⟨hr, hrest, -⟩ := assembled_consolidated ha h
  refine hrest.fullyMerged hr (collected_consolidated ha (fun l hl => ?_) h) hmem
  obtain ⟨s, rfl⟩ := hsingle l hl
  intro m hm
  cases hm

/-- Values, bounds and complements that belong together, apart from each other. -/
def crowded : Expression :=
  .combined .and [
    .combined .or [.condition (.withOperator "name" .equals "Ada"),
      .condition (.withOperator "code" .greaterThan "5"),
      .combined .or [.condition (.withOperator "name" .equals "Bob"),
        .condition (.withOperator "code" .equals "5")],
      .negation true (.withReference "city" .equals "code")],
    .condition (.withOperator "name" .greaterThan "A"),
    .negation false (.withOperator "city" .equals "Oslo"),
    .condition (.withOperator "name" .lessThan "C"),
    .negation false (.withOperator "city" .equals "Rome")]

/-- What they are merged to. -/
def crowdedMerged : String :=
  "(([name = Ada, name = Bob] OR [code > 5, code = 5] OR NOT(LR) city = @code) AND " ++
    "[name > A, name < C] AND (NOT [city = Oslo, city = Rome] OR city IS UNKNOWN))"

theorem consolidated_fullyMerged_crowded :
    ∃ t r, ofExpression .people crowded = .ok t ∧ consolidated .people t = .ok r ∧
      r.text = crowdedMerged ∧
      ∀ j children, .combined j children ∈ r.subtrees → FullyMerged .people j children := by
  have hok : (ofExpression .people crowded >>= consolidated .people).toOption.map text =
      some crowdedMerged := by
    decide +kernel
  obtain ⟨r, hr, htext⟩ := Option.map_eq_some_iff.1 hok
  obtain ⟨t, ht, hc⟩ := bind_eq_ok.1 (eq_ok_of_toOption hr)
  exact ⟨t, r, ht, hc, htext, consolidated_fullyMerged ht hc⟩

end AudienceFilter.MatchTree
