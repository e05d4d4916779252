import AudienceFilter.Proofs.GroupingTruth
import AudienceFilter.Proofs.RestReached
import AudienceFilter.Proofs.TreeSafety

/-!
# The conditions of a consolidated tree

Consolidation regroups the conditions of a tree. It makes new ones only where it aligns dates
with whole days, and where it adds that an argument is unknown. So what is said of all conditions
goes through consolidation, in either direction, if it goes through the alignment of a leaf, and
with a condition it holds of the checks on its arguments.

* `allConditions_consolidated`: forwards, from a tree to what it is consolidated to;
* `allConditions_of_consolidated`: backwards;
* `forall_leaves_grouped`: grouping keeps the leaves;
* `Context.allConditions_groupedTree`, `Context.allConditions_of_groupedTree`: the whole way from
  an expression to its grouped tree.
-/

namespace AudienceFilter

/-- Whether a condition is the equality with a day: with a value of an argument that is compared by
whole days. -/
structure Context.DayEquality (ctx : Context) (c : Condition) : Prop where
  op : c.op = .equals
  value : c.value?.isSome
  aligned : ctx.alignsDaysOf c.arg = .ok true

namespace MatchTree

/-- Whether all conditions of a tree have a property. -/
def AllConditions (P : Condition → Prop) (t : MatchTree) : Prop :=
  ∀ l ∈ t.leaves, ∀ c ∈ l.conditions, P c

variable {ctx : Context} {P : Condition → Prop} {j : Connective} {items out : List MatchTree}

theorem allConditions_leaf {l : Leaf} : AllConditions P (.leaf l) ↔ ∀ c ∈ l.conditions, P c := by
  simp [AllConditions, leaves]

theorem allConditions_combined {children : List MatchTree} :
    AllConditions P (.combined j children) ↔ ∀ t ∈ children, AllConditions P t :=
  forall_leaves_combined

theorem allConditions_opened {t : MatchTree} :
    (∀ x ∈ opened j t, AllConditions P x) ↔ AllConditions P t := by
  cases t with
  | leaf l => simp [opened]
  | group i nodeType children => simp [opened]
  | combined i children =>
    by_cases hi : i = j
    · rw [hi, opened_combined_self, allConditions_combined]
    · simp [opened_combined_of_ne hi]

theorem allConditions_joined {r : MatchTree} (h : joined j items = .ok r) :
    AllConditions P r ↔ ∀ t ∈ items, AllConditions P t := by
  rcases joined_eq_ok.1 h with rfl | ⟨-, rfl⟩
  · simp
  · exact allConditions_combined

/-! ## Regrouped conditions -/

theorem mem_members_of_multi {nodeType : String} {c : Condition} {cs : List Condition}
    {p : Polarity} {m : Multi} (h : ctx.multi nodeType c cs p = .ok m) {x : Condition} :
    x ∈ m.members ↔ x ∈ c :: cs := by
  obtain ⟨-, hmem, -⟩ := Multi.make_eq_ok (Context.multi_eq_ok h).2
  rw [hmem, Multi.mem_canonical]

theorem allConditions_mergeBoundPairs {p : Polarity} (h : mergeBoundPairs ctx p items = .ok out) :
    (∀ t ∈ out, AllConditions P t) ↔ ∀ t ∈ items, AllConditions P t := by
  fun_induction mergeBoundPairs ctx p items with
  | case1 items hpair => rw [Except.ok.inj h]
  | case2 items bound i k hpair equality ih =>
    obtain ⟨m, hm, h⟩ := bind_eq_ok.1 h
    obtain ⟨e, hbi, hek, -, -, -, -, hcond⟩ := boundPair?_eq_some hpair
    rw [ih m h]
    refine forall_mem_replace hbi hek (ne_of_boundPair? hpair) ?_
    simp [allConditions_leaf, Leaf.conditions, mem_members_of_multi hm, hcond, equality]

/-- A bound that can be strict or inclusive has the conditions of what it was made from. -/
theorem members_of_toMulti? {l : Leaf} {m : Multi}
    (h : toMulti? ctx (.leaf l) = .ok (some m)) : m.members = l.conditions := by
  cases l with
  | between b => cases h
  | multi m' =>
    cases h
    rfl
  | single s =>
    obtain ⟨m', hm, h⟩ := map_eq_ok.1 h
    cases h
    exact (Context.members_of_multi hm).1

theorem allConditions_mergeBounds (h : mergeBounds ctx (boundPolarity j) items = .ok out) :
    (∀ t ∈ out, AllConditions P t) ↔ ∀ t ∈ items, AllConditions P t := by
  rw [Classes.forall_merge h, List.forall_mem_map]
  intro arg r hr
  obtain ⟨x, y, lower, upper, b, -, hb, rfl, hx, hy, hxy⟩ := pairBounds_eq_ok hr
  have hmem : ∀ t, t ∈ Classes.members (items.map fun t => (boundArg? (boundPolarity j) t, t)) arg ↔
      t = x ∨ t = y := by
    rcases hxy with hxy | hxy <;> rw [hxy]
    · simp
    · simp [or_comm]
  have hbound : ∀ t, t = x ∨ t = y → ∃ l, t = .leaf l := by
    intro t ht
    have := (hmem t).2 ht
    rw [Classes.members_map, List.mem_filter, decide_eq_true_eq] at this
    obtain ⟨l, rfl, -⟩ := boundArg?_eq_some this.2
    exact ⟨l, rfl⟩
  obtain ⟨lx, rfl⟩ := hbound x (.inl rfl)
  obtain ⟨ly, rfl⟩ := hbound y (.inr rfl)
  obtain ⟨-, -, -, -, -, -, he⟩ := Between.make_eq_ok (Context.between_eq_ok hb).2
  have hconds : b.members = lx.conditions ++ ly.conditions := by
    rw [he, ← members_of_toMulti? hx, ← members_of_toMulti? hy]
    rfl
  simp only [hmem, forall_eq_or_imp, forall_eq, allConditions_leaf, Leaf.conditions, hconds,
    List.forall_mem_append]

theorem allConditions_mergeValues {p : Polarity} (h : mergeValues ctx p items = .ok out) :
    (∀ t ∈ out, AllConditions P t) ↔ ∀ t ∈ items, AllConditions P t := by
  obtain ⟨keyed, hkeyed, h⟩ := bind_eq_ok.1 h
  rw [Classes.forall_merge h, Classes.forall_keyed (P := AllConditions P) hkeyed]
  intro key r hr
  obtain ⟨first, c, cs, m, -, hconds, hm, rfl⟩ := mergeMembers_eq_ok hr
  have hleaf : ∀ t ∈ Classes.members keyed key, ∃ l, t = .leaf l := by
    intro t ht
    have hk := mergeKey?_eq_ok (Classes.mem_keyed hkeyed _ (Classes.mem_members.1 ht)).2
    cases t with
    | leaf l => exact ⟨l, rfl⟩
    | combined i children => cases hk
    | group i nodeType children => cases hk
  simp only [allConditions_leaf, Leaf.conditions, mem_members_of_multi hm, ← hconds,
    List.mem_flatMap, mem_filterMap_leaf?]
  constructor
  · intro hall t ht
    obtain ⟨l, rfl⟩ := hleaf t ht
    exact allConditions_leaf.2 fun x hx => hall x ⟨l, ht, hx⟩
  · rintro hall x ⟨l, hl, hx⟩
    exact allConditions_leaf.1 (hall _ hl) x hx

theorem allConditions_singleTree {c : Condition} {p : Polarity} {t : MatchTree}
    (h : ctx.singleTree c p = .ok t) : AllConditions P t ↔ P c := by
  obtain ⟨s, hs, rfl⟩ := singleTree_eq_ok.1 h
  obtain ⟨-, -, -, -, -, -, -, hc, -⟩ := Context.single_eq_ok hs
  simp [allConditions_leaf, Leaf.conditions, hc]

theorem exists_condition_on_arg (l : Leaf) : ∃ c ∈ l.conditions, c.arg = l.arg := by
  cases l with
  | single s => exact ⟨s.condition, List.mem_singleton_self _, rfl⟩
  | multi m => exact ⟨m.lead, List.mem_cons_self, rfl⟩
  | between b => exact ⟨b.lower.lead, List.mem_cons_self, rfl⟩

/-- The branch for an unknown argument is on the argument of the complement that it is added to. -/
theorem unknown_of_complementArg? {t : MatchTree} {arg : String}
    (hu : ∀ c, P c → ∀ arg ∈ c.args, P (.unknown arg)) (h : complementArg? t = some arg)
    (ht : AllConditions P t) : P (.unknown arg) := by
  obtain ⟨l, rfl, hl⟩ := complementArg?_eq_some h
  obtain ⟨c, hc, harg⟩ := exists_condition_on_arg l
  obtain ⟨rfl, -⟩ := Leaf.arg_of_inDocumentArg? hl
  exact hu c (allConditions_leaf.1 ht c hc) l.arg (harg ▸ List.mem_cons_self)

theorem allConditions_addUnknown {covered : List String}
    (hu : ∀ c, P c → ∀ arg ∈ c.args, P (.unknown arg))
    (h : addUnknown ctx j covered [] items = .ok out) :
    (∀ t ∈ out, AllConditions P t) ↔ ∀ t ∈ items, AllConditions P t := by
  cases j with
  | or =>
    obtain ⟨hkept, hadded, -⟩ := addUnknown_or h
    refine ⟨fun ho t ht => ho t (hkept t (by simpa using ht)), fun hi x hx => ?_⟩
    rcases hadded x hx with hx | ⟨t, ht, arg, harg, hx⟩
    · exact hi x (by simpa using hx)
    · exact (allConditions_singleTree hx).2 (unknown_of_complementArg? hu harg (hi t ht))
  | and =>
    obtain ⟨_, hxs, rfl⟩ := addUnknown_and h
    have hstep : ∀ {t x}, withUnknown ctx covered t = .ok x →
        (AllConditions P x ↔ AllConditions P t) := by
      intro t x hw
      rcases withUnknown_eq_ok hw with ⟨rfl, -⟩ | ⟨l, arg, u, rfl, harg, hx, rfl⟩
      · rfl
      · simpa [allConditions_combined, allConditions_singleTree hx] using
          unknown_of_complementArg? hu harg
    constructor
    · intro ho t ht
      obtain ⟨x, hx, hw⟩ := exists_of_mapM_eq_ok hxs ht
      exact (hstep hw).1 (ho x hx)
    · intro hi x hx
      obtain ⟨t, ht, hw⟩ := mem_of_mapM_eq_ok hxs hx
      exact (hstep hw).2 (hi t ht)

/-! ## Aligned dates -/

/-- Whether a condition compares an argument with a value by order. -/
structure BoundOn (arg : String) (c : Condition) : Prop where
  arg : c.arg = arg
  value : c.isReference = false
  op : c.op.isBound = true

theorem boundOn_withOperator {arg value : String} {op : Operator} (h : op.isBound = true) :
    BoundOn arg (.withOperator arg op value) := ⟨rfl, rfl, h⟩

theorem value?_of_operand {a b : Condition} (h : a.operand = b.operand) : a.value? = b.value? := by
  rw [Condition.value?, Condition.value?, h]

/-- Only a value can be moved. -/
theorem isSome_of_shiftDate {arg moved : String} {value? : Option String} {k : Int}
    (h : shiftDate arg (value?.getD "") k = .ok moved) : value?.isSome := by
  cases value? with
  | some value => rfl
  | none => cases (show shiftDate arg "" k = .error _ from rfl).symm.trans h

/-- What alignment does to a leaf with the equality with a day, beside which there may be a bound:
it makes bounds on the same argument. -/
structure Realigned (ctx : Context) (l l' : Leaf) : Prop where
  day : ∃ c ∈ l.conditions, c.arg = l.arg ∧ ctx.DayEquality c
  before : ∀ c ∈ l.conditions, BoundOn l.arg c ∨ c.op = .equals ∧ c.isReference = false
  nonempty : l'.conditions ≠ []
  after : ∀ c ∈ l'.conditions, BoundOn l.arg c

theorem realigned_alignEquality {s : Single} {value : String} {t : MatchTree}
    (hday : ctx.DayEquality s.condition) (h : alignEquality ctx s value = .ok t) :
    ∃ l', t = .leaf l' ∧ Realigned ctx (.single s) l' := by
  obtain ⟨before, -, h⟩ := bind_eq_ok.1 h
  obtain ⟨after, -, h⟩ := bind_eq_ok.1 h
  obtain ⟨lower, hl, h⟩ := bind_eq_ok.1 h
  obtain ⟨upper, hu, h⟩ := bind_eq_ok.1 h
  obtain ⟨b, hb, h⟩ := bind_eq_ok.1 h
  obtain ⟨-, -, -, -, -, -, he⟩ := Between.make_eq_ok (Context.between_eq_ok hb).2
  refine ⟨.between b, (pure_eq_ok.1 h).symm, ⟨s.condition, List.mem_singleton_self _, rfl, hday⟩,
    fun c hc => .inr ?_, List.cons_ne_nil _ _, fun c hc => ?_⟩
  · rw [List.mem_singleton.1 hc]
    exact ⟨hday.op, Condition.isReference_of_value hday.value⟩
  · rw [he] at hc
    rcases List.mem_append.1 hc with hc | hc
    · rw [mem_members_of_multi hl, List.mem_singleton] at hc
      exact hc ▸ boundOn_withOperator rfl
    · rw [mem_members_of_multi hu, List.mem_singleton] at hc
      exact hc ▸ boundOn_withOperator rfl

theorem realigned_alignBound {m : Multi} {t : MatchTree} (hm : (Leaf.multi m).Made ctx)
    (hs : m.shape = .valueOrEqual) (ha : ctx.alignsDaysOf m.arg = .ok true)
    (h : alignBound ctx m = .ok t) : ∃ l', t = .leaf l' ∧ Realigned ctx (.multi m) l' := by
  obtain ⟨hmembers, htogether, -⟩ := hm.members
  obtain ⟨equality, hothers, hbound, hop, hoperand⟩ := htogether.equality hs
  obtain ⟨k, moved, -, hmoved, h⟩ := World.alignBound_eq_ok h hbound
  obtain ⟨s, hsm, rfl⟩ := singleTree_eq_ok.1 h
  obtain ⟨-, -, -, -, -, -, -, hc, -⟩ := Context.single_eq_ok hsm
  have hequality : equality ∈ m.members := by
    rw [Multi.members, hothers]
    exact List.mem_cons_of_mem _ (List.mem_singleton_self _)
  have hsome : equality.value?.isSome := by
    rw [value?_of_operand hoperand]
    exact isSome_of_shiftDate hmoved
  have harg := (hmembers _ hequality).1
  refine ⟨.single s, rfl, ⟨equality, hequality, harg, ⟨hop, hsome, harg ▸ ha⟩⟩, fun c hc => ?_,
    List.cons_ne_nil _ _, fun c hx => ?_⟩
  · obtain ⟨hcarg, -, hcr⟩ := hmembers c hc
    rw [hs] at hcr
    rcases htogether.bound_or_equality hbound c hc with hb | heq
    · exact .inl ⟨hcarg, hcr, hb⟩
    · exact .inr ⟨heq, hcr⟩
  · rw [List.mem_singleton.1 hx, hc]
    exact boundOn_withOperator hbound

/-- Alignment leaves a tree as it is, which then is no equality with a day, or realigns a leaf. -/
theorem alignDays_cases {t t' : MatchTree} (ht : Plain ctx t) (h : alignDays ctx t = .ok t') :
    (t' = t ∧ ∀ s, t = .leaf (.single s) → ¬ ctx.DayEquality s.condition) ∨
      ∃ l l', t = .leaf l ∧ t' = .leaf l' ∧ Realigned ctx l l' := by
  cases t with
  | combined i children => exact .inl ⟨(pure_eq_ok.1 h).symm, nofun⟩
  | group i nodeType children => exact .inl ⟨(pure_eq_ok.1 h).symm, nofun⟩
  | leaf l =>
    obtain ⟨aligned, ha, h⟩ := bind_eq_ok.1 h
    have ha := liftError_eq_ok.1 ha
    split at h
    · next hal =>
      rw [hal] at ha
      split at h
      · next s =>
        split at h
        · next value hop hv =>
          obtain ⟨l', rfl, hl'⟩ := realigned_alignEquality ⟨hop, by rw [hv]; rfl, ha⟩ h
          exact .inr ⟨_, l', rfl, rfl, hl'⟩
        · next hne =>
          refine .inl ⟨(pure_eq_ok.1 h).symm, fun s' hs hday => ?_⟩
          cases hs
          obtain ⟨v, hv⟩ := Option.isSome_iff_exists.1 hday.value
          exact hne v hday.op hv
      · next m =>
        split at h
        · next hs =>
          obtain ⟨l', rfl, hl'⟩ := realigned_alignBound ht.made hs ha h
          exact .inr ⟨_, l', rfl, rfl, hl'⟩
        · exact .inl ⟨(pure_eq_ok.1 h).symm, nofun⟩
      · exact .inl ⟨(pure_eq_ok.1 h).symm, nofun⟩
    · next hal =>
      refine .inl ⟨(pure_eq_ok.1 h).symm, fun s hs hday => hal ?_⟩
      rw [MatchTree.leaf.inj hs] at ha
      exact Except.ok.inj (ha.symm.trans hday.aligned)

/-! ## Levels

Of the steps of a level, only the alignment of dates has conditions that are not the same before
and after it. -/

theorem allConditions_consolidateLevel {covered : List String} {r : MatchTree}
    (hu : ∀ c, P c → ∀ arg ∈ c.args, P (.unknown arg)) (hi : ∀ t ∈ items, Plain ctx t)
    (h : consolidateLevel ctx j covered items = .ok r) :
    ∃ paired aligned, paired.mapM (alignDays ctx) = .ok aligned ∧ (∀ t ∈ paired, Plain ctx t) ∧
      mergeBoundPairs ctx (mergePolarity j) items = .ok paired ∧
      ((∀ t ∈ paired, AllConditions P t) ↔ ∀ t ∈ items, AllConditions P t) ∧
      (AllConditions P r ↔ ∀ t ∈ aligned, AllConditions P t) := by
  obtain ⟨paired, hpaired, h⟩ := bind_eq_ok.1 h
  obtain ⟨aligned, haligned, h⟩ := bind_eq_ok.1 h
  obtain ⟨bounded, hbounded, h⟩ := bind_eq_ok.1 h
  obtain ⟨merged, hmerged, h⟩ := bind_eq_ok.1 h
  obtain ⟨out, hout, h⟩ := bind_eq_ok.1 h
  have hplain := (sameLevel_mergeBoundPairs (assembled_of_plain hi) hpaired).plain hi
  refine ⟨paired, aligned, haligned, hplain, hpaired, allConditions_mergeBoundPairs hpaired, ?_⟩
  rw [allConditions_joined (liftFault_eq_ok.1 h), allConditions_addUnknown hu hout,
    allConditions_mergeValues hmerged, allConditions_mergeBounds hbounded]

/-- The trees of a level, from which a combination is made, are those that its members were
consolidated to. -/
theorem plain_flattened {covered : List String} {children : List MatchTree}
    (hc : ∀ t ∈ children, Plain ctx t)
    (h : children.mapM (consolidateBelow ctx covered) = .ok items) :
    ∀ x ∈ flattened j items, Plain ctx x := by
  intro x hx
  obtain ⟨y, hy, hxy⟩ := mem_flattened.1 hx
  obtain ⟨t, ht, hty⟩ := mem_of_mapM_eq_ok h hy
  exact plain_opened (plain_consolidateBelow (hc t ht) hty) hxy

theorem allConditions_flattened :
    (∀ x ∈ flattened j items, AllConditions P x) ↔ ∀ t ∈ items, AllConditions P t := by
  constructor
  · intro h t ht
    exact allConditions_opened.1 fun x hx => h x (mem_flattened.2 ⟨t, ht, hx⟩)
  · intro h x hx
    obtain ⟨t, ht, hxt⟩ := mem_flattened.1 hx
    exact allConditions_opened.2 (h t ht) x hxt

section Forwards

variable (hu : ∀ c, P c → ∀ arg ∈ c.args, P (.unknown arg))
  (halign : ∀ t t', Plain ctx t → alignDays ctx t = .ok t' → AllConditions P t →
    AllConditions P t')

include hu halign

theorem allConditions_level {covered : List String} {r : MatchTree}
    (hi : ∀ t ∈ items, Plain ctx t) (h : consolidateLevel ctx j covered items = .ok r)
    (hP : ∀ t ∈ items, AllConditions P t) : AllConditions P r := by
  obtain ⟨paired, aligned, haligned, hplain, -, hitems, hr⟩ :=
    allConditions_consolidateLevel (P := P) hu hi h
  refine hr.2 fun t' ht' => ?_
  obtain ⟨t, ht, h'⟩ := mem_of_mapM_eq_ok haligned ht'
  exact halign t t' (hplain t ht) h' (hitems.2 hP t ht)

theorem allConditions_below {covered : List String} {t r : MatchTree} (ht : Plain ctx t)
    (h : consolidateBelow ctx covered t = .ok r) (hP : AllConditions P t) :
    AllConditions P r := by
  induction t using memberInduction generalizing covered r with
  | group j nodeType children ih => cases ht
  | leaf l => exact Except.ok.inj h ▸ hP
  | combined j children ih =>
    rw [consolidateBelow, consolidateEach_eq_mapM] at h
    obtain ⟨items, hitems, h⟩ := bind_eq_ok.1 h
    refine allConditions_level hu halign (plain_flattened ht.children hitems) h
      (allConditions_flattened.2 fun y hy => ?_)
    obtain ⟨c, hc, hcy⟩ := mem_of_mapM_eq_ok hitems hy
    exact ih c hc (ht.children c hc) hcy (allConditions_combined.1 hP c hc)

/-- What holds of all conditions of a tree holds of those of the consolidated tree. -/
theorem allConditions_consolidated {t r : MatchTree} (ht : Plain ctx t)
    (h : consolidated ctx t = .ok r) (hP : AllConditions P t) : AllConditions P r := by
  cases t with
  | group j nodeType children => cases ht
  | combined j children => exact allConditions_below hu halign ht h hP
  | leaf l => exact allConditions_level hu halign (by simpa using ht) h (by simpa using hP)

end Forwards

section Backwards

variable (hu : ∀ c, P c → ∀ arg ∈ c.args, P (.unknown arg))
  (halign : ∀ t t', Plain ctx t → alignDays ctx t = .ok t' → AllConditions P t' →
    AllConditions P t)

include hu halign

theorem allConditions_of_level {covered : List String} {r : MatchTree}
    (hi : ∀ t ∈ items, Plain ctx t) (h : consolidateLevel ctx j covered items = .ok r)
    (hP : AllConditions P r) : ∀ t ∈ items, AllConditions P t := by
  obtain ⟨paired, aligned, haligned, hplain, -, hitems, hr⟩ :=
    allConditions_consolidateLevel (P := P) hu hi h
  refine hitems.1 fun t ht => ?_
  obtain ⟨t', ht', h'⟩ := exists_of_mapM_eq_ok haligned ht
  exact halign t t' (hplain t ht) h' (hr.1 hP t' ht')

theorem allConditions_of_below {covered : List String} {t r : MatchTree} (ht : Plain ctx t)
    (h : consolidateBelow ctx covered t = .ok r) (hP : AllConditions P r) :
    AllConditions P t := by
  induction t using memberInduction generalizing covered r with
  | group j nodeType children ih => cases ht
  | leaf l => exact Except.ok.inj h ▸ hP
  | combined j children ih =>
    rw [consolidateBelow, consolidateEach_eq_mapM] at h
    obtain ⟨items, hitems, h⟩ := bind_eq_ok.1 h
    have hlevel := allConditions_flattened.1
      (allConditions_of_level hu halign (plain_flattened ht.children hitems) h hP)
    refine allConditions_combined.2 fun c hc => ?_
    obtain ⟨y, hy, hcy⟩ := exists_of_mapM_eq_ok hitems hc
    exact ih c hc (ht.children c hc) hcy (hlevel y hy)

/-- What holds of all conditions of a consolidated tree holds of those that it was made from. -/
theorem allConditions_of_consolidated {t r : MatchTree} (ht : Plain ctx t)
    (h : consolidated ctx t = .ok r) (hP : AllConditions P r) : AllConditions P t := by
  cases t with
  | group j nodeType children => cases ht
  | combined j children => exact allConditions_of_below hu halign ht h hP
  | leaf l =>
    exact allConditions_of_level hu halign (by simpa using ht) h hP _ (List.mem_singleton_self _)

end Backwards

/-! ## Groups -/

theorem forall_leaves_group {P : Leaf → Prop} {nodeType : String} {children : List MatchTree} :
    (∀ l ∈ (MatchTree.group j nodeType children).leaves, P l) ↔
      ∀ t ∈ children, ∀ l ∈ t.leaves, P l := by
  rw [leaves_group, List.forall_mem_flatMap]

theorem forall_leaves_groupMembers {P : Leaf → Prop} {t : MatchTree} :
    (∀ x ∈ groupMembers j t, ∀ l ∈ x.leaves, P l) ↔ ∀ l ∈ t.leaves, P l := by
  cases t with
  | leaf l => simp [groupMembers]
  | combined i children => simp [groupMembers]
  | group i nodeType children =>
    rw [groupMembers]
    split
    · rw [forall_leaves_group]
    · simp

/-- Grouping keeps the leaves. -/
theorem forall_leaves_grouped {P : Leaf → Prop} {t g : MatchTree} (h : grouped ctx t = .ok g) :
    (∀ l ∈ g.leaves, P l) ↔ ∀ l ∈ t.leaves, P l := by
  induction t using memberInduction generalizing g with
  | leaf l => rw [Except.ok.inj h]
  | group j nodeType children ih => rw [Except.ok.inj h]
  | combined j children ih =>
    rw [grouped, groupedAll_eq_mapM] at h
    obtain ⟨items, hitems, h⟩ := bind_eq_ok.1 h
    obtain ⟨keyed, hkeyed, h⟩ := bind_eq_ok.1 h
    obtain ⟨members, hmerge, h⟩ := bind_eq_ok.1 h
    have hjoined : (∀ l ∈ g.leaves, P l) ↔ ∀ x ∈ members, ∀ l ∈ x.leaves, P l := by
      rcases joined_eq_ok.1 (liftFault_eq_ok.1 h) with rfl | ⟨-, rfl⟩
      · simp
      · exact forall_leaves_combined
    rw [hjoined, forall_leaves_combined, Classes.forall_merge hmerge fun nodeType r hr => ?_,
      Classes.forall_keyed (P := fun t => ∀ l ∈ t.leaves, P l) hkeyed]
    · constructor
      · intro hall c hc
        obtain ⟨x, hx, hcx⟩ := exists_of_mapM_eq_ok hitems hc
        exact (ih c hc hcx).1 (hall x hx)
      · intro hall x hx
        obtain ⟨c, hc, hcx⟩ := mem_of_mapM_eq_ok hitems hx
        exact (ih c hc hcx).2 (hall c hc)
    · obtain ⟨-, -, rfl⟩ := groupTrees_eq_ok hr
      rw [forall_leaves_group, List.forall_mem_flatMap]
      exact forall_congr' fun t => forall_congr' fun _ => forall_leaves_groupMembers

end MatchTree

/-! ## Conversion -/

namespace Context

open MatchTree

variable {ctx : Context} {P : Condition → Prop} {e : Expression} {g : MatchTree}

/-- The stages of a grouped tree. -/
theorem groupedTree_eq_ok (h : ctx.groupedTree e = .ok g) :
    ∃ built merged, Plain ctx built ∧ consolidated ctx built = .ok merged ∧ Plain ctx merged ∧
      grouped ctx merged = .ok g ∧ (∀ l ∈ built.leaves, ∃ s, l = .single s) ∧
      built.leaves.flatMap Leaf.conditions = e.guarded.conditions := by
  obtain ⟨built, hb, h⟩ := bind_eq_ok.1 h
  obtain ⟨merged, hc, h⟩ := bind_eq_ok.1 h
  have hcovered := Expression.covered_guarded e
  obtain ⟨hplain, -⟩ := plain_build hb hcovered
  exact ⟨built, merged, hplain, hc, plain_consolidated hplain hc, h,
    (assembled_build hb).2, (leaves_of_build hb hcovered).2⟩

theorem filterQueries_eq_ok {qs : List FilterQuery} (hs : e.Solid)
    (h : ctx.filterQueries e = .ok qs) :
    ∃ g, ctx.groupedTree e = .ok g ∧ g.filterQueries ctx = .ok qs := by
  unfold filterQueries at h
  split at h
  · exact hs.elim
  · exact hs.elim
  · exact bind_eq_ok.1 h

theorem made_groupedTree (h : ctx.groupedTree e = .ok g) : ∀ l ∈ g.leaves, l.Made ctx := by
  obtain ⟨-, merged, -, -, hplain, hg, -, -⟩ := groupedTree_eq_ok h
  exact (forall_leaves_grouped hg).2 (made_of_plain hplain)

/-- What holds of all conditions of an expression holds of those of its grouped tree. -/
theorem allConditions_groupedTree (hu : ∀ c, P c → ∀ arg ∈ c.args, P (.unknown arg))
    (halign : ∀ t t', Plain ctx t → alignDays ctx t = .ok t' → AllConditions P t →
      AllConditions P t')
    (h : ctx.groupedTree e = .ok g) (he : ∀ c ∈ e.conditions, P c) : AllConditions P g := by
  obtain ⟨built, merged, hplain, hc, -, hg, -, hconditions⟩ := groupedTree_eq_ok h
  refine (forall_leaves_grouped hg).2 (allConditions_consolidated hu halign hplain hc ?_)
  have hguarded := Expression.forall_conditions_guarded hu he
  rwa [← hconditions, List.forall_mem_flatMap] at hguarded

/-- What holds of all conditions of a grouped tree holds of those of its expression. -/
theorem allConditions_of_groupedTree (hu : ∀ c, P c → ∀ arg ∈ c.args, P (.unknown arg))
    (halign : ∀ t t', Plain ctx t → alignDays ctx t = .ok t' → AllConditions P t' →
      AllConditions P t)
    (hs : e.Solid) (h : ctx.groupedTree e = .ok g) (hP : AllConditions P g) :
    ∀ c ∈ e.conditions, P c := by
  obtain ⟨built, merged, hplain, hc, -, hg, -, hconditions⟩ := groupedTree_eq_ok h
  have hbuilt := allConditions_of_consolidated hu halign hplain hc ((forall_leaves_grouped hg).1 hP)
  intro c hmem
  have hmem := Expression.mem_conditions_guarded hs hmem
  rw [← hconditions, List.mem_flatMap] at hmem
  obtain ⟨l, hl, hcl⟩ := hmem
  exact hbuilt l hl c hcl

end Context

end AudienceFilter
