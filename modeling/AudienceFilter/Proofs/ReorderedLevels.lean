import AudienceFilter.Proofs.CanonicalOrder
import AudienceFilter.Proofs.KeptArguments
import AudienceFilter.Proofs.PairedBounds
import AudienceFilter.Proofs.ReorderedMembers

/-!
# Consolidation of reordered conjunctions

The steps of a level put what they merge in the place of its first member. On the root level of a
conjunction this only decides the order of what comes out, with one exception: of two bounds that
an equality belongs to, the first one takes it.

* `Context.Local`: conditions on arguments that are stored on the main documents;
* `sameOutcome_mergeBounds`, `sameOutcome_mergeValues`, `sameOutcome_addUnknown`: the steps of a
  level;
* `consolidateBelow_congr`: guards above a tree, in another order;
* `rootLevel`: the trees of the root level, each consolidated;
* `sameOutcome_consolidated`: reordered conjunctions.
-/

namespace AudienceFilter

/-! ## Main documents -/

namespace Context

variable {ctx : Context}

/-- Whether an argument is stored on the main documents. -/
def OnMain (ctx : Context) (arg : String) : Prop :=
  ∃ a, ctx.assignment arg = .ok a ∧ a.field.nodeType = ctx.mainType

/-- Whether the arguments of a condition are stored on the main documents. -/
def Local (ctx : Context) (c : Condition) : Prop := ∀ arg ∈ c.args, ctx.OnMain arg

theorem local_unknown (c : Condition) (h : ctx.Local c) :
    ∀ arg ∈ c.args, ctx.Local (.unknown arg) := by
  intro arg harg other hother
  rw [List.mem_singleton.1 hother]
  exact h arg harg

theorem mayJoin_of_main {nodeType arg : String} {isComplement inDocument verifies : Bool}
    (h : ctx.isMain nodeType = true) :
    ctx.mayJoin nodeType arg isComplement inDocument verifies = .ok true := if_pos h

end Context

namespace Leaf

variable {ctx : Context} {l : Leaf}

theorem Made.isMain (h : l.Made ctx) (hl : ∀ c ∈ l.conditions, ctx.Local c) :
    ctx.isMain l.nodeType = true := by
  obtain ⟨c, hc, harg⟩ := MatchTree.exists_condition_on_arg l
  obtain ⟨a, ha, hmain⟩ := hl c hc l.arg (harg ▸ List.mem_cons_self)
  obtain ⟨b, hb, hn, -⟩ := h.assignment
  obtain rfl := Except.ok.inj (ha.symm.trans hb)
  rw [Context.isMain, hn, hmain]
  exact beq_self_eq_true _

theorem Made.nodeType_congr {l' : Leaf} (h : l.Made ctx) (h' : l'.Made ctx)
    (harg : l.arg = l'.arg) : l.nodeType = l'.nodeType := by
  obtain ⟨a, ha, hn, -⟩ := h.assignment
  obtain ⟨a', ha', hn', -⟩ := h'.assignment
  rw [harg, ha'] at ha
  rw [hn, hn', Except.ok.inj ha]

theorem Made.joinable_of_main (h : l.Made ctx) (hm : ctx.isMain l.nodeType = true) :
    l.joinable = true := by
  cases h with
  | single h =>
    obtain ⟨a, -, -, hj, -, -, hn, -⟩ := Context.single_eq_ok h
    rw [Leaf.nodeType, hn] at hm
    exact (Except.ok.inj ((Context.mayJoin_of_main hm).symm.trans hj)).symm
  | multi ha h =>
    obtain ⟨hj, hmake⟩ := Context.multi_eq_ok h
    obtain ⟨-, -, -, -, -, hn, -⟩ := Multi.make_eq_ok hmake
    rw [Leaf.nodeType, hn] at hm
    exact (Except.ok.inj ((Context.mayJoin_of_main hm).symm.trans hj)).symm
  | between hl hu h =>
    obtain ⟨hj, hmake⟩ := Context.between_eq_ok h
    obtain ⟨-, -, -, -, -, -, hb⟩ := Between.make_eq_ok hmake
    rw [hb] at hm
    exact (Except.ok.inj ((Context.mayJoin_of_main hm).symm.trans hj)).symm

end Leaf

namespace MatchTree

variable {ctx : Context} {p : Polarity} {items items' : List MatchTree}

theorem local_alignDays (t t' : MatchTree) (ht : Plain ctx t) (h : alignDays ctx t = .ok t')
    (hl : AllConditions ctx.Local t) : AllConditions ctx.Local t' := by
  intro l' hl' c' hc' arg harg
  refine Classical.byContradiction fun hnot => ?_
  have hlacks : Lacks arg t := fun l hlt c hc ha => hnot (hl l hlt c hc arg ha)
  exact (lacks_alignDays ht h).2 hlacks l' hl' c' hc' harg

/-- Whether the trees of a level are plain and on the main documents. -/
structure MainLevel (ctx : Context) (items : List MatchTree) : Prop where
  plain : ∀ t ∈ items, Plain ctx t
  onMain : ∀ t ∈ items, AllConditions ctx.Local t

theorem MainLevel.isMain (h : MainLevel ctx items) {l : Leaf} (hl : .leaf l ∈ items) :
    l.Made ctx ∧ ctx.isMain l.nodeType = true :=
  have hmade := (h.plain _ hl).made
  ⟨hmade, hmade.isMain (allConditions_leaf.1 (h.onMain _ hl))⟩

/-! ## Inclusive bounds -/

theorem MainLevel.apart (h : MainLevel ctx items) (hn : items.Nodup) : Apart items where
  nodup := by
    refine List.Pairwise.filterMap _ (fun t t' hne s hs s' hs' he => hne ?_) hn
    rw [single?_eq_some hs, single?_eq_some hs', he]
  joinable s hs := by
    obtain ⟨hmade, hmain⟩ := h.isMain (mem_singles.1 hs)
    exact hmade.joinable_of_main hmain

theorem MainLevel.multi_inclusive (h : MainLevel ctx items) (hv : p.verifies = false) {b : Single}
    (hb : b ∈ singles items) (hbound : b.condition.op.isBound = true) :
    ∃ m, ctx.multi b.nodeType b.condition [(equalityOf b).condition] p = .ok m := by
  obtain ⟨hmade, hmain⟩ := h.isMain (mem_singles.1 hb)
  have hmain : ctx.isMain b.nodeType = true := hmain
  have hyields := (Context.yields_inclusive hmade hv rfl hbound).1
  have hjoin : ctx.multi b.nodeType b.condition [(equalityOf b).condition] p = liftFault
      (Multi.make b.nodeType [b.condition, (equalityOf b).condition] p true) := by
    rw [Context.multi, Context.mayJoin_of_main hmain]
    rfl
  cases hmake : Multi.make b.nodeType [b.condition, (equalityOf b).condition] p true with
  | ok m => exact ⟨m, by rw [hjoin, hmake]; rfl⟩
  | error f =>
    rw [hmake] at hjoin
    exact absurd hjoin (hyields f)

/-! ## Bounds on either side -/

theorem isUpperBound_of_isLowerBound {m : Multi} (h : m.isLowerBound = true) :
    m.isUpperBound = false := by
  rw [Multi.isLowerBound, Bool.and_eq_true, beq_iff_eq] at h
  rw [Multi.isUpperBound, h.2]
  exact Bool.and_false _

theorem sameOutcome_pairBounds_swap (arg : String) (x y : MatchTree) :
    SameOutcome Eq (pairBounds ctx arg [x, y]) (pairBounds ctx arg [y, x]) := by
  rw [pairBounds, pairBounds]
  refine (SameOutcome.refl (fun _ => rfl) _).bind fun single single' _ _ hs => ?_
  subst hs
  cases single with
  | false => exact .ok rfl
  | true =>
    simp only [if_true]
    cases toMulti? ctx x with
    | error e =>
      cases toMulti? ctx y with
      | error e' => exact .error e e'
      | ok y? => exact .error e e
    | ok x? =>
      cases toMulti? ctx y with
      | error e' => exact .error e' e'
      | ok y? =>
        rcases x? with _ | a <;> rcases y? with _ | b
        · exact .ok rfl
        · exact .ok rfl
        · exact .ok rfl
        · show SameOutcome Eq (if _ then _ else if _ then _ else _)
            (if _ then _ else if _ then _ else _)
          by_cases hab : (a.isLowerBound && b.isUpperBound) = true
          · -- The two bounds do not fit the other way round.
            have hba : ¬ (b.isLowerBound && a.isUpperBound) = true := by
              rw [isUpperBound_of_isLowerBound (Bool.and_eq_true_iff.1 hab).1, Bool.and_false]
              exact Bool.false_ne_true
            rw [if_pos hab, if_neg hba, if_pos hab]
            exact .refl (fun _ => rfl) _
          · rw [if_neg hab, if_neg hab]
            exact .refl (fun _ => rfl) _

/-- Two bounds of an argument are paired in any order. -/
theorem sameOutcome_pairBounds {arg : String} {xs ys : List MatchTree} (h : xs.Perm ys) :
    SameOutcome Eq (pairBounds ctx arg xs) (pairBounds ctx arg ys) := by
  have hlen := h.length_eq
  match xs, ys with
  | [], _ =>
    rw [h.nil_eq]
    exact .refl (fun _ => rfl) _
  | [x], _ =>
    rw [List.singleton_perm.1 h]
    exact .refl (fun _ => rfl) _
  | [x, y], [x', y'] =>
    rcases List.mem_cons.1 (h.mem_iff.1 List.mem_cons_self) with rfl | hx
    · obtain rfl : y = y' := by simpa using h
      exact .refl (fun _ => rfl) _
    · obtain rfl := List.mem_singleton.1 hx
      obtain rfl : y = x' := by simpa using h.trans (.swap _ _ _)
      exact sameOutcome_pairBounds_swap arg x y
  | _ :: _ :: _ :: _, _ :: _ :: _ :: _ => exact .ok rfl

theorem sameOutcome_mergeBounds (h : items.Perm items') :
    SameOutcome List.Perm (mergeBounds ctx p items) (mergeBounds ctx p items') :=
  Classes.sameOutcome_merge (h.map _) fun arg _ =>
    sameOutcome_pairBounds (Classes.perm_members (h.map _) arg)

/-! ## Several values -/

/-- Values of an argument are put together in any order. -/
theorem multi_congr {nodeType arg : String} {c c' : Condition} {cs cs' : List Condition}
    (h : ∀ x ∈ c :: cs, x.arg = arg ∧ x.isReference = false)
    (hmem : ∀ x, x ∈ c :: cs ↔ x ∈ c' :: cs') :
    ctx.multi nodeType c cs p = ctx.multi nodeType c' cs' p := by
  have hmake : ∀ joinable, Multi.make nodeType (c :: cs) p joinable =
      Multi.make nodeType (c' :: cs') p joinable := by
    intro joinable
    rw [Multi.make, Multi.make, Multi.canonical_congr (fun x hx => (h x hx).1) hmem]
  obtain ⟨harg, href⟩ := h c List.mem_cons_self
  obtain ⟨harg', href'⟩ := h c' ((hmem c').2 List.mem_cons_self)
  simp only [Context.multi, harg, harg', href, href', hmake]

/-- Two or more leaves become the leaf of all their conditions. -/
theorem exists_mergeMembers (ctx : Context) (p : Polarity) {xs : List MatchTree}
    (h : 2 ≤ (xs.filterMap leaf?).length) :
    ∃ first ∈ xs.filterMap leaf?, ∃ c cs,
      (xs.filterMap leaf?).flatMap Leaf.conditions = c :: cs ∧
      mergeMembers ctx p xs = do
        let m ← ctx.multi first.nodeType c cs p
        return some (.leaf (.multi m)) := by
  rw [mergeMembers]
  generalize xs.filterMap leaf? = leaves at h ⊢
  rcases leaves with _ | ⟨first, _ | ⟨second, rest⟩⟩
  · exact absurd h (by decide)
  · exact absurd h (Nat.not_le.2 (Nat.lt_succ_self 1))
  · obtain ⟨x, hx, -⟩ := exists_condition_on_arg first
    obtain ⟨c, cs, hc⟩ := List.exists_cons_of_ne_nil (List.ne_nil_of_mem
      (List.mem_flatMap.2 ⟨first, List.mem_cons_self (l := second :: rest), hx⟩))
    exact ⟨first, List.mem_cons_self, c, cs, hc, by simp only [hc]⟩

theorem mergeMembers_congr {key : String × Operator} {xs ys : List MatchTree} (h : xs.Perm ys)
    (hk : ∀ t ∈ xs, Assembled ctx t ∧ valueKey? p t = some key) :
    mergeMembers ctx p xs = mergeMembers ctx p ys := by
  have hperm : (xs.filterMap leaf?).Perm (ys.filterMap leaf?) := h.filterMap _
  have hleaf : ∀ l ∈ xs.filterMap leaf?, l.Made ctx ∧ l.arg = key.1 ∧
      ∀ c ∈ l.conditions, c.arg = key.1 ∧ c.isReference = false := by
    intro l hl
    obtain ⟨ht, hkey⟩ := hk _ (mem_filterMap_leaf?.1 hl)
    obtain ⟨_, ⟨⟩, -, harg, -, -, hconds, -⟩ := valueKey?_eq_some ht hkey
    exact ⟨ht.made, harg, fun c hc =>
      ⟨(hconds c hc).1, Condition.isReference_of_value (hconds c hc).2.2⟩⟩
  by_cases hlen : (xs.filterMap leaf?).length < 2
  · rw [mergeMembers, mergeMembers, eq_of_perm_of_length_lt hperm hlen]
  · have htwo := Nat.not_lt.1 hlen
    obtain ⟨first, hf, c, cs, hc, hx⟩ := exists_mergeMembers ctx p htwo
    obtain ⟨first', hf', c', cs', hc', hy⟩ :=
      exists_mergeMembers ctx p (hperm.length_eq ▸ htwo)
    have hnode : first.nodeType = first'.nodeType := by
      obtain ⟨hm, harg, -⟩ := hleaf first hf
      obtain ⟨hm', harg', -⟩ := hleaf first' (hperm.mem_iff.2 hf')
      exact hm.nodeType_congr hm' (harg.trans harg'.symm)
    have hconds : ∀ x ∈ c :: cs, x.arg = key.1 ∧ x.isReference = false := by
      intro x hxc
      obtain ⟨l, hl, hxl⟩ := List.mem_flatMap.1 (hc ▸ hxc)
      exact (hleaf l hl).2.2 x hxl
    have hflat := hperm.flatMap_right Leaf.conditions
    rw [hc, hc'] at hflat
    rw [hx, hy, hnode, multi_congr hconds fun x => hflat.mem_iff]

theorem sameOutcome_mergeValues (hi : ∀ t ∈ items, Assembled ctx t) (h : items.Perm items') :
    SameOutcome List.Perm (mergeValues ctx p items) (mergeValues ctx p items') := by
  refine (sameOutcome_mapM_perm h).bind fun keyed keyed' hkeyed _ hperm => ?_
  refine Classes.sameOutcome_merge hperm fun key _ => ?_
  rw [mergeMembers_congr (Classes.perm_members hperm key) (mem_valueClass hi hkeyed key)]
  exact .refl (fun _ => rfl) _

/-! ## Unknown arguments -/

theorem addUnknown_congr {j : Connective} {covered covered' : List String} {done : List MatchTree}
    (h : ∀ arg, arg ∈ covered ↔ arg ∈ covered') :
    addUnknown ctx j covered done items = addUnknown ctx j covered' done items := by
  induction items generalizing done with
  | nil => rfl
  | cons t rest ih => simp only [addUnknown, List.contains_eq_mem, h, ih]

theorem sameOutcome_addUnknown {covered : List String} (h : items.Perm items') :
    SameOutcome List.Perm (addUnknown ctx .and covered [] items)
      (addUnknown ctx .and covered [] items') := by
  rw [addUnknown_and_eq, addUnknown_and_eq]
  exact (sameOutcome_mapM_perm h).map fun _ _ hperm => hperm

/-! ## Levels -/

theorem sameOutcome_joined (h : items.Perm items') :
    SameOutcome Reordered (joined .and items) (joined .and items') := by
  have hlen := h.length_eq
  match items, items' with
  | [], [] => exact .error _ _
  | [t], _ =>
    rw [List.singleton_perm.1 h]
    exact .refl .refl _
  | _ :: _ :: _, _ :: _ :: _ => exact sameOutcome_combine h

/-- The root level is consolidated alike in another order, if the same bounds come first. -/
theorem sameOutcome_consolidateLevel {covered : List String} (hi : MainLevel ctx items)
    (hn : items.Nodup) (h : items.Perm items') (hsame : SameFirstBounds .negated items items') :
    SameOutcome Reordered (consolidateLevel ctx .and covered items)
      (consolidateLevel ctx .and covered items') := by
  have hpairs := sameOutcome_mergeBoundPairs h (hi.apart hn) hsame fun b hb _ =>
    hi.multi_inclusive rfl hb
  refine hpairs.bind fun paired paired' hpaired _ h => ?_
  have hassembled := (sameLevel_mergeBoundPairs (j := .and) (assembled_of_plain hi.plain)
    hpaired).assembled (assembled_of_plain hi.plain)
  refine (sameOutcome_mapM_perm h).bind fun aligned aligned' haligned _ h => ?_
  have hassembled := (sameLevel_alignDays (j := .and) hassembled haligned).assembled hassembled
  refine (sameOutcome_mergeBounds h).bind fun bounded bounded' hbounded _ h => ?_
  have hassembled := (sameLevel_mergeBounds (j := .and) hassembled hbounded).assembled hassembled
  refine (sameOutcome_mergeValues hassembled h).bind fun merged merged' _ _ h => ?_
  exact (sameOutcome_addUnknown h).bind fun out out' _ _ h => (sameOutcome_joined h).liftFault

theorem consolidateLevel_congr {j : Connective} {covered covered' : List String}
    (h : ∀ arg, arg ∈ covered ↔ arg ∈ covered') :
    consolidateLevel ctx j covered items = consolidateLevel ctx j covered' items := by
  simp only [consolidateLevel, addUnknown_congr h]

/-- It does not matter in which order arguments are guarded above a tree. -/
theorem consolidateBelow_congr {covered covered' : List String} {t : MatchTree}
    (h : ∀ arg, arg ∈ covered ↔ arg ∈ covered') :
    consolidateBelow ctx covered t = consolidateBelow ctx covered' t := by
  induction t using memberInduction generalizing covered covered' with
  | leaf l => rfl
  | group j nodeType children ih => rfl
  | combined j children ih =>
    have hcovered : ∀ arg, arg ∈ coveredOn j covered children ↔
        arg ∈ coveredOn j covered' children := fun arg => by
      rw [mem_coveredOn, mem_coveredOn, h]
    rw [consolidateBelow, consolidateBelow, consolidateEach_eq_mapM, consolidateEach_eq_mapM,
      mapM_congr fun t ht => ih t ht hcovered]
    simp only [consolidateLevel_congr hcovered]

/-! ## Root levels -/

/-- The trees of the root level of a conjunction, each consolidated. -/
def rootLevel (ctx : Context) : MatchTree → Result (List MatchTree)
  | .combined .and children => do
    let items ← consolidateEach ctx (coveredOn .and [] children) children
    return flattened .and items
  | t => .ok [t]

theorem consolidated_and (children : List MatchTree) :
    consolidated ctx (.combined .and children) = rootLevel ctx (.combined .and children) >>=
      consolidateLevel ctx .and (coveredOn .and [] children) := by
  rw [consolidated, consolidateBelow, rootLevel]
  cases consolidateEach ctx (coveredOn .and [] children) children with
  | error e => rfl
  | ok items => rfl

theorem nodup_rootLevel {children : List MatchTree}
    (h : rootLevel ctx (.combined .and children) = .ok items) : items.Nodup := by
  obtain ⟨each, -, h⟩ := bind_eq_ok.1 h
  rw [← pure_eq_ok.1 h, flattened_eq_ofList]
  exact Distinct.nodup_ofList _

theorem mainLevel_rootLevel {children : List MatchTree}
    (hp : Plain ctx (.combined .and children))
    (hl : AllConditions ctx.Local (.combined .and children))
    (h : rootLevel ctx (.combined .and children) = .ok items) : MainLevel ctx items := by
  rw [rootLevel, consolidateEach_eq_mapM] at h
  obtain ⟨each, heach, h⟩ := bind_eq_ok.1 h
  rw [← pure_eq_ok.1 h]
  refine ⟨plain_flattened hp.children heach, allConditions_flattened.2 fun t ht => ?_⟩
  obtain ⟨c, hc, hct⟩ := mem_of_mapM_eq_ok heach ht
  exact allConditions_below Context.local_unknown local_alignDays (hp.children c hc) hct
    (allConditions_combined.1 hl c hc)

theorem mem_coveredOn_perm {ts ts' : List MatchTree} (h : ts.Perm ts') (arg : String) :
    arg ∈ coveredOn .and [] ts ↔ arg ∈ coveredOn .and [] ts' := by
  rw [mem_coveredOn, mem_coveredOn, mem_guardArgs, mem_guardArgs]
  simp only [h.mem_iff]

theorem sameOutcome_rootLevel {ts ts' : List MatchTree} (h : ts.Perm ts') :
    SameOutcome List.Perm (rootLevel ctx (.combined .and ts))
      (rootLevel ctx (.combined .and ts')) := by
  rw [rootLevel, rootLevel, consolidateEach_eq_mapM, consolidateEach_eq_mapM,
    mapM_congr fun t _ => consolidateBelow_congr (mem_coveredOn_perm h)]
  refine (sameOutcome_mapM_perm h).bind fun each each' _ _ hperm => .ok ?_
  rw [flattened_eq_ofList, flattened_eq_ofList]
  exact Distinct.perm_ofList fun x => (hperm.flatMap_right _).mem_iff

/-- Reordered conjunctions on the main documents are consolidated to reordered trees, if the same
bounds come first on their root levels. -/
theorem sameOutcome_consolidated {t t' : MatchTree} (hp : Plain ctx t)
    (hl : AllConditions ctx.Local t) (h : t.Reordered t')
    (hsame : ∀ items items', rootLevel ctx t = .ok items → rootLevel ctx t' = .ok items' →
      SameFirstBounds .negated items items') :
    SameOutcome Reordered (consolidated ctx t) (consolidated ctx t') := by
  cases h with
  | refl t => exact .refl .refl _
  | @members ts ts' h =>
    rw [consolidated_and, consolidated_and]
    refine (sameOutcome_rootLevel h).bind fun items items' hitems hitems' hperm => ?_
    rw [consolidateLevel_congr (mem_coveredOn_perm h)]
    exact sameOutcome_consolidateLevel (mainLevel_rootLevel hp hl hitems)
      (nodup_rootLevel hitems) hperm (hsame items items' hitems hitems')

end MatchTree

end AudienceFilter
