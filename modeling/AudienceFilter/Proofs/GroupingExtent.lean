import AudienceFilter.Proofs.GroupingOrder

/-!
# What is grouped

A group holds nothing but leaves that may share its join, and none of those that may is left out:
at a level that remains, no two members may share one. So grouping a grouped tree again changes
nothing.

* `ProperGroup`: what stands in a group;
* `MayShare`, `Separate`: members that could be grouped, and levels that have no two of them;
* `Regular`: trees of proper groups and separate levels;
* `regular_groupLevel`, `regular_grouped`: grouping gives them;
* `Regular.grouped_eq`: grouping leaves them as they are.
-/

namespace AudienceFilter.MatchTree

open Classes

/-- Members that may stand in one group: leaves and groups, with leaves of the node type that may
share a join. In a conjunction no argument has values on several documents. -/
structure ProperGroup (ctx : Context) (j : Connective) (nodeType : String)
    (members : List MatchTree) : Prop where
  noCombined : ∀ t ∈ members, ∀ s ∈ t.subtrees, ∀ i children, s ≠ .combined i children
  leaves : ∀ t ∈ members, ∀ l ∈ t.leaves, l.joinable = true ∧ l.nodeType = nodeType
  oneDoc : j = .and → ∀ t ∈ members, ∀ l ∈ t.leaves, ∀ arg ∈ l.args,
    ctx.isMultiDoc arg = .ok false

/-- Whether a member of a combination may share a join on a node type with others. -/
structure MayShare (ctx : Context) (j : Connective) (nodeType : String) (t : MatchTree) :
    Prop where
  joinable : t.joinable = true
  nodeType_eq : t.commonNodeType = some nodeType
  oneDoc : j = .and → ∀ l ∈ t.leaves, ∀ arg ∈ l.args, ctx.isMultiDoc arg ≠ .ok true

/-- Whether no two members may share a join. -/
def Separate (ctx : Context) (j : Connective) (members : List MatchTree) : Prop :=
  members.Pairwise fun t u => ∀ nodeType, MayShare ctx j nodeType t → ¬MayShare ctx j nodeType u

/-- Whether the groups of a tree are proper and its levels separate. -/
inductive Regular (ctx : Context) : MatchTree → Prop
  | leaf (l : Leaf) : Regular ctx (.leaf l)
  | combined {j : Connective} {children : List MatchTree} (hlen : 2 ≤ children.length)
      (hkey : ∀ t ∈ children, ∃ key, groupKey? ctx j t = .ok key) (hs : Separate ctx j children)
      (hc : ∀ t ∈ children, Regular ctx t) : Regular ctx (.combined j children)
  | group {j : Connective} {nodeType : String} {children : List MatchTree}
      (hg : ProperGroup ctx j nodeType children) (hc : ∀ t ∈ children, Regular ctx t) :
      Regular ctx (.group j nodeType children)

variable {ctx : Context} {j : Connective} {nodeType : String}

theorem Regular.of_mem_subtrees {t s : MatchTree} (h : Regular ctx t) (hs : s ∈ t.subtrees) :
    Regular ctx s := by
  induction h with
  | leaf l => exact mem_subtrees_leaf.1 hs ▸ .leaf l
  | combined hlen hkey hsep hc ih =>
    rcases mem_subtrees_combined.1 hs with rfl | ⟨t, ht, hs⟩
    · exact .combined hlen hkey hsep hc
    · exact ih t ht hs
  | group hg hc ih =>
    rcases mem_subtrees_group.1 hs with rfl | ⟨t, ht, hs⟩
    · exact .group hg hc
    · exact ih t ht hs

/-! ## Keys -/

theorem anyMultiDoc_eq_true {args : List String} (h : anyMultiDoc ctx args = .ok true) :
    ∃ arg ∈ args, ctx.isMultiDoc arg = .ok true := by
  induction args with
  | nil => cases h
  | cons arg rest ih =>
    obtain ⟨b, hb, h⟩ := bind_eq_ok.1 h
    cases b with
    | true => exact ⟨arg, List.mem_cons_self, hb⟩
    | false =>
      obtain ⟨arg', ha, hm⟩ := ih h
      exact ⟨arg', List.mem_cons_of_mem arg ha, hm⟩

theorem anyMultiDoc_of_forall {args : List String}
    (h : ∀ arg ∈ args, ctx.isMultiDoc arg = .ok false) : anyMultiDoc ctx args = .ok false := by
  induction args with
  | nil => rfl
  | cons arg rest ih =>
    rw [List.forall_mem_cons] at h
    exact bind_eq_ok.2 ⟨false, h.1, ih h.2⟩

theorem joinNodeType?_eq_some {t : MatchTree} : joinNodeType? t = some nodeType ↔
    t.joinable = true ∧ t.commonNodeType = some nodeType := by
  cases t with
  | leaf l => simp [joinNodeType?, joinable, commonNodeType]
  | combined i children => simp [joinNodeType?, joinable]
  | group i n children => simp [joinNodeType?, joinable, commonNodeType]

/-- The key of a member is the node type whose join it may share. -/
theorem mayShare_iff {t : MatchTree} {key : Option String} (h : groupKey? ctx j t = .ok key) :
    MayShare ctx j nodeType t ↔ key = some nodeType := by
  constructor
  · intro hs
    rw [groupKey?, joinNodeType?_eq_some.2 ⟨hs.joinable, hs.nodeType_eq⟩] at h
    cases j with
    | or => exact (Except.ok.inj h).symm
    | and =>
      obtain ⟨multiDoc, hmd, rfl⟩ := map_eq_ok.1 h
      cases multiDoc with
      | false => rfl
      | true =>
        obtain ⟨arg, ha, hm⟩ := anyMultiDoc_eq_true hmd
        obtain ⟨l, hl, ha⟩ := mem_args.1 ha
        exact absurd hm (hs.oneDoc rfl l hl arg ha)
  · rintro rfl
    obtain ⟨hn, ha⟩ := groupKey?_eq_some h
    obtain ⟨hj, hn⟩ := joinNodeType?_eq_some.1 hn
    refine ⟨hj, hn, fun hand l hl arg harg hm => ?_⟩
    rw [ha hand l hl arg harg] at hm
    cases hm

/-! ## One level -/

theorem subtrees_groupMembers {t x s : MatchTree} (hx : x ∈ groupMembers j t)
    (hs : s ∈ x.subtrees) : s ∈ t.subtrees := by
  cases t with
  | leaf l => exact List.mem_singleton.1 hx ▸ hs
  | combined i children => exact List.mem_singleton.1 hx ▸ hs
  | group i n children =>
    rw [groupMembers] at hx
    split at hx
    · exact mem_subtrees_group.2 (.inr ⟨x, hx, hs⟩)
    · exact List.mem_singleton.1 hx ▸ hs

/-- A regular tree that may share a join holds leaves of its node type alone. -/
theorem Regular.of_mayShare {t : MatchTree} (ht : Regular ctx t)
    (h : MayShare ctx j nodeType t) :
    (∀ s ∈ t.subtrees, ∀ i children, s ≠ .combined i children) ∧
      ∀ l ∈ t.leaves, l.joinable = true ∧ l.nodeType = nodeType := by
  cases ht with
  | leaf l =>
    constructor
    · rintro s hs i children rfl
      cases mem_subtrees_leaf.1 hs
    · intro l' hl
      rw [List.mem_singleton.1 hl]
      exact ⟨h.joinable, Option.some.inj h.nodeType_eq⟩
  | combined hlen hkey hs hc => cases h.joinable
  | group hg hc =>
    cases h.nodeType_eq
    constructor
    · rintro s hs i children rfl
      rcases mem_subtrees_group.1 hs with hs | ⟨t, ht, hs⟩
      · cases hs
      · exact hg.noCombined t ht _ hs i children rfl
    · rw [leaves_group]
      intro l hl
      obtain ⟨t, ht, hl⟩ := List.mem_flatMap.1 hl
      exact hg.leaves t ht l hl

theorem Stands.regular {block : List MatchTree} {t : MatchTree} (h : Stands ctx j block t)
    (hr : ∀ x ∈ block, Regular ctx x) : Regular ctx t := by
  cases h with
  | alone t => exact hr t (List.mem_singleton_self t)
  | group hlen hkey =>
    have hshare := fun t ht => (hr t ht).of_mayShare ((mayShare_iff (hkey t ht)).2 rfl)
    have hleaf : ∀ {t x l}, x ∈ groupMembers j t → l ∈ x.leaves → l ∈ t.leaves := by
      intro t x l hx hl
      rw [← leaves_groupMembers t]
      exact List.mem_flatMap.2 ⟨x, hx, hl⟩
    refine .group ⟨?_, ?_, ?_⟩ ?_
    all_goals simp only [List.mem_flatMap, forall_exists_index, and_imp]
    · intro x t ht hx s hs
      exact (hshare t ht).1 s (subtrees_groupMembers hx hs)
    · intro x t ht hx l hl
      exact (hshare t ht).2 l (hleaf hx hl)
    · intro hand x t ht hx l hl
      exact (groupKey?_eq_some (hkey t ht)).2 hand l (hleaf hx hl)
    · intro x t ht hx
      exact (hr t ht).of_mem_subtrees (subtrees_groupMembers hx (self_mem_subtrees x))

/-- The tree of a block has the key of its members. -/
theorem Stands.groupKey? {block : List MatchTree} {t : MatchTree} (h : Stands ctx j block t)
    (hkey : ∀ x ∈ block, ∃ key, groupKey? ctx j x = .ok key) :
    ∃ key, MatchTree.groupKey? ctx j t = .ok key ∧
      ∃ x ∈ block, MatchTree.groupKey? ctx j x = .ok key := by
  have hleaves := h.leaves_eq
  cases h with
  | alone t =>
    obtain ⟨key, hk⟩ := hkey t (List.mem_singleton_self t)
    exact ⟨key, hk, t, List.mem_singleton_self t, hk⟩
  | @group n ts hlen hn =>
    obtain ⟨x, hx⟩ := List.exists_mem_of_length_pos (Nat.lt_of_lt_of_le Nat.two_pos hlen)
    refine ⟨some n, ?_, x, hx, hn x hx⟩
    rw [MatchTree.groupKey?, joinNodeType?]
    cases j with
    | or => rfl
    | and =>
      refine map_eq_ok.2 ⟨false, anyMultiDoc_of_forall fun arg ha => ?_, rfl⟩
      obtain ⟨l, hl, ha⟩ := mem_args.1 ha
      rw [hleaves] at hl
      obtain ⟨x, hx, hl⟩ := List.mem_flatMap.1 hl
      exact (groupKey?_eq_some (hn x hx)).2 rfl l hl arg ha

theorem groupKey?_of_groupLevel {members : List MatchTree} {r : MatchTree}
    (h : groupLevel ctx j members = .ok r) :
    ∀ t ∈ members, ∃ key, groupKey? ctx j t = .ok key := by
  intro t ht
  obtain ⟨keyed, hkeyed, -⟩ := bind_eq_ok.1 h
  obtain ⟨p, -, hp⟩ := exists_of_mapM_eq_ok hkeyed ht
  obtain ⟨key, hkey, -⟩ := map_eq_ok.1 hp
  exact ⟨key, liftError_eq_ok.1 hkey⟩

/-- Grouping a level leaves members with keys of which no two are alike. -/
theorem LevelArranged.separate {members out : List MatchTree}
    (h : LevelArranged ctx j members out)
    (hkey : ∀ t ∈ members, ∃ key, groupKey? ctx j t = .ok key) :
    (∀ t ∈ out, ∃ key, groupKey? ctx j t = .ok key) ∧ Separate ctx j out := by
  have hblock : ∀ p ∈ (gather (shareKey? ctx j) members).zip out, ∃ key,
      groupKey? ctx j p.2 = .ok key ∧ ∃ x ∈ p.1, groupKey? ctx j x = .ok key := fun p hp =>
    (h.stands p hp).groupKey? fun x hx =>
      hkey x ((h.inner p.1 (List.of_mem_zip hp).1).subset hx)
  constructor
  · intro t ht
    obtain ⟨block, hp⟩ := exists_mem_zip h.length_eq ht
    obtain ⟨key, hk, -⟩ := hblock _ hp
    exact ⟨key, hk⟩
  · refine pairwise_of_zip h.length_eq (gather_pairwise (shareKey? ctx j) members) ?_
    intro p hp q hq hpq n hsp hsq
    obtain ⟨kp, hkp, x, hx, hkx⟩ := hblock p hp
    obtain ⟨kq, hkq, y, hy, hky⟩ := hblock q hq
    cases (mayShare_iff hkp).1 hsp
    cases (mayShare_iff hkq).1 hsq
    exact hpq x hx y hy n (shareKey?_of_eq_ok hkx) (shareKey?_of_eq_ok hky)

theorem regular_groupLevel {members : List MatchTree} {r : MatchTree}
    (hr : ∀ t ∈ members, Regular ctx t) (h : groupLevel ctx j members = .ok r) :
    Regular ctx r := by
  obtain ⟨out, ha, hout⟩ := levelArranged_groupLevel h
  have hregular : ∀ t ∈ out, Regular ctx t := by
    intro t ht
    obtain ⟨block, hp⟩ := exists_mem_zip ha.length_eq ht
    refine (ha.stands _ hp).regular fun x hx => hr x ?_
    exact (ha.inner block (List.of_mem_zip hp).1).subset hx
  rcases hout with rfl | ⟨hlen, rfl⟩
  · exact hregular r (List.mem_singleton_self r)
  · obtain ⟨hkey, hsep⟩ := ha.separate (groupKey?_of_groupLevel h)
    exact .combined hlen hkey hsep hregular

/-- A separate level stays as it is. -/
theorem groupLevel_of_separate {children : List MatchTree} (hlen : 2 ≤ children.length)
    (hkey : ∀ t ∈ children, ∃ key, groupKey? ctx j t = .ok key) (hs : Separate ctx j children) :
    groupLevel ctx j children = .ok (.combined j children) := by
  have hkeyed : (children.mapM fun t =>
      (liftError (groupKey? ctx j t)).map fun key => (key, t)) =
        .ok (children.map fun t => (shareKey? ctx j t, t)) := by
    refine mapM_eq_ok_map fun t ht => ?_
    obtain ⟨key, hk⟩ := hkey t ht
    rw [hk, shareKey?_of_eq_ok hk]
    rfl
  have hclass : ∀ n, groupTrees j n (withKey (shareKey? ctx j) n children) = .ok none := by
    intro n
    have hpair := List.Pairwise.filter (fun t => shareKey? ctx j t = some n) hs
    have hshare : ∀ t ∈ withKey (shareKey? ctx j) n children, MayShare ctx j n t := fun t ht =>
      (mayShare_iff (groupKey?_of_shareKey? (mem_withKey.1 ht).2)).2 rfl
    rw [← withKey] at hpair
    generalize withKey (shareKey? ctx j) n children = ts at hpair hshare
    rcases ts with _ | ⟨t, _ | ⟨u, rest⟩⟩
    · rfl
    · rfl
    · rw [List.pairwise_cons, List.forall_mem_cons] at hpair
      rw [List.forall_mem_cons, List.forall_mem_cons] at hshare
      exact absurd hshare.2.1 (hpair.1.1 n hshare.1)
  have hmerge : merge (groupTrees j) (children.map fun t => (shareKey? ctx j t, t)) =
      .ok ((children.map fun t => (shareKey? ctx j t, t)).map Prod.snd) :=
    merge_eq_ok_self fun n _ => (members_map _ children n).symm ▸ hclass n
  rw [List.map_map, Function.comp_def, List.map_id'] at hmerge
  have hjoined : joined j children = .ok (.combined j children) :=
    joined_eq_ok.2 (.inr ⟨hlen, rfl⟩)
  exact bind_eq_ok.2 ⟨_, hkeyed, bind_eq_ok.2 ⟨children, hmerge, liftFault_eq_ok.2 hjoined⟩⟩

/-! ## Whole trees -/

theorem regular_grouped {t r : MatchTree}
    (ht : ∀ j nodeType children, .group j nodeType children ∉ t.subtrees)
    (h : grouped ctx t = .ok r) : Regular ctx r := by
  induction t using memberInduction generalizing r with
  | leaf l =>
    cases h
    exact .leaf l
  | group j nodeType children ih =>
    exact absurd (self_mem_subtrees _) (ht j nodeType children)
  | combined j children ih =>
    rw [grouped] at h
    obtain ⟨members, hm, h⟩ := bind_eq_ok.1 h
    rw [groupedAll_eq_mapM] at hm
    refine regular_groupLevel (fun x hx => ?_) h
    obtain ⟨t, ht', hx⟩ := mem_of_mapM_eq_ok hm hx
    refine ih t ht' (fun i n cs hmem => ht i n cs ?_) hx
    exact mem_subtrees_combined.2 (.inr ⟨t, ht', hmem⟩)

theorem Regular.grouped_eq {t : MatchTree} (h : Regular ctx t) : grouped ctx t = .ok t := by
  induction h with
  | leaf l => rfl
  | group hg hc ih => rfl
  | combined hlen hkey hs hc ih =>
    rw [grouped, groupedAll_eq_mapM, mapM_eq_ok_self ih]
    exact groupLevel_of_separate hlen hkey hs

/-- After grouping a tree without groups, groups hold leaves of their node type that may share its
join, no two members of a level may still share one, and grouping again changes nothing. -/
theorem grouped_exact {t r : MatchTree}
    (ht : ∀ j nodeType children, .group j nodeType children ∉ t.subtrees)
    (h : grouped ctx t = .ok r) :
    (∀ j nodeType children, .group j nodeType children ∈ r.subtrees →
      ProperGroup ctx j nodeType children) ∧
      (∀ j children, .combined j children ∈ r.subtrees → Separate ctx j children) ∧
      grouped ctx r = .ok r := by
  have hr := regular_grouped ht h
  refine ⟨fun j n cs hmem => ?_, fun j cs hmem => ?_, hr.grouped_eq⟩
  · cases hr.of_mem_subtrees hmem with
    | group hg hc => exact hg
  · cases hr.of_mem_subtrees hmem with
    | combined hlen hkey hs hc => exact hs

/-- Trees of expressions have no groups. -/
theorem Assembled.group_not_mem {t : MatchTree} (h : Assembled ctx t) (j : Connective)
    (nodeType : String) (children : List MatchTree) :
    .group j nodeType children ∉ t.subtrees := by
  induction h with
  | leaf hm =>
    intro hmem
    cases mem_subtrees_leaf.1 hmem
  | combined hc ih =>
    intro hmem
    rcases mem_subtrees_combined.1 hmem with hmem | ⟨t, ht, hmem⟩
    · cases hmem
    · exact ih t ht hmem

theorem grouped_exact_scattered :
    ∃ t r, ofExpression .people scattered = .ok t ∧ grouped .people t = .ok r ∧
      r.text = scatteredGroups ∧
      (∀ j nodeType children, .group j nodeType children ∈ r.subtrees →
        ProperGroup .people j nodeType children) ∧
      (∀ j children, .combined j children ∈ r.subtrees → Separate .people j children) ∧
      grouped .people r = .ok r := by
  obtain ⟨t, r, ht, hg, htext⟩ := exists_grouped_scattered
  exact ⟨t, r, ht, hg, htext, grouped_exact (assembled_build ht).1.group_not_mem hg⟩

end AudienceFilter.MatchTree
