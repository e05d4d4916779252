import AudienceFilter.Proofs.GatheredClasses
import AudienceFilter.Proofs.TreeMeaning

/-!
# Grouping keeps leaves and order

Grouping a level gathers the trees that share a join: the later ones move directly behind the
first, and the block that they form becomes one group. Nothing else moves.

* `Stands`: the tree that stands for a block;
* `LevelArranged`: the members of a level before and after grouping, block by block;
* `Arranged`: a tree before and after grouping, level by level;
* `levelArranged_groupLevel`, `arranged_grouped`: grouping arranges levels and trees so;
* `Arranged.leaves_perm`, `Arranged.holds_eq`: leaves and truth are kept.
-/

namespace AudienceFilter.MatchTree

open Classes

/-- The node type of the join that a tree shares with others under a connective. -/
def shareKey? (ctx : Context) (j : Connective) (t : MatchTree) : Option String :=
  (groupKey? ctx j t).toOption.join

/-- The tree that stands for a block: the only one, or a group of all of them, in which inner
groups of the same kind are taken apart. -/
inductive Stands (ctx : Context) (j : Connective) : List MatchTree → MatchTree → Prop
  | alone (t : MatchTree) : Stands ctx j [t] t
  | group {nodeType : String} {ts : List MatchTree} (hlen : 2 ≤ ts.length)
      (hkey : ∀ t ∈ ts, groupKey? ctx j t = .ok (some nodeType)) :
      Stands ctx j ts (.group j nodeType (ts.flatMap (groupMembers j)))

/-- The members of a level before and after grouping. The trees that share a join are gathered
behind the first of them. -/
structure LevelArranged (ctx : Context) (j : Connective) (members out : List MatchTree) :
    Prop where
  length_eq : out.length = (gather (shareKey? ctx j) members).length
  /-- Each block has its tree. -/
  stands : ∀ p ∈ (gather (shareKey? ctx j) members).zip out, Stands ctx j p.1 p.2
  /-- The blocks hold the members, each once. -/
  perm : (gather (shareKey? ctx j) members).flatten.Perm members
  /-- Blocks stand where their first members stood, trees on their own among them. -/
  heads : ((gather (shareKey? ctx j) members).filterMap List.head?).Sublist members
  /-- The trees of a block keep their order. -/
  inner : ∀ block ∈ gather (shareKey? ctx j) members, block.Sublist members

/-- A tree before and after grouping: the members of a combination are arranged first, each on its
own, and then the level that they form. -/
inductive Arranged (ctx : Context) : MatchTree → MatchTree → Prop
  | leaf (l : Leaf) : Arranged ctx (.leaf l) (.leaf l)
  | group (j : Connective) (nodeType : String) (children : List MatchTree) :
      Arranged ctx (.group j nodeType children) (.group j nodeType children)
  | combined {j : Connective} {children members out : List MatchTree} {r : MatchTree}
      (hlen : members.length = children.length)
      (hc : ∀ p ∈ children.zip members, Arranged ctx p.1 p.2)
      (hl : LevelArranged ctx j members out)
      (hr : out = [r] ∨ 2 ≤ out.length ∧ r = .combined j out) :
      Arranged ctx (.combined j children) r

variable {ctx : Context} {j : Connective}

/-! ## One level -/

theorem groupTrees_eq_none {nodeType : String} {trees : List MatchTree}
    (h : groupTrees j nodeType trees = .ok none) : trees.length ≤ 1 := by
  rcases trees with _ | ⟨t, _ | ⟨t', rest⟩⟩
  · exact Nat.zero_le 1
  · exact Nat.le_refl 1
  · obtain ⟨g, -, hg⟩ := map_eq_ok.1 h
    cases hg

theorem shareKey?_of_eq_ok {t : MatchTree} {key : Option String}
    (h : groupKey? ctx j t = .ok key) : shareKey? ctx j t = key := by
  rw [shareKey?, h]
  rfl

theorem groupKey?_of_shareKey? {t : MatchTree} {nodeType : String}
    (h : shareKey? ctx j t = some nodeType) : groupKey? ctx j t = .ok (some nodeType) := by
  rw [shareKey?] at h
  cases hk : groupKey? ctx j t with
  | error e =>
    rw [hk] at h
    cases h
  | ok key =>
    rw [hk] at h
    exact congrArg Except.ok h

theorem levelArranged_groupLevel {members : List MatchTree} {r : MatchTree}
    (h : groupLevel ctx j members = .ok r) :
    ∃ out, LevelArranged ctx j members out ∧
      (out = [r] ∨ 2 ≤ out.length ∧ r = .combined j out) := by
  obtain ⟨keyed, hkeyed, h⟩ := bind_eq_ok.1 h
  obtain ⟨out, hmerge, h⟩ := bind_eq_ok.1 h
  have hkeys : keyed = members.map fun t => (shareKey? ctx j t, t) :=
    keyed_eq_map hkeyed fun t _ k? hk => shareKey?_of_eq_ok (liftError_eq_ok.1 hk)
  rw [hkeys] at hmerge
  obtain ⟨hlen, hall⟩ := merge_eq_gather hmerge fun n => groupTrees_eq_none
  refine ⟨out, ⟨hlen, fun p hp => ?_, flatten_gather_perm _ _, heads_gather_sublist _ _,
    fun block => sublist_of_mem_gather⟩, joined_eq_ok.1 (liftFault_eq_ok.1 h)⟩
  rcases hall p hp with hone | ⟨n, hkey, hgroup⟩
  · exact hone ▸ .alone p.2
  · obtain ⟨hlen, -, hg⟩ := groupTrees_eq_ok hgroup
    exact hg ▸ .group hlen fun t ht => groupKey?_of_shareKey? (hkey t ht)

theorem leaves_groupMembers (t : MatchTree) : (groupMembers j t).flatMap leaves = t.leaves := by
  cases t with
  | leaf l => simp [groupMembers]
  | combined i children => simp [groupMembers]
  | group i nodeType children =>
    rw [groupMembers]
    split
    · rw [leaves_group]
    · simp

theorem Stands.leaves_eq {block : List MatchTree} {t : MatchTree} (h : Stands ctx j block t) :
    t.leaves = block.flatMap leaves := by
  cases h with
  | alone t => simp
  | group hlen hkey => simp only [leaves_group, List.flatMap_assoc, leaves_groupMembers]

theorem Stands.holds_eq {block : List MatchTree} {t : MatchTree} (h : Stands ctx j block t)
    (v : Leaf → Bool) : t.holds v = j.truth (block.map (holds v)) := by
  cases h with
  | alone t => cases j <;> simp [Connective.truth]
  | group hlen hkey =>
    rw [holds_group]
    refine Connective.eq_of_neutral_iff j ?_
    rw [Connective.truth_map_eq_neutral, Connective.truth_map_eq_neutral]
    simp only [List.mem_flatMap, forall_exists_index, and_imp]
    constructor
    · exact fun hall x hx => World.holds_groupMembers.1 fun y hy => hall y x hx hy
    · exact fun hall y x hx hy => World.holds_groupMembers.2 (hall x hx) y hy

theorem LevelArranged.leaves_perm {members out : List MatchTree}
    (h : LevelArranged ctx j members out) :
    (out.flatMap leaves).Perm (members.flatMap leaves) := by
  have hmap := map_eq_of_zip h.length_eq fun p hp => (h.stands p hp).leaves_eq
  have hblocks : out.flatMap leaves =
      (gather (shareKey? ctx j) members).flatten.flatMap leaves := by
    rw [← List.flatMap_id, List.flatMap_assoc, List.flatMap_def, hmap, ← List.flatMap_def]
    rfl
  exact hblocks ▸ h.perm.flatMap_right leaves

theorem LevelArranged.holds_eq {members out : List MatchTree}
    (h : LevelArranged ctx j members out) (v : Leaf → Bool) :
    j.truth (out.map (holds v)) = j.truth (members.map (holds v)) := by
  have hmap : out.map (holds v) =
      (gather (shareKey? ctx j) members).map fun block => j.truth (block.map (holds v)) :=
    map_eq_of_zip h.length_eq fun p hp => (h.stands p hp).holds_eq v
  rw [hmap]
  refine Connective.eq_of_neutral_iff j ?_
  simp only [Connective.truth_map_eq_neutral, ← h.perm.mem_iff, List.mem_flatten]
  constructor
  · intro hall x hx
    obtain ⟨block, hb, hx⟩ := hx
    exact hall block hb x hx
  · exact fun hall block hb x hx => hall x ⟨block, hb, hx⟩

/-! ## Whole trees -/

theorem arranged_grouped {t r : MatchTree} (h : grouped ctx t = .ok r) : Arranged ctx t r := by
  induction t using memberInduction generalizing r with
  | leaf l =>
    cases h
    exact .leaf l
  | group j nodeType children ih =>
    cases h
    exact .group j nodeType children
  | combined j children ih =>
    rw [grouped] at h
    obtain ⟨members, hm, h⟩ := bind_eq_ok.1 h
    rw [groupedAll_eq_mapM] at hm
    obtain ⟨hlen, hall⟩ := zip_of_mapM_eq_ok hm
    obtain ⟨out, hl, hr⟩ := levelArranged_groupLevel h
    exact .combined hlen (fun p hp => ih p.1 (List.of_mem_zip hp).1 (hall p hp)) hl hr

/-- Lists whose elements hold the same leaves one by one hold the same leaves. -/
theorem flatMap_leaves_perm {ts us : List MatchTree} (hlen : us.length = ts.length)
    (h : ∀ p ∈ ts.zip us, p.2.leaves.Perm p.1.leaves) :
    (us.flatMap leaves).Perm (ts.flatMap leaves) := by
  induction ts generalizing us with
  | nil => rw [List.eq_nil_of_length_eq_zero hlen]
  | cons t ts ih =>
    obtain ⟨u, us, rfl⟩ := List.exists_cons_of_length_eq_add_one hlen
    rw [List.zip_cons_cons, List.forall_mem_cons] at h
    rw [List.flatMap_cons, List.flatMap_cons]
    exact h.1.append (ih (Nat.succ.inj hlen) h.2)

theorem Arranged.leaves_perm {t r : MatchTree} (h : Arranged ctx t r) :
    r.leaves.Perm t.leaves := by
  induction h with
  | leaf l => exact .rfl
  | group j nodeType children => exact .rfl
  | @combined j children members out r hlen hc hl hr ih =>
    have hout : r.leaves = out.flatMap leaves := by
      rcases hr with rfl | ⟨-, rfl⟩
      · simp
      · rw [leaves_combined]
    rw [hout, leaves_combined]
    exact hl.leaves_perm.trans (flatMap_leaves_perm hlen ih)

theorem Arranged.holds_eq {t r : MatchTree} (h : Arranged ctx t r) (v : Leaf → Bool) :
    r.holds v = t.holds v := by
  induction h with
  | leaf l => rfl
  | group j nodeType children => rfl
  | @combined j children members out r hlen hc hl hr ih =>
    rw [holds_combined, ← map_eq_of_zip hlen ih, ← hl.holds_eq v]
    rcases hr with rfl | ⟨-, rfl⟩
    · cases j <;> simp [Connective.truth]
    · rw [holds_combined]

/-- Grouping loses and repeats no leaf, keeps the truth, and moves trees only to gather those
that share a join. -/
theorem grouped_keeps {t r : MatchTree} (h : grouped ctx t = .ok r) :
    r.leaves.Perm t.leaves ∧ (∀ v, r.holds v = t.holds v) ∧ Arranged ctx t r :=
  have hr := arranged_grouped h
  ⟨hr.leaves_perm, hr.holds_eq, hr⟩

/-- Contacts in several places of a disjunction, nested ones of both kinds among them. -/
def scattered : Expression :=
  .combined .or [.condition (.withOperator "city" .equals "Oslo"),
    .condition (.withOperator "name" .equals "Ada"),
    .combined .or [.condition (.withOperator "phone" .equals "555"),
      .condition (.withOperator "city" .equals "Rome")],
    .combined .and [.condition (.withOperator "phone" .equals "1"),
      .condition (.withOperator "city" .equals "Bergen"),
      .condition (.withOperator "phone" .equals "2"),
      .condition (.withOperator "code" .equals "3")],
    .condition (.withOperator "code" .equals "0150")]

/-- Where the contacts are gathered. -/
def scatteredGroups : String :=
  "(contact:(city = Oslo OR phone = 555 OR city = Rome OR code = 0150) OR name = Ada OR " ++
    "(phone = 1 AND contact:(city = Bergen AND code = 3) AND phone = 2))"

theorem exists_grouped_scattered : ∃ t r, ofExpression .people scattered = .ok t ∧
    grouped .people t = .ok r ∧ r.text = scatteredGroups := by
  have hok : (ofExpression .people scattered >>= grouped .people).toOption.map text =
      some scatteredGroups := by
    decide +kernel
  obtain ⟨r, hr, htext⟩ := Option.map_eq_some_iff.1 hok
  obtain ⟨t, ht, hg⟩ := bind_eq_ok.1 (eq_ok_of_toOption hr)
  exact ⟨t, r, ht, hg, htext⟩

theorem grouped_keeps_scattered :
    ∃ t r, ofExpression .people scattered = .ok t ∧ grouped .people t = .ok r ∧
      r.text = scatteredGroups ∧
      r.leaves.Perm t.leaves ∧ (∀ v, r.holds v = t.holds v) ∧ Arranged .people t r := by
  obtain ⟨t, r, ht, hg, htext⟩ := exists_grouped_scattered
  exact ⟨t, r, ht, hg, htext, grouped_keeps hg⟩

end AudienceFilter.MatchTree
