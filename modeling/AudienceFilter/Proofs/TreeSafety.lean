import AudienceFilter.Proofs.ConsolidationSafety
import AudienceFilter.Proofs.TreeMeaning

/-!
# Match trees without faults

Normalization leaves combinations of two or more members, and guards add nothing that could not
be written. So no stage on the way to a grouped match tree meets a fault:

* `Buildable`: expressions that a match tree is made from;
* `mem_conditions_guarded`, `forall_conditions_guarded`: guards keep the conditions of an
  expression, and add only that arguments are unknown;
* `yields_build`, `yields_grouped`: the stages around consolidation;
* `Context.yields_groupedTree`: the grouped match tree of a normalized expression.
-/

namespace AudienceFilter

namespace Expression

/-- Whether an expression is solid, and its conditions compare by operators that can. -/
structure Buildable (e : Expression) : Prop where
  solid : e.Solid
  comparable : ∀ c ∈ e.conditions, c.Comparable

theorem buildable_combined {j : Connective} {members : List Expression} :
    Buildable (.combined j members) ↔ 2 ≤ members.length ∧ ∀ m ∈ members, Buildable m := by
  have hconditions : (∀ c ∈ (combined j members).conditions, c.Comparable) ↔
      ∀ m ∈ members, ∀ c ∈ m.conditions, c.Comparable := by
    rw [conditions_combined, List.forall_mem_flatMap]
  constructor
  · rintro ⟨hs, hc⟩
    rw [solid_combined] at hs
    exact ⟨hs.1, fun m hm => ⟨hs.2 m hm, hconditions.1 hc m hm⟩⟩
  · rintro ⟨hlen, h⟩
    exact ⟨solid_combined.2 ⟨hlen, fun m hm => (h m hm).solid⟩,
      hconditions.2 fun m hm => (h m hm).comparable⟩

/-! ## Normalization -/

theorem mem_conditions_opened {j : Connective} {m x : Expression} {c : Condition}
    (hx : x ∈ opened j m) (hc : c ∈ x.conditions) : c ∈ m.conditions := by
  cases m with
  | condition c' => exact List.mem_singleton.1 hx ▸ hc
  | negation s c' => exact List.mem_singleton.1 hx ▸ hc
  | extent e => exact absurd hx List.not_mem_nil
  | combined i inner =>
    rw [opened_combined] at hx
    split at hx
    · rw [conditions_combined]
      exact List.mem_flatMap.2 ⟨x, hx, hc⟩
    · exact List.mem_singleton.1 hx ▸ hc

/-- Joining expressions adds no conditions. -/
theorem mem_conditions_combine {j : Connective} {members : List Expression} {c : Condition}
    (h : c ∈ (combine j members).conditions) : ∃ m ∈ members, c ∈ m.conditions := by
  rcases combine_cases j members with ⟨-, he⟩ | ⟨-, out, he, hout⟩
  · rw [he] at h
    exact absurd h List.not_mem_nil
  · have hmem : ∃ x ∈ out, c ∈ x.conditions := by
      rw [he] at h
      rcases out with _ | ⟨a, _ | ⟨b, rest⟩⟩
      · exact absurd h List.not_mem_nil
      · exact ⟨a, List.mem_cons_self, h⟩
      · exact List.mem_flatMap.1 (conditions_combined j (a :: b :: rest) ▸ h)
    obtain ⟨x, hx, hc⟩ := hmem
    obtain ⟨m, hm, hx⟩ := (hout x).1 hx
    exact ⟨m, hm, mem_conditions_opened hx hc⟩

theorem mem_conditions_normalized {e : Expression} {c : Condition}
    (h : c ∈ e.normalized.conditions) : c ∈ e.conditions := by
  induction e using memberInduction with
  | condition c' => exact h
  | negation s c' => exact h
  | extent e => exact h
  | combined j members ih =>
    rw [normalized, normalizedAll_eq_map] at h
    obtain ⟨x, hx, hc⟩ := mem_conditions_combine h
    obtain ⟨m, hm, rfl⟩ := List.mem_map.1 hx
    rw [conditions_combined]
    exact List.mem_flatMap.2 ⟨m, hm, ih m hm hc⟩

/-- A normalized expression is one of the two sets or buildable. -/
theorem buildable_normalized {e : Expression} (h : ∀ c ∈ e.conditions, c.Comparable) :
    (∃ x, e.normalized = .extent x) ∨ e.normalized.Buildable :=
  (solid_normalized e).imp_right fun hs =>
    ⟨hs, fun c hc => h c (mem_conditions_normalized hc)⟩

/-! ## Guards -/

theorem exists_opened {j : Connective} {m : Expression} {c : Condition} (h : c ∈ m.conditions) :
    ∃ x ∈ opened j m, c ∈ x.conditions := by
  cases m with
  | condition c' => exact ⟨_, List.mem_singleton_self _, h⟩
  | negation s c' => exact ⟨_, List.mem_singleton_self _, h⟩
  | extent e => exact absurd h List.not_mem_nil
  | combined i inner =>
    rw [opened_combined]
    split
    · rwa [conditions_combined, List.mem_flatMap] at h
    · exact ⟨_, List.mem_singleton_self _, h⟩

/-- Joining solid members loses no condition. -/
theorem mem_conditions_combine_of_solid {j : Connective} {members : List Expression}
    (hs : ∀ m ∈ members, Solid m) {m : Expression} (hm : m ∈ members) {c : Condition}
    (hc : c ∈ m.conditions) : c ∈ (combine j members).conditions := by
  rcases combine_cases j members with ⟨he, -⟩ | ⟨-, out, he, hout⟩
  · exact (hs _ he).elim
  · obtain ⟨x, hx, hcx⟩ := exists_opened (j := j) hc
    have hxo : x ∈ out := (hout x).2 ⟨m, hm, hx⟩
    rw [he]
    rcases out with _ | ⟨a, _ | ⟨b, rest⟩⟩
    · exact absurd hxo List.not_mem_nil
    · rw [List.mem_singleton.1 hxo] at hcx
      exact hcx
    · show c ∈ (combined j (a :: b :: rest)).conditions
      rw [conditions_combined]
      exact List.mem_flatMap.2 ⟨x, hxo, hcx⟩

theorem solid_guards {names : List String} : ∀ g ∈ names.map guard, Solid g := by
  intro g hg
  obtain ⟨arg, -, rfl⟩ := List.mem_map.1 hg
  trivial

/-- A combination keeps solid and loses no condition if its members do, also behind guards. -/
theorem solid_combine_map {j : Connective} {guards members : List Expression}
    {f : Expression → Expression} (hne : members ≠ []) (hguards : ∀ g ∈ guards, Solid g)
    (hf : ∀ m ∈ members, Solid (f m) ∧ ∀ c ∈ m.conditions, c ∈ (f m).conditions) :
    Solid (combine j (guards ++ members.map f)) ∧ ∀ c ∈ (combined j members).conditions,
      c ∈ (combine j (guards ++ members.map f)).conditions := by
  have hsolid : ∀ m ∈ guards ++ members.map f, Solid m := by
    intro m hm
    rcases List.mem_append.1 hm with hm | hm
    · exact hguards m hm
    · obtain ⟨m', hm', rfl⟩ := List.mem_map.1 hm
      exact (hf m' hm').1
  refine ⟨solid_combine (by simp [hne]) hsolid, fun c hc => ?_⟩
  rw [conditions_combined, List.mem_flatMap] at hc
  obtain ⟨m, hm, hc⟩ := hc
  exact mem_conditions_combine_of_solid hsolid
    (List.mem_append_right _ (List.mem_map_of_mem hm)) ((hf m hm).2 c hc)

/-- One expression behind guards. -/
theorem solid_combine_guards {names : List String} {e e' : Expression} (hs : Solid e')
    (hkept : ∀ c ∈ e.conditions, c ∈ e'.conditions) :
    Solid (combine .and (names.map guard ++ [e'])) ∧
      ∀ c ∈ e.conditions, c ∈ (combine .and (names.map guard ++ [e'])).conditions := by
  have hone : ∀ m ∈ [e], Solid e' ∧ ∀ c ∈ m.conditions, c ∈ e'.conditions := fun m hm =>
    List.mem_singleton.1 hm ▸ ⟨hs, hkept⟩
  have hguards : ∀ g ∈ names.map guard, Solid g := solid_guards
  simpa [conditions_combined] using
    solid_combine_map (j := .and) (List.cons_ne_nil e []) hguards hone

/-- Weaving in guards keeps an expression solid and loses no condition. -/
theorem solid_weave? {provided : List String} {e : Expression} (h : Solid e) :
    Solid ((weave? provided e).getD e) ∧
      ∀ c ∈ e.conditions, c ∈ ((weave? provided e).getD e).conditions := by
  induction e using memberInduction generalizing provided with
  | condition c => exact ⟨h, fun _ hc => hc⟩
  | extent e => exact ⟨h, fun _ hc => hc⟩
  | negation s c =>
    rw [weave?]
    split
    · dsimp only
      split
      · exact ⟨h, fun _ hc => hc⟩
      · exact solid_combine_guards h fun _ hc => hc
    · exact ⟨h, fun _ hc => hc⟩
  | combined j members ih =>
    obtain ⟨hlen, hm⟩ := solid_combined.1 h
    have hne : members ≠ [] := List.ne_nil_of_length_pos (by omega)
    cases j with
    | or =>
      rw [weave?_or]
      split
      · exact ⟨h, fun _ hc => hc⟩
      · rw [← List.nil_append (members.map _)]
        exact solid_combine_map hne (fun g hg => absurd hg List.not_mem_nil) fun m hmem =>
          ih m hmem (hm m hmem)
    | and =>
      rw [weave?_and]
      split
      · exact ⟨h, fun _ hc => hc⟩
      · refine solid_combine_map hne solid_guards fun m hmem => ?_
        rw [changeNested]
        split
        · exact ih m hmem (hm m hmem)
        · exact ⟨hm m hmem, fun _ hc => hc⟩

theorem solid_guarded {e : Expression} (h : Solid e) : Solid e.guarded := by
  rw [guarded]
  rcases guarded?_cases e with hg | ⟨-, hg⟩
  · rw [hg]
    exact (solid_weave? h).1
  · rw [hg]
    obtain ⟨hs, hkept⟩ := solid_weave? h
    exact (solid_combine_guards hs hkept).1

/-- Guards are added to the conditions of an expression, and none of these gets lost. -/
theorem mem_conditions_guarded {e : Expression} (h : Solid e) {c : Condition}
    (hc : c ∈ e.conditions) : c ∈ e.guarded.conditions := by
  rw [guarded]
  rcases guarded?_cases e with hg | ⟨-, hg⟩
  · rw [hg]
    exact (solid_weave? h).2 c hc
  · rw [hg]
    obtain ⟨hs, hkept⟩ := solid_weave? h
    exact (solid_combine_guards hs hkept).2 c hc

section

variable {P : Condition → Prop}

theorem forall_conditions_combine {j : Connective} {members : List Expression}
    (h : ∀ m ∈ members, ∀ c ∈ m.conditions, P c) : ∀ c ∈ (combine j members).conditions, P c := by
  intro c hc
  obtain ⟨m, hm, hc⟩ := mem_conditions_combine hc
  exact h m hm c hc

theorem forall_conditions_combine_guards {names : List String} {members : List Expression}
    (hu : ∀ arg ∈ names, P (.unknown arg)) (h : ∀ m ∈ members, ∀ c ∈ m.conditions, P c) :
    ∀ c ∈ (combine .and (names.map guard ++ members)).conditions, P c := by
  refine forall_conditions_combine fun m hm => ?_
  rcases List.mem_append.1 hm with hm | hm
  · obtain ⟨arg, harg, rfl⟩ := List.mem_map.1 hm
    intro c hc
    rw [List.mem_singleton.1 hc]
    exact hu arg harg
  · exact h m hm

variable (hu : ∀ c, P c → ∀ arg ∈ c.args, P (.unknown arg))

include hu

theorem unknown_of_mem_needs {e : Expression} (h : ∀ c ∈ e.conditions, P c) :
    ∀ arg ∈ needs e, P (.unknown arg) := by
  intro arg harg
  obtain ⟨c, hc, harg⟩ := mem_args_of_mem_needs harg
  exact hu c (h c hc) arg harg

theorem forall_conditions_weave? {provided : List String} {e : Expression}
    (h : ∀ c ∈ e.conditions, P c) : ∀ c ∈ ((weave? provided e).getD e).conditions, P c := by
  induction e using memberInduction generalizing provided with
  | condition c => exact h
  | extent e => exact h
  | negation s c =>
    rw [weave?]
    split
    · dsimp only
      split
      · exact h
      · refine forall_conditions_combine_guards (fun arg harg => ?_) (by simpa using h)
        exact hu c (h c (List.mem_singleton_self c)) arg (List.mem_filter.1 harg).1
    · exact h
  | combined j members ih =>
    have hm : ∀ m ∈ members, ∀ c ∈ m.conditions, P c := by
      rwa [conditions_combined, List.forall_mem_flatMap] at h
    cases j with
    | or =>
      rw [weave?_or]
      split
      · exact h
      · refine forall_conditions_combine ?_
        exact List.forall_mem_map.2 fun m hmem => ih m hmem (hm m hmem)
    | and =>
      rw [weave?_and]
      split
      · exact h
      · refine forall_conditions_combine_guards (fun arg harg => ?_) ?_
        · obtain ⟨⟨m, hmem, harg⟩, -⟩ := mem_missingIn.1 harg
          exact unknown_of_mem_needs hu (hm m hmem) arg harg
        refine List.forall_mem_map.2 fun m hmem => ?_
        rw [changeNested]
        split
        · exact ih m hmem (hm m hmem)
        · exact hm m hmem

/-- All that guards add to the conditions of an expression is that their arguments are unknown. -/
theorem forall_conditions_guarded {e : Expression} (h : ∀ c ∈ e.conditions, P c) :
    ∀ c ∈ e.guarded.conditions, P c := by
  rw [guarded]
  rcases guarded?_cases e with hg | ⟨-, hg⟩
  · rw [hg]
    exact forall_conditions_weave? hu h
  · rw [hg]
    refine forall_conditions_combine_guards (unknown_of_mem_needs hu h) ?_
    simpa using forall_conditions_weave? hu h

end

/-- Guards keep an expression buildable. -/
theorem buildable_guarded {e : Expression} (h : Buildable e) : e.guarded.Buildable :=
  ⟨solid_guarded h.solid,
    forall_conditions_guarded (fun _ _ arg _ => Condition.comparable_unknown arg) h.comparable⟩

end Expression

namespace MatchTree

open Expression (Buildable CoveredBy)

variable {ctx : Context} {known : List String} {nodeType : String}

/-- The tree of a covered expression is made without faults. -/
theorem yields_build {e : Expression} (hctx : ctx.Checked) (he : Buildable e)
    (hc : CoveredBy known e) : Yields (build ctx known e) (Sound ctx) := by
  induction e using Expression.memberInduction generalizing known with
  | extent e => exact he.solid.elim
  | condition c => exact yields_singleTree hctx rfl (he.comparable c (List.mem_singleton_self c))
  | negation strict c =>
    rw [build, ofNegation_of_coveredBy hc]
    exact yields_singleTree hctx rfl (he.comparable c (List.mem_singleton_self c))
  | combined j members ih =>
    obtain ⟨hlen, hm⟩ := Expression.buildable_combined.1 he
    rw [Expression.coveredBy_combined] at hc
    rw [build_combined]
    refine (yields_mapM fun m hmem => ih m hmem (hm m hmem) (hc m hmem)).bind
      fun children _ hch => ?_
    have htwo : 2 ≤ children.length := hch.1 ▸ hlen
    exact yields_liftFault (combine_eq_ok.2 ⟨htwo, rfl⟩) (.combined htwo hch.2)

/-! ## Groups -/

/-- What is known of a tree whose queries are written: it is grouped, and its leaves are sound. -/
structure Writable (ctx : Context) (t : MatchTree) : Prop where
  grouped : Grouped ctx t
  leaves : ∀ l ∈ t.leaves, l.Sound ctx

theorem Joins.commonNodeType {t : MatchTree} (h : Joins ctx nodeType t) :
    t.commonNodeType = some nodeType := by
  cases h with
  | leaf hm hv hj hn => exact congrArg some hn
  | group hlen hc => rfl

theorem length_groupMembers {j : Connective} {t : MatchTree} (h : Joins ctx nodeType t) :
    1 ≤ (groupMembers j t).length := by
  cases h with
  | leaf hm hv hj hn => exact Nat.le_refl 1
  | group hlen hc =>
    rw [groupMembers]
    split
    · omega
    · exact Nat.le_refl 1

theorem mem_leaves_groupMembers {j : Connective} {t x : MatchTree} {l : Leaf}
    (hx : x ∈ groupMembers j t) (hl : l ∈ x.leaves) : l ∈ t.leaves := by
  unfold groupMembers at hx
  split at hx
  · split at hx
    · rw [leaves_group]
      exact List.mem_flatMap.2 ⟨x, hx, hl⟩
    · exact List.mem_singleton.1 hx ▸ hl
  · exact List.mem_singleton.1 hx ▸ hl

/-- Trees that may stand in one join are grouped. -/
theorem yields_groupTrees {j : Connective} {trees : List MatchTree}
    (hj : ∀ t ∈ trees, Joins ctx nodeType t) (hl : ∀ t ∈ trees, ∀ l ∈ t.leaves, l.Sound ctx) :
    Yields (groupTrees j nodeType trees) fun r => ∀ g, r = some g → Writable ctx g := by
  unfold groupTrees
  split
  · next first second rest =>
    have hmembers : ∀ x ∈ (first :: second :: rest).flatMap (groupMembers j),
        Joins ctx nodeType x ∧ ∀ l ∈ x.leaves, l.Sound ctx := by
      intro x hx
      obtain ⟨t, ht, hx⟩ := List.mem_flatMap.1 hx
      exact ⟨joins_groupMembers (hj t ht) x hx,
        fun l hlx => hl t ht l (mem_leaves_groupMembers hx hlx)⟩
    have hlen : 2 ≤ ((first :: second :: rest).flatMap (groupMembers j)).length := by
      have h₁ : 1 ≤ (groupMembers j first).length :=
        length_groupMembers (hj first List.mem_cons_self)
      have h₂ : 1 ≤ (groupMembers j second).length :=
        length_groupMembers (hj second (List.mem_cons_of_mem _ List.mem_cons_self))
      simp only [List.flatMap_cons, List.length_append]
      omega
    have hgroup := makeGroup_eq_ok (j := j).2
      ⟨hlen, fun x hx => (hmembers x hx).1.commonNodeType, rfl⟩
    refine (yields_liftFault (P := Writable ctx) hgroup ⟨?_, fun l hl => ?_⟩).map fun g hg => ?_
    · exact .group (.group hlen fun x hx => (hmembers x hx).1)
    · rw [leaves_group] at hl
      obtain ⟨x, hx, hlx⟩ := List.mem_flatMap.1 hl
      exact (hmembers x hx).2 l hlx
    · rintro _ ⟨⟩
      exact hg
  · exact yields_ok nofun

/-- A level is grouped without faults. -/
theorem yields_groupLevel {j : Connective} {children : List MatchTree} (hne : children ≠ [])
    (hc : ∀ t ∈ children, Writable ctx t) :
    Yields (groupLevel ctx j children) (Writable ctx) := by
  refine (Classes.yields_keyed fun t _ => yields_liftError.weaken).bind fun keyed _ hkeyed => ?_
  have hclass : ∀ n, ∀ t ∈ Classes.members keyed n, Joins ctx n t ∧
      ∀ l ∈ t.leaves, l.Sound ctx := by
    intro n t ht
    obtain ⟨hm, hk⟩ := hkeyed.2 _ (Classes.mem_members.1 ht)
    exact ⟨(groupKey?_eq_ok (hc t hm).grouped (liftError_eq_ok.1 hk)).1, (hc t hm).leaves⟩
  refine (Classes.yields_merge (P := Writable ctx) (fun n => yields_groupTrees
    (fun t ht => (hclass n t ht).1) fun t ht => (hclass n t ht).2)
    fun q hq => hc _ (hkeyed.2 q hq).1).bind fun members _ hmembers => ?_
  refine yields_joined (hmembers.1 (hkeyed.1 hne)) hmembers.2 fun htwo => ⟨?_, ?_⟩
  · exact .combined htwo fun t ht => (hmembers.2 t ht).grouped
  · exact forall_leaves_combined.2 fun t ht => (hmembers.2 t ht).leaves

/-- A sound tree is grouped without faults. -/
theorem yields_grouped {t : MatchTree} (h : Sound ctx t) :
    Yields (grouped ctx t) (Writable ctx) := by
  induction t using memberInduction with
  | leaf l =>
    refine yields_ok ⟨.leaf h.ofLeaf.made h.ofLeaf.verifies, fun l' hl => ?_⟩
    exact List.mem_singleton.1 hl ▸ h.ofLeaf
  | group j nodeType children ih => cases h
  | combined j children ih =>
    cases h with
    | combined hlen hc =>
      rw [grouped, groupedAll_eq_mapM]
      refine (yields_mapM fun t ht => ih t ht (hc t ht)).bind fun out _ hout => ?_
      exact yields_groupLevel (List.ne_nil_of_length_pos (by omega)) hout.2

end MatchTree

/-- The grouped match tree of a buildable expression is made without faults. -/
theorem Context.yields_groupedTree {ctx : Context} {e : Expression} (hctx : ctx.Checked)
    (he : e.Buildable) : Yields (ctx.groupedTree e) (MatchTree.Writable ctx) := by
  refine (MatchTree.yields_build hctx (Expression.buildable_guarded he)
    (Expression.covered_guarded e)).bind fun t _ ht => ?_
  refine (MatchTree.yields_consolidated hctx ht).bind fun t' _ ht' => ?_
  exact MatchTree.yields_grouped ht'

end AudienceFilter
