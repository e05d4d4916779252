import AudienceFilter.Proofs.MergedLevels

/-!
# Consolidation comes to rest

The branches for unknown arguments come last and give no other step anything to do, so a
consolidated level is at rest. Guards stay where they are or move up with the level that they stand
on, so what is known on a level is known there when the tree is consolidated again.

* `atRest_addUnknown_and`, `atRest_addUnknown_or`: the branches;
* `atRest_consolidateLevel`, `assembled_consolidated`, `atRest_consolidated`: one level and whole
  trees.
-/

namespace AudienceFilter.MatchTree

variable {ctx : Context} {j : Connective} {covered : List String} {items out : List MatchTree}

/-! ## Unknown arguments -/

/-- The leaf that an argument is unknown is of no interest to any step. -/
theorem unknown_idle {arg : String} {u : MatchTree}
    (h : ctx.singleTree (.unknown arg) .positive = .ok u) :
    (∃ s : Single, u = .leaf (.single s) ∧ s.condition.op = .isUnknown) ∧
      alignDays ctx u = .ok u ∧ (∀ p, boundArg? p u = none) ∧ (∀ p, valueKey? p u = none) ∧
      complementArg? u = none ∧ u.comparisons = 0 := by
  obtain ⟨hplain, -⟩ := holds_unknown h
  obtain ⟨s, hs, rfl⟩ := singleTree_eq_ok.1 h
  obtain ⟨-, -, -, -, -, -, -, hc, -⟩ := Context.single_eq_ok hs
  have hop : s.condition.op = .isUnknown := by rw [hc]; rfl
  refine ⟨⟨s, rfl, hop⟩, ?_, fun p => ?_, fun p => ?_, rfl, ?_⟩
  · refine alignDays_single hplain.made ?_
    rw [hop]
    exact nofun
  · simp [boundArg?, hop, Operator.isBound]
  · simp [valueKey?, hop]
  · simp [comparisons, leaves, Leaf.isUnknownCheck, Single.isUnknownCheck, hop]

/-- A complement among known values is negated, compares, and is no single condition. -/
theorem complement_idle {l : Leaf} {arg : String} (h : l.inDocumentArg? = some arg) :
    l.polarity = .negated ∧ (MatchTree.leaf l).comparisons = 1 ∧ ∀ s, l ≠ .single s := by
  cases l with
  | single s => cases h
  | multi m =>
    simp only [Leaf.inDocumentArg?, complementArg?, Option.ite_none_right_eq_some] at h
    exact ⟨h.1.1, comparisons_leaf rfl, fun s hs => by cases hs⟩
  | between b =>
    simp only [Leaf.inDocumentArg?, complementArg?, Option.ite_none_right_eq_some] at h
    exact ⟨h.1, comparisons_leaf rfl, fun s hs => by cases hs⟩

theorem boundArg?_of_polarity {l : Leaf} {p : Polarity} (h : l.polarity ≠ p) :
    boundArg? p (.leaf l) = none := by
  rw [Option.eq_none_iff_forall_ne_some]
  intro arg ha
  obtain ⟨_, ⟨⟩, hp, -⟩ := boundArg?_eq_some ha
  exact h hp

theorem pairBounds_of_length_le_one {arg : String} {bounds : List MatchTree}
    (h : bounds.length ≤ 1) : pairBounds ctx arg bounds = .ok none := by
  rcases bounds with _ | ⟨t, _ | ⟨t', rest⟩⟩
  · rfl
  · rfl
  · simp at h

theorem boundPair?_singleton (p : Polarity) (t : MatchTree) : boundPair? p [t] = none := by
  rw [boundPair?_eq_none_iff]
  intro b e hb he _ hbound
  obtain rfl : b = e := by
    have := (List.mem_singleton.1 hb).trans (List.mem_singleton.1 he).symm
    simpa using this
  have hop : b.condition.op ≠ .equals := fun hop => by rw [hop] at hbound; cases hbound
  simp [isEqualityOf, single?, hop]

/-- A level of one tree is at rest if its days are aligned and it needs no branch. -/
theorem levelAtRest_singleton {t : MatchTree} (ha : alignDays ctx t = .ok t)
    (hf : opened j t = [t]) (hc : ∀ arg, complementArg? t = some arg → arg ∈ covered) :
    LevelAtRest ctx j covered [t] where
  unpaired := boundPair?_singleton _ t
  aligned _ hx := List.mem_singleton.1 hx ▸ ha
  bounds _ := pairBounds_of_length_le_one (List.length_filter_le _ _)
  values _ hx _ hy _ _ _ := (List.mem_singleton.1 hx).trans (List.mem_singleton.1 hy).symm
  flat _ hx := List.mem_singleton.1 hx ▸ hf
  checks := (List.nodup_cons.2 ⟨List.not_mem_nil, List.nodup_nil⟩).sublist List.filter_sublist
  branched _ hx arg h := .inl (hc arg (List.mem_singleton.1 hx ▸ h))

/-- A complement and the branch that its argument is unknown are at rest wherever they stand. -/
theorem atRest_branches {l : Leaf} {arg : String} {u : MatchTree} (hl : Assembled ctx (.leaf l))
    (ha : alignDays ctx (.leaf l) = .ok (.leaf l)) (hc : l.inDocumentArg? = some arg)
    (hu : ctx.singleTree (.unknown arg) .positive = .ok u) :
    AtRest ctx covered (.combined .or [.leaf l, u]) := by
  obtain ⟨⟨su, hsu, hop⟩, hua, hub, huv, huc, hun⟩ := unknown_idle hu
  obtain ⟨hp, hcomp, hns⟩ := complement_idle hc
  have hmem : ∀ t ∈ [MatchTree.leaf l, u], t = .leaf l ∨ t = u := by simp
  have hkey : ∀ t ∈ [MatchTree.leaf l, u], valueKey? .positive t = none := by
    intro t ht
    rcases hmem t ht with rfl | rfl
    · rw [Option.eq_none_iff_forall_ne_some]
      intro key hk
      obtain ⟨_, ⟨⟩, hpos, -⟩ := valueKey?_eq_some hl hk
      rw [hp] at hpos
      cases hpos
    · exact huv _
  refine .combined (Nat.le_refl 2) ⟨⟨?_, ?_, fun arg => ?_, ?_, ?_, ?_⟩, ?_⟩ ?_
  · rw [boundPair?_eq_none_iff]
    intro b e hb _ _ hbound
    rcases hmem _ hb with hb | hb
    · cases hb
      exact absurd rfl (hns b)
    · rw [hsu] at hb
      cases hb
      rw [hop] at hbound
      cases hbound
  · intro t ht
    rcases hmem t ht with rfl | rfl
    · exact ha
    · exact hua
  · refine pairBounds_of_length_le_one ?_
    simp only [List.filter_cons, List.filter_nil, hub]
    split <;> simp
  · intro x hx y _ key hk
    have hv := mergeKey?_eq_ok hk
    rw [show mergePolarity .or = .positive from rfl, hkey x hx] at hv
    cases hv
  · intro t ht
    rcases hmem t ht with rfl | rfl
    · rfl
    · rw [hsu]
      rfl
  · simp [hcomp, hun]
  · intro t ht arg' ha'
    rcases hmem t ht with rfl | rfl
    · rw [show complementArg? (.leaf l) = some arg from hc] at ha'
      exact .inr ⟨rfl, u, by simp, Option.some.inj ha' ▸ hu⟩
    · rw [huc] at ha'
      cases ha'
  · intro t ht
    rcases hmem t ht with rfl | rfl
    · exact .leaf
    · rw [hsu]
      exact .leaf

/-- In a conjunction complements get branches of their own. -/
theorem atRest_addUnknown_and (hi : ∀ t ∈ items, Assembled ctx t) (hm : LevelMerged ctx .and items)
    (h : addUnknown ctx .and covered [] items = .ok out) :
    LevelAtRest ctx .and covered out ∧
      ∀ t ∈ out, t ∈ items ∨ ∀ covered', AtRest ctx covered' t := by
  obtain ⟨_, hxs, rfl⟩ := addUnknown_and h
  have hcases : ∀ x ∈ out, (x ∈ items ∧ ∀ arg, complementArg? x = some arg → arg ∈ covered) ∨
      (∃ children, x = .combined .or children) ∧ ∀ covered', AtRest ctx covered' x := by
    intro x hx
    obtain ⟨t, ht, hw⟩ := mem_of_mapM_eq_ok hxs hx
    rcases withUnknown_eq_ok hw with ⟨rfl, hc⟩ | ⟨l, arg, u, rfl, ha, hu, rfl⟩
    · exact .inl ⟨ht, hc⟩
    · exact .inr ⟨⟨_, rfl⟩, fun _ => atRest_branches (hi _ ht) (hm.aligned _ ht) ha hu⟩
  -- Elements of a kind that has neither complements nor combinations are as before.
  have hfilter : ∀ P : MatchTree → Bool,
      (∀ l : Leaf, l.inDocumentArg?.isSome → P (.leaf l) = false) →
      (∀ l u, P (.leaf l) = false → P (.combined .or [.leaf l, u]) = false) →
      out.filter P = items.filter P := by
    intro P hleaf hcomb
    refine filter_of_mapM_eq_ok hxs fun t ht x hw => ?_
    rcases withUnknown_eq_ok hw with ⟨rfl, -⟩ | ⟨l, arg, u, rfl, ha, -, rfl⟩
    · exact .inl rfl
    · have hP := hleaf l (by rw [ha]; rfl)
      exact .inr ⟨hP, hcomb l u hP⟩
  refine ⟨⟨⟨?_, ?_, fun arg => ?_, ?_, ?_, ?_⟩, ?_⟩,
    fun t ht => (hcases t ht).imp And.left And.right⟩
  · have hu := boundPair?_eq_none_iff.1 hm.unpaired
    have hsingle : ∀ s : Single, .leaf (.single s) ∈ out → .leaf (.single s) ∈ items := by
      intro s hs
      rcases hcases _ hs with ⟨hs, -⟩ | ⟨⟨children, ⟨⟩⟩, -⟩
      exact hs
    rw [boundPair?_eq_none_iff]
    exact fun b e hb he => hu b e (hsingle b hb) (hsingle e he)
  · intro x hx
    rcases hcases x hx with ⟨hx, -⟩ | ⟨⟨children, rfl⟩, -⟩
    · exact hm.aligned x hx
    · rfl
  · rw [hfilter, hm.bounds arg]
    · intro l hl
      obtain ⟨arg', ha⟩ := Option.isSome_iff_exists.1 hl
      rw [boundArg?_of_polarity (by rw [(complement_idle ha).1]; exact nofun)]
      rfl
    · exact fun l u _ => rfl
  · intro x hx y hy key hkx hky
    rcases hcases x hx with ⟨hx, -⟩ | ⟨⟨children, rfl⟩, -⟩
    · rcases hcases y hy with ⟨hy, -⟩ | ⟨⟨children, rfl⟩, -⟩
      · exact hm.values x hx y hy key hkx hky
      · cases hky
    · cases hkx
  · intro x hx
    rcases hcases x hx with ⟨hx, -⟩ | ⟨⟨children, rfl⟩, -⟩
    · exact hm.flat x hx
    · rfl
  · rw [hfilter]
    · exact hm.checks
    · intro l hl
      obtain ⟨arg', ha⟩ := Option.isSome_iff_exists.1 hl
      simp [(complement_idle ha).2.1]
    · intro l u hP
      simp only [decide_eq_false_iff_not] at hP ⊢
      rw [comparisons_combined, List.map_cons, List.sum_cons]
      omega
  · intro x hx arg ha
    rcases hcases x hx with ⟨-, hc⟩ | ⟨⟨children, rfl⟩, -⟩
    · exact .inl (hc arg ha)
    · cases ha

theorem filter_addUnknown_or {P : MatchTree → Bool} {done : List MatchTree}
    (hP : ∀ arg u, ctx.singleTree (.unknown arg) .positive = .ok u → P u = false)
    (h : addUnknown ctx .or covered done items = .ok out) :
    out.filter P = (done ++ items).filter P := by
  induction items generalizing done with
  | nil => rw [← Except.ok.inj h, List.append_nil]
  | cons t rest ih =>
    rw [addUnknown] at h
    split at h
    · rw [ih h, ← List.append_cons]
    · obtain ⟨u, hu, h⟩ := bind_eq_ok.1 h
      simp only at h
      split at h
      · rw [ih h, ← List.append_cons]
      · rw [ih h]
        simp [List.filter_cons, hP _ u hu]

/-- A branch is only added where it is missing. -/
theorem nodup_addUnknown_or {P : MatchTree → Bool} {done : List MatchTree}
    (h : addUnknown ctx .or covered done items = .ok out)
    (hn : ((done ++ items).filter P).Nodup) : (out.filter P).Nodup := by
  induction items generalizing done with
  | nil => rwa [← Except.ok.inj h, ← List.append_nil done]
  | cons t rest ih =>
    rw [addUnknown] at h
    split at h
    · exact ih h (by rwa [← List.append_cons])
    · obtain ⟨u, -, h⟩ := bind_eq_ok.1 h
      simp only at h
      split at h
      · exact ih h (by rwa [← List.append_cons])
      · next hmissing =>
        refine ih h ?_
        have hperm : (done ++ [t, u] ++ rest).Perm (u :: (done ++ t :: rest)) := by
          have hmiddle : ((done ++ [t]) ++ u :: rest).Perm (u :: ((done ++ [t]) ++ rest)) :=
            List.perm_middle
          simpa using hmiddle
        rw [(hperm.filter P).nodup_iff, List.filter_cons]
        split
        · exact List.nodup_cons.2 ⟨fun hu => hmissing (List.mem_filter.1 hu).1, hn⟩
        · exact hn

/-- In a disjunction the branches stand beside the complements. -/
theorem atRest_addUnknown_or (hm : LevelMerged ctx .or items)
    (h : addUnknown ctx .or covered [] items = .ok out) :
    LevelAtRest ctx .or covered out ∧
      ∀ t ∈ out, t ∈ items ∨ ∀ covered', AtRest ctx covered' t := by
  obtain ⟨-, hout, hneed⟩ := addUnknown_or h
  rw [List.nil_append] at hout
  have hcases : ∀ x ∈ out, x ∈ items ∨ ∃ arg, ctx.singleTree (.unknown arg) .positive = .ok x := by
    intro x hx
    rcases hout x hx with hx | ⟨t, -, arg, -, hu⟩
    · exact .inl hx
    · exact .inr ⟨arg, hu⟩
  have haligned : ∀ x ∈ out, alignDays ctx x = .ok x := by
    intro x hx
    rcases hcases x hx with hx | ⟨arg, hu⟩
    · exact hm.aligned x hx
    · exact (unknown_idle hu).2.1
  refine ⟨⟨⟨?_, ?_, fun arg => ?_, ?_, ?_, ?_⟩, ?_⟩, fun t ht => (hcases t ht).imp_right ?_⟩
  · have hsingle : ∀ s : Single, s.condition.op ≠ .isUnknown → .leaf (.single s) ∈ out →
        .leaf (.single s) ∈ items := by
      intro s hs hmem
      rcases hcases _ hmem with hmem | ⟨arg, hu⟩
      · exact hmem
      · obtain ⟨⟨s', he, hop⟩, -⟩ := unknown_idle hu
        cases he
        exact absurd hop hs
    exact Later.unpaired ⟨hsingle, fun _ => haligned⟩ hm.unpaired
  · exact haligned
  · rw [filter_addUnknown_or (fun arg' u hu => by simp [(unknown_idle hu).2.2.1]) h]
    exact hm.bounds arg
  · have hkey : ∀ x ∈ out, ∀ key, mergeKey? ctx (mergePolarity .or) x = .ok (some key) →
        x ∈ items := by
      intro x hx key hk
      rcases hcases x hx with hx | ⟨arg, hu⟩
      · exact hx
      · have hv := mergeKey?_eq_ok hk
        rw [(unknown_idle hu).2.2.2.1] at hv
        cases hv
    intro x hx y hy key hkx hky
    exact hm.values x (hkey x hx key hkx) y (hkey y hy key hky) key hkx hky
  · intro x hx
    rcases hcases x hx with hx | ⟨arg, hu⟩
    · exact hm.flat x hx
    · obtain ⟨⟨s, rfl, -⟩, -⟩ := unknown_idle hu
      rfl
  · exact nodup_addUnknown_or h hm.checks
  · intro x hx arg ha
    rcases hcases x hx with hx | ⟨arg', hu⟩
    · by_cases hc : arg ∈ covered
      · exact .inl hc
      · exact .inr ⟨rfl, hneed x hx arg ha hc⟩
    · rw [(unknown_idle hu).2.2.2.2.1] at ha
      cases ha
  · rintro ⟨arg, hu⟩ covered'
    obtain ⟨⟨s, rfl, -⟩, -⟩ := unknown_idle hu
    exact .leaf

/-! ## Levels and trees -/

/-- Consolidating a level leaves a level at rest, whose trees stood there before or are at rest
wherever they stand. -/
theorem atRest_consolidateLevel {r : MatchTree} (hi : ∀ t ∈ items, Assembled ctx t)
    (hn : items.Nodup) (hf : ∀ t ∈ items, opened j t = [t])
    (h : consolidateLevel ctx j covered items = .ok r) :
    ∃ out, LevelAtRest ctx j covered out ∧ (∀ t ∈ out, Assembled ctx t) ∧
      (out = [r] ∨ 2 ≤ out.length ∧ r = .combined j out) ∧
      (∀ arg ∈ guardArgs items, arg ∈ guardArgs out) ∧
      ∀ t ∈ out, t ∈ items ∨ ∀ covered', AtRest ctx covered' t := by
  obtain ⟨items₁, h₁, h⟩ := bind_eq_ok.1 h
  obtain ⟨items₂, h₂, h⟩ := bind_eq_ok.1 h
  obtain ⟨items₃, h₃, h⟩ := bind_eq_ok.1 h
  obtain ⟨items₄, h₄, h⟩ := bind_eq_ok.1 h
  obtain ⟨out, hout, h⟩ := bind_eq_ok.1 h
  obtain ⟨hsame, hmerged⟩ := levelMerged_of_steps hi hn hf h₁ h₂ h₃ h₄
  have hassembled : ∀ t ∈ out, Assembled ctx t := by
    have hunknown : ∀ arg u, ctx.singleTree (.unknown arg) .positive = .ok u →
        Assembled ctx u := fun arg u hu => (holds_unknown hu).1.assembled
    refine forall_mem_addUnknown (hsame.assembled hi) hunknown (fun t ht arg u hu => ?_) hout
    exact .combined (by simp [hsame.assembled hi t ht, hunknown arg u hu])
  obtain ⟨hrest, horigin⟩ : LevelAtRest ctx j covered out ∧
      ∀ t ∈ out, t ∈ items₄ ∨ ∀ covered', AtRest ctx covered' t := by
    cases j with
    | and => exact atRest_addUnknown_and (hsame.assembled hi) hmerged hout
    | or => exact atRest_addUnknown_or hmerged hout
  refine ⟨out, hrest, hassembled, joined_eq_ok.1 (liftFault_eq_ok.1 h), fun arg ha => ?_,
    fun t ht => ?_⟩
  · obtain ⟨s, hs, hg, rfl⟩ := mem_guardArgs.1 ha
    exact mem_guardArgs.2 ⟨s, single_mem_addUnknown hout (hsame.guards s hg hs), hg, rfl⟩
  · rcases horigin t ht with ht | ht
    · rcases hsame.origin t ht with ht | ⟨l, rfl, -⟩
      · exact .inl ht
      · exact .inr fun _ => .leaf
    · exact .inr ht

/-- A level of trees at rest gives a tree at rest. What is known on the level but not above it is
guarded there, and the guards stay. -/
theorem atRest_of_level {known : List String} {r : MatchTree} (hi : ∀ t ∈ items, Assembled ctx t)
    (hn : items.Nodup) (hf : ∀ t ∈ items, opened j t = [t])
    (hk : ∀ arg ∈ known, arg ∈ coveredOn j covered items)
    (hr : ∀ t ∈ items, AtRest ctx (coveredOn j covered items) t)
    (h : consolidateLevel ctx j known items = .ok r) :
    Assembled ctx r ∧ AtRest ctx covered r ∧
      (covered = [] → ∀ l, r = .leaf l → LevelAtRest ctx .and [] [r]) := by
  obtain ⟨out, hrest, hassembled, hjoined, hguards, horigin⟩ := atRest_consolidateLevel hi hn hf h
  have hsub : ∀ arg ∈ coveredOn j covered items, arg ∈ coveredOn j covered out := by
    intro arg ha
    rw [mem_coveredOn] at ha ⊢
    exact ha.imp_right fun ⟨hj, ha⟩ => ⟨hj, hguards arg ha⟩
  have hlevel := hrest.mono fun arg ha => hsub arg (hk arg ha)
  have htrees : ∀ t ∈ out, AtRest ctx (coveredOn j covered out) t := by
    intro t ht
    rcases horigin t ht with ht | ht
    · exact (hr t ht).mono hsub
    · exact ht _
  rcases hjoined with rfl | ⟨hlen, rfl⟩
  · refine ⟨hassembled r List.mem_cons_self, ?_⟩
    cases r with
    | leaf l =>
      refine ⟨.leaf, ?_⟩
      rintro rfl l' ⟨⟩
      refine levelAtRest_singleton (hlevel.aligned _ List.mem_cons_self) rfl fun arg ha => ?_
      -- A guard on this level could only be the leaf itself, which is a complement.
      obtain ⟨-, -, hns⟩ := complement_idle (l := l) ha
      rcases hlevel.branched _ List.mem_cons_self arg ha with hc | ⟨-, u, hu, hmade⟩
      · rcases mem_coveredOn.1 hc with hc | ⟨-, hc⟩
        · exact hc
        · obtain ⟨s, hs, -⟩ := mem_guardArgs.1 hc
          cases List.mem_singleton.1 hs
          exact absurd rfl (hns s)
      · obtain ⟨⟨s, rfl, -⟩, -⟩ := unknown_idle hmade
        cases List.mem_singleton.1 hu
        exact absurd rfl (hns s)
    | combined i children =>
      refine ⟨(htrees _ List.mem_cons_self).mono fun arg ha => ?_, fun _ l hl => by cases hl⟩
      rcases mem_coveredOn.1 ha with ha | ⟨-, ha⟩
      · exact ha
      · obtain ⟨s, hs, -⟩ := mem_guardArgs.1 ha
        cases List.mem_singleton.1 hs
    | group i nodeType children => cases htrees _ List.mem_cons_self
  · exact ⟨.combined hassembled, .combined hlen hlevel htrees, fun _ l hl => by cases hl⟩

theorem flat_of_mem_opened {t x : MatchTree} (ht : AtRest ctx covered t) (hx : x ∈ opened j t) :
    opened j x = [x] := by
  cases ht with
  | leaf =>
    cases List.mem_singleton.1 hx
    rfl
  | @combined _ i children hl h hc =>
    by_cases hi : i = j
    · subst hi
      exact h.flat x (opened_combined_self i children ▸ hx)
    · rw [opened_combined_of_ne hi, List.mem_singleton] at hx
      rw [hx, opened_combined_of_ne hi]

/-- Consolidated combinations are at rest. -/
theorem atRest_consolidateBelow {t r : MatchTree} (ht : Assembled ctx t)
    (h : consolidateBelow ctx covered t = .ok r) :
    Assembled ctx r ∧ AtRest ctx covered r ∧
      (covered = [] → t.leaf? = none → ∀ l, r = .leaf l → LevelAtRest ctx .and [] [r]) := by
  induction t using memberInduction generalizing covered r with
  | group j nodeType children ih => cases ht
  | leaf l =>
    cases h
    exact ⟨ht, .leaf, fun _ hleaf => by cases hleaf⟩
  | combined j children ih =>
    rw [consolidateBelow, consolidateEach_eq_mapM] at h
    obtain ⟨items, hitems, h⟩ := bind_eq_ok.1 h
    have hitem : ∀ y ∈ items, Assembled ctx y ∧ AtRest ctx (coveredOn j covered children) y := by
      intro y hy
      obtain ⟨c, hc, hcy⟩ := mem_of_mapM_eq_ok hitems hy
      obtain ⟨hp, hr, -⟩ := ih c hc (ht.children c hc) hcy
      exact ⟨hp, hr⟩
    have hassembled : ∀ x ∈ flattened j items, Assembled ctx x := by
      intro x hx
      obtain ⟨y, hy, hxy⟩ := mem_flattened.1 hx
      exact assembled_opened (hitem y hy).1 hxy
    have hguard : ∀ s : Single, .leaf (.single s) ∈ children →
        .leaf (.single s) ∈ flattened j items := by
      intro s hs
      obtain ⟨y, hy, hsy⟩ := exists_of_mapM_eq_ok hitems hs
      exact mem_flattened.2 ⟨_, Except.ok.inj hsy ▸ hy, List.mem_singleton_self _⟩
    have hknown : ∀ arg ∈ coveredOn j covered children,
        arg ∈ coveredOn j covered (flattened j items) := by
      intro arg ha
      rw [mem_coveredOn] at ha ⊢
      refine ha.imp_right fun hand => ⟨hand.1, ?_⟩
      obtain ⟨s, hs, hg, rfl⟩ := mem_guardArgs.1 hand.2
      exact mem_guardArgs.2 ⟨s, hguard s hs, hg, rfl⟩
    have hrest : ∀ x ∈ flattened j items,
        AtRest ctx (coveredOn j covered (flattened j items)) x := by
      intro x hx
      obtain ⟨y, hy, hxy⟩ := mem_flattened.1 hx
      have hy' := (hitem y hy).2
      cases hy' with
      | leaf =>
        cases List.mem_singleton.1 hxy
        exact .leaf
      | @combined _ i inner hl hlevel hc =>
        by_cases hi : i = j
        · -- The guards of a level that is taken apart stand on this level now.
          subst hi
          rw [opened_combined_self] at hxy
          refine (hc x hxy).mono fun arg ha => ?_
          rcases mem_coveredOn.1 ha with ha | ⟨hj, ha⟩
          · exact hknown arg ha
          · obtain ⟨s, hs, hg, rfl⟩ := mem_guardArgs.1 ha
            refine mem_coveredOn.2 (.inr ⟨hj, mem_guardArgs.2 ⟨s, ?_, hg, rfl⟩⟩)
            exact mem_flattened.2 ⟨_, hy, by rwa [opened_combined_self]⟩
        · rw [opened_combined_of_ne hi, List.mem_singleton] at hxy
          exact hxy ▸ (hitem _ hy).2.mono hknown
    have hflat : ∀ x ∈ flattened j items, opened j x = [x] := by
      intro x hx
      obtain ⟨y, hy, hxy⟩ := mem_flattened.1 hx
      exact flat_of_mem_opened (hitem y hy).2 hxy
    have hn : (flattened j items).Nodup := by
      rw [flattened_eq_ofList]
      exact Distinct.nodup_ofList _
    obtain ⟨hr, hrr, hleaf⟩ := atRest_of_level hassembled hn hflat hknown hrest h
    exact ⟨hr, hrr, fun hc _ => hleaf hc⟩

/-- A consolidated tree is at rest, also as the only tree of a conjunction. -/
theorem assembled_consolidated {t r : MatchTree} (ht : Assembled ctx t)
    (h : consolidated ctx t = .ok r) :
    Assembled ctx r ∧ AtRest ctx [] r ∧ ∀ l, r = .leaf l → LevelAtRest ctx .and [] [r] := by
  cases t with
  | group j nodeType children => cases ht
  | combined j children =>
    obtain ⟨hp, hr, hleaf⟩ := atRest_consolidateBelow ht h
    exact ⟨hp, hr, hleaf rfl rfl⟩
  | leaf l =>
    have hitems : ∀ t ∈ [MatchTree.leaf l], Assembled ctx t := by simpa using ht
    have hrest : ∀ t ∈ [MatchTree.leaf l], AtRest ctx (coveredOn .and [] [.leaf l]) t := by
      intro t ht
      rw [List.mem_singleton.1 ht]
      exact .leaf
    obtain ⟨hr, hrr, hleaf⟩ :=
      atRest_of_level hitems (by simp) (by simp [opened]) (fun _ ha => ha) hrest h
    exact ⟨hr, hrr, hleaf rfl⟩

theorem atRest_consolidated {t r : MatchTree} (ht : Plain ctx t)
    (h : consolidated ctx t = .ok r) :
    Plain ctx r ∧ AtRest ctx [] r ∧ ∀ l, r = .leaf l → LevelAtRest ctx .and [] [r] :=
  ⟨plain_consolidated ht h, (assembled_consolidated ht.assembled h).2⟩

end AudienceFilter.MatchTree
