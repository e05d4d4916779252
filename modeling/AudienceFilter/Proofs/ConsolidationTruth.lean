import AudienceFilter.Proofs.ConsolidationSteps

/-!
# Consolidation keeps the truth

A complement of several values or of two bounds is false where its argument is unknown, although
the conditions it was made from hold there. The branch that the argument is unknown makes up for
that, unless a guard above says that it is known. So a consolidated tree is read with the covered
arguments given:

* `Settled`: the trees of a level may be read plainly instead, which lets a level be taken apart
  into the one above it;
* `ready_consolidateLevel`: one level;
* `Settled.forget`: a guard of a conjunction is part of it, so that its argument need not be given
  any more;
* `holds_consolidated`: a consolidated tree is as true as before.
-/

namespace AudienceFilter.MatchTree

/-! ## Levels taken apart -/

theorem holds_combined (v : Leaf → Bool) (j : Connective) (children : List MatchTree) :
    (MatchTree.combined j children).holds v = j.truth (children.map (holds v)) := by
  rw [holds, holdsEach_eq_map]

/-- What a tree brings into a level: its own members if it is a combination of the same kind. -/
def opened (j : Connective) (t : MatchTree) : List MatchTree :=
  match t with
  | .combined i children => if i = j then children else [t]
  | _ => [t]

theorem opened_combined_self (j : Connective) (children : List MatchTree) :
    opened j (.combined j children) = children := if_pos rfl

theorem opened_combined_of_ne {i j : Connective} (h : i ≠ j) (children : List MatchTree) :
    opened j (.combined i children) = [.combined i children] := if_neg h

/-- A list that grows by what each of some elements brings. -/
theorem mem_foldl {α β : Type} {f : List α → β → List α} {g : β → List α}
    (h : ∀ acc b x, x ∈ f acc b ↔ x ∈ acc ∨ x ∈ g b) {bs : List β} {acc : List α} {x : α} :
    x ∈ bs.foldl f acc ↔ x ∈ acc ∨ ∃ b ∈ bs, x ∈ g b := by
  induction bs generalizing acc with
  | nil => simp
  | cons b bs ih => simp [ih, h, or_assoc]

theorem mem_flattened {j : Connective} {trees : List MatchTree} {x : MatchTree} :
    x ∈ flattened j trees ↔ ∃ t ∈ trees, x ∈ opened j t := by
  rw [flattened, mem_foldl (g := opened j)]
  · simp
  · intro acc t x
    cases t with
    | leaf l => simp [Distinct.mem_push, opened]
    | group i nodeType children => simp [Distinct.mem_push, opened]
    | combined i children =>
      by_cases hi : i = j
      · simp [hi, Distinct.mem_append, opened]
      · simp [hi, Distinct.mem_push, opened]

/-! ## Settled trees -/

variable {V : Type} {ctx : Context} {w : World V} {given : String → Bool}

/-- Whether the trees that a tree brings into a level may be read plainly there. -/
def Settled (ctx : Context) (w : World V) (given : String → Bool) (t : MatchTree) : Prop :=
  ∀ j : Connective, t.holds (w.reads ctx given) = j.neutral.truth ↔
    ∀ x ∈ opened j t, w.readsItem ctx given x = j.neutral.truth

theorem settled_leaf {l : Leaf} (h : w.reads ctx given l = w.plainly ctx l) :
    Settled ctx w given (.leaf l) := by
  intro j
  simp [opened, World.readsItem, holds, h]

theorem Settled.reads_leaf {l : Leaf} (h : Settled ctx w given (.leaf l)) :
    w.reads ctx given l = w.plainly ctx l := by
  refine Connective.eq_of_neutral_iff .and ?_
  simpa [opened, World.readsItem, holds] using h .and

theorem settled_combined {j : Connective} {children : List MatchTree}
    (h : (∀ x ∈ children, x.holds (w.reads ctx given) = j.neutral.truth) ↔
      ∀ x ∈ children, w.readsItem ctx given x = j.neutral.truth) :
    Settled ctx w given (.combined j children) := by
  intro i
  by_cases hi : j = i
  · subst hi
    rw [opened_combined_self, holds_combined, Connective.truth_map_eq_neutral, h]
  · simp [opened_combined_of_ne hi, World.readsItem]

/-- Whether a tree is settled together with the combinations in it. Those beside a guard need not
be, since they never stand for the whole tree. -/
inductive Ready (ctx : Context) (w : World V) (given : String → Bool) : MatchTree → Prop
  | leaf {l : Leaf} (h : w.reads ctx given l = w.plainly ctx l) : Ready ctx w given (.leaf l)
  | combined {j : Connective} {children : List MatchTree}
      (hs : Settled ctx w given (.combined j children))
      (hc : ∀ t ∈ children, t.leaf? = none → Ready ctx w given t) :
      Ready ctx w given (.combined j children)
  | guarded {children : List MatchTree} {s : Single} (hg : s.isGuard = true)
      (hm : .leaf (.single s) ∈ children) (hs : Settled ctx w given (.combined .and children)) :
      Ready ctx w given (.combined .and children)

theorem Ready.settled {t : MatchTree} (h : Ready ctx w given t) : Settled ctx w given t := by
  cases h with
  | leaf h => exact settled_leaf h
  | combined hs hc => exact hs
  | guarded hg hm hs => exact hs

/-- The more is given, the more trees hold. -/
theorem holds_mono {v v' : Leaf → Bool} (h : ∀ l, v l = true → v' l = true) {t : MatchTree}
    (ht : t.holds v = true) : t.holds v' = true := by
  have htruth : ∀ (j : Connective) (children : List MatchTree),
      (∀ x ∈ children, x.holds v = true → x.holds v' = true) →
      j.truth (children.map (holds v)) = true → j.truth (children.map (holds v')) = true := by
    intro j children hc hj
    cases j with
    | and =>
      simp only [Connective.truth, List.all_map, List.all_eq_true, Function.comp_apply, id] at hj ⊢
      exact fun x hx => hc x hx (hj x hx)
    | or =>
      simp only [Connective.truth, List.any_map, List.any_eq_true, Function.comp_apply, id] at hj ⊢
      obtain ⟨x, hx, hj⟩ := hj
      exact ⟨x, hx, hc x hx hj⟩
  induction t using memberInduction with
  | leaf l => exact h l ht
  | combined j children ih =>
    rw [holds_combined] at ht ⊢
    exact htruth j children ih ht
  | group j nodeType children ih =>
    rw [holds, holdsEach_eq_map] at ht ⊢
    exact htruth j children ih ht

theorem readsItem_mono {given' : String → Bool} (h : ∀ arg, given arg = true → given' arg = true)
    {t : MatchTree} (ht : w.readsItem ctx given t = true) : w.readsItem ctx given' t = true := by
  cases t with
  | leaf l => exact ht
  | combined j children => exact holds_mono (fun l => World.reads_mono h) ht
  | group j nodeType children => exact holds_mono (fun l => World.reads_mono h) ht

theorem reads_congr {given' : String → Bool}
    (h : ∀ arg, (given arg || w.isKnown ctx arg) = (given' arg || w.isKnown ctx arg)) :
    w.reads ctx given = w.reads ctx given' := by
  funext l
  simp only [World.reads, h]

/-- What a tree that holds says to be known need not be given any more. A tree that does not hold
is settled with less given as well, since less of it holds. -/
theorem Settled.forget {given' : String → Bool} {t : MatchTree} (hs : Settled ctx w given' t)
    (hle : ∀ arg, given arg = true → given' arg = true)
    (hk : t.holds (w.reads ctx given') = true →
      ∀ arg, given' arg = true → given arg = true ∨ w.isKnown ctx arg = true) :
    Settled ctx w given t ∧ t.holds (w.reads ctx given) = t.holds (w.reads ctx given') := by
  cases hb : t.holds (w.reads ctx given') with
  | true =>
    have hr : w.reads ctx given = w.reads ctx given' := by
      refine reads_congr fun arg => ?_
      have h₁ := hle arg
      have h₂ := hk hb arg
      cases hg : given arg <;> cases hg' : given' arg <;> simp_all
    have hi : w.readsItem ctx given = w.readsItem ctx given' := by
      funext x
      cases x <;> simp only [World.readsItem, hr]
    rw [Settled, hi, hr]
    exact ⟨hs, hb⟩
  | false =>
    have hless : t.holds (w.reads ctx given) = false := by
      rw [Bool.eq_false_iff] at hb ⊢
      exact fun h => hb (holds_mono (fun l => World.reads_mono hle) h)
    refine ⟨?_, hless⟩
    cases t with
    | leaf l =>
      refine settled_leaf ?_
      rw [← hs.reads_leaf]
      exact hless.trans hb.symm
    | group i nodeType children => exact fun j => by simp [opened, World.readsItem]
    | combined i children =>
      refine settled_combined ?_
      rw [← Connective.truth_map_eq_neutral, ← holds_combined, hless]
      have hi := hs i
      rw [opened_combined_self, hb] at hi
      cases i with
      | and =>
        refine ⟨fun h => absurd h (by decide), fun hall => ?_⟩
        exact absurd (hi.2 fun x hx => readsItem_mono hle (hall x hx)) (by decide)
      | or =>
        refine ⟨fun _ x hx => ?_, fun _ => rfl⟩
        have hx := hi.1 rfl x hx
        rw [show Connective.or.neutral.truth = false from rfl, Bool.eq_false_iff] at hx ⊢
        exact fun h => hx (readsItem_mono hle h)

/-! ## Unknown arguments -/

/-- The leaf that an argument is unknown holds whatever is given. -/
theorem holds_unknown {arg : String} {u : MatchTree}
    (h : ctx.singleTree (.unknown arg) .positive = .ok u) :
    Plain ctx u ∧ ∀ {V : Type} (w : World V) given,
      u.holds (w.reads ctx given) = !w.isKnown ctx arg ∧
        w.readsItem ctx given u = !w.isKnown ctx arg := by
  obtain ⟨s, hs, rfl⟩ := singleTree_eq_ok.1 h
  obtain ⟨-, -, -, -, -, -, -, hc, hp⟩ := Context.single_eq_ok hs
  have hplain : Plain ctx (.leaf (.single s)) := .leaf (.single hs) (by rw [Leaf.polarity, hp]; rfl)
  refine ⟨hplain, fun w given => ?_⟩
  have hplainly : w.plainly ctx (.single s) = !w.isKnown ctx arg := by
    rw [World.plainly, World.found_unknown (by rw [hc]; rfl), Leaf.isComplement,
      Single.isComplement, Single.isUnknownCheck, hc, hp]
    exact Bool.bne_true _
  refine ⟨?_, hplainly⟩
  have hnone : (Leaf.single s).inDocumentArg? = none := rfl
  rw [holds, World.reads_eq_plainly hplain.verifies fun arg ha => ?_, hplainly]
  rw [hnone] at ha
  cases ha

/-- A complement and the branch that its argument is unknown together are the plain complement. -/
theorem neutral_withUnknown {l : Leaf} {arg : String} (hl : Plain ctx (.leaf l))
    (ha : l.inDocumentArg? = some arg) :
    (w.reads ctx given l || !w.isKnown ctx arg) = w.plainly ctx l := by
  cases hk : w.isKnown ctx arg with
  | true =>
    rw [World.reads_eq_plainly hl.verifies fun arg' ha' => ?_]
    · simp
    · rw [ha] at ha'
      exact .inr (Option.some.inj ha' ▸ hk)
  | false => rw [World.plainly_of_not_isKnown hl.made ha hk, Bool.not_false, Bool.or_true]

theorem complementArg?_eq_some {t : MatchTree} {arg : String} (h : complementArg? t = some arg) :
    ∃ l, t = .leaf l ∧ l.inDocumentArg? = some arg := by
  cases t with
  | leaf l => exact ⟨l, rfl, h⟩
  | combined j children => cases h
  | group j nodeType children => cases h

/-- A tree of a conjunction with the branch that it needs. -/
def withUnknown (ctx : Context) (covered : List String) (t : MatchTree) : Result MatchTree :=
  match (complementArg? t).filter fun arg => !covered.contains arg with
  | none => .ok t
  | some arg => do
    let unknown ← ctx.singleTree (.unknown arg) .positive
    liftFault (combine .or [t, unknown])

theorem withUnknown_eq_ok {covered : List String} {t x : MatchTree}
    (h : withUnknown ctx covered t = .ok x) :
    (x = t ∧ ∀ arg, complementArg? t = some arg → arg ∈ covered) ∨
      ∃ l arg u, t = .leaf l ∧ l.inDocumentArg? = some arg ∧
        ctx.singleTree (.unknown arg) .positive = .ok u ∧ x = .combined .or [t, u] := by
  unfold withUnknown at h
  split at h
  · next hf =>
    refine .inl ⟨(Except.ok.inj h).symm, fun arg ha => ?_⟩
    rw [ha, Option.filter_some] at hf
    simpa using hf
  · next arg hf =>
    obtain ⟨l, rfl, ha⟩ := complementArg?_eq_some (Option.filter_eq_some_iff.1 hf).1
    obtain ⟨u, hu, h⟩ := bind_eq_ok.1 h
    exact .inr ⟨l, arg, u, rfl, ha, hu, (combine_eq_ok.1 (liftFault_eq_ok.1 h)).2⟩

/-- In a conjunction each tree gets its branch on its own. -/
theorem addUnknown_and_eq (covered : List String) (done items : List MatchTree) :
    addUnknown ctx .and covered done items =
      (items.mapM (withUnknown ctx covered)).map (done ++ ·) := by
  induction items generalizing done with
  | nil => exact congrArg Except.ok (List.append_nil done).symm
  | cons t rest ih =>
    rw [addUnknown, List.mapM_cons, withUnknown]
    cases (complementArg? t).filter fun arg => !covered.contains arg with
    | none =>
      refine (ih _).trans ?_
      cases rest.mapM (withUnknown ctx covered) with
      | error e => rfl
      | ok xs => exact congrArg Except.ok (List.append_assoc done [t] xs)
    | some arg =>
      dsimp only
      cases ctx.singleTree (.unknown arg) .positive with
      | error e => rfl
      | ok unknown =>
        refine (ih _).trans ?_
        cases rest.mapM (withUnknown ctx covered) with
        | error e => rfl
        | ok xs => exact congrArg Except.ok (List.append_assoc done _ xs)

theorem addUnknown_and {covered : List String} {done items out : List MatchTree}
    (h : addUnknown ctx .and covered done items = .ok out) :
    ∃ xs, items.mapM (withUnknown ctx covered) = .ok xs ∧ out = done ++ xs := by
  rw [addUnknown_and_eq] at h
  obtain ⟨xs, hxs, rfl⟩ := map_eq_ok.1 h
  exact ⟨xs, hxs, rfl⟩

/-- In a disjunction the branches stand beside the trees that need them. -/
theorem addUnknown_or {covered : List String} {done items out : List MatchTree}
    (h : addUnknown ctx .or covered done items = .ok out) :
    (∀ x ∈ done ++ items, x ∈ out) ∧
      (∀ x ∈ out, x ∈ done ++ items ∨ ∃ t ∈ items, ∃ arg, complementArg? t = some arg ∧
        ctx.singleTree (.unknown arg) .positive = .ok x) ∧
      ∀ t ∈ items, ∀ arg, complementArg? t = some arg → arg ∉ covered →
        ∃ u ∈ out, ctx.singleTree (.unknown arg) .positive = .ok u := by
  induction items generalizing done with
  | nil =>
    cases h
    simp
  | cons t rest ih =>
    -- Whatever is done with `t`, the rest is dealt with behind it.
    have hrest : ∀ done', addUnknown ctx .or covered done' rest = .ok out →
        (∀ x ∈ done ++ t :: rest, x ∈ done' ++ rest) →
        (∀ x ∈ done' ++ rest, x ∈ done ++ t :: rest ∨ ∃ arg, complementArg? t = some arg ∧
          ctx.singleTree (.unknown arg) .positive = .ok x) →
        (∀ arg, complementArg? t = some arg → arg ∉ covered →
          ∃ u ∈ done' ++ rest, ctx.singleTree (.unknown arg) .positive = .ok u) →
        (∀ x ∈ done ++ t :: rest, x ∈ out) ∧
          (∀ x ∈ out, x ∈ done ++ t :: rest ∨ ∃ t' ∈ t :: rest, ∃ arg,
            complementArg? t' = some arg ∧ ctx.singleTree (.unknown arg) .positive = .ok x) ∧
          ∀ t' ∈ t :: rest, ∀ arg, complementArg? t' = some arg → arg ∉ covered →
            ∃ u ∈ out, ctx.singleTree (.unknown arg) .positive = .ok u := by
      intro done' h' hsub hnew hneed
      obtain ⟨hin, hout, hbranch⟩ := ih h'
      refine ⟨fun x hx => hin x (hsub x hx), fun x hx => ?_, fun t' ht' arg ha hc => ?_⟩
      · rcases hout x hx with hx | ⟨t', ht', h'⟩
        · exact (hnew x hx).imp_right fun h' => ⟨t, List.mem_cons_self, h'⟩
        · exact .inr ⟨t', List.mem_cons_of_mem t ht', h'⟩
      · rcases List.mem_cons.1 ht' with rfl | ht'
        · obtain ⟨u, hu, h'⟩ := hneed arg ha hc
          exact ⟨u, hin u hu, h'⟩
        · exact hbranch t' ht' arg ha hc
    rw [addUnknown] at h
    split at h
    · next hf =>
      refine hrest _ h (by simp) (fun x hx => .inl (by simpa using hx)) fun arg ha hc => ?_
      rw [ha, Option.filter_some] at hf
      simp [hc] at hf
    · next arg hf =>
      have ha := (Option.filter_eq_some_iff.1 hf).1
      obtain ⟨u, hu, h⟩ := bind_eq_ok.1 h
      simp only at h
      have hneed : ∀ done', u ∈ done' ++ rest → ∀ arg', complementArg? t = some arg' →
          arg' ∉ covered → ∃ x ∈ done' ++ rest,
            ctx.singleTree (.unknown arg') .positive = .ok x := by
        intro done' hin arg' ha' _
        rw [ha] at ha'
        exact ⟨u, hin, Option.some.inj ha' ▸ hu⟩
      split at h
      · next hin =>
        exact hrest _ h (by simp) (fun x hx => .inl (by simpa using hx))
          (hneed _ (by simpa using hin))
      · refine hrest _ h (by simp; grind) (fun x hx => ?_) (hneed _ (by simp))
        by_cases hxu : x = u
        · exact .inr ⟨arg, ha, hxu ▸ hu⟩
        · left
          simpa [hxu] using hx

/-- Single conditions stay where branches are added. -/
theorem single_mem_addUnknown {j : Connective} {covered : List String}
    {items out : List MatchTree} (h : addUnknown ctx j covered [] items = .ok out) {s : Single}
    (hs : .leaf (.single s) ∈ items) : .leaf (.single s) ∈ out := by
  cases j with
  | and =>
    obtain ⟨_, hxs, rfl⟩ := addUnknown_and h
    obtain ⟨x, hx, hw⟩ := exists_of_mapM_eq_ok hxs hs
    exact Except.ok.inj hw ▸ hx
  | or => exact (addUnknown_or h).1 _ hs

/-- What all trees and their branches are, they are together. -/
theorem forall_mem_addUnknown {P : MatchTree → Prop} {j : Connective} {covered : List String}
    {items out : List MatchTree} (hi : ∀ t ∈ items, P t)
    (hu : ∀ arg u, ctx.singleTree (.unknown arg) .positive = .ok u → P u)
    (hc : ∀ t ∈ items, ∀ arg u, ctx.singleTree (.unknown arg) .positive = .ok u →
      P (.combined .or [t, u]))
    (h : addUnknown ctx j covered [] items = .ok out) : ∀ t ∈ out, P t := by
  intro x hx
  cases j with
  | and =>
    obtain ⟨_, hxs, rfl⟩ := addUnknown_and h
    obtain ⟨t, ht, hw⟩ := mem_of_mapM_eq_ok hxs hx
    rcases withUnknown_eq_ok hw with ⟨rfl, -⟩ | ⟨l, arg, u, -, -, hua, rfl⟩
    · exact hi x ht
    · exact hc t ht arg u hua
  | or =>
    rcases (addUnknown_or h).2.1 x hx with hx | ⟨t, -, arg, -, hua⟩
    · exact hi x hx
    · exact hu arg x hua

/-- What is read with arguments given holds if it does plainly. -/
theorem readsItem_of_holds {t : MatchTree} (h : t.holds (w.reads ctx given) = true) :
    w.readsItem ctx given t = true := by
  cases t with
  | combined j children => exact h
  | group j nodeType children => exact h
  | leaf l =>
    rw [World.readsItem, ← World.reads_all]
    exact World.reads_mono (fun _ _ => rfl) h

/-- The trees of a level with their branches say what they said plainly, now with the covered
arguments given. -/
structure Branched (ctx : Context) (j : Connective) (covered : List String)
    (items out : List MatchTree) : Prop where
  plain : ∀ t ∈ out, Plain ctx t
  neutral : ∀ {V : Type} (w : World V),
    (∀ t ∈ out, w.readsItem ctx covered.contains t = j.neutral.truth) ↔
      ∀ t ∈ items, w.readsItem ctx covered.contains t = j.neutral.truth
  reads : ∀ {V : Type} (w : World V),
    (∀ t ∈ out, t.holds (w.reads ctx covered.contains) = j.neutral.truth) ↔
      ∀ t ∈ out, w.readsItem ctx covered.contains t = j.neutral.truth
  guards : ∀ s : Single, s.isGuard = true → .leaf (.single s) ∈ items → .leaf (.single s) ∈ out
  ready : ∀ {V : Type} (w : World V), ∀ t ∈ out, t.leaf? = none →
    t ∈ items ∨ Ready ctx w covered.contains t

theorem withUnknown_spec {covered : List String} {t x : MatchTree} (ht : Plain ctx t)
    (h : withUnknown ctx covered t = .ok x) :
    Plain ctx x ∧ ∀ {V : Type} (w : World V),
      w.readsItem ctx covered.contains x = w.readsItem ctx covered.contains t ∧
      x.holds (w.reads ctx covered.contains) = w.readsItem ctx covered.contains x ∧
      (x = t ∨ Ready ctx w covered.contains x) := by
  rcases withUnknown_eq_ok h with ⟨rfl, hc⟩ | ⟨l, arg, u, rfl, ha, hu, rfl⟩
  · refine ⟨ht, fun w => ⟨rfl, ?_, .inl rfl⟩⟩
    cases x with
    | combined j children => rfl
    | group j nodeType children => rfl
    | leaf l =>
      exact World.reads_eq_plainly ht.verifies fun arg ha =>
        .inl (List.contains_iff_mem.2 (hc arg ha))
  · obtain ⟨hup, hur⟩ := holds_unknown hu
    have hplain : Plain ctx (.combined .or [.leaf l, u]) := by
      refine .combined fun t hmem => ?_
      rcases List.mem_cons.1 hmem with rfl | hmem
      · exact ht
      · exact List.mem_singleton.1 hmem ▸ hup
    refine ⟨hplain, fun w => ?_⟩
    obtain ⟨huh, hui⟩ := hur w covered.contains
    have hboth : (w.reads ctx covered.contains l || !w.isKnown ctx arg) = w.plainly ctx l :=
      neutral_withUnknown ht ha
    refine ⟨?_, rfl, .inr (.combined (settled_combined ?_) ?_)⟩
    · rw [World.readsItem_combined, holds_combined, World.readsItem_leaf, ← hboth]
      simp [Connective.truth, holds, huh]
    · -- Where the branch is false the argument is known, and the leaf may be read plainly.
      simp only [List.mem_cons, List.not_mem_nil, or_false, forall_eq_or_imp, forall_eq, huh, hui,
        holds, World.readsItem_leaf, Connective.neutral, Extent.truth]
      refine and_congr_left fun hk => ?_
      rw [hk, Bool.or_false] at hboth
      rw [hboth]
    · obtain ⟨s, -, rfl⟩ := singleTree_eq_ok.1 hu
      simp [leaf?]

theorem branched_and {covered : List String} {items out : List MatchTree}
    (hi : ∀ t ∈ items, Plain ctx t) (h : addUnknown ctx .and covered [] items = .ok out) :
    Branched ctx .and covered items out := by
  obtain ⟨_, hxs, rfl⟩ := addUnknown_and h
  have hspec : ∀ x ∈ out, ∃ t ∈ items, withUnknown ctx covered t = .ok x :=
    fun x hx => mem_of_mapM_eq_ok hxs hx
  constructor
  · intro x hx
    obtain ⟨t, ht, hw⟩ := hspec x hx
    exact (withUnknown_spec (hi t ht) hw).1
  · intro V w
    constructor
    · intro hall t ht
      obtain ⟨x, hx, hw⟩ := exists_of_mapM_eq_ok hxs ht
      rw [← ((withUnknown_spec (hi t ht) hw).2 w).1]
      exact hall x hx
    · intro hall x hx
      obtain ⟨t, ht, hw⟩ := hspec x hx
      rw [((withUnknown_spec (hi t ht) hw).2 w).1]
      exact hall t ht
  · intro V w
    refine forall_congr' fun x => forall_congr' fun hx => ?_
    obtain ⟨t, ht, hw⟩ := hspec x hx
    rw [((withUnknown_spec (hi t ht) hw).2 w).2.1]
  · exact fun s _ hs => single_mem_addUnknown h hs
  · intro V w x hx _
    obtain ⟨t, ht, hw⟩ := hspec x hx
    rcases ((withUnknown_spec (hi t ht) hw).2 w).2.2 with rfl | hs
    · exact .inl ht
    · exact .inr hs

theorem branched_or {covered : List String} {items out : List MatchTree}
    (hi : ∀ t ∈ items, Plain ctx t) (h : addUnknown ctx .or covered [] items = .ok out) :
    Branched ctx .or covered items out := by
  obtain ⟨hin, hout, hneed⟩ := addUnknown_or h
  rw [List.nil_append] at hin hout
  have hplain : ∀ x ∈ out, Plain ctx x := by
    intro x hx
    rcases hout x hx with hx | ⟨t, -, arg, -, hu⟩
    · exact hi x hx
    · exact (holds_unknown hu).1
  refine ⟨hplain, ?_, ?_, fun s _ hs => hin _ hs, ?_⟩
  · intro V w
    refine ⟨fun hall t ht => hall t (hin t ht), fun hall x hx => ?_⟩
    rcases hout x hx with hx | ⟨t, ht, arg, ha, hu⟩
    · exact hall x hx
    · -- A complement that is false finds something, so that its argument is known.
      obtain ⟨l, rfl, ha⟩ := complementArg?_eq_some ha
      rw [((holds_unknown hu).2 w _).2]
      have hl := hall _ ht
      cases hk : w.isKnown ctx arg with
      | true => rfl
      | false =>
        rw [World.readsItem, World.plainly_of_not_isKnown (hi _ ht).made ha hk] at hl
        cases hl
  · intro V w
    constructor
    · intro hall x hx
      rw [← hall x hx]
      cases x with
      | combined j children => rfl
      | group j nodeType children => rfl
      | leaf l =>
        refine (World.reads_eq_plainly (hplain _ hx).verifies fun arg ha => ?_).symm
        by_cases hc : arg ∈ covered
        · exact .inl (List.contains_iff_mem.2 hc)
        rcases hout _ hx with hx | ⟨t, -, arg', -, hu⟩
        · obtain ⟨u, hu, hua⟩ := hneed _ hx arg ha hc
          have hfalse := hall u hu
          rw [((holds_unknown hua).2 w _).1] at hfalse
          exact .inr (by simpa [Connective.neutral, Extent.truth] using hfalse)
        · obtain ⟨s, -, hs⟩ := singleTree_eq_ok.1 hu
          cases hs
          cases ha
    · intro hall x hx
      have hx := hall x hx
      rw [show Connective.or.neutral.truth = false from rfl, Bool.eq_false_iff] at hx ⊢
      exact fun h => hx (readsItem_of_holds h)
  · intro V w x hx hl
    rcases hout x hx with hx | ⟨t, -, arg, -, hu⟩
    · exact .inl hx
    · obtain ⟨s, -, rfl⟩ := singleTree_eq_ok.1 hu
      cases hl

theorem branched_addUnknown {j : Connective} {covered : List String} {items out : List MatchTree}
    (hi : ∀ t ∈ items, Plain ctx t) (h : addUnknown ctx j covered [] items = .ok out) :
    Branched ctx j covered items out := by
  cases j with
  | and => exact branched_and hi h
  | or => exact branched_or hi h

/-! ## One level -/

/-- A level without a tree that could not stand for the whole: there is a guard beside it, or
there is none such tree. -/
def LevelReady (ctx : Context) (w : World V) (given : String → Bool) (j : Connective)
    (items : List MatchTree) : Prop :=
  (j = .and ∧ ∃ s : Single, s.isGuard = true ∧ .leaf (.single s) ∈ items) ∨
    ∀ t ∈ items, t.leaf? = none → Ready ctx w given t

/-- Consolidating a level gives a tree that says what its trees said plainly, and that is ready
for the level above. -/
theorem ready_consolidateLevel {j : Connective} {covered : List String}
    {items : List MatchTree} {r : MatchTree} (hi : ∀ t ∈ items, Plain ctx t)
    (h : consolidateLevel ctx j covered items = .ok r) :
    Plain ctx r ∧
      (∀ s : Single, s.isGuard = true → .leaf (.single s) ∈ items →
        r = .leaf (.single s) ∨ ∃ children, r = .combined j children ∧
          .leaf (.single s) ∈ children) ∧
      ∀ {V : Type} (w : World V), w.Fits ctx → LevelReady ctx w covered.contains j items →
        Ready ctx w covered.contains r ∧
          (r.holds (w.reads ctx covered.contains) = j.neutral.truth ↔
            ∀ t ∈ items, w.readsItem ctx covered.contains t = j.neutral.truth) := by
  obtain ⟨items₁, h₁, h⟩ := bind_eq_ok.1 h
  obtain ⟨items₂, h₂, h⟩ := bind_eq_ok.1 h
  obtain ⟨items₃, h₃, h⟩ := bind_eq_ok.1 h
  obtain ⟨items₄, h₄, h⟩ := bind_eq_ok.1 h
  obtain ⟨out, hout, h⟩ := bind_eq_ok.1 h
  have ha := assembled_of_plain hi
  have s₁ := sameLevel_mergeBoundPairs ha h₁
  have s₂ := s₁.trans (sameLevel_alignDays (s₁.assembled ha) h₂)
  have s₃ := s₂.trans (sameLevel_mergeBounds (s₂.assembled ha) h₃)
  have s₄ := s₃.trans (sameLevel_mergeValues (s₃.assembled ha) h₄)
  have hb := branched_addUnknown (s₄.plain hi) hout
  have hguards : ∀ s : Single, s.isGuard = true → .leaf (.single s) ∈ items →
      .leaf (.single s) ∈ out := fun s hs hm => hb.guards s hs (s₄.guards s hs hm)
  have hsay : ∀ {V : Type} (w : World V), w.Fits ctx →
      ((∀ t ∈ out, t.holds (w.reads ctx covered.contains) = j.neutral.truth) ↔
        ∀ t ∈ items, w.readsItem ctx covered.contains t = j.neutral.truth) := fun w hw =>
    (hb.reads w).trans ((hb.neutral w).trans (s₄.neutral w hw _))
  -- Without a guard, what is no leaf is a tree of the level or has got a branch.
  have hready : ∀ {V : Type} (w : World V),
      (∀ t ∈ items, t.leaf? = none → Ready ctx w covered.contains t) →
        ∀ t ∈ out, t.leaf? = none → Ready ctx w covered.contains t := by
    intro V w hr t ht hl
    rcases hb.ready w t ht hl with ht | ht
    · rcases s₄.origin t ht with ht | ⟨l, rfl, -⟩
      · exact hr t ht hl
      · cases hl
    · exact ht
  rcases joined_eq_ok.1 (liftFault_eq_ok.1 h) with rfl | ⟨-, rfl⟩
  · refine ⟨hb.plain r List.mem_cons_self, fun s hs hm => ?_, fun w hw hr => ⟨?_, ?_⟩⟩
    · exact .inl (List.mem_singleton.1 (hguards s hs hm)).symm
    · have hleaf : ∀ l, r = .leaf l → w.reads ctx covered.contains l = w.plainly ctx l := by
        rintro l rfl
        refine Connective.eq_of_neutral_iff j ?_
        simpa [holds, World.readsItem_leaf] using hb.reads w
      rcases hr with ⟨-, s, hs, hm⟩ | hr
      · obtain rfl := List.mem_singleton.1 (hguards s hs hm)
        exact .leaf (hleaf _ rfl)
      · cases r with
        | leaf l => exact .leaf (hleaf l rfl)
        | combined i children => exact hready w hr _ List.mem_cons_self rfl
        | group i nodeType children => exact hready w hr _ List.mem_cons_self rfl
    · rw [← hsay w hw]
      simp
  · refine ⟨.combined hb.plain, fun s hs hm => .inr ⟨out, rfl, hguards s hs hm⟩,
      fun w hw hr => ⟨?_, ?_⟩⟩
    · rcases hr with ⟨rfl, s, hs, hm⟩ | hr
      · exact .guarded hs (hguards s hs hm) (settled_combined (hb.reads w))
      · exact .combined (settled_combined (hb.reads w)) (hready w hr)
    · rw [holds_combined, Connective.truth_map_eq_neutral, hsay w hw]

/-! ## Trees -/

theorem mem_guardArgs {children : List MatchTree} {arg : String} :
    arg ∈ guardArgs children ↔ ∃ s, .leaf (.single s) ∈ children ∧ s.isGuard = true ∧
      s.condition.arg = arg := by
  rw [guardArgs, List.mem_filterMap]
  constructor
  · rintro ⟨t, ht, h⟩
    obtain ⟨s, hs, rfl⟩ := Option.map_eq_some_iff.1 h
    obtain ⟨hs, hg⟩ := Option.filter_eq_some_iff.1 hs
    exact ⟨s, single?_eq_some hs ▸ ht, hg, rfl⟩
  · rintro ⟨s, ht, hg, rfl⟩
    exact ⟨_, ht, by simp [single?, Option.filter_some, hg]⟩

theorem mem_coveredOn {j : Connective} {covered : List String} {children : List MatchTree}
    {arg : String} :
    arg ∈ coveredOn j covered children ↔
      arg ∈ covered ∨ j = .and ∧ arg ∈ guardArgs children := by
  cases j with
  | and => simp [coveredOn, Distinct.mem_append]
  | or => simp [coveredOn]

theorem plainly_guard {s : Single} (h : s.isGuard = true) :
    w.plainly ctx (.single s) = w.isKnown ctx s.condition.arg := by
  simp only [Single.isGuard, Single.isUnknownCheck, Bool.and_eq_true, beq_iff_eq] at h
  rw [World.plainly, World.found_unknown h.1, Leaf.isComplement, Single.isComplement,
    Single.isUnknownCheck, h.1, h.2]
  exact Bool.bne_false _

/-- The guards of a conjunction need not be given beside it. -/
theorem Settled.forget_guards {j : Connective} {covered : List String} {children : List MatchTree}
    {r : MatchTree} (hs : Settled ctx w (coveredOn j covered children).contains r)
    (hr : r.holds (w.reads ctx (coveredOn j covered children).contains) =
      j.truth (children.map (holds (w.plainly ctx)))) :
    Settled ctx w covered.contains r ∧
      r.holds (w.reads ctx covered.contains) = j.truth (children.map (holds (w.plainly ctx))) := by
  rw [← hr]
  refine hs.forget (fun arg ha => ?_) fun hholds arg ha => ?_
  · rw [List.contains_iff_mem] at ha ⊢
    exact mem_coveredOn.2 (.inl ha)
  · rw [List.contains_iff_mem, mem_coveredOn] at ha
    refine ha.imp List.contains_iff_mem.2 fun ⟨hj, hg⟩ => ?_
    obtain ⟨s, hmem, hguard, rfl⟩ := mem_guardArgs.1 hg
    subst hj
    rw [hr] at hholds
    rw [← plainly_guard hguard]
    exact Connective.truth_map_eq_neutral.1 hholds _ hmem

/-- Forgetting the guards of a level keeps its tree ready. -/
theorem Ready.forget_guards {j : Connective} {covered : List String} {children : List MatchTree}
    {r : MatchTree} (hs : Ready ctx w (coveredOn j covered children).contains r)
    (hr : r.holds (w.reads ctx (coveredOn j covered children).contains) =
      j.truth (children.map (holds (w.plainly ctx))))
    (hg : ∀ s : Single, s.isGuard = true → .leaf (.single s) ∈ children →
      r = .leaf (.single s) ∨ ∃ out, r = .combined j out ∧ .leaf (.single s) ∈ out) :
    Ready ctx w covered.contains r ∧
      r.holds (w.reads ctx covered.contains) = j.truth (children.map (holds (w.plainly ctx))) := by
  by_cases hguard : j = .and ∧ ∃ s : Single, s.isGuard = true ∧ .leaf (.single s) ∈ children
  · obtain ⟨rfl, s, hsg, hsm⟩ := hguard
    obtain ⟨hset, hholds⟩ := hs.settled.forget_guards hr
    refine ⟨?_, hholds⟩
    rcases hg s hsg hsm with rfl | ⟨out, rfl, hout⟩
    · exact .leaf hset.reads_leaf
    · exact .guarded hsg hout hset
  · have hsame : (coveredOn j covered children).contains = covered.contains := by
      funext arg
      rw [Bool.eq_iff_iff, List.contains_iff_mem, List.contains_iff_mem, mem_coveredOn]
      refine ⟨fun h => h.resolve_right fun ⟨hj, ha⟩ => hguard ⟨hj, ?_⟩, .inl⟩
      obtain ⟨s, hsm, hsg, -⟩ := mem_guardArgs.1 ha
      exact ⟨s, hsg, hsm⟩
    rw [← hsame]
    exact ⟨hs, hr⟩

theorem consolidateEach_eq_mapM (ctx : Context) (covered : List String) (ts : List MatchTree) :
    consolidateEach ctx covered ts = ts.mapM (consolidateBelow ctx covered) := by
  induction ts with
  | nil => rfl
  | cons t ts ih => rw [consolidateEach, List.mapM_cons, ih]

theorem assembled_opened {j : Connective} {t x : MatchTree} (ht : Assembled ctx t)
    (hx : x ∈ opened j t) : Assembled ctx x := by
  cases ht with
  | leaf hm => exact List.mem_singleton.1 hx ▸ .leaf hm
  | @combined i children h =>
    by_cases hi : i = j
    · subst hi
      exact h x (opened_combined_self i children ▸ hx)
    · rw [opened_combined_of_ne hi, List.mem_singleton] at hx
      exact hx ▸ .combined h

theorem plain_opened {j : Connective} {t x : MatchTree} (ht : Plain ctx t) (hx : x ∈ opened j t) :
    Plain ctx x := by
  cases ht with
  | leaf hm hv => exact List.mem_singleton.1 hx ▸ .leaf hm hv
  | @combined i children h =>
    by_cases hi : i = j
    · subst hi
      exact h x (opened_combined_self i children ▸ hx)
    · rw [opened_combined_of_ne hi, List.mem_singleton] at hx
      exact hx ▸ .combined h

theorem plain_consolidateBelow {covered : List String} {t r : MatchTree} (ht : Plain ctx t)
    (h : consolidateBelow ctx covered t = .ok r) : Plain ctx r := by
  induction t using memberInduction generalizing covered r with
  | group j nodeType children ih => cases ht
  | leaf l =>
    cases h
    exact ht
  | combined j children ih =>
    rw [consolidateBelow, consolidateEach_eq_mapM] at h
    obtain ⟨items, hitems, h⟩ := bind_eq_ok.1 h
    refine (ready_consolidateLevel (fun x hx => ?_) h).1
    obtain ⟨y, hy, hxy⟩ := mem_flattened.1 hx
    obtain ⟨c, hc, hcy⟩ := mem_of_mapM_eq_ok hitems hy
    exact plain_opened (ih c hc (ht.children c hc) hcy) hxy

theorem plain_consolidated {t r : MatchTree} (ht : Plain ctx t)
    (h : consolidated ctx t = .ok r) : Plain ctx r := by
  cases t with
  | group j nodeType children => cases ht
  | combined j children => exact plain_consolidateBelow ht h
  | leaf l => exact (ready_consolidateLevel (by simpa using ht) h).1

/-- Trees that are ready make a level that is. -/
theorem levelReady_flattened {j : Connective} {items : List MatchTree}
    (h : ∀ t ∈ items, Ready ctx w given t) : LevelReady ctx w given j (flattened j items) := by
  by_cases hg : j = .and ∧
      ∃ s : Single, s.isGuard = true ∧ .leaf (.single s) ∈ flattened j items
  · exact .inl hg
  · refine .inr fun x hx hl => ?_
    obtain ⟨t, ht, hxt⟩ := mem_flattened.1 hx
    cases h t ht with
    | leaf hr =>
      rw [List.mem_singleton.1 hxt] at hl
      cases hl
    | @combined i children hs hc =>
      by_cases hi : i = j
      · subst hi
        exact hc x (opened_combined_self i children ▸ hxt) hl
      · rw [opened_combined_of_ne hi, List.mem_singleton] at hxt
        exact hxt ▸ h _ ht
    | @guarded children s hsg hm hs =>
      cases j with
      | and =>
        exact absurd ⟨rfl, s, hsg, mem_flattened.2 ⟨_, ht, hm⟩⟩ hg
      | or => exact List.mem_singleton.1 hxt ▸ h _ ht

/-- A tree whose leaves are read plainly anyway is as true after its combinations are
consolidated, read with the covered arguments given. -/
theorem ready_consolidateBelow {covered : List String} {t r : MatchTree} (ht : Plain ctx t)
    (hl : ∀ l ∈ t.leaves, l.inDocumentArg? = none)
    (h : consolidateBelow ctx covered t = .ok r) :
    Plain ctx r ∧ ∀ {V : Type} (w : World V), w.Fits ctx →
      Ready ctx w covered.contains r ∧
        r.holds (w.reads ctx covered.contains) = t.holds (w.plainly ctx) := by
  induction t using memberInduction generalizing covered r with
  | group j nodeType children ih => cases ht
  | leaf l =>
    cases h
    have hread : ∀ {V : Type} (w : World V),
        w.reads ctx covered.contains l = w.plainly ctx l := fun w =>
      World.reads_eq_plainly ht.verifies fun arg ha => by
        rw [hl l (List.mem_singleton_self l)] at ha
        cases ha
    exact ⟨ht, fun w _ => ⟨.leaf (hread w), hread w⟩⟩
  | combined j children ih =>
    rw [consolidateBelow, consolidateEach_eq_mapM] at h
    obtain ⟨items, hitems, h⟩ := bind_eq_ok.1 h
    rw [forall_leaves_combined] at hl
    have hchild : ∀ c ∈ children, ∀ x,
        consolidateBelow ctx (coveredOn j covered children) c = .ok x → Plain ctx x ∧
          ∀ {V : Type} (w : World V), w.Fits ctx →
            Ready ctx w (coveredOn j covered children).contains x ∧
              x.holds (w.reads ctx (coveredOn j covered children).contains) =
                c.holds (w.plainly ctx) := fun c hc x hx =>
      ih c hc (ht.children c hc) (hl c hc) hx
    have hplain : ∀ x ∈ flattened j items, Plain ctx x := by
      intro x hx
      obtain ⟨y, hy, hxy⟩ := mem_flattened.1 hx
      obtain ⟨c, hc, hcy⟩ := mem_of_mapM_eq_ok hitems hy
      exact plain_opened (hchild c hc y hcy).1 hxy
    obtain ⟨hr, hguards, hlevel⟩ := ready_consolidateLevel hplain h
    refine ⟨hr, fun w hw => ?_⟩
    have hready : ∀ y ∈ items, Ready ctx w (coveredOn j covered children).contains y := by
      intro y hy
      obtain ⟨c, hc, hcy⟩ := mem_of_mapM_eq_ok hitems hy
      exact ((hchild c hc y hcy).2 w hw).1
    obtain ⟨hrr, hrh⟩ := hlevel w hw (levelReady_flattened hready)
    rw [holds_combined]
    refine hrr.forget_guards (Connective.eq_of_neutral_iff j ?_) fun s hs hm => ?_
    · rw [hrh, ← map_of_mapM_eq_ok hitems fun c hc x hx => ((hchild c hc x hx).2 w hw).2,
        Connective.truth_map_eq_neutral]
      constructor
      · intro hall y hy
        exact ((hready y hy).settled j).2 fun x hx => hall x (mem_flattened.2 ⟨y, hy, hx⟩)
      · intro hall x hx
        obtain ⟨y, hy, hxy⟩ := mem_flattened.1 hx
        exact ((hready y hy).settled j).1 (hall y hy) x hxy
    · refine hguards s hs (mem_flattened.2 ⟨.leaf (.single s), ?_, List.mem_singleton_self _⟩)
      obtain ⟨y, hy, hsy⟩ := exists_of_mapM_eq_ok hitems hm
      exact Except.ok.inj hsy ▸ hy

/-- A consolidated tree is as true as its leaves were, read plainly. -/
theorem holds_consolidated {t r : MatchTree} (ht : Plain ctx t)
    (hl : ∀ l ∈ t.leaves, l.inDocumentArg? = none) (h : consolidated ctx t = .ok r) :
    Plain ctx r ∧ ∀ {V : Type} (w : World V), w.Fits ctx →
      r.holds (w.reads ctx fun _ => false) = t.holds (w.plainly ctx) := by
  have hnone : ([] : List String).contains = fun _ => false := rfl
  cases t with
  | group j nodeType children => cases ht
  | combined j children =>
    obtain ⟨hr, hw⟩ := ready_consolidateBelow ht hl h
    exact ⟨hr, fun w hfits => hnone ▸ (hw w hfits).2⟩
  | leaf l =>
    have hitems : ∀ t ∈ [MatchTree.leaf l], Plain ctx t := by simpa using ht
    obtain ⟨hr, hguards, hlevel⟩ := ready_consolidateLevel hitems h
    refine ⟨hr, fun w hfits => ?_⟩
    obtain ⟨hrr, hrh⟩ := hlevel w hfits (.inr (by simp [leaf?]))
    have htruth : Connective.truth .and ([MatchTree.leaf l].map (holds (w.plainly ctx))) =
        w.plainly ctx l := by simp [Connective.truth, holds]
    rw [holds, ← htruth]
    refine (hrr.forget_guards (Connective.eq_of_neutral_iff .and ?_) hguards).2
    rw [hrh, htruth]
    simp [World.readsItem_leaf]

end AudienceFilter.MatchTree
