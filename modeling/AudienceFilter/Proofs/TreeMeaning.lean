import AudienceFilter.Conversion
import AudienceFilter.Proofs.GroupingTruth
import AudienceFilter.Proofs.GuardTruth
import AudienceFilter.Schema.Catalog

/-!
# Match trees mean what expressions do

The match tree of an expression is read plainly, leaf by leaf: its guards make strict negations
complements. From there on every stage keeps the truth in the worlds that fit the mapping.

* `MatchTree.holds_build`: the tree of a covered expression;
* `holdsTree_groupedTree`: the grouped tree of a normalized expression holds in a world exactly if
  the expression does.
-/

namespace AudienceFilter

variable {V : Type} {ctx : Context} {w : World V}

/-- A leaf of one condition holds as the condition does, or does not. -/
theorem World.plainly_single (s : Single) :
    w.plainly ctx (.single s) = (w.satisfies ctx s.condition != s.polarity.isNegated) := by
  rw [plainly, Leaf.isComplement_eq]
  by_cases h : s.condition.op = .isUnknown
  · have hu : (Leaf.single s).isUnknownCheck = true := by
      simp [Leaf.isUnknownCheck, Single.isUnknownCheck, h]
    rw [hu, found_unknown h, satisfies, if_pos h, Leaf.polarity]
    cases w.isKnown ctx s.condition.arg <;> cases s.polarity.isNegated <;> rfl
  · have hu : (Leaf.single s).isUnknownCheck = false := by
      simp [Leaf.isUnknownCheck, Single.isUnknownCheck, h]
    rw [hu, found_single h, Leaf.polarity, Bool.bne_false]

namespace MatchTree

open Expression (CoveredBy)

variable {known : List String}

theorem leaf_of_singleTree {c : Condition} {p : Polarity} {t : MatchTree}
    (h : ctx.singleTree c p = .ok t) :
    ∃ s, t = .leaf (.single s) ∧ (Leaf.single s).Made ctx ∧ s.condition = c ∧ s.polarity = p := by
  obtain ⟨s, hs, rfl⟩ := singleTree_eq_ok.1 h
  obtain ⟨-, -, -, -, -, -, -, hc, hp⟩ := Context.single_eq_ok hs
  exact ⟨s, rfl, .single hs, hc, hp⟩

/-- The tree of an expression consists of single conditions. -/
theorem assembled_build {e : Expression} {t : MatchTree} (hb : build ctx known e = .ok t) :
    Assembled ctx t ∧ ∀ l ∈ t.leaves, ∃ s, l = .single s := by
  have hsingle : ∀ {c p t}, ctx.singleTree c p = .ok t →
      Assembled ctx t ∧ ∀ l ∈ t.leaves, ∃ s, l = .single s := by
    intro c p t ht
    obtain ⟨s, rfl, hm, -⟩ := leaf_of_singleTree ht
    exact ⟨.leaf hm, fun l hl => ⟨s, List.mem_singleton.1 hl⟩⟩
  have hcombined : ∀ {j children}, (∀ t ∈ children, Assembled ctx t ∧
      ∀ l ∈ t.leaves, ∃ s, l = .single s) → Assembled ctx (.combined j children) ∧
        ∀ l ∈ (MatchTree.combined j children).leaves, ∃ s, l = .single s := fun h =>
    ⟨.combined fun t ht => (h t ht).1, forall_leaves_combined.2 fun t ht => (h t ht).2⟩
  induction e using Expression.memberInduction generalizing known t with
  | extent e => cases hb
  | condition c => exact hsingle hb
  | negation strict c =>
    rw [build, ofNegation] at hb
    split at hb
    · split at hb
      · exact hsingle hb
      · obtain ⟨negated, hn, hb⟩ := bind_eq_ok.1 hb
        split at hb
        · exact pure_eq_ok.1 hb ▸ hsingle hn
        · -- A strict negation that nothing above covers gets its own guard.
          obtain ⟨guard, hg, hb⟩ := bind_eq_ok.1 hb
          obtain ⟨-, rfl⟩ := combine_eq_ok.1 (liftFault_eq_ok.1 hb)
          refine hcombined fun t ht => ?_
          rcases List.mem_cons.1 ht with rfl | ht
          · exact hsingle hg
          · exact List.mem_singleton.1 ht ▸ hsingle hn
    · exact hsingle hb
  | combined j members ih =>
    obtain ⟨children, hch, -, rfl⟩ := build_combined_eq_ok.1 hb
    refine hcombined fun t ht => ?_
    obtain ⟨m, hm, hmt⟩ := mem_of_mapM_eq_ok hch ht
    exact ih m hm hmt

/-- The tree of a covered expression consists of single conditions that require no values. -/
theorem plain_build {e : Expression} {t : MatchTree} (hb : build ctx known e = .ok t)
    (h : CoveredBy known e) : Plain ctx t ∧ ∀ l ∈ t.leaves, l.inDocumentArg? = none := by
  have hsingle : ∀ {c p t}, p.verifies = false → ctx.singleTree c p = .ok t →
      Plain ctx t ∧ ∀ l ∈ t.leaves, l.inDocumentArg? = none := by
    intro c p t hp ht
    obtain ⟨s, rfl, hm, -, rfl⟩ := leaf_of_singleTree ht
    refine ⟨.leaf hm hp, fun l hl => ?_⟩
    obtain rfl := List.mem_singleton.1 hl
    rfl
  induction e using Expression.memberInduction generalizing known t with
  | extent e => cases hb
  | condition c => exact hsingle rfl hb
  | negation strict c =>
    rw [build, ofNegation_of_coveredBy h] at hb
    exact hsingle rfl hb
  | combined j members ih =>
    obtain ⟨children, hch, -, rfl⟩ := build_combined_eq_ok.1 hb
    rw [Expression.coveredBy_combined] at h
    have hchild : ∀ t ∈ children, Plain ctx t ∧ ∀ l ∈ t.leaves, l.inDocumentArg? = none := by
      intro t ht
      obtain ⟨m, hm, hmt⟩ := mem_of_mapM_eq_ok hch ht
      exact ih m hm hmt (h m hm)
    exact ⟨.combined fun t ht => (hchild t ht).1,
      forall_leaves_combined.2 fun t ht => (hchild t ht).2⟩

/-- The tree of a covered expression takes every negation for the complement. -/
theorem holds_build_lax {e : Expression} {t : MatchTree} (hb : build ctx known e = .ok t)
    (h : CoveredBy known e) : t.holds (w.plainly ctx) = e.holds (w.valuation ctx).lax := by
  induction e using Expression.memberInduction generalizing known t with
  | extent e => cases hb
  | condition c =>
    obtain ⟨s, rfl, -, rfl, hp⟩ := leaf_of_singleTree hb
    rw [holds, World.plainly_single, hp]
    exact Bool.bne_false _
  | negation strict c =>
    rw [build, ofNegation_of_coveredBy h] at hb
    obtain ⟨s, rfl, -, rfl, hp⟩ := leaf_of_singleTree hb
    rw [holds, World.plainly_single, hp, Expression.holds, World.negation_lax_valuation]
    exact Bool.bne_true _
  | combined j members ih =>
    obtain ⟨children, hch, -, rfl⟩ := build_combined_eq_ok.1 hb
    rw [Expression.coveredBy_combined] at h
    rw [holds_combined, Expression.holds_combined]
    exact congrArg j.truth (map_of_mapM_eq_ok hch fun m hm t ht => ih m hm ht (h m hm))

/-- The tree of a covered expression holds where the expression does, if the arguments that it
counts on are known. -/
theorem holds_build {e : Expression} {t : MatchTree} (hb : build ctx known e = .ok t)
    (h : CoveredBy known e) (hk : ∀ arg ∈ known, w.isKnown ctx arg = true) :
    t.holds (w.plainly ctx) = e.holds (w.valuation ctx) :=
  (holds_build_lax hb h).trans (Expression.holds_lax (World.valuation_knows ctx w) h hk)

end MatchTree

/-- The grouped tree of an expression holds in a world exactly if the expression does. -/
theorem holdsTree_groupedTree {e : Expression} {t : MatchTree} (hw : w.Fits ctx)
    (ht : ctx.groupedTree e.normalized = .ok t) :
    w.holdsTree ctx t = e.holds (w.valuation ctx) := by
  obtain ⟨built, hb, ht⟩ := bind_eq_ok.1 ht
  obtain ⟨consolidated, hc, hg⟩ := bind_eq_ok.1 ht
  have hcov := Expression.covered_guarded e.normalized
  obtain ⟨hplain, hnone⟩ := MatchTree.plain_build hb hcov
  obtain ⟨hplain', hcons⟩ := MatchTree.holds_consolidated hplain hnone hc
  calc w.holdsTree ctx t
      = w.holdsTree ctx consolidated := (MatchTree.holdsTree_grouped hplain' hg).2 w hw
    _ = consolidated.holds (w.reads ctx fun _ => false) := World.holdsTree_plain hplain'
    _ = built.holds (w.plainly ctx) := hcons w hw
    _ = e.normalized.guarded.holds (w.valuation ctx) := MatchTree.holds_build hb hcov nofun
    _ = e.normalized.holds (w.valuation ctx) :=
      Expression.holds_guarded (World.valuation_knows ctx w) e.normalized
    _ = e.holds (w.valuation ctx) := Expression.holds_normalized _ e

/-! ## People and their contacts -/

/-- People with a name, and with contacts that share a city and a code but not a phone. -/
def Draft.people : Draft where
  main := { name := "person", nature := .main }
  others := [{ name := "contact", nature := .nested }]
  assignments := [
    { arg := "name", argType := .string,
      field := { nodeType := "person", name := "name", type := { kind := .string } } },
    { arg := "city", argType := .string,
      field := { nodeType := "contact", name := "city", type := { kind := .string } } },
    { arg := "code", argType := .string,
      field := { nodeType := "contact", name := "code", type := { kind := .string } } },
    { arg := "phone", argType := .string, isMultiDoc := true,
      field := { nodeType := "contact", name := "phone", type := { kind := .string } } }]

/-- The catalog of the draft. -/
def Catalog.people : Catalog where
  main := Draft.people.main
  others := Draft.people.others
  assignments := Draft.people.assignments
  policies := []
  nodeTypeField := "node_type"
  uniqueKeyField := "id"
  dependentKeyField := "main_id"

/-- The context of conversions about people. -/
def Context.people : Context := .new { mapping := Catalog.people.toMapping }

/-- A contact by phone alone. -/
def phoneContact : Document String where
  nodeType := "contact"
  values f := if f = "phone" then ["555"] else []

/-- A person with one contact in a city and another by phone. -/
def World.person : World String where
  documents := [
    { nodeType := "person", values := fun f => if f = "name" then ["Ada"] else [] },
    { nodeType := "contact", values := fun f =>
        if f = "city" then ["Oslo"] else if f = "code" then ["0150"] else [] },
    phoneContact]
  relates _ op text x := op == .equals && text == x
  compares _ _ op x y := op == .equals && x == y
  day _ := 0

/-- Strict negations of a value in a nested document and of a comparison inside it. -/
def Expression.elsewhere : Expression :=
  .combined .and [.negation true (.withOperator "city" .equals "Rome"),
    .condition (.withOperator "code" .equals "0150"),
    .combined .or [.negation true (.withReference "city" .equals "code"),
      .condition (.withOperator "phone" .equals "555")]]

/-- Arguments about people are those assigned. -/
theorem Context.people_assignment {arg : String} {a : Assignment}
    (h : Context.people.assignment arg = .ok a) : a ∈ Draft.people.assignments := by
  change Catalog.people.assignment arg = .ok a at h
  unfold Catalog.assignment at h
  split at h
  · next b hb =>
    cases h
    exact List.mem_of_find?_eq_some hb
  · cases h

theorem World.phoneContact_knows {arg : String} (h : Context.people.isMultiDoc arg = .ok false) :
    Context.people.knows phoneContact arg = false := by
  obtain ⟨a, ha, hm⟩ := map_eq_ok.1 h
  simp only [Context.knows, Context.valuesIn, ha]
  have hall : ∀ a ∈ Draft.people.assignments, a.isMultiDoc = false → a.field.name ≠ "phone" := by
    decide
  simp [phoneContact, hall a (Context.people_assignment ha) hm]

theorem World.person_fits : World.person.Fits .people where
  main := ⟨_, rfl⟩
  value := by
    intro d hd arg a ha _ x y hx hy
    have hone : ∀ d ∈ person.documents, ∀ f x y, x ∈ d.values f → y ∈ d.values f → x = y := by
      simp only [person, phoneContact, List.forall_mem_cons, List.not_mem_nil, false_imp_iff,
        implies_true]
      grind
    simp only [Context.valuesIn, ha] at hx hy
    split at hx
    · next hn =>
      rw [if_pos hn] at hy
      exact hone d hd _ x y hx hy
    · cases hx
  document := by
    intro d d' hd hd' hn arg arg' ha ha' hk hk'
    have hphone : ∀ {d arg}, Context.people.isMultiDoc arg = .ok false →
        Context.people.knows d arg = true → d ≠ phoneContact := by
      rintro _ arg ha hk rfl
      rw [phoneContact_knows ha] at hk
      cases hk
    have hne := hphone ha hk
    have hne' := hphone ha' hk'
    simp only [person, List.mem_cons, List.not_mem_nil, or_false, hne, hne'] at hd hd'
    rcases hd with rfl | rfl <;> rcases hd' with rfl | rfl
    · rfl
    · exact absurd hn (by decide)
    · exact absurd hn (by decide)
    · rfl

theorem holdsTree_groupedTree_elsewhere :
    Draft.people.build = .ok Catalog.people ∧ World.person.Fits .people ∧
      ∃ t, Context.people.groupedTree Expression.elsewhere.normalized = .ok t ∧
        World.person.holdsTree .people t =
          Expression.elsewhere.holds (World.person.valuation .people) ∧
        World.person.holdsTree .people t = true := by
  have hok : (Context.people.groupedTree Expression.elsewhere.normalized).isOk = true := by
    decide +kernel
  obtain ⟨t, ht⟩ := exists_of_isOk hok
  have hholds := holdsTree_groupedTree World.person_fits ht
  exact ⟨rfl, World.person_fits, t, ht, hholds, hholds.trans (by decide +kernel)⟩

end AudienceFilter
