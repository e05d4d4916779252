import AudienceFilter.Proofs.CheckedMapping
import AudienceFilter.Proofs.ConsolidationSteps

/-!
# Leaves are made without faults

The constructors of leaves refuse what has no meaning. In a checked mapping this never happens to
a single condition, to a bound and its equality, to values on one argument, or to a lower and an
upper bound that agree:

* `Leaf.Sound`: leaves that conversions work with;
* `Context.yields_single`, `Context.yields_alone`, `Context.yields_inclusive`,
  `Context.yields_values`, `Context.yields_between`: the constructors.
-/

namespace AudienceFilter

/-- Whether a condition compares arguments only by operators that can. -/
def Condition.Comparable (c : Condition) : Prop := c.isReference = true → c.op ≠ .contains

theorem Condition.comparable_of_value {c : Condition} (h : c.value?.isSome) : c.Comparable :=
  fun hr => by rw [isReference_of_value h] at hr; cases hr

theorem Condition.comparable_withOperator (arg : String) (op : Operator) (value : String) :
    (withOperator arg op value).Comparable := nofun

theorem Condition.comparable_unknown (arg : String) : (unknown arg).Comparable := nofun

theorem Condition.comparable_of_isValid {c : Condition} (h : c.isValid = true) :
    c.Comparable := by
  intro hr hop
  obtain ⟨other, ho⟩ := isReference_iff.1 hr
  rw [isValid, make.eq_def, hop, ho] at h
  split at h <;> cases h

/-- What is known of every leaf in a conversion. -/
structure Leaf.Sound (ctx : Context) (l : Leaf) : Prop where
  made : l.Made ctx
  verifies : l.polarity.verifies = false
  comparable : ∀ c ∈ l.conditions, c.Comparable

theorem Leaf.Sound.plain {ctx : Context} {l : Leaf} (h : l.Sound ctx) :
    MatchTree.Plain ctx (.leaf l) := .leaf h.made h.verifies

namespace Multi

/-- A bound comes before its equality. -/
theorem canonical_inclusive {c : Condition} (hb : c.op.isBound = true) :
    canonical [c, { c with op := .equals }] = [c, { c with op := .equals }] := by
  have hle : le c { c with op := .equals } = true := by
    rw [le]
    cases hop : c.op with
    | lessThan => rfl
    | greaterThan => rfl
    | equals => rw [hop] at hb; cases hb
    | contains => rw [hop] at hb; cases hb
    | isUnknown => rw [hop] at hb; cases hb
  have hne : (c == { c with op := .equals }) = false := by
    rw [beq_eq_false_iff_ne]
    intro h
    rw [h] at hb
    cases hb
  simp [canonical, Sorted.sortBy, Sorted.insertBy, Sorted.dedupBy, hle, hne]

end Multi

/-! ## Constructors -/

namespace Context

variable {ctx : Context} {c : Condition} {p : Polarity}

/-- A single condition is accepted. -/
theorem yields_single (hctx : ctx.Checked) (hv : p.verifies = false) (hc : c.Comparable) :
    Yields (ctx.single c p) fun s => (Leaf.single s).Sound ctx ∧ s.condition = c ∧
      s.polarity = p := by
  have hmake : ∀ {nodeType joinable}, Text.isName nodeType = true →
      Single.make nodeType c p joinable =
        .ok { nodeType, condition := c, polarity := p, joinable } := by
    intro nodeType joinable hn
    simp [Single.make, hn, hv]
  have hfault : Yields (ctx.single c p) fun _ => True := by
    unfold single
    refine yields_liftError.bind fun a _ ha => ?_
    have hn := hctx.assignment ha
    dsimp only
    split
    · refine yields_liftError.bind fun b _ _ => ?_
      refine yields_liftError.bind fun joinable _ _ => ?_
      exact yields_liftFault (hmake hn) trivial
    · refine yields_liftError.bind fun joinable _ _ => ?_
      exact yields_liftFault (hmake hn) trivial
  refine hfault.mono fun s hs _ => ?_
  obtain ⟨-, -, -, -, -, -, -, rfl, rfl⟩ := single_eq_ok hs
  refine ⟨⟨.single hs, hv, ?_⟩, rfl, rfl⟩
  simpa [Leaf.conditions] using hc

/-- Conditions that belong together on the argument and the node type of a leaf are accepted. -/
theorem yields_multi {l : Leaf} {cs : List Condition} {lead : Condition} {others : List Condition}
    {s : Shape} (hl : l.Made ctx) (hv : p.verifies = false)
    (hm : Multi.canonical (c :: cs) = lead :: others) (ha : ∀ x ∈ c :: cs, x.arg = l.arg)
    (hu : ∀ x ∈ c :: cs, x.op ≠ .isUnknown) (hc : ∀ x ∈ c :: cs, x.Comparable)
    (ht : Multi.Together lead others s) :
    Yields (ctx.multi l.nodeType c cs p) fun m => (Leaf.multi m).Sound ctx ∧
      m.nodeType = l.nodeType ∧ m.lead = lead ∧ m.polarity = p ∧ m.shape = s := by
  obtain ⟨-, -, -, hn⟩ := hl.assignment
  have hlead : lead ∈ c :: cs := Multi.mem_canonical.1 (hm ▸ List.mem_cons_self)
  have hargs : ∀ x ∈ c :: cs, x.arg = lead.arg := fun x hx => (ha x hx).trans (ha lead hlead).symm
  have hmake : ∀ joinable, Multi.make l.nodeType (c :: cs) p joinable = _ :=
    fun joinable => Multi.make_of_together hn (fun h => by rw [hv] at h; cases h) hm hargs hu ht
  have hfields : Yields (ctx.multi l.nodeType c cs p) fun m =>
      m.nodeType = l.nodeType ∧ m.lead = lead ∧ m.polarity = p ∧ m.shape = s :=
    yields_liftError.bind fun joinable _ _ =>
      yields_liftFault (hmake joinable) ⟨rfl, rfl, rfl, rfl⟩
  refine hfields.mono fun m hm' hf => ?_
  obtain ⟨hplain, -, hmem, -⟩ := MatchTree.plain_multi hl (ha c List.mem_cons_self) hv hm'
  exact ⟨⟨hplain.made, hplain.verifies, fun x hx => hc x ((hmem x).1 hx)⟩, hf⟩

/-- A single condition is accepted as several. -/
theorem yields_alone {l : Leaf} (hl : l.Made ctx) (hv : p.verifies = false) (ha : c.arg = l.arg)
    (hu : c.op ≠ .isUnknown) (hc : c.Comparable) :
    Yields (ctx.multi l.nodeType c [] p) fun m => (Leaf.multi m).Sound ctx ∧
      m.nodeType = l.nodeType ∧ m.lead = c ∧ m.polarity = p ∧
      m.shape = if c.isReference then .reference else .value :=
  yields_multi hl hv (Multi.canonical_singleton c) (by simpa using ha) (by simpa using hu)
    (by simpa using hc) .alone

/-- A bound is accepted with its equality. -/
theorem yields_inclusive {l : Leaf} (hl : l.Made ctx) (hv : p.verifies = false)
    (ha : c.arg = l.arg) (hb : c.op.isBound = true) :
    Yields (ctx.multi l.nodeType c [{ c with op := .equals }] p) fun m =>
      (Leaf.multi m).Sound ctx := by
  have hop : c.op ≠ .isUnknown ∧ c.op ≠ .contains := by
    constructor <;> intro hop <;> rw [hop] at hb <;> cases hb
  refine (yields_multi hl hv (Multi.canonical_inclusive hb) ?_ ?_ ?_
    (.inclusive hb rfl rfl)).mono fun m _ hm => hm.1
  · simpa using ha
  · simpa using hop.1
  · rw [List.forall_mem_cons, List.forall_mem_singleton]
    exact ⟨fun _ => hop.2, fun _ => nofun⟩

/-- Equalities, or snippets, on one argument are accepted. -/
theorem yields_values {l : Leaf} {cs : List Condition} {op : Operator} (hl : l.Made ctx)
    (hv : p.verifies = false) (hop : op = .equals ∨ op = .contains)
    (h : ∀ x ∈ c :: cs, x.arg = l.arg ∧ x.op = op ∧ x.value?.isSome) :
    Yields (ctx.multi l.nodeType c cs p) fun m => (Leaf.multi m).Sound ctx := by
  have hu : ∀ x ∈ c :: cs, x.op ≠ .isUnknown := by
    intro x hx
    rw [(h x hx).2.1]
    rcases hop with rfl | rfl <;> exact nofun
  have hne : Multi.canonical (c :: cs) ≠ [] :=
    List.ne_nil_of_mem (Multi.mem_canonical.2 List.mem_cons_self)
  obtain ⟨lead, others, hm⟩ := List.exists_cons_of_ne_nil hne
  have hmem : ∀ x ∈ lead :: others, x ∈ c :: cs := fun x hx => Multi.mem_canonical.1 (hm ▸ hx)
  have hlead := (h lead (hmem lead List.mem_cons_self)).2.1
  have htogether : ∃ s, Multi.Together lead others s := by
    cases hothers : others with
    | nil => exact ⟨_, .alone⟩
    | cons second rest =>
      refine ⟨_, .values (List.cons_ne_nil _ _) (hlead ▸ hop) fun x hx => ?_⟩
      have hx := h x (hmem x (hothers ▸ hx))
      exact ⟨hx.2.1.trans hlead.symm, hx.2.2⟩
  obtain ⟨s, ht⟩ := htogether
  exact (yields_multi hl hv hm (fun x hx => (h x hx).1) hu
    (fun x hx => Condition.comparable_of_value (h x hx).2.2) ht).mono fun m _ hm => hm.1

/-- A lower and an upper bound of one argument are accepted. -/
theorem yields_between {lower upper : Multi} (hl : (Leaf.multi lower).Sound ctx)
    (hu : (Leaf.multi upper).Sound ctx) (hlow : lower.isLowerBound = true)
    (hup : upper.isUpperBound = true) (ha : lower.arg = upper.arg)
    (hp : lower.polarity = upper.polarity) :
    Yields (ctx.between lower upper) fun b => (Leaf.between b).Sound ctx := by
  obtain ⟨a, has, hln, -⟩ := hl.made.assignment
  obtain ⟨b, hbs, hun, -⟩ := hu.made.assignment
  have hab : a = b := by
    rw [Leaf.arg, ha] at has
    exact Except.ok.inj (has.symm.trans hbs)
  have hn : lower.nodeType = upper.nodeType := hln.trans (hab ▸ hun.symm)
  have hv : lower.polarity.verifies = false := hl.verifies
  have hmake : ∀ joinable, Between.make lower upper joinable =
      .ok { lower, upper, joinable } := by
    intro joinable
    simp [Between.make, hlow, hup, ha, hn, hp, hp ▸ hv]
  have hfields : Yields (ctx.between lower upper) fun b => b.lower = lower ∧ b.upper = upper :=
    yields_liftError.bind fun joinable _ _ =>
      yields_liftFault (hmake joinable) ⟨rfl, rfl⟩
  refine hfields.mono fun b hb hf => ?_
  obtain ⟨rfl, rfl⟩ := hf
  refine ⟨.between hl.made hu.made hb, hv, fun c hc => ?_⟩
  exact (List.mem_append.1 hc).elim (hl.comparable c) (hu.comparable c)

end Context

end AudienceFilter
