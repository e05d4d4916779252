import AudienceFilter.Proofs.DayShift
import AudienceFilter.Proofs.GuardTruth
import AudienceFilter.Proofs.TreeStructure
import AudienceFilter.Proofs.World

/-!
# What leaves find

Whether some document has what a leaf looks for (`World.found`), by the ways in which leaves are
made from one another:

* `found_multi`: several conditions find what one of them does;
* `found_between`: two bounds of an argument with one value find what both of them do;
* `found_alignEquality`, `found_alignBound`: bounds on whole days find what the day does.

`World.reads` reads a leaf with some arguments given to be known. With all of them given, a
complement is plain; with none, it is that of the world.
-/

namespace AudienceFilter

variable {V : Type} {ctx : Context} {w : World V}

theorem Context.knows_of_mem {d : Document V} {arg : String} {x : V}
    (h : x ∈ ctx.valuesIn d arg) : ctx.knows d arg = true := by
  rw [knows, Bool.not_eq_true', List.isEmpty_eq_false_iff]
  exact List.ne_nil_of_mem h

/-- Only documents of the node type that an argument is assigned to have its values. -/
theorem Context.nodeType_of_knows {d : Document V} {arg : String} {a : Assignment}
    (ha : ctx.assignment arg = .ok a) (h : ctx.knows d arg = true) :
    d.nodeType = a.field.nodeType := by
  simp only [knows, valuesIn, ha] at h
  split at h
  · next hn => exact hn.symm
  · cases h

namespace World

theorem isKnown_eq_true {arg : String} :
    w.isKnown ctx arg = true ↔ ∃ d ∈ w.documents, ctx.knows d arg = true := by
  rw [isKnown, List.any_eq_true]

theorem knows_of_meetsIn {d : Document V} {c : Condition} (h : w.meetsIn ctx d c = true) :
    ctx.knows d c.arg = true := by
  rw [meetsIn] at h
  split at h
  · obtain ⟨x, hx, -⟩ := List.any_eq_true.1 h
    exact Context.knows_of_mem hx
  · obtain ⟨x, hx, -⟩ := List.any_eq_true.1 h
    exact Context.knows_of_mem hx

theorem meetsIn_value {d : Document V} {c : Condition} (h : c.isReference = false) :
    w.meetsIn ctx d c = true ↔ ∃ x ∈ ctx.valuesIn d c.arg, w.meetsValue ctx c x = true := by
  have hr : c.reference? = none := by simpa [Condition.isReference] using h
  rw [meetsIn, hr]
  exact List.any_eq_true

/-! ## Conditions -/

theorem satisfies_eq_true {c : Condition} (h : c.op ≠ .isUnknown) :
    w.satisfies ctx c = true ↔ ∃ d ∈ w.documents, w.meetsIn ctx d c = true := by
  rw [satisfies, if_neg h, List.any_eq_true]

/-- A comparison with a value holds if some document has a value in the relation. -/
theorem satisfies_value {c : Condition} (h : c.op ≠ .isUnknown) (hr : c.isReference = false) :
    w.satisfies ctx c = true ↔
      ∃ d ∈ w.documents, ∃ x ∈ ctx.valuesIn d c.arg, w.meetsValue ctx c x = true := by
  simp only [satisfies_eq_true h, meetsIn_value hr]

/-- A world says which arguments are known. -/
theorem valuation_knows (ctx : Context) (w : World V) :
    (w.valuation ctx).Knows (w.isKnown ctx) where
  guard arg := by simp [valuation, satisfies, Expression.isStrict, Condition.unknown]
  given {strict c} hop h := by simpa [valuation, satisfies, Expression.isStrict, hop] using h
  strict {strict c} hs := by
    have hlax : Expression.isStrict false c = false := rfl
    simp [valuation, hs, hlax]

/-- With strict negations taken for complements, every negation is the complement. -/
theorem negation_lax_valuation (ctx : Context) (w : World V) (strict : Bool) (c : Condition) :
    (w.valuation ctx).lax.negation strict c = !w.satisfies ctx c := by
  have hlax : Expression.isStrict (strict && !Expression.isStrict strict c) c = false := by
    cases strict <;> simp [Expression.isStrict]
  simp [Valuation.lax, valuation, hlax]

/-! ## Leaves -/

/-- Whether some document has what a leaf looks for. -/
def found (ctx : Context) (w : World V) (l : Leaf) : Bool :=
  w.documents.any fun d => w.finds ctx d l

theorem found_eq_true {l : Leaf} :
    w.found ctx l = true ↔ ∃ d ∈ w.documents, w.finds ctx d l = true := by
  rw [found, List.any_eq_true]

theorem found_unknown {s : Single} (h : s.condition.op = .isUnknown) :
    w.found ctx (.single s) = w.isKnown ctx s.condition.arg := by
  simp [found, finds, isKnown, Single.isUnknownCheck, h]

theorem found_single {s : Single} (h : s.condition.op ≠ .isUnknown) :
    w.found ctx (.single s) = w.satisfies ctx s.condition := by
  simp [found, finds, satisfies, Single.isUnknownCheck, h]

/-- Several conditions find what one of them does. -/
theorem found_multi {m : Multi} (hm : ∀ c ∈ m.members, c.op ≠ .isUnknown) :
    w.found ctx (.multi m) = true ↔ ∃ c ∈ m.members, w.satisfies ctx c = true := by
  simp only [found_eq_true, finds, List.any_eq_true]
  constructor
  · rintro ⟨d, hd, c, hc, h⟩
    exact ⟨c, hc, (satisfies_eq_true (hm c hc)).2 ⟨d, hd, h⟩⟩
  · rintro ⟨c, hc, h⟩
    obtain ⟨d, hd, h⟩ := (satisfies_eq_true (hm c hc)).1 h
    exact ⟨d, hd, c, hc, h⟩

/-- A document in which a leaf finds something has a value for the argument of the leaf. -/
theorem knows_of_finds {d : Document V} {l : Leaf} (hl : l.Made ctx)
    (h : w.finds ctx d l = true) : ctx.knows d l.arg = true := by
  cases l with
  | single s =>
    rw [finds] at h
    split at h
    · exact h
    · exact knows_of_meetsIn h
  | multi m =>
    rw [finds, List.any_eq_true] at h
    obtain ⟨c, hc, h⟩ := h
    have := knows_of_meetsIn h
    rwa [(hl.members.1 c hc).1] at this
  | between b =>
    obtain ⟨x, hx, -⟩ := List.any_eq_true.1 h
    exact Context.knows_of_mem hx

theorem isKnown_of_found {l : Leaf} (hl : l.Made ctx) (h : w.found ctx l = true) :
    w.isKnown ctx l.arg = true := by
  obtain ⟨d, hd, h⟩ := found_eq_true.1 h
  exact isKnown_eq_true.2 ⟨d, hd, knows_of_finds hl h⟩

/-! ## Bounds -/

/-- The members of a leaf that compares with values. -/
def IsValueLeaf (m : Multi) : Prop :=
  ∀ c ∈ m.members, c.arg = m.arg ∧ c.op ≠ .isUnknown ∧ c.isReference = false

theorem isValueLeaf_of_made {m : Multi} (hm : (Leaf.multi m).Made ctx)
    (hs : m.shape.isReference = false) : IsValueLeaf m :=
  fun c hc => hs ▸ hm.members.1 c hc

/-- Several comparisons with values find a value that is in one of the relations. -/
theorem found_values {m : Multi} (hm : IsValueLeaf m) :
    w.found ctx (.multi m) = true ↔ ∃ d ∈ w.documents, ∃ x ∈ ctx.valuesIn d m.arg,
      ∃ c ∈ m.members, w.meetsValue ctx c x = true := by
  rw [found_multi fun c hc => (hm c hc).2.1]
  constructor
  · rintro ⟨c, hc, h⟩
    obtain ⟨harg, hop, hr⟩ := hm c hc
    obtain ⟨d, hd, x, hx, h⟩ := (satisfies_value hop hr).1 h
    exact ⟨d, hd, x, harg ▸ hx, c, hc, h⟩
  · rintro ⟨d, hd, x, hx, c, hc, h⟩
    obtain ⟨harg, hop, hr⟩ := hm c hc
    exact ⟨c, hc, (satisfies_value hop hr).2 ⟨d, hd, x, harg.symm ▸ hx, h⟩⟩

theorem found_between_iff {b : Between} :
    w.found ctx (.between b) = true ↔ ∃ d ∈ w.documents, ∃ x ∈ ctx.valuesIn d b.arg,
      (∃ c ∈ b.lower.members, w.meetsValue ctx c x = true) ∧
        ∃ c ∈ b.upper.members, w.meetsValue ctx c x = true := by
  simp only [found_eq_true, finds, List.any_eq_true, Bool.and_eq_true]

theorem shape_of_isLowerBound {m : Multi} (h : m.isLowerBound = true) :
    m.shape.isReference = false := by
  simp only [Multi.isLowerBound, Bool.and_eq_true, Bool.not_eq_true'] at h
  exact h.1

theorem shape_of_isUpperBound {m : Multi} (h : m.isUpperBound = true) :
    m.shape.isReference = false := by
  simp only [Multi.isUpperBound, Bool.and_eq_true, Bool.not_eq_true'] at h
  exact h.1

theorem isSingleValued_eq_ok {arg : String} (h : MatchTree.isSingleValued ctx arg = .ok true) :
    ∃ a, ctx.assignment arg = .ok a ∧ a.field.isCollection = false ∧
      ctx.isMultiDoc arg = .ok false := by
  obtain ⟨a, ha, h⟩ := map_eq_ok.1 h
  simp only [Bool.and_eq_true, Bool.not_eq_true'] at h
  exact ⟨a, ha, h.1, map_eq_ok.2 ⟨a, ha, h.2⟩⟩

/-- Two bounds of an argument with one value find what both of them do. -/
theorem found_between {b : Between} (hw : w.Fits ctx) (hb : (Leaf.between b).Made ctx)
    (hs : MatchTree.isSingleValued ctx b.arg = .ok true) :
    w.found ctx (.between b) = true ↔
      w.found ctx (.multi b.lower) = true ∧ w.found ctx (.multi b.upper) = true := by
  obtain ⟨hl, hu, hlow, hup, harg, -, -, -⟩ := hb.bounds
  obtain ⟨a, ha, hc, hd⟩ := isSingleValued_eq_ok hs
  rw [found_between_iff, found_values (isValueLeaf_of_made hl (shape_of_isLowerBound hlow)),
    found_values (isValueLeaf_of_made hu (shape_of_isUpperBound hup)), harg]
  constructor
  · rintro ⟨d, hd, x, hx, h, h'⟩
    exact ⟨⟨d, hd, x, hx, h⟩, ⟨d, hd, x, hx, h'⟩⟩
  · rintro ⟨⟨d, hd₁, x, hx, h⟩, ⟨d', hd₂, y, hy, h'⟩⟩
    -- There is one document with a value, and one value in it.
    have hk : ctx.knows d b.arg = true := Context.knows_of_mem hx
    have hk' : ctx.knows d' b.arg = true := Context.knows_of_mem hy
    have hn : d.nodeType = d'.nodeType := by
      rw [Context.nodeType_of_knows ha hk, Context.nodeType_of_knows ha hk']
    obtain rfl := hw.document hd₁ hd₂ hn hd hd hk hk'
    obtain rfl := hw.value hd₁ ha hc hx hy
    exact ⟨d, hd₁, x, hx, h, h'⟩

/-! ## Whole days -/

theorem meetsValue_days {c : Condition} {a : Assignment} {text : String}
    {t : Calendar.DateTime} {r : Int → Int → Bool} {x : V} (ha : ctx.assignment c.arg = .ok a)
    (hd : ctx.alignsDays a = true) (ho : c.operand = some (.value text))
    (hr : c.op.relatesDays? = some r) (ht : Calendar.DateTime.ofText? text = some t) :
    w.meetsValue ctx c x = r (w.day x) t.date.toDayNumber := by
  simp only [meetsValue, ha, ho, meetsText, hr, hd, ht, if_true, Option.any_some]

/-- A strict bound by the day before or behind a day, in terms of that day. -/
theorem meetsValue_shifted {arg value moved : String} {a : Assignment} {op : Operator}
    {t : Calendar.DateTime} {r : Int → Int → Bool} {k : Int} {x : V}
    (ha : ctx.assignment arg = .ok a) (hd : ctx.alignsDays a = true)
    (hr : op.relatesDays? = some r) (ht : Calendar.DateTime.ofText? value = some t)
    (hm : shiftDate arg value k = .ok moved) :
    w.meetsValue ctx (.withOperator arg op moved) x = r (w.day x) (t.date.toDayNumber + k) := by
  obtain ⟨t', d, ht', hd', hn⟩ := shiftDate_eq_ok hm
  rw [ht] at ht'
  cases ht'
  rw [← hn]
  exact meetsValue_days (c := .withOperator arg op moved) (t := .midnight d) ha hd rfl hr hd'

theorem alignsDaysOf_eq_ok {arg : String} (h : ctx.alignsDaysOf arg = .ok true) :
    ∃ a, ctx.assignment arg = .ok a ∧ ctx.alignsDays a = true := map_eq_ok.1 h

end World

theorem Multi.canonical_singleton (c : Condition) : canonical [c] = [c] := rfl

/-- A leaf of one condition has that member. -/
theorem Context.members_of_multi {nodeType : String} {c : Condition} {p : Polarity} {m : Multi}
    (h : ctx.multi nodeType c [] p = .ok m) : m.members = [c] ∧ m.polarity = p := by
  obtain ⟨-, hm⟩ := multi_eq_ok h
  obtain ⟨-, hmem, -, -, -, -, hp, -⟩ := Multi.make_eq_ok hm
  exact ⟨hmem.trans (Multi.canonical_singleton c), hp⟩

namespace World

/-- The days strictly between the neighbours of a day are that day. -/
theorem found_alignEquality {s : Single} {value : String} {t : MatchTree}
    (h : MatchTree.alignEquality ctx s value = .ok t) (hs : (Leaf.single s).Made ctx)
    (hop : s.condition.op = .equals) (hv : s.condition.value? = some value)
    (ha : ctx.alignsDaysOf s.condition.arg = .ok true) :
    ∃ b, t = .leaf (.between b) ∧ (Leaf.between b).Made ctx ∧ b.polarity = s.polarity ∧
      ∀ {V : Type} (w : World V), w.found ctx (.between b) = w.found ctx (.single s) := by
  obtain ⟨before, hbefore, h⟩ := bind_eq_ok.1 h
  obtain ⟨after, hafter, h⟩ := bind_eq_ok.1 h
  obtain ⟨lower, hlower, h⟩ := bind_eq_ok.1 h
  obtain ⟨upper, hupper, h⟩ := bind_eq_ok.1 h
  obtain ⟨b, hb, h⟩ := bind_eq_ok.1 h
  obtain ⟨a, hassign, hdays⟩ := alignsDaysOf_eq_ok ha
  obtain ⟨a', ha', hnode, -⟩ := hs.assignment
  rw [Leaf.arg, hassign] at ha'
  cases ha'
  rw [show s.nodeType = a.field.nodeType from hnode] at hlower hupper
  have hmade := Leaf.Made.between
    (.multi (c := .withOperator s.condition.arg .greaterThan before) hassign hlower)
    (.multi (c := .withOperator s.condition.arg .lessThan after) hassign hupper) hb
  obtain ⟨-, -, -, -, -, -, hbe⟩ := Between.make_eq_ok (Context.between_eq_ok hb).2
  obtain ⟨hlm, hlp⟩ := Context.members_of_multi hlower
  obtain ⟨hum, -⟩ := Context.members_of_multi hupper
  refine ⟨b, (pure_eq_ok.1 h).symm, hmade, by rw [hbe]; exact hlp, fun w => ?_⟩
  obtain ⟨t, d, ht, -, -⟩ := shiftDate_eq_ok (liftError_eq_ok.1 hbefore)
  have hoperand := Condition.value?_eq_some.1 hv
  have hr : s.condition.isReference = false := Condition.isReference_of_value (by rw [hv]; rfl)
  have hne : s.condition.op ≠ .isUnknown := by rw [hop]; decide
  have hbarg : b.arg = s.condition.arg := by
    rw [hbe]
    show lower.lead.arg = s.condition.arg
    rw [(List.cons.inj hlm).1]
    rfl
  rw [Bool.eq_iff_iff, found_single hne, satisfies_value hne hr, found_between_iff, hbarg]
  refine exists_congr fun d => and_congr_right fun _ => exists_congr fun x =>
    and_congr_right fun _ => ?_
  rw [hbe]
  simp only [hlm, hum, List.mem_singleton, exists_eq_left]
  rw [meetsValue_shifted hassign hdays rfl ht (liftError_eq_ok.1 hbefore),
    meetsValue_shifted hassign hdays rfl ht (liftError_eq_ok.1 hafter),
    meetsValue_days hassign hdays hoperand (by rw [hop]; rfl) ht]
  simp only [decide_eq_true_eq, beq_iff_eq]
  omega

end World

/-- An inclusive bound by a value stands with its equality. -/
theorem Multi.Together.equality {lead : Condition} {others : List Condition} {s : Shape}
    (h : Together lead others s) (hs : s = .valueOrEqual) :
    ∃ equality, others = [equality] ∧ lead.op.isBound = true ∧ equality.op = .equals ∧
      equality.operand = lead.operand := by
  cases h with
  | alone => split at hs <;> cases hs
  | values hne hop hall => cases hs
  | inclusive hb he ho => exact ⟨_, rfl, hb, he, ho.symm⟩

namespace World

theorem alignBound_eq_ok {m : Multi} {t : MatchTree} (h : MatchTree.alignBound ctx m = .ok t)
    (hb : m.leadOp.isBound = true) :
    ∃ k moved, (m.leadOp = .greaterThan ∧ k = -1 ∨ m.leadOp = .lessThan ∧ k = 1) ∧
      shiftDate m.arg (m.bound?.getD "") k = .ok moved ∧
      ctx.singleTree (.withOperator m.arg m.leadOp moved) m.polarity = .ok t := by
  unfold MatchTree.alignBound at h
  simp only at h
  split at h
  · next hop =>
    obtain ⟨moved, hm, h⟩ := bind_eq_ok.1 h
    exact ⟨-1, moved, .inl ⟨hop, rfl⟩, liftError_eq_ok.1 hm, hop ▸ h⟩
  · next hop =>
    have hlt : m.leadOp = .lessThan := by
      cases ho : m.leadOp <;> simp_all [Operator.isBound]
    obtain ⟨moved, hm, h⟩ := bind_eq_ok.1 h
    exact ⟨1, moved, .inr ⟨hlt, rfl⟩, liftError_eq_ok.1 hm, hlt ▸ h⟩

/-- An inclusive bound by a day is the strict bound by its neighbour. -/
theorem found_alignBound {m : Multi} {t : MatchTree} (h : MatchTree.alignBound ctx m = .ok t)
    (hm : (Leaf.multi m).Made ctx) (hs : m.shape = .valueOrEqual)
    (ha : ctx.alignsDaysOf m.arg = .ok true) :
    ∃ s, t = .leaf (.single s) ∧ (Leaf.single s).Made ctx ∧ s.polarity = m.polarity ∧
      s.condition.op ≠ .isUnknown ∧
      ∀ {V : Type} (w : World V), w.found ctx (.single s) = w.found ctx (.multi m) := by
  obtain ⟨a, hassign, hdays⟩ := alignsDaysOf_eq_ok ha
  obtain ⟨equality, hothers, hbound, hop, hoperand⟩ := hm.members.2.1.equality hs
  obtain ⟨k, moved, hk, hmoved, h⟩ := alignBound_eq_ok h hbound
  obtain ⟨s, hs', rfl⟩ := MatchTree.singleTree_eq_ok.1 h
  obtain ⟨-, -, -, -, -, -, -, hc, hp⟩ := Context.single_eq_ok hs'
  have hne : s.condition.op ≠ .isUnknown := by
    rw [hc]
    rcases hk with ⟨ho, -⟩ | ⟨ho, -⟩ <;> simp [Condition.withOperator, ho]
  refine ⟨s, rfl, .single hs', hp, hne, fun w => ?_⟩
  obtain ⟨t, -, ht, -, -⟩ := shiftDate_eq_ok hmoved
  have hlead : m.lead.operand = some (.value (m.bound?.getD "")) := by
    cases hv : m.bound? with
    | none =>
      have hnone : Calendar.DateTime.ofText? "" = none := by decide
      rw [hv, Option.getD_none, hnone] at ht
      cases ht
    | some v => exact Condition.value?_eq_some.1 hv
  have hvalues : IsValueLeaf m := isValueLeaf_of_made hm (by rw [hs]; rfl)
  have harg : equality.arg = m.arg := by
    refine (hvalues equality ?_).1
    simp [Multi.members, hothers]
  have hsr : s.condition.isReference = false := by rw [hc]; rfl
  rw [Bool.eq_iff_iff, found_single hne, satisfies_value hne hsr, found_values hvalues, hc]
  refine exists_congr fun d => and_congr_right fun _ => exists_congr fun x =>
    and_congr_right fun _ => ?_
  have heq := meetsValue_days (w := w) (x := x) (c := equality) (harg ▸ hassign) hdays
    (hoperand.trans hlead) (by rw [hop]; rfl) ht
  simp only [Multi.members, hothers, List.mem_cons, List.not_mem_nil, or_false,
    exists_eq_or_imp, exists_eq_left, heq]
  rcases hk with ⟨ho, rfl⟩ | ⟨ho, rfl⟩
  · rw [ho, meetsValue_shifted hassign hdays rfl ht hmoved,
      meetsValue_days hassign hdays hlead (by rw [show m.lead.op = .greaterThan from ho]; rfl) ht]
    simp only [decide_eq_true_eq, beq_iff_eq]
    omega
  · rw [ho, meetsValue_shifted hassign hdays rfl ht hmoved,
      meetsValue_days hassign hdays hlead (by rw [show m.lead.op = .lessThan from ho]; rfl) ht]
    simp only [decide_eq_true_eq, beq_iff_eq]
    omega

/-! ## Readings -/

/-- How a leaf is read if some arguments are given to be known. -/
def reads (ctx : Context) (w : World V) (given : String → Bool) (l : Leaf) : Bool :=
  if l.isComplement then
    !w.found ctx l && (required l).all fun arg => given arg || w.isKnown ctx arg
  else w.found ctx l

theorem leafAmong_documents (l : Leaf) :
    w.leafAmong ctx w.documents l = w.reads ctx (fun _ => false) l := by
  simp only [leafAmong, reads, found, isKnown, Bool.false_or]

/-- A leaf is read plainly if all arguments are given. -/
def plainly (ctx : Context) (w : World V) (l : Leaf) : Bool := w.found ctx l != l.isComplement

theorem reads_all (l : Leaf) : w.reads ctx (fun _ => true) l = w.plainly ctx l := by
  cases hc : l.isComplement <;> simp [reads, plainly, hc]

/-- The more is given, the more leaves hold. -/
theorem reads_mono {given given' : String → Bool}
    (h : ∀ arg, given arg = true → given' arg = true) {l : Leaf}
    (hl : w.reads ctx given l = true) : w.reads ctx given' l = true := by
  simp only [reads] at hl ⊢
  split
  · next hc =>
    rw [if_pos hc, Bool.and_eq_true, List.all_eq_true] at hl
    rw [Bool.and_eq_true, List.all_eq_true]
    refine ⟨hl.1, fun arg ha => ?_⟩
    have := hl.2 arg ha
    rw [Bool.or_eq_true] at this ⊢
    exact this.imp_left (h arg)
  · next hc => rwa [if_neg hc] at hl

theorem verifiedArgs_eq_nil {l : Leaf} (h : l.polarity.verifies = false) :
    Script.verifiedArgs l = [] := by
  simp only [Polarity.verifies, Bool.or_eq_false_iff] at h
  cases l with
  | single s => simp [Script.verifiedArgs, h]
  | multi m => simp [Script.verifiedArgs, h]
  | between b => rfl

/-- A complement that requires no values, or those of a known argument, is plain. -/
theorem reads_eq_plainly {given : String → Bool} {l : Leaf} (hv : l.polarity.verifies = false)
    (h : ∀ arg, l.inDocumentArg? = some arg → given arg = true ∨ w.isKnown ctx arg = true) :
    w.reads ctx given l = w.plainly ctx l := by
  have hall : (required l).all (fun arg => given arg || w.isKnown ctx arg) = true := by
    rw [List.all_eq_true]
    intro arg ha
    rw [required, verifiedArgs_eq_nil hv, List.nil_append, Option.mem_toList] at ha
    rw [Bool.or_eq_true]
    exact h arg ha
  cases hc : l.isComplement <;> simp [reads, plainly, hc, hall]

/-- A complement holds where its argument is unknown, if it is read plainly. -/
theorem plainly_of_not_isKnown {l : Leaf} {arg : String} (hl : l.Made ctx)
    (h : l.inDocumentArg? = some arg) (hk : w.isKnown ctx arg = false) :
    w.plainly ctx l = true := by
  obtain ⟨rfl, hc, -⟩ := Leaf.arg_of_inDocumentArg? h
  have hf : w.found ctx l = false := by
    rw [Bool.eq_false_iff]
    intro hf
    rw [isKnown_of_found hl hf] at hk
    cases hk
  rw [plainly, hf, hc]
  rfl

end World

end AudienceFilter
