import AudienceFilter.MatchTree.Consolidated
import AudienceFilter.Proofs.Results

/-!
# How leaves are made

Every leaf of a conversion comes from one of three constructors, which give it its node type and
decide whether it may share a join. The lemmas here open these constructors, and `Leaf.Made`
says of a leaf that it came from one of them in a context:

* `single_eq_ok`, `multi_eq_ok`, `between_eq_ok`: what a constructor that succeeds gives;
* `Multi.classify_cases`, `Multi.make_of_together`: what the conditions of a leaf can be together;
* `Leaf.Made.assignment`: the node type of a leaf is that of its argument;
* `Leaf.Made.joinable`: what a leaf that may share a join asks for.
-/

namespace AudienceFilter

namespace Condition

theorem isReference_iff {c : Condition} :
    c.isReference = true ↔ ∃ b, c.operand = some (.reference b) := by
  rcases c with ⟨a, op, _ | v | r⟩ <;> simp [isReference, reference?]

theorem isReference_congr {c d : Condition} (h : c.operand = d.operand) :
    c.isReference = d.isReference := by
  rw [isReference, isReference, reference?, reference?, h]

theorem isReference_of_value {c : Condition} (h : c.value?.isSome) : c.isReference = false := by
  rcases c with ⟨a, op, _ | v | r⟩ <;> simp_all [isReference, reference?, value?]

theorem value?_eq_some {c : Condition} {v : String} :
    c.value? = some v ↔ c.operand = some (.value v) := by
  rcases c with ⟨a, op, _ | w | r⟩ <;> simp [value?]

end Condition

namespace Multi

theorem mem_canonical {members : List Condition} {c : Condition} :
    c ∈ canonical members ↔ c ∈ members := by
  rw [canonical, Sorted.mem_dedupBy, Sorted.mem_sortBy]

/-- A condition stands alone, a bound stands with its equality, or values stand together. -/
inductive Together (lead : Condition) : List Condition → Shape → Prop
  | alone : Together lead [] (if lead.isReference then .reference else .value)
  | inclusive {equality : Condition} (hb : lead.op.isBound) (he : equality.op = .equals)
      (ho : lead.operand = equality.operand) :
      Together lead [equality] (if lead.isReference then .referenceOrEqual else .valueOrEqual)
  | values {others : List Condition} (hne : others ≠ [])
      (hop : lead.op = .equals ∨ lead.op = .contains)
      (hall : ∀ c ∈ lead :: others, c.op = lead.op ∧ c.value?.isSome) :
      Together lead others .values

theorem classify_cases {lead : Condition} {others : List Condition} {s : Shape}
    (h : classify lead others = .ok s) :
    (∀ c ∈ lead :: others, c.op ≠ .isUnknown) ∧ Together lead others s := by
  unfold classify at h
  simp only at h
  split at h
  · cases h
  next hu =>
  refine ⟨by simpa using hu, ?_⟩
  rcases others with _ | ⟨second, rest⟩
  · rw [← Except.ok.inj h]
    exact .alone
  simp only at h
  split at h
  · next hc =>
    simp only [Bool.and_eq_true, List.isEmpty_iff, beq_iff_eq] at hc
    obtain ⟨⟨⟨rfl, hb⟩, he⟩, ho⟩ := hc
    rw [← Except.ok.inj h]
    exact .inclusive hb he ho
  split at h
  · next hc =>
    simp only [Bool.and_eq_true, List.all_eq_true, decide_eq_true_eq, Bool.or_eq_true,
      beq_iff_eq] at hc
    rw [← Except.ok.inj h]
    exact .values (List.cons_ne_nil _ _) hc.2 fun c hm => ⟨hc.1.1 c hm, hc.1.2 c hm⟩
  · cases h

theorem classify_of_together {lead : Condition} {others : List Condition} {s : Shape}
    (hu : ∀ c ∈ lead :: others, c.op ≠ .isUnknown) (h : Together lead others s) :
    classify lead others = .ok s := by
  have hany : ((lead :: others).any fun c => c.op = .isUnknown) = false := by simpa using hu
  rw [classify.eq_def]
  simp only [hany, Bool.false_eq_true, if_false]
  cases h with
  | alone => rfl
  | inclusive hb he ho => simp [hb, he, ho]
  | values hne hop hall =>
    obtain ⟨second, rest, rfl⟩ := List.exists_cons_of_ne_nil hne
    have hb : lead.op.isBound = false := by rcases hop with hop | hop <;> rw [hop] <;> rfl
    have hops : ((lead :: second :: rest).all fun c => c.op = lead.op) = true := by
      rw [List.all_eq_true]
      exact fun c hc => decide_eq_true (hall c hc).1
    have hvalues : ((lead :: second :: rest).all fun c => c.value?.isSome) = true := by
      rw [List.all_eq_true]
      exact fun c hc => (hall c hc).2
    have hop : (lead.op == .equals || lead.op == .contains) = true := by simpa using hop
    simp only [hb, hops, hvalues, hop, Bool.and_false, Bool.false_and, Bool.and_true,
      Bool.false_eq_true, if_false, if_true]

/-- Several values are compared by one operator. -/
theorem Together.values_of_shape {lead : Condition} {others : List Condition} {s : Shape}
    (h : Together lead others s) (hs : s = .values) :
    (lead.op = .equals ∨ lead.op = .contains) ∧
      ∀ c ∈ lead :: others, c.op = lead.op ∧ c.value?.isSome := by
  cases h with
  | alone => split at hs <;> cases hs
  | inclusive hb he ho => split at hs <;> cases hs
  | values hne hop hall => exact ⟨hop, hall⟩

/-- Beside a comparison of two arguments stands its equality. -/
theorem Together.equality_of_reference {lead : Condition} {others : List Condition} {s : Shape}
    (h : Together lead others s) (hs : s.isReference = true) :
    ∀ c ∈ others, c.op = .equals ∧ c.operand = lead.operand := by
  cases h with
  | alone => exact fun c hc => absurd hc List.not_mem_nil
  | inclusive hb he ho =>
    intro c hc
    rw [List.mem_singleton.1 hc]
    exact ⟨he, ho.symm⟩
  | values hne hop hall => cases hs

/-- A condition that is neither inclusive nor one of several values stands alone. -/
theorem Together.others_eq_nil {lead : Condition} {others : List Condition} {s : Shape}
    (h : Together lead others s) (hr : s.isReference = false) (hi : s ≠ .valueOrEqual)
    (hv : s ≠ .values) : others = [] := by
  cases h with
  | alone => rfl
  | inclusive hb he ho =>
    split at hr
    · cases hr
    · next hl => exact absurd (if_neg hl) hi
  | values hne hop hall => exact absurd rfl hv

/-- What stands with a bound is its equality. -/
theorem Together.bound_or_equality {lead : Condition} {others : List Condition} {s : Shape}
    (h : Together lead others s) (hb : lead.op.isBound = true) :
    ∀ c ∈ lead :: others, c.op.isBound = true ∨ c.op = .equals := by
  cases h with
  | alone =>
    intro c hc
    exact .inl (List.mem_singleton.1 hc ▸ hb)
  | inclusive _ he ho => simp [hb, he]
  | values hne hop hall =>
    rcases hop with hop | hop <;> rw [hop] at hb <;> cases hb

/-- All members compare with values or all compare with arguments. -/
theorem Together.isReference {lead : Condition} {others : List Condition} {s : Shape}
    (h : Together lead others s) : ∀ c ∈ lead :: others, c.isReference = s.isReference := by
  cases h with
  | alone =>
    intro c hc
    rw [List.mem_singleton.1 hc]
    cases lead.isReference <;> rfl
  | inclusive hb he ho =>
    intro c hc
    have : c.isReference = lead.isReference := by
      rcases List.mem_cons.1 hc with rfl | hc
      · rfl
      · rw [List.mem_singleton.1 hc, Condition.isReference_congr ho]
    rw [this]
    cases lead.isReference <;> rfl
  | values hne hop hall =>
    intro c hc
    rw [Condition.isReference_of_value (hall c hc).2]
    rfl

end Multi

/-! ## Constructors -/

theorem Single.make_eq_ok {nodeType : String} {c : Condition} {p : Polarity} {joinable : Bool}
    {s : Single} (h : Single.make nodeType c p joinable = .ok s) :
    Text.isName nodeType = true ∧ (p.verifies = true → c.isReference = true) ∧
      s = { nodeType, condition := c, polarity := p, joinable } := by
  rw [Single.make] at h
  split at h
  · cases h
  next hn =>
  split at h
  · cases h
  next hv =>
  refine ⟨by simpa using hn, fun hp => ?_, (Except.ok.inj h).symm⟩
  simpa [hp] using hv

theorem Multi.make_eq_ok {nodeType : String} {members : List Condition} {p : Polarity}
    {joinable : Bool} {m : Multi} (h : Multi.make nodeType members p joinable = .ok m) :
    Text.isName nodeType = true ∧ m.members = canonical members ∧
      (∀ c ∈ m.members, c.arg = m.arg) ∧ classify m.lead m.others = .ok m.shape ∧
      (p.verifies = true → m.shape.isReference = true) ∧
      m.nodeType = nodeType ∧ m.polarity = p ∧ m.joinable = joinable := by
  rw [Multi.make] at h
  split at h
  · cases h
  next hn =>
  split at h
  · cases h
  next lead others hc =>
  split at h
  · cases h
  next ha =>
  obtain ⟨s, hs, h⟩ := bind_eq_ok.1 h
  split at h
  · cases h
  next hv =>
  cases h
  refine ⟨by simpa using hn, hc.symm, ?_, hs, fun hp => ?_, rfl, rfl, rfl⟩
  · simpa [Multi.members, Multi.arg] using ha
  · simpa [hp] using hv

/-- Conditions that belong together are accepted. -/
theorem Multi.make_of_together {nodeType : String} {members : List Condition} {p : Polarity}
    {joinable : Bool} {lead : Condition} {others : List Condition} {s : Shape}
    (hn : Text.isName nodeType = true) (hv : p.verifies = true → s.isReference = true)
    (hm : canonical members = lead :: others) (ha : ∀ c ∈ members, c.arg = lead.arg)
    (hu : ∀ c ∈ members, c.op ≠ .isUnknown) (ht : Together lead others s) :
    make nodeType members p joinable =
      .ok { nodeType, lead, others, polarity := p, joinable, shape := s } := by
  have hmem : ∀ c ∈ lead :: others, c ∈ members := fun c hc => mem_canonical.1 (hm ▸ hc)
  have hargs : (others.any fun c => c.arg ≠ lead.arg) = false := by
    rw [List.any_eq_false]
    intro c hc
    simpa using ha c (hmem c (List.mem_cons_of_mem _ hc))
  have hverified : (p.verifies && !s.isReference) = false := by
    cases hp : p.verifies with
    | false => rfl
    | true =>
      rw [hv hp]
      rfl
  simp only [make, hn, hm, hargs, classify_of_together (fun c hc => hu c (hmem c hc)) ht,
    Bool.not_true, Bool.false_eq_true, if_false]
  exact if_neg (by rw [hverified]; decide)

theorem Between.make_eq_ok {lower upper : Multi} {joinable : Bool} {b : Between}
    (h : Between.make lower upper joinable = .ok b) :
    lower.isLowerBound = true ∧ upper.isUpperBound = true ∧ lower.arg = upper.arg ∧
      lower.nodeType = upper.nodeType ∧ lower.polarity = upper.polarity ∧
      lower.polarity.verifies = false ∧ b = { lower, upper, joinable } := by
  simp only [Between.make] at h
  repeat (split at h; · cases h)
  simp_all

namespace Context

variable {ctx : Context}

/-- What a leaf that may share a join asks for: anything on the main documents, otherwise what
the index can find, or a complement within the documents of an argument with one document. -/
theorem mayJoin_eq_true {nodeType arg : String} {isComplement inDocument verifies : Bool}
    (h : ctx.mayJoin nodeType arg isComplement inDocument verifies = .ok true) :
    ctx.isMain nodeType = true ∨ verifies = false ∧
      (isComplement = false ∨ inDocument = true ∧ ctx.isMultiDoc arg = .ok false) := by
  rw [mayJoin] at h
  split at h
  · next hm => exact .inl hm
  split at h
  · cases h
  next hv =>
  refine .inr ⟨by simpa using hv, ?_⟩
  split at h
  · next hc => exact .inl (by simpa using hc)
  split at h
  · next hd =>
    obtain ⟨b, hb, hn⟩ := map_eq_ok.1 h
    rw [Bool.not_eq_true'] at hn
    exact .inr ⟨hd, hn ▸ hb⟩
  · cases h

theorem single_eq_ok {c : Condition} {p : Polarity} {s : Single} (h : ctx.single c p = .ok s) :
    ∃ a, ctx.assignment c.arg = .ok a ∧
      (∀ other, c.reference? = some other → ∃ b, ctx.assignment other = .ok b) ∧
      ctx.mayJoin a.field.nodeType c.arg (p.isNegated != (c.op == .isUnknown)) false p.verifies =
        .ok s.joinable ∧
      Text.isName a.field.nodeType = true ∧ (p.verifies = true → c.isReference = true) ∧
      s.nodeType = a.field.nodeType ∧ s.condition = c ∧ s.polarity = p := by
  rw [single, bind_eq_ok] at h
  obtain ⟨a, ha, h⟩ := h
  refine ⟨a, liftError_eq_ok.1 ha, ?_⟩
  cases hr : c.reference? with
  | none =>
    simp only [hr] at h
    obtain ⟨joinable, hj, h⟩ := bind_eq_ok.1 h
    obtain ⟨hn, hv, rfl⟩ := Single.make_eq_ok (liftFault_eq_ok.1 h)
    exact ⟨nofun, liftError_eq_ok.1 hj, hn, hv, rfl, rfl, rfl⟩
  | some other =>
    simp only [hr] at h
    obtain ⟨b, hb, h⟩ := bind_eq_ok.1 h
    obtain ⟨joinable, hj, h⟩ := bind_eq_ok.1 h
    obtain ⟨hn, hv, rfl⟩ := Single.make_eq_ok (liftFault_eq_ok.1 h)
    refine ⟨?_, liftError_eq_ok.1 hj, hn, hv, rfl, rfl, rfl⟩
    rintro _ ⟨⟩
    exact ⟨b, liftError_eq_ok.1 hb⟩

theorem multi_eq_ok {nodeType : String} {c : Condition} {cs : List Condition} {p : Polarity}
    {m : Multi} (h : ctx.multi nodeType c cs p = .ok m) :
    ctx.mayJoin nodeType c.arg p.isNegated (!c.isReference) p.verifies = .ok m.joinable ∧
      Multi.make nodeType (c :: cs) p m.joinable = .ok m := by
  rw [multi, bind_eq_ok] at h
  obtain ⟨joinable, hj, h⟩ := h
  have h := liftFault_eq_ok.1 h
  obtain ⟨-, -, -, -, -, -, -, hm⟩ := Multi.make_eq_ok h
  rw [hm]
  exact ⟨liftError_eq_ok.1 hj, h⟩

theorem between_eq_ok {lower upper : Multi} {b : Between} (h : ctx.between lower upper = .ok b) :
    ctx.mayJoin lower.nodeType lower.arg lower.polarity.isNegated true false = .ok b.joinable ∧
      Between.make lower upper b.joinable = .ok b := by
  rw [between, bind_eq_ok] at h
  obtain ⟨joinable, hj, h⟩ := h
  have h := liftFault_eq_ok.1 h
  obtain ⟨-, -, -, -, -, -, hb⟩ := Between.make_eq_ok h
  rw [hb] at h ⊢
  exact ⟨liftError_eq_ok.1 hj, h⟩

end Context

/-! ## Made leaves -/

namespace Leaf

/-- Whether a leaf was made in a context by one of the constructors, on the node type of its
argument. -/
inductive Made (ctx : Context) : Leaf → Prop
  | single {c : Condition} {p : Polarity} {s : Single} (h : ctx.single c p = .ok s) :
      Made ctx (.single s)
  | multi {a : Assignment} {c : Condition} {cs : List Condition} {p : Polarity} {m : Multi}
      (ha : ctx.assignment c.arg = .ok a) (h : ctx.multi a.field.nodeType c cs p = .ok m) :
      Made ctx (.multi m)
  | between {lower upper : Multi} {b : Between} (hl : Made ctx (.multi lower))
      (hu : Made ctx (.multi upper)) (h : ctx.between lower upper = .ok b) :
      Made ctx (.between b)

variable {ctx : Context}

/-- What is known of several conditions that were put together. -/
theorem Made.members {m : Multi} (h : Made ctx (.multi m)) :
    (∀ c ∈ m.members, c.arg = m.arg ∧ c.op ≠ .isUnknown ∧ c.isReference = m.shape.isReference) ∧
      Multi.Together m.lead m.others m.shape ∧
      (m.polarity.verifies = true → m.shape.isReference = true) := by
  cases h with
  | multi ha h =>
    obtain ⟨-, -, harg, hs, hv, -, hp, -⟩ := Multi.make_eq_ok (Context.multi_eq_ok h).2
    obtain ⟨hu, ht⟩ := Multi.classify_cases hs
    exact ⟨fun c hc => ⟨harg c hc, hu c hc, ht.isReference c hc⟩, ht, hp ▸ hv⟩

theorem Made.bounds {b : Between} (h : Made ctx (.between b)) :
    Made ctx (.multi b.lower) ∧ Made ctx (.multi b.upper) ∧ b.lower.isLowerBound = true ∧
      b.upper.isUpperBound = true ∧ b.upper.arg = b.arg ∧ b.upper.nodeType = b.nodeType ∧
      b.upper.polarity = b.polarity ∧ b.polarity.verifies = false := by
  cases h with
  | between hl hu h =>
    obtain ⟨-, h⟩ := Context.between_eq_ok h
    obtain ⟨hlow, hup, ha, hn, hp, hv, he⟩ := Between.make_eq_ok h
    rw [he]
    exact ⟨hl, hu, hlow, hup, ha.symm, hn.symm, hp.symm, hv⟩

/-- A leaf is on the node type that its argument is assigned to. -/
theorem Made.assignment {l : Leaf} (h : Made ctx l) :
    ∃ a, ctx.assignment l.arg = .ok a ∧ l.nodeType = a.field.nodeType ∧
      Text.isName l.nodeType = true := by
  induction h with
  | single h =>
    obtain ⟨a, ha, -, -, hn, -, hs, hc, -⟩ := Context.single_eq_ok h
    refine ⟨a, ?_, hs, ?_⟩
    · rw [arg, hc, ha]
    · rw [nodeType, hs, hn]
  | @multi a c cs p m ha h =>
    obtain ⟨hname, hmem, harg, -, -, hn, -, -⟩ := Multi.make_eq_ok (Context.multi_eq_ok h).2
    have hc : c.arg = m.arg := harg c (hmem ▸ Multi.mem_canonical.2 List.mem_cons_self)
    refine ⟨a, ?_, hn, ?_⟩
    · rw [arg, ← hc, ha]
    · rw [nodeType, hn, hname]
  | between hl hu h ihl _ =>
    obtain ⟨-, -, -, -, -, -, he⟩ := Between.make_eq_ok (Context.between_eq_ok h).2
    rw [he]
    exact ihl

/-- The argument of a leaf that is negated among the documents that have a value: one of several
conditions with values, or of two bounds. -/
def inDocumentArg? (l : Leaf) : Option String := MatchTree.complementArg? (.leaf l)

theorem arg_of_inDocumentArg? {l : Leaf} {arg : String} (h : l.inDocumentArg? = some arg) :
    l.arg = arg ∧ l.isComplement = true ∧ l.polarity.verifies = false := by
  cases l with
  | single s => cases h
  | multi m =>
    rw [inDocumentArg?, MatchTree.complementArg?] at h
    split at h
    · next hp =>
      refine ⟨Option.some.inj h, ?_, ?_⟩
      · rw [isComplement, hp.1]; rfl
      · rw [polarity, hp.1]; rfl
    · cases h
  | between b =>
    rw [inDocumentArg?, MatchTree.complementArg?] at h
    split at h
    · next hp =>
      refine ⟨Option.some.inj h, ?_, ?_⟩
      · rw [isComplement, hp]; rfl
      · rw [polarity, hp]; rfl
    · cases h

end Leaf

/-- Whether a leaf asks for an unknown argument, or for a known one if it is negated. -/
def Leaf.isUnknownCheck : Leaf → Bool
  | .single s => s.isUnknownCheck
  | _ => false

theorem Leaf.isUnknownCheck_single {s : Single} :
    (Leaf.single s).isUnknownCheck = false ↔ s.condition.op ≠ .isUnknown := by
  simp [Leaf.isUnknownCheck, Single.isUnknownCheck]

theorem Leaf.isComplement_eq (l : Leaf) :
    l.isComplement = (l.polarity.isNegated != l.isUnknownCheck) := by
  cases l with
  | single s => rfl
  | multi m => exact (Bool.xor_false _).symm
  | between b => exact (Bool.xor_false _).symm

theorem Polarity.eq_negated {p : Polarity} (hn : p.isNegated = true) (hv : p.verifies = false) :
    p = .negated := by
  cases p <;> simp_all [isNegated, verifies, verifiesLeft, verifiesRight]

namespace Leaf

variable {ctx : Context}

/-- A leaf that may share a join is on the main documents, or asks for what the index can find,
or for a complement within the documents of an argument with one document. -/
theorem Made.joinable {l : Leaf} (h : Made ctx l) (hj : l.joinable = true) :
    ctx.isMain l.nodeType = true ∨ l.polarity.verifies = false ∧ (l.isComplement = false ∨
      l.inDocumentArg? = some l.arg ∧ ctx.isMultiDoc l.arg = .ok false) := by
  cases h with
  | @single c p s h =>
    obtain ⟨a, -, -, hm, -, -, hn, hc, hp⟩ := Context.single_eq_ok h
    rw [show s.joinable = true from hj, ← hn] at hm
    refine (Context.mayJoin_eq_true hm).imp_right fun ⟨hv, hr⟩ => ⟨?_, .inl ?_⟩
    · rw [polarity, hp, hv]
    · rw [isComplement, Single.isComplement, Single.isUnknownCheck, hp, hc]
      exact hr.resolve_right fun h => absurd h.1 (by decide)
  | @multi a c cs p m ha h =>
    obtain ⟨hm, hmake⟩ := Context.multi_eq_ok h
    obtain ⟨-, hmem, harg, hs, -, hn, hp, -⟩ := Multi.make_eq_ok hmake
    have hc : c ∈ m.members := hmem ▸ Multi.mem_canonical.2 List.mem_cons_self
    have hcr := (Multi.classify_cases hs).2.isReference c hc
    rw [show m.joinable = true from hj, ← hn] at hm
    refine (Context.mayJoin_eq_true hm).imp_right fun ⟨hv, hr⟩ => ⟨?_, ?_⟩
    · rw [polarity, hp, hv]
    · rw [isComplement, hp]
      cases hneg : p.isNegated with
      | false => exact .inl rfl
      | true =>
        obtain ⟨hd, hmd⟩ := hr.resolve_left (by rw [hneg]; decide)
        rw [hcr, Bool.not_eq_true'] at hd
        rw [inDocumentArg?, MatchTree.complementArg?, if_pos ⟨hp ▸ Polarity.eq_negated hneg hv, hd⟩]
        refine .inr ⟨rfl, ?_⟩
        rw [arg, ← harg c hc, hmd]
  | @between lower upper b hl hu h =>
    obtain ⟨hm, hmake⟩ := Context.between_eq_ok h
    obtain ⟨-, -, -, -, -, hv, he⟩ := Between.make_eq_ok hmake
    rw [show b.joinable = true from hj] at hm
    rw [he]
    refine (Context.mayJoin_eq_true hm).imp_right fun ⟨_, hr⟩ => ⟨hv, ?_⟩
    rw [isComplement]
    cases hneg : lower.polarity.isNegated with
    | false => exact .inl hneg
    | true =>
      obtain ⟨-, hmd⟩ := hr.resolve_left (by rw [hneg]; decide)
      exact .inr ⟨if_pos (Polarity.eq_negated hneg hv), hmd⟩

end Leaf

end AudienceFilter
