import AudienceFilter.Proofs.Fragments
import AudienceFilter.Proofs.LeafTruth
import AudienceFilter.Proofs.ScriptGrammar

/-!
# Capabilities

A field supports some comparisons and not others, and directives forbid some altogether. The rule
for a condition (`Context.Permits`) does not depend on the leaf that it ends up in; each way to
write a leaf checks the rule for all its conditions:

* `permits_singleFragment`, `permits_multiFragment`, `permits_betweenFragment`: fragments;
* `permits_ofLeaf`: the script that writes a leaf into a query.
-/

namespace AudienceFilter

namespace Context

/-- What a condition needs: a snippet the support of its field, a bound by a value an order, and
the comparison of two arguments that they can be compared. An argument that is unknown is not
compared with anything. -/
structure Permits (ctx : Context) (c : Condition) : Prop where
  snippet : c.op = .contains → ∃ a, ctx.assignment c.arg = .ok a ∧
    ctx.isEnabled .disableContains = false ∧ a.field.type.kind.supportsContains = true
  order : c.op.isBound = true → c.isReference = false → ∃ a, ctx.assignment c.arg = .ok a ∧
    ctx.isEnabled .disableOrder = false ∧ a.field.type.kind.supportsOrder = true
  comparison : c.op ≠ .isUnknown → ∀ other, c.reference? = some other → ∃ a b,
    ctx.assignment c.arg = .ok a ∧ ctx.assignment other = .ok b ∧
      ctx.PermitsComparison a b c.op.isBound

variable {ctx : Context}

/-! ## Checks -/

theorem checkContains_eq_ok {a : Assignment} (h : ctx.checkContains a = .ok ()) :
    ctx.isEnabled .disableContains = false ∧ a.field.type.kind.supportsContains = true := by
  unfold checkContains at h
  split at h
  · cases h
  · next he =>
    split at h
    · cases h
    · next hk => exact ⟨by simpa using he, by simpa using hk⟩

theorem checkOrder_eq_ok {a : Assignment} (h : ctx.checkOrder a = .ok ()) :
    ctx.isEnabled .disableOrder = false ∧ a.field.type.kind.supportsOrder = true := by
  unfold checkOrder at h
  split at h
  · cases h
  · next he =>
    split at h
    · cases h
    · next hk => exact ⟨by simpa using he, by simpa using hk⟩

/-! ## Fragments -/

theorem permits_unknown {c : Condition} (h : c.op = .isUnknown) : ctx.Permits c where
  snippet hs := by rw [h] at hs; cases hs
  order hb := by rw [h] at hb; cases hb
  comparison hne := absurd h hne

/-- The equality with a value needs nothing. -/
theorem permits_equality {c : Condition} (h : c.op = .equals) (hr : c.isReference = false) :
    ctx.Permits c where
  snippet hs := by rw [h] at hs; cases hs
  order hb := by rw [h] at hb; cases hb
  comparison _ other ho := by rw [Condition.isReference, ho] at hr; cases hr

theorem permits_bound {c : Condition} {a : Assignment} (h : c.op.isBound = true)
    (hr : c.isReference = false) (ha : ctx.assignment c.arg = .ok a)
    (ho : ctx.checkOrder a = .ok ()) : ctx.Permits c where
  snippet hs := by rw [hs] at h; cases h
  order _ _ := ⟨a, ha, checkOrder_eq_ok ho⟩
  comparison _ other ho := by rw [Condition.isReference, ho] at hr; cases hr

theorem permits_valueCondition {c : Condition} {a : Assignment} {x : String × ConditionKind}
    (hr : c.isReference = false) (ha : ctx.assignment c.arg = .ok a)
    (h : ctx.valueCondition a c = .ok x) : ctx.Permits c := by
  unfold valueCondition at h
  dsimp only at h
  split at h
  · next hop =>
    obtain ⟨_, hc, -⟩ := bind_eq_ok.1 h
    refine ⟨fun _ => ⟨a, ha, checkContains_eq_ok (liftError_eq_ok.1 hc)⟩, fun hb => ?_, ?_⟩
    · rw [hop] at hb
      cases hb
    · intro _ other ho
      rw [Condition.isReference, ho] at hr
      cases hr
  · next hop => exact permits_equality hop hr
  · next hop =>
    obtain ⟨_, hc, -⟩ := bind_eq_ok.1 h
    exact permits_bound (by rw [hop]; rfl) hr ha (liftError_eq_ok.1 hc)
  · next hop =>
    obtain ⟨_, hc, -⟩ := bind_eq_ok.1 h
    exact permits_bound (by rw [hop]; rfl) hr ha (liftError_eq_ok.1 hc)
  · cases h

/-- The fragment that compares two arguments checks the comparison, also for its equality. -/
theorem permits_referenceFragment {c : Condition} {inclusive : Bool} {q : FilterQuery}
    (hr : c.isReference = true) (h : ctx.referenceFragment c inclusive = .ok q) :
    ctx.Permits c ∧ ∀ e : Condition, e.arg = c.arg → e.op = .equals → e.operand = c.operand →
      ctx.Permits e := by
  obtain ⟨other, ho⟩ := Option.isSome_iff_exists.1 hr
  unfold referenceFragment at h
  obtain ⟨a, ha, h⟩ := bind_eq_ok.1 h
  obtain ⟨b, hb, h⟩ := bind_eq_ok.1 h
  obtain ⟨_, hcheck, h⟩ := bind_eq_ok.1 h
  rw [ho, Option.getD_some] at hb
  have hpermits := checkReference_eq_ok (liftError_eq_ok.1 hcheck)
  constructor
  · refine ⟨fun hop => ?_, fun _ hn => ?_, fun _ other' ho' => ?_⟩
    · rw [hop] at h
      cases h
    · rw [hr] at hn
      cases hn
    · rw [ho] at ho'
      cases ho'
      exact ⟨a, b, liftError_eq_ok.1 ha, liftError_eq_ok.1 hb, hpermits⟩
  · intro e harg hop hoperand
    have hsame : e.reference? = some other := by
      rw [← ho, Condition.reference?, Condition.reference?, hoperand]
    refine ⟨fun hs => ?_, fun hb => ?_, fun _ other' ho' => ?_⟩
    · rw [hop] at hs
      cases hs
    · rw [hop] at hb
      cases hb
    · rw [hsame] at ho'
      cases ho'
      refine ⟨a, b, harg ▸ liftError_eq_ok.1 ha, liftError_eq_ok.1 hb, { hpermits with order := ?_ }⟩
      intro hbound
      rw [hop] at hbound
      cases hbound

theorem permits_singleFragment {s : Single} {q : FilterQuery}
    (h : ctx.singleFragment s = .ok q) : ctx.Permits s.condition := by
  unfold singleFragment at h
  dsimp only at h
  split at h
  · next hu => exact permits_unknown hu
  · split at h
    · next hr => exact (permits_referenceFragment hr h).1
    · next hr =>
      obtain ⟨a, ha, h⟩ := bind_eq_ok.1 h
      obtain ⟨x, hx, -⟩ := bind_eq_ok.1 h
      exact permits_valueCondition (by simpa using hr) (liftError_eq_ok.1 ha) hx

theorem permits_multiFragment {m : Multi} {q : FilterQuery} (hm : (Leaf.multi m).Made ctx)
    (h : ctx.multiFragment m = .ok q) : ∀ c ∈ m.members, ctx.Permits c := by
  obtain ⟨hmembers, htogether, -⟩ := hm.members
  have hlead : m.lead ∈ m.members := List.mem_cons_self
  unfold multiFragment at h
  split at h
  · next hr =>
    have href : m.lead.isReference = true := (hmembers _ hlead).2.2.trans hr
    obtain ⟨hl, he⟩ := permits_referenceFragment href h
    refine List.forall_mem_cons.2 ⟨hl, fun c hc => ?_⟩
    obtain ⟨hop, hoperand⟩ := htogether.equality_of_reference hr c hc
    exact he c (hmembers c (List.mem_cons_of_mem _ hc)).1 hop hoperand
  · next hr =>
    have hnone : ∀ c ∈ m.members, c.isReference = false := fun c hc =>
      (hmembers c hc).2.2.trans (by simpa using hr)
    obtain ⟨a, ha, h⟩ := bind_eq_ok.1 h
    have hassign : ∀ c ∈ m.members, ctx.assignment c.arg = .ok a := fun c hc => by
      rw [(hmembers c hc).1]
      exact liftError_eq_ok.1 ha
    dsimp only at h
    split at h
    · next hs =>
      obtain ⟨range, hrange, -⟩ := bind_eq_ok.1 h
      obtain ⟨_, hcheck, -⟩ := bind_eq_ok.1 (liftError_eq_ok.1 hrange)
      obtain ⟨equality, hothers, hbound, hop, -⟩ := htogether.equality hs
      refine List.forall_mem_cons.2
        ⟨permits_bound hbound (hnone _ hlead) (hassign _ hlead) hcheck, fun c hc => ?_⟩
      have hce : c = equality := List.mem_singleton.1 (hothers ▸ hc)
      exact permits_equality (hce ▸ hop) (hnone c (List.mem_cons_of_mem _ hc))
    · next hs =>
      obtain ⟨-, hall⟩ := htogether.values_of_shape hs
      split at h
      · next heq =>
        exact fun c hc => permits_equality ((hall c hc).1.trans heq.1) (hnone c hc)
      · obtain ⟨conditions, hconds, -⟩ := bind_eq_ok.1 h
        intro c hc
        obtain ⟨x, -, hx⟩ := exists_of_mapM_eq_ok hconds hc
        exact permits_valueCondition (hnone c hc) (hassign c hc) hx
    · next hne hnv =>
      obtain ⟨x, hx, -⟩ := bind_eq_ok.1 h
      have hnil := htogether.others_eq_nil (by simpa using hr) hne hnv
      intro c hc
      rw [Multi.members, hnil, List.mem_singleton] at hc
      exact hc ▸ permits_valueCondition (hnone _ hlead) (hassign _ hlead) hx

theorem permits_betweenFragment {b : Between} {q : FilterQuery} (hb : (Leaf.between b).Made ctx)
    (h : ctx.betweenFragment b = .ok q) : ∀ c ∈ b.members, ctx.Permits c := by
  obtain ⟨a, ha, h⟩ := bind_eq_ok.1 h
  obtain ⟨range, hrange, -⟩ := bind_eq_ok.1 h
  obtain ⟨_, hcheck, -⟩ := bind_eq_ok.1 (liftError_eq_ok.1 hrange)
  obtain ⟨hlower, hupper, hlow, hup, harg, -⟩ := hb.bounds
  -- The members of a bound are comparisons by order and equalities, all with values.
  have hbound : ∀ m : Multi, (Leaf.multi m).Made ctx → m.arg = b.arg →
      m.shape.isReference = false → m.leadOp.isBound = true → ∀ c ∈ m.members, ctx.Permits c := by
    intro m hm harg hr hop c hc
    obtain ⟨hmembers, htogether, -⟩ := hm.members
    obtain ⟨hcarg, -, hcr⟩ := hmembers c hc
    rw [hr] at hcr
    rcases htogether.bound_or_equality hop c hc with hbound | heq
    · exact permits_bound hbound hcr (by rw [hcarg, harg]; exact liftError_eq_ok.1 ha) hcheck
    · exact permits_equality heq hcr
  have hlow' : b.lower.shape.isReference = false ∧ b.lower.leadOp = .greaterThan := by
    simpa [Multi.isLowerBound] using hlow
  have hup' : b.upper.shape.isReference = false ∧ b.upper.leadOp = .lessThan := by
    simpa [Multi.isUpperBound] using hup
  intro c hc
  rcases List.mem_append.1 hc with hc | hc
  · exact hbound b.lower hlower rfl hlow'.1 (by rw [hlow'.2]; rfl) c hc
  · exact hbound b.upper hupper harg hup'.1 (by rw [hup'.2]; rfl) c hc

/-- What can be written is permitted. -/
theorem permits_leafFragment {l : Leaf} {q : FilterQuery} (hl : l.Made ctx)
    (h : ctx.leafFragment l = .ok q) : ∀ c ∈ l.conditions, ctx.Permits c := by
  cases l with
  | single s =>
    intro c hc
    rw [List.mem_singleton.1 hc]
    exact permits_singleFragment h
  | multi m => exact permits_multiFragment hl h
  | between b => exact permits_betweenFragment hl h

end Context

/-! ## Scripts -/

namespace Script

open Context

variable {ctx : Context} {here : String}

theorem succeeds_andThen {α : Type} {r : Result α} {next : α → List Step}
    (h : Succeeds (andThen r next)) : ∃ a, r = .ok a ∧ Succeeds (next a) := by
  cases r with
  | ok a => exact ⟨a, rfl, h⟩
  | error f => exact absurd List.mem_cons_self (h f)

theorem succeeds_braced {steps : List Step} (h : Succeeds (braced steps)) : Succeeds steps :=
  (succeeds_append.1 (succeeds_cons_call.1 h)).1

theorem succeeds_bracedIf {brace : Bool} {steps : List Step} (h : Succeeds (bracedIf brace steps)) :
    Succeeds steps := by
  unfold bracedIf at h
  split at h
  · exact succeeds_braced h
  · exact h

theorem succeeds_joined {nodeType : String} {steps : List Step}
    (h : Succeeds (joined ctx here nodeType steps)) : Succeeds steps := by
  unfold joined at h
  split at h
  · exact h
  · exact (succeeds_append.1 (succeeds_append.1 h).2).1

/-- The script of a leaf writes its fragment, unless it only asks whether an argument is known. -/
theorem leafFragment_of_succeeds {l : Leaf} (h : Succeeds (ofLeaf ctx here l)) :
    l.isUnknownCheck = true ∨ ∃ q, ctx.leafFragment l = .ok q := by
  have hplain : Succeeds (plain ctx here l) → ∃ q, ctx.leafFragment l = .ok q := by
    intro h
    obtain ⟨q, hq, -⟩ := succeeds_andThen h
    exact ⟨q, hq⟩
  have hin : Succeeds (inDocument ctx here l) → ∃ q, ctx.leafFragment l = .ok q := by
    intro h
    obtain ⟨multiDoc, -, h⟩ := succeeds_andThen h
    split at h
    · obtain ⟨any, -, h⟩ := succeeds_andThen h
      obtain ⟨q, hq, -⟩ := succeeds_andThen h
      exact ⟨q, hq⟩
    · obtain ⟨q, hq, -⟩ := succeeds_andThen h
      obtain ⟨positive, hp, -⟩ := bind_eq_ok.1 hq
      exact ⟨positive, hp⟩
  unfold ofLeaf at h
  split at h
  · unfold verified at h
    split at h
    · exact absurd List.mem_cons_self (h _)
    · obtain ⟨q, hq, -⟩ := succeeds_andThen h
      exact .inr ⟨q, hq⟩
  · split at h
    · split at h
      · next hu => exact .inl hu
      · exact .inr (hplain h)
    · split at h
      · exact .inr (hin h)
      · exact .inr (hplain h)
    · split at h
      · exact .inr (hin h)
      · exact .inr (hplain h)

theorem permits_ofLeaf {l : Leaf} (hl : l.Made ctx) (h : Succeeds (ofLeaf ctx here l)) :
    ∀ c ∈ l.conditions, ctx.Permits c := by
  rcases leafFragment_of_succeeds h with hu | ⟨q, hq⟩
  · cases l with
    | single s =>
      intro c hc
      rw [List.mem_singleton.1 hc]
      exact permits_unknown (by simpa [Leaf.isUnknownCheck, Single.isUnknownCheck] using hu)
    | multi m => cases hu
    | between b => cases hu
  · exact permits_leafFragment hl hq

end Script

end AudienceFilter
