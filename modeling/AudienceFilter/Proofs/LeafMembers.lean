import AudienceFilter.Proofs.CanonicalOrder

/-!
# Leaves made from sets of conditions

Several conditions on one argument become one leaf if they mean something together. Neither the
order in which they are given nor repetitions among them make a difference:

* `Multi.make_congr`: lists with the same conditions give the same leaf, or are refused alike;
* `Multi.exists_make_iff`: which sets of conditions give a leaf (`Multi.Combinable`);
* `Multi.increasing_members`: the conditions of a leaf are strictly increasing;
* `Multi.Together.orEqual_iff`: which leaves are inclusive bounds.
-/

namespace AudienceFilter.Multi

variable {nodeType : String} {members members' : List Condition} {p : Polarity} {joinable : Bool}

/-! ## Order and repetitions -/

theorem canonical_ne_nil (h : members ≠ []) : canonical members ≠ [] := by
  obtain ⟨c, hc⟩ := List.exists_mem_of_ne_nil members h
  exact List.ne_nil_of_mem (mem_canonical.2 hc)

/-- Conditions on different arguments are refused, whichever comes first. -/
theorem make_of_differentArgs (hname : Text.isName nodeType = true)
    (h : ¬∃ arg, ∀ c ∈ members, c.arg = arg) :
    make nodeType members p joinable = .error .differentArgs := by
  have hne : members ≠ [] := by
    rintro rfl
    exact h ⟨"", fun c hc => absurd hc List.not_mem_nil⟩
  obtain ⟨lead, others, hcanonical⟩ := List.exists_cons_of_ne_nil (canonical_ne_nil hne)
  have hother : others.any (fun c => c.arg ≠ lead.arg) = true := by
    rw [List.any_eq_true]
    refine Classical.byContradiction fun hall => h ⟨lead.arg, fun c hc => ?_⟩
    rcases List.mem_cons.1 (hcanonical ▸ mem_canonical.2 hc) with rfl | hc
    · rfl
    · exact Classical.byContradiction fun hc' => hall ⟨c, hc, by simpa using hc'⟩
  simp only [make, hname, hcanonical, hother, Bool.not_true, Bool.false_eq_true, if_false, if_true]

/-- Lists with the same conditions give the same leaf, or are refused alike. -/
theorem make_congr (h : ∀ c, c ∈ members ↔ c ∈ members') :
    make nodeType members p joinable = make nodeType members' p joinable := by
  by_cases hname : Text.isName nodeType = true
  · by_cases harg : ∃ arg, ∀ c ∈ members, c.arg = arg
    · obtain ⟨arg, harg⟩ := harg
      rw [make, make, canonical_congr harg h]
    · have harg' : ¬∃ arg, ∀ c ∈ members', c.arg = arg := by simpa only [h] using harg
      rw [make_of_differentArgs hname harg, make_of_differentArgs hname harg']
  · simp only [make, hname, Bool.not_false, if_true]

/-- The conditions of a leaf come in strict order. -/
theorem increasing_members {m : Multi} (h : make nodeType members p joinable = .ok m) :
    Sorted.Increasing order m.members := by
  obtain ⟨-, hmembers, harg, -⟩ := make_eq_ok h
  rw [hmembers] at harg ⊢
  exact increasing_canonical fun c hc => harg c (mem_canonical.2 hc)

theorem lt_of_order {a b : Condition} (h : order a b = .lt) : le a b = true ∧ le b a = false := by
  rw [le_eq]
  simp [h, Std.OrientedCmp.gt_of_lt h]

/-! ## What may stand together -/

/-- A strict bound and then the equality with its operand. -/
def InclusiveBound (members : List Condition) : Prop :=
  ∃ bound equality, members = [bound, equality] ∧ bound.op.isBound = true ∧
    equality.op = .equals ∧ equality.operand = bound.operand

/-- A leaf is an inclusive bound by its shape exactly if its conditions are one. -/
theorem Together.orEqual_iff {lead : Condition} {others : List Condition} {s : Shape}
    (h : Together lead others s) :
    s = .valueOrEqual ∨ s = .referenceOrEqual ↔ InclusiveBound (lead :: others) := by
  cases h with
  | alone =>
    refine iff_of_false ?_ ?_
    · split <;> simp
    · rintro ⟨bound, equality, hmembers, -⟩
      cases hmembers
  | @inclusive equality hb he ho =>
    refine iff_of_true ?_ ⟨lead, equality, rfl, hb, he, ho.symm⟩
    split <;> simp
  | values hne hop hall =>
    refine iff_of_false (by simp) ?_
    rintro ⟨bound, equality, hmembers, hb, -⟩
    obtain rfl := (List.cons.inj hmembers).1
    rcases hop with hop | hop <;> rw [hop] at hb <;> cases hb

/-- Whether conditions mean something together: there is only one, or a bound with its equality,
or they look for values by one operator. -/
inductive Compatible (members : List Condition) : Prop
  | alone {c : Condition} (hall : ∀ d ∈ members, d = c) : Compatible members
  | inclusive {bound equality : Condition} (hbound : bound ∈ members)
      (hequality : equality ∈ members) (hb : bound.op.isBound = true)
      (he : equality.op = .equals) (ho : bound.operand = equality.operand)
      (hall : ∀ c ∈ members, c = bound ∨ c = equality) : Compatible members
  | values {op : Operator} (hop : op = .equals ∨ op = .contains)
      (hall : ∀ c ∈ members, c.op = op ∧ c.value?.isSome) : Compatible members

theorem order_of_inclusive {bound equality : Condition} (hb : bound.op.isBound = true)
    (he : equality.op = .equals) : order bound equality = .lt := by
  have hrank : compare (operatorRank bound.op) (operatorRank equality.op) = .lt := by
    rw [he]
    revert hb
    cases bound.op <;> decide
  rw [order, compareLex, compareOn, hrank]
  rfl

/-- Conditions that mean something together do so in canonical order. -/
theorem Compatible.exists_together {arg : String} (h : Compatible members) (hne : members ≠ [])
    (harg : ∀ c ∈ members, c.arg = arg) :
    ∃ lead others s, canonical members = lead :: others ∧ Together lead others s := by
  have hincreasing := increasing_canonical harg
  cases h with
  | @alone c hall =>
    obtain ⟨d, hd⟩ := List.exists_mem_of_ne_nil members hne
    have hc : c ∈ members := hall d hd ▸ hd
    refine ⟨c, [], _, ?_, .alone⟩
    refine Sorted.eq_of_increasing hincreasing (List.pairwise_singleton _ _) fun x => ?_
    rw [mem_canonical, List.mem_singleton]
    exact ⟨hall x, fun h => h ▸ hc⟩
  | @inclusive bound equality hbound hequality hb he ho hall =>
    refine ⟨bound, [equality], _, ?_, .inclusive hb he ho⟩
    have hpair : Sorted.Increasing order [bound, equality] :=
      List.pairwise_pair.2 (order_of_inclusive hb he)
    refine Sorted.eq_of_increasing hincreasing hpair fun x => ?_
    rw [mem_canonical, List.mem_cons, List.mem_singleton]
    refine ⟨hall x, ?_⟩
    rintro (rfl | rfl)
    · exact hbound
    · exact hequality
  | @values op hop hall =>
    obtain ⟨lead, others, hcanonical⟩ := List.exists_cons_of_ne_nil (canonical_ne_nil hne)
    have hall' : ∀ c ∈ lead :: others, c.op = op ∧ c.value?.isSome := fun c hc =>
      hall c (mem_canonical.1 (hcanonical ▸ hc))
    obtain ⟨rfl, -⟩ := hall' lead List.mem_cons_self
    by_cases hothers : others = []
    · subst hothers
      exact ⟨lead, [], _, hcanonical, .alone⟩
    · exact ⟨lead, others, _, hcanonical, .values hothers hop hall'⟩

theorem Together.compatible {lead : Condition} {others : List Condition} {s : Shape}
    (h : Together lead others s) : Compatible (lead :: others) := by
  cases h with
  | alone => exact .alone fun d hd => List.mem_singleton.1 hd
  | @inclusive equality hb he ho =>
    refine .inclusive List.mem_cons_self (List.mem_cons_of_mem _ List.mem_cons_self) hb he ho ?_
    simp
  | values hne hop hall => exact .values hop hall

/-- Whether conditions can be put into a leaf, in whichever order: they share their argument and
mean something together, and only comparisons of two arguments can require values. -/
structure Combinable (nodeType : String) (members : List Condition) (p : Polarity) : Prop where
  name : Text.isName nodeType = true
  shared : ∃ arg, ∀ c ∈ members, c.arg = arg
  known : ∀ c ∈ members, c.op ≠ .isUnknown
  compatible : Compatible members
  verified : p.verifies = true → ∀ c ∈ members, c.isReference = true

theorem Compatible.congr (h : Compatible members) (hsame : ∀ c, c ∈ members ↔ c ∈ members') :
    Compatible members' := by
  cases h with
  | alone hall => exact .alone fun d hd => hall d ((hsame d).2 hd)
  | inclusive hbound hequality hb he ho hall =>
    exact .inclusive ((hsame _).1 hbound) ((hsame _).1 hequality) hb he ho fun c hc =>
      hall c ((hsame c).2 hc)
  | values hop hall => exact .values hop fun c hc => hall c ((hsame c).2 hc)

/-- Exactly the conditions that can be put into a leaf are accepted. -/
theorem exists_make_iff (hne : members ≠ []) :
    (∃ m, make nodeType members p joinable = .ok m) ↔ Combinable nodeType members p := by
  constructor
  · rintro ⟨m, hm⟩
    obtain ⟨hname, hmembers, harg, hs, hv, -⟩ := make_eq_ok hm
    obtain ⟨hknown, ht⟩ := classify_cases hs
    have hsame : ∀ c, c ∈ m.members ↔ c ∈ members := fun c => by rw [hmembers, mem_canonical]
    exact {
      name := hname
      shared := ⟨m.arg, fun c hc => harg c ((hsame c).2 hc)⟩
      known := fun c hc => hknown c ((hsame c).2 hc)
      compatible := ht.compatible.congr hsame
      verified := fun hp c hc => (ht.isReference c ((hsame c).2 hc)).trans (hv hp) }
  · rintro ⟨hname, ⟨arg, harg⟩, hknown, hcompatible, hv⟩
    obtain ⟨lead, others, s, hcanonical, ht⟩ := hcompatible.exists_together hne harg
    have hmem : ∀ c ∈ lead :: others, c ∈ members := fun c hc =>
      mem_canonical.1 (hcanonical ▸ hc)
    have hlead := hmem lead List.mem_cons_self
    refine ⟨_, make_of_together hname (fun hp => ?_) hcanonical ?_ hknown ht⟩
    · rw [← ht.isReference lead List.mem_cons_self, hv hp lead hlead]
    · exact fun c hc => (harg c hc).trans (harg lead hlead).symm

/-! ## Leaves and sets of conditions -/

/-- A leaf depends only on the set of its conditions: lists with the same conditions, in any order
and with any repetitions, give the same leaf or are refused alike. The conditions of the leaf are
those that were given, in strict canonical order, and it is an inclusive bound exactly if they are
a strict bound and then the equality with its operand. -/
theorem make_sameMembers (nodeType : String) (p : Polarity) (joinable : Bool)
    {members members' : List Condition} (hne : members ≠ [])
    (hsame : ∀ c, c ∈ members ↔ c ∈ members') :
    make nodeType members p joinable = make nodeType members' p joinable ∧
      ((∃ m, make nodeType members p joinable = .ok m) ↔ Combinable nodeType members p) ∧
      ∀ m, make nodeType members p joinable = .ok m →
        (∀ c, c ∈ m.members ↔ c ∈ members) ∧ m.members.Nodup ∧
        (m.members.Pairwise fun a b => le a b = true ∧ le b a = false) ∧
        (m.shape = .valueOrEqual ∨ m.shape = .referenceOrEqual ↔ InclusiveBound m.members) := by
  refine ⟨make_congr hsame, exists_make_iff hne, fun m hm => ?_⟩
  obtain ⟨-, hmembers, -, hs, -⟩ := make_eq_ok hm
  have hincreasing := increasing_members hm
  refine ⟨fun c => by rw [hmembers, mem_canonical], ?_, hincreasing.imp lt_of_order, ?_⟩
  · refine hincreasing.imp fun {a b} hab heq => ?_
    have hself : order b b = .eq := Std.ReflCmp.compare_self
    rw [heq, hself] at hab
    cases hab
  · exact (classify_cases hs).2.orEqual_iff

/-- Ages from 18 on. -/
def fromEighteen : List Condition :=
  [.withOperator "age" .greaterThan "18", .withOperator "age" .equals "18"]

theorem make_sameMembers_fromEighteen :
    make "person" (fromEighteen.reverse ++ fromEighteen) .positive true =
        make "person" fromEighteen .positive true ∧
      ∃ m, make "person" (fromEighteen.reverse ++ fromEighteen) .positive true = .ok m ∧
        m.members = fromEighteen ∧ (m.shape = .valueOrEqual ∨ m.shape = .referenceOrEqual) := by
  have hsame : ∀ c, c ∈ fromEighteen.reverse ++ fromEighteen ↔ c ∈ fromEighteen := by simp
  obtain ⟨heq, -, hleaf⟩ := make_sameMembers "person" .positive true (by decide) hsame
  have hmake : make "person" (fromEighteen.reverse ++ fromEighteen) .positive true = .ok {
      nodeType := "person", lead := .withOperator "age" .greaterThan "18",
      others := [.withOperator "age" .equals "18"], polarity := .positive, joinable := true,
      shape := .valueOrEqual } :=
    rfl
  refine ⟨heq, _, hmake, rfl, ?_⟩
  exact (hleaf _ hmake).2.2.2.2 ⟨_, _, rfl, rfl, rfl, rfl⟩

end AudienceFilter.Multi
