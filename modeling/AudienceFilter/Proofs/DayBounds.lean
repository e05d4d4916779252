import AudienceFilter.Proofs.DateValues
import AudienceFilter.Proofs.LeafSafety
import AudienceFilter.Proofs.RestReached

/-!
# Conditions on days as bounds

Consolidation turns every condition on the day of an argument into strict bounds: an equality into
the two days around it, and an inclusive bound into the strict bound by the day next to it. Only a
day at an edge of the calendar has no such neighbour (`Settles`):

* `settles_alignEquality`, `settles_alignBound`: equalities and inclusive bounds;
* `consolidateLevel_eq_alignDays`: a level on which one condition is left;
* `consolidateLevel_days`: a conjunction of a lower and an upper bound.
-/

namespace AudienceFilter

/-! ## Results that may be missing -/

/-- Whether a result is there and has a property, or is missing for one of two reasons: a date at
an edge of the calendar, or the directive against comparisons by order. -/
def Settles {α : Type} (ctx : Context) (edge : Prop) (r : Result α) (P : α → Prop) : Prop :=
  (∃ x, r = .ok x ∧ P x) ∨
    (edge ∧ ∃ arg value reason, r = .error (.error (.formatting arg value reason))) ∨
    (ctx.isEnabled .disableOrder = true ∧
      ∃ arg reason, r = .error (.error (.orderNotSupported arg reason)))

section Settles

variable {α β : Type} {ctx : Context} {edge edge' : Prop} {r : Result α} {P : α → Prop}
  {Q : β → Prop}

theorem settles_ok {x : α} (h : P x) : Settles ctx edge (.ok x) P := .inl ⟨x, rfl, h⟩

theorem Settles.mono (h : Settles ctx edge r P) (he : edge → edge') : Settles ctx edge' r P :=
  h.imp_right fun h => h.imp_left fun h => ⟨he h.1, h.2⟩

theorem Settles.imp {P' : α → Prop} (h : Settles ctx edge r P) (hp : ∀ x, P x → P' x) :
    Settles ctx edge r P' :=
  h.imp_left fun ⟨x, hx, h⟩ => ⟨x, hx, hp x h⟩

theorem Settles.of_eq_ok (h : Settles ctx edge r P) {x : α} (hr : r = .ok x) : P x := by
  rcases h with ⟨y, rfl, hy⟩ | ⟨-, _, _, _, rfl⟩ | ⟨-, _, _, rfl⟩
  · cases hr
    exact hy
  · cases hr
  · cases hr

/-- A sequence settles if its first step does and its last one does after it. -/
theorem Settles.bind {f : α → Result β} (h : Settles ctx edge r P)
    (hf : ∀ x, P x → Settles ctx edge (f x) Q) : Settles ctx edge (r >>= f) Q := by
  rcases h with ⟨x, rfl, hx⟩ | ⟨he, arg, value, reason, rfl⟩ | ⟨ho, arg, reason, rfl⟩
  · exact hf x hx
  · exact .inr (.inl ⟨he, arg, value, reason, rfl⟩)
  · exact .inr (.inr ⟨ho, arg, reason, rfl⟩)

/-- A date is moved unless the calendar ends there. -/
theorem settles_shiftDate (ctx : Context) (v : DateValue) (arg : String) {k : Int}
    (hk : k = -1 ∨ k = 1) : Settles ctx v.AtEdge (liftError (shiftDate arg v.text k)) fun s =>
      ∃ w, v.shift? k = some w ∧ s = w.text := by
  rw [v.shiftDate_eq]
  cases hs : v.shift? k with
  | some w => exact settles_ok ⟨w, rfl, rfl⟩
  | none =>
    refine .inr (.inl ⟨?_, _, _, _, rfl⟩)
    rcases hk with rfl | rfl
    · exact .inl (DateValue.shift?_eq_none hs)
    · exact .inr (DateValue.shift?_eq_none hs)

end Settles

/-! ## Leaves of days -/

theorem Operator.ne_of_isBound {op other : Operator} (h : op.isBound = true)
    (ho : other.isBound = false) : op ≠ other := by
  rintro rfl
  rw [h] at ho
  cases ho

/-- Whether an argument has at most one value and is compared by whole days, which are written in
the way of its field. -/
structure Context.ComparesDays (ctx : Context) (arg : String) (a : Assignment) : Prop where
  checked : ctx.Checked
  assignment : ctx.assignment arg = .ok a
  aligned : ctx.alignsDays a = true
  oneValue : a.field.isCollection = false
  oneDocument : a.isMultiDoc = false
  formatter : a.field.type.formatter = none

/-- A single condition with a date. -/
def Leaf.day (a : Assignment) (arg : String) (op : Operator) (v : DateValue) : Leaf :=
  .single ⟨a.field.nodeType, .withOperator arg op v.text, .positive, true⟩

/-- A strict bound by a date. -/
def Multi.day (a : Assignment) (arg : String) (op : Operator) (v : DateValue) : Multi :=
  ⟨a.field.nodeType, .withOperator arg op v.text, [], .positive, true, .value⟩

/-- A bound by a date, which is included. -/
def Multi.dayOrEqual (a : Assignment) (arg : String) (op : Operator) (v : DateValue) : Multi :=
  ⟨a.field.nodeType, .withOperator arg op v.text, [.withOperator arg .equals v.text], .positive,
    true, .valueOrEqual⟩

/-- Strict bounds by two dates. -/
def Leaf.days (a : Assignment) (arg : String) (lower upper : DateValue) : Leaf :=
  .between ⟨.day a arg .greaterThan lower, .day a arg .lessThan upper, true⟩

namespace Context

variable {ctx : Context} {arg : String} {a : Assignment}

theorem mayJoin_positive (ctx : Context) (nodeType arg : String) (inDocument : Bool) :
    ctx.mayJoin nodeType arg false inDocument false = .ok true := by
  simp [mayJoin]

theorem between_days (lower upper : DateValue) :
    ctx.between (.day a arg .greaterThan lower) (.day a arg .lessThan upper) =
      .ok ⟨.day a arg .greaterThan lower, .day a arg .lessThan upper, true⟩ := by
  refine bind_eq_ok.2 ⟨true, liftError_eq_ok.2 (mayJoin_positive ..), liftFault_eq_ok.2 ?_⟩
  simp [Between.make, Multi.day, Multi.isLowerBound, Multi.isUpperBound, Multi.leadOp, Multi.arg,
    Shape.isReference, Condition.withOperator, Polarity.verifies, Polarity.verifiesLeft,
    Polarity.verifiesRight]

variable (h : ctx.ComparesDays arg a)
include h

theorem singleTree_day (op : Operator) (v : DateValue) (hop : op ≠ .isUnknown) :
    ctx.singleTree (.withOperator arg op v.text) .positive = .ok (.leaf (.day a arg op v)) := by
  have hname := h.checked.assignment h.assignment
  have hjoin : ctx.mayJoin a.field.nodeType arg (Polarity.positive.isNegated != (op == .isUnknown))
      false Polarity.positive.verifies = .ok true := by
    rw [beq_eq_false_iff_ne.2 hop]
    exact mayJoin_positive ..
  have hmake : Single.make a.field.nodeType (.withOperator arg op v.text) .positive true =
      .ok ⟨a.field.nodeType, .withOperator arg op v.text, .positive, true⟩ := by
    rw [Single.make, hname]
    rfl
  refine bind_eq_ok.2 ⟨_, bind_eq_ok.2 ⟨a, liftError_eq_ok.2 h.assignment, ?_⟩, rfl⟩
  exact bind_eq_ok.2 ⟨true, liftError_eq_ok.2 hjoin, liftFault_eq_ok.2 hmake⟩

theorem multi_day (op : Operator) (v : DateValue) (hop : op ≠ .isUnknown) :
    ctx.multi a.field.nodeType (.withOperator arg op v.text) [] .positive =
      .ok (.day a arg op v) := by
  have hname := h.checked.assignment h.assignment
  refine bind_eq_ok.2 ⟨true, liftError_eq_ok.2 (mayJoin_positive ..), liftFault_eq_ok.2 ?_⟩
  exact Multi.make_of_together hname (fun hp => absurd hp (by decide))
    (Multi.canonical_singleton _) (by simp) (by simpa [Condition.withOperator] using hop) .alone

theorem multi_dayOrEqual (op : Operator) (v : DateValue) (hop : op.isBound = true) :
    ctx.multi a.field.nodeType (.withOperator arg op v.text) [.withOperator arg .equals v.text]
      .positive = .ok (.dayOrEqual a arg op v) := by
  have hname := h.checked.assignment h.assignment
  have hknown : op ≠ .isUnknown := Operator.ne_of_isBound hop rfl
  refine bind_eq_ok.2 ⟨true, liftError_eq_ok.2 (mayJoin_positive ..), liftFault_eq_ok.2 ?_⟩
  exact Multi.make_of_together hname (fun hp => absurd hp (by decide))
    (Multi.canonical_inclusive hop) (by simp [Condition.withOperator])
    (by simpa [Condition.withOperator] using hknown) (.inclusive hop rfl rfl)

theorem alignsDaysOf_eq : ctx.alignsDaysOf arg = .ok true := by
  rw [alignsDaysOf, h.assignment, Except.map, h.aligned]

end Context

/-! ## Aligned conditions -/

namespace MatchTree

variable {ctx : Context} {arg : String} {a : Assignment} {op : Operator}

section Aligned

variable (h : ctx.ComparesDays arg a)
include h

theorem alignDays_day (hop : op ≠ .equals) (v : DateValue) :
    alignDays ctx (.leaf (.day a arg op v)) = .ok (.leaf (.day a arg op v)) := by
  refine bind_eq_ok.2 ⟨true, liftError_eq_ok.2 (ctx.alignsDaysOf_eq h), ?_⟩
  cases op with
  | equals => exact absurd rfl hop
  | _ => rfl

theorem alignDays_days (lower upper : DateValue) :
    alignDays ctx (.leaf (.days a arg lower upper)) = .ok (.leaf (.days a arg lower upper)) :=
  bind_eq_ok.2 ⟨true, liftError_eq_ok.2 (ctx.alignsDaysOf_eq h), rfl⟩

/-- The equality with a day becomes the bounds by the days around it. -/
theorem settles_alignEquality (v : DateValue) :
    Settles ctx v.AtEdge (alignDays ctx (.leaf (.day a arg .equals v))) fun t =>
      ∃ lower upper, v.shift? (-1) = some lower ∧ v.shift? 1 = some upper ∧
        t = .leaf (.days a arg lower upper) := by
  have halign : alignDays ctx (.leaf (.day a arg .equals v)) =
      alignEquality ctx ⟨a.field.nodeType, .withOperator arg .equals v.text, .positive, true⟩
        v.text := by
    have hbind : alignDays ctx (.leaf (.day a arg .equals v)) =
        liftError (ctx.alignsDaysOf arg) >>= fun aligned => if aligned then
          alignEquality ctx ⟨a.field.nodeType, .withOperator arg .equals v.text, .positive, true⟩
            v.text else pure (.leaf (.day a arg .equals v)) := rfl
    rw [hbind, ctx.alignsDaysOf_eq h]
    rfl
  rw [halign, alignEquality]
  refine (settles_shiftDate ctx v arg (.inl rfl)).bind ?_
  rintro _ ⟨lower, hlower, rfl⟩
  refine (settles_shiftDate ctx v arg (.inr rfl)).bind ?_
  rintro _ ⟨upper, hupper, rfl⟩
  have hlow := ctx.multi_day h .greaterThan lower nofun
  have hup := ctx.multi_day h .lessThan upper nofun
  refine .inl ⟨_, bind_eq_ok.2 ⟨_, hlow, bind_eq_ok.2 ⟨_, hup, ?_⟩⟩, lower, upper, hlower, hupper,
    rfl⟩
  exact bind_eq_ok.2 ⟨_, ctx.between_days lower upper, rfl⟩

/-- An inclusive bound becomes the strict bound by the day next to it. -/
theorem settles_alignBound (hop : op.isBound = true) (v : DateValue) :
    Settles ctx v.AtEdge (alignDays ctx (.leaf (.multi (.dayOrEqual a arg op v)))) fun t =>
      ∃ w, v.shift? (if op = .greaterThan then -1 else 1) = some w ∧
        t = .leaf (.day a arg op w) := by
  have halign : alignDays ctx (.leaf (.multi (.dayOrEqual a arg op v))) =
      alignBound ctx (.dayOrEqual a arg op v) := by
    have hbind : alignDays ctx (.leaf (.multi (.dayOrEqual a arg op v))) =
        liftError (ctx.alignsDaysOf arg) >>= fun aligned => if aligned then
          alignBound ctx (.dayOrEqual a arg op v)
        else pure (.leaf (.multi (.dayOrEqual a arg op v))) := rfl
    rw [hbind, ctx.alignsDaysOf_eq h]
    rfl
  rw [halign]
  cases op with
  | greaterThan =>
    refine (settles_shiftDate ctx v arg (.inl rfl)).bind ?_
    rintro _ ⟨w, hw, rfl⟩
    exact .inl ⟨_, ctx.singleTree_day h .greaterThan w nofun, w, hw, rfl⟩
  | lessThan =>
    refine (settles_shiftDate ctx v arg (.inr rfl)).bind ?_
    rintro _ ⟨w, hw, rfl⟩
    exact .inl ⟨_, ctx.singleTree_day h .lessThan w nofun, w, hw, rfl⟩
  | _ => cases hop

end Aligned

/-! ## Levels -/

section Singleton

variable {t : MatchTree} {p : Polarity}

theorem mergeBounds_singleton : mergeBounds ctx p [t] = .ok [t] :=
  mergeBounds_of_settled fun _ => pairBounds_of_length_le_one (List.length_filter_le _ _)

theorem mergeValues_singleton (ha : alignDays ctx t = .ok t) :
    mergeValues ctx p [t] = .ok [t] := by
  refine mergeValues_of_settled (by simp) (fun x hx => List.mem_singleton.1 hx ▸ ha) ?_
  exact fun x hx y hy _ _ _ => (List.mem_singleton.1 hx).trans (List.mem_singleton.1 hy).symm

theorem addUnknown_singleton {j : Connective} {covered : List String}
    (hc : complementArg? t = none) : addUnknown ctx j covered [] [t] = .ok [t] := by
  refine addUnknown_of_branched fun x hx arg harg => ?_
  rw [List.mem_singleton.1 hx, hc] at harg
  cases harg

end Singleton

/-- Where one tree is left on a level, its days are aligned and nothing else happens. -/
theorem consolidateLevel_eq_alignDays {j : Connective} {covered : List String}
    {items : List MatchTree} {t : MatchTree}
    (hone : mergeBoundPairs ctx (mergePolarity j) items = .ok [t])
    (ht : ∀ r, alignDays ctx t = .ok r → alignDays ctx r = .ok r ∧ complementArg? r = none) :
    consolidateLevel ctx j covered items = alignDays ctx t := by
  rw [consolidateLevel, hone]
  show ([t].mapM (alignDays ctx) >>= _) = _
  rw [List.mapM_cons]
  cases hr : alignDays ctx t with
  | error e => rfl
  | ok r =>
    obtain ⟨haligned, hcomplement⟩ := ht r hr
    show (mergeBounds ctx (boundPolarity j) [r] >>= _) = _
    rw [mergeBounds_singleton]
    show (mergeValues ctx (mergePolarity j) [r] >>= _) = _
    rw [mergeValues_singleton haligned]
    show (addUnknown ctx j covered [] [r] >>= _) = _
    rw [addUnknown_singleton hcomplement]
    rfl

/-- Two bounds of an argument become one leaf. -/
theorem mergeBounds_pair {x y r : MatchTree} {p : Polarity} (hx : boundArg? p x = some arg)
    (hy : boundArg? p y = some arg) (hr : pairBounds ctx arg [x, y] = .ok (some r)) :
    mergeBounds ctx p [x, y] = .ok [r] := by
  have hkeyed : [x, y].map (fun t => (boundArg? p t, t)) = [(some arg, x), (some arg, y)] := by
    simp [hx, hy]
  have hkeys : Classes.keys [(some arg, x), (some arg, y)] = [arg] := by
    simp [Classes.keys, Distinct.ofList, Distinct.append, Distinct.push]
  have hmembers : Classes.members [(some arg, x), (some arg, y)] arg = [x, y] := by
    simp [Classes.members]
  rw [mergeBounds, hkeyed, Classes.merge, hkeys]
  refine bind_eq_ok.2 ⟨[(arg, some r)], mapM_cons_eq_ok.2 ⟨_, [], ?_, rfl, rfl⟩, ?_⟩
  · rw [hmembers, hr]
    rfl
  · simp [Classes.collapse, Classes.lookup, pure, Except.pure]

section Levels

variable (h : ctx.ComparesDays arg a)
include h

/-- A bound and its equality become one inclusive bound. -/
theorem mergeBoundPairs_day (hop : op.isBound = true) (v : DateValue) :
    mergeBoundPairs ctx .positive [.leaf (.day a arg op v), .leaf (.day a arg .equals v)] =
      .ok [.leaf (.multi (.dayOrEqual a arg op v))] := by
  have hne : op ≠ .equals := Operator.ne_of_isBound hop rfl
  have hpair : boundPair? .positive [.leaf (.day a arg op v), .leaf (.day a arg .equals v)] =
      some (⟨a.field.nodeType, .withOperator arg op v.text, .positive, true⟩, 0, 1) := by
    have hbound : singleBound? .positive (.leaf (.day a arg op v)) =
        some ⟨a.field.nodeType, .withOperator arg op v.text, .positive, true⟩ := by
      simp [singleBound?, Leaf.day, single?, Option.filter_some, Condition.withOperator, hop]
    have hequality : [MatchTree.leaf (.day a arg op v), .leaf (.day a arg .equals v)].findIdx?
        (isEqualityOf ⟨a.field.nodeType, .withOperator arg op v.text, .positive, true⟩) =
          some 1 := by
      simp [Leaf.day, single?, isEqualityOf, Condition.withOperator, hne, List.findIdx?_cons]
    simp [boundPair?, List.zipIdx_cons, hbound, hequality]
  rw [mergeBoundPairs]
  split
  · next hnone =>
    rw [hpair] at hnone
    cases hnone
  · next bound i k hsome =>
    rw [hpair] at hsome
    cases hsome
    refine bind_eq_ok.2 ⟨_, ctx.multi_dayOrEqual h op v hop, ?_⟩
    exact mergeBoundPairs_of_unpaired (boundPair?_singleton _ _)

theorem consolidateLevel_orEqual {covered : List String} (hop : op.isBound = true)
    (v : DateValue) :
    Settles ctx v.AtEdge (consolidateLevel ctx .or covered
      [.leaf (.day a arg op v), .leaf (.day a arg .equals v)]) fun t =>
        ∃ w, v.shift? (if op = .greaterThan then -1 else 1) = some w ∧
          t = .leaf (.day a arg op w) := by
  have hsettles := settles_alignBound h hop v
  have hne : op ≠ .equals := Operator.ne_of_isBound hop rfl
  rw [consolidateLevel_eq_alignDays (mergeBoundPairs_day h hop v) fun r hr => ?_]
  · exact hsettles
  · obtain ⟨w, -, rfl⟩ := hsettles.of_eq_ok hr
    exact ⟨alignDays_day h hne w, rfl⟩

/-- A lower and an upper bound, in either order. -/
theorem pairBounds_days (lower upper : DateValue) {bounds : List MatchTree}
    (hb : bounds = [.leaf (.day a arg .greaterThan lower), .leaf (.day a arg .lessThan upper)] ∨
      bounds = [.leaf (.day a arg .lessThan upper), .leaf (.day a arg .greaterThan lower)]) :
    pairBounds ctx arg bounds = .ok (some (.leaf (.days a arg lower upper))) := by
  have hvalued : liftError (isSingleValued ctx arg) = .ok true := by
    rw [isSingleValued, h.assignment, Except.map, h.oneValue, h.oneDocument]
    rfl
  have hmulti : ∀ op v, op ≠ .isUnknown →
      toMulti? ctx (.leaf (.day a arg op v)) = .ok (some (.day a arg op v)) := by
    intro op v hop
    exact map_eq_ok.2 ⟨_, ctx.multi_day h op v hop, rfl⟩
  have hpair : (ctx.between (.day a arg .greaterThan lower) (.day a arg .lessThan upper)).map
      (fun pair => some (MatchTree.leaf (.between pair))) =
        .ok (some (.leaf (.days a arg lower upper))) :=
    map_eq_ok.2 ⟨_, ctx.between_days lower upper, rfl⟩
  rcases hb with rfl | rfl
  · refine bind_eq_ok.2 ⟨true, hvalued, bind_eq_ok.2 ⟨_, hmulti .greaterThan lower nofun, ?_⟩⟩
    exact bind_eq_ok.2 ⟨_, hmulti .lessThan upper nofun, hpair⟩
  · refine bind_eq_ok.2 ⟨true, hvalued, bind_eq_ok.2 ⟨_, hmulti .lessThan upper nofun, ?_⟩⟩
    exact bind_eq_ok.2 ⟨_, hmulti .greaterThan lower nofun, hpair⟩

theorem consolidateLevel_pair {v w : DateValue} {op' : Operator} {covered : List String}
    {r : MatchTree} (hop : op.isBound = true) (hop' : op'.isBound = true)
    (hr : pairBounds ctx arg [.leaf (.day a arg op v), .leaf (.day a arg op' w)] = .ok (some r))
    (ha : alignDays ctx r = .ok r) (hc : complementArg? r = none) :
    consolidateLevel ctx .and covered [.leaf (.day a arg op v), .leaf (.day a arg op' w)] =
      .ok r := by
  have hunpaired : boundPair? .negated [.leaf (.day a arg op v), .leaf (.day a arg op' w)] =
      none := by
    rw [boundPair?_eq_none_iff]
    intro b e hb _ hp
    simp only [Leaf.day, List.mem_cons, leaf.injEq, Leaf.single.injEq, List.not_mem_nil,
      or_false] at hb
    rcases hb with rfl | rfl <;> cases hp
  have haligned : ∀ t ∈ [MatchTree.leaf (.day a arg op v), .leaf (.day a arg op' w)],
      alignDays ctx t = .ok t := by
    rw [List.forall_mem_cons, List.forall_mem_singleton]
    exact ⟨alignDays_day h (Operator.ne_of_isBound hop rfl) v,
      alignDays_day h (Operator.ne_of_isBound hop' rfl) w⟩
  have hbound : ∀ {o : Operator} (x : DateValue), o.isBound = true →
      boundArg? .positive (.leaf (.day a arg o x)) = some arg := by
    intro o x ho
    simp [boundArg?, Leaf.day, Condition.withOperator, Condition.value?, ho]
  refine bind_eq_ok.2 ⟨_, mergeBoundPairs_of_unpaired hunpaired, ?_⟩
  refine bind_eq_ok.2 ⟨_, mapM_eq_ok_self haligned, ?_⟩
  refine bind_eq_ok.2 ⟨[r], mergeBounds_pair (hbound v hop) (hbound w hop') hr, ?_⟩
  refine bind_eq_ok.2 ⟨[r], mergeValues_singleton ha, ?_⟩
  exact bind_eq_ok.2 ⟨[r], addUnknown_singleton hc, rfl⟩

/-- A lower and an upper bound by days become one leaf. -/
theorem consolidateLevel_days (lower upper : DateValue) {covered : List String}
    {items : List MatchTree}
    (hi : items = [.leaf (.day a arg .greaterThan lower), .leaf (.day a arg .lessThan upper)] ∨
      items = [.leaf (.day a arg .lessThan upper), .leaf (.day a arg .greaterThan lower)]) :
    consolidateLevel ctx .and covered items = .ok (.leaf (.days a arg lower upper)) := by
  have hpair := pairBounds_days h lower upper hi
  have haligned := alignDays_days h lower upper
  rcases hi with rfl | rfl
  · exact consolidateLevel_pair h rfl rfl hpair haligned rfl
  · exact consolidateLevel_pair h rfl rfl hpair haligned rfl

end Levels

end MatchTree

end AudienceFilter
