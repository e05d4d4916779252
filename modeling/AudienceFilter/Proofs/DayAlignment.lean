import AudienceFilter.Proofs.ConsolidatingAgain
import AudienceFilter.Proofs.DayRanges

/-!
# Comparisons by whole days

An argument that is compared by whole days is asked for a day, for the days above or below a bound,
or for those between two bounds (`DayQuery`). Consolidation leaves one leaf of strict bounds of it:

* `settles_consolidated_equality`, `settles_consolidateBelow_bound`, `settles_consolidated_bounds`:
  the dates of these bounds;
* `DateValue.before_iff`, `DateValue.between_iff`: when the points in time before a date are those
  before its day;
* `settles_dayQuery`: when the range of a query has the points in time on the days that were asked
  for, and `dayQuery_instants_iff` for mappings that were built.
-/

namespace AudienceFilter

/-! ## Queries of days -/

/-- A bound by a date, which may be included. -/
structure DateBound where
  value : DateValue
  isInclusive : Bool

namespace DateBound

/-- The bound as an expression: a disjunction with the equality if it is included. -/
def expression (b : DateBound) (arg : String) (op : Operator) : Expression :=
  let strict := Expression.condition (.withOperator arg op b.value.text)
  if b.isInclusive then
    .combined .or [strict, .condition (.withOperator arg .equals b.value.text)]
  else strict

/-- Whether a day lies above the bound. -/
def isBelow (b : DateBound) (day : Int) : Bool :=
  if b.isInclusive then b.value.day ≤ day else b.value.day < day

/-- Whether a day lies below the bound. -/
def isAbove (b : DateBound) (day : Int) : Bool :=
  if b.isInclusive then day ≤ b.value.day else day < b.value.day

end DateBound

/-- What an argument can be asked for: a day, the days above or below a bound, or those between two
bounds, the lower of which is stated first or last. -/
inductive DayQuery where
  | on (value : DateValue)
  | above (bound : DateBound)
  | below (bound : DateBound)
  | within (lower upper : DateBound) (lowerFirst : Bool)

namespace DayQuery

/-- The query as an expression. -/
def expression (arg : String) : DayQuery → Expression
  | on v => .condition (.withOperator arg .equals v.text)
  | above b => b.expression arg .greaterThan
  | below b => b.expression arg .lessThan
  | within lower upper lowerFirst =>
    let lower := lower.expression arg .greaterThan
    let upper := upper.expression arg .lessThan
    .combined .and (if lowerFirst then [lower, upper] else [upper, lower])

/-- The dates that the query names. -/
def values : DayQuery → List DateValue
  | on v => [v]
  | above b => [b.value]
  | below b => [b.value]
  | within lower upper _ => [lower.value, upper.value]

/-- Whether a day is one of those asked for. -/
def holds : DayQuery → Int → Bool
  | on v, day => day = v.day
  | above b, day => b.isBelow day
  | below b, day => b.isAbove day
  | within lower upper _, day => lower.isBelow day && upper.isAbove day

/-- Whether the time of an upper bound leaves nothing of its day: the bound is included, is at
midnight, or the lower bound leaves nothing of that day. -/
def endsOnDay : DayQuery → Bool
  | on _ => true
  | above _ => true
  | below b => b.isInclusive || b.value.isMidnight
  | within lower upper _ =>
    upper.isInclusive || upper.value.isMidnight || !lower.isBelow upper.value.day

end DayQuery

/-! ## Trees of bounds -/

namespace DateBound

variable {b : DateBound} {w : DateValue}

/-- The tree of a bound. -/
def tree (b : DateBound) (a : Assignment) (arg : String) (op : Operator) : MatchTree :=
  let strict := MatchTree.leaf (.day a arg op b.value)
  if b.isInclusive then .combined .or [strict, .leaf (.day a arg .equals b.value)] else strict

/-- The trees of a lower and an upper bound, in the order in which these are stated. -/
def trees (lower upper : DateBound) (lowerFirst : Bool) (a : Assignment) (arg : String) :
    List MatchTree :=
  let lower := lower.tree a arg .greaterThan
  let upper := upper.tree a arg .lessThan
  if lowerFirst then [lower, upper] else [upper, lower]

/-- Whether a date is a strict bound of the same days: the day next to one that is included. -/
def IsStrictAt (b : DateBound) (op : Operator) (w : DateValue) : Prop :=
  if b.isInclusive then b.value.shift? (if op = .greaterThan then -1 else 1) = some w
  else w = b.value

theorem isBelow_iff (h : b.IsStrictAt .greaterThan w) (day : Int) :
    b.isBelow day = true ↔ w.day < day := by
  unfold IsStrictAt at h
  unfold isBelow
  split at h
  · next hi =>
    have hday := (DateValue.shift?_eq_some h).1
    rw [if_pos rfl] at hday
    rw [if_pos hi, decide_eq_true_eq]
    omega
  · next hi =>
    rw [if_neg hi, decide_eq_true_eq, h]

theorem isAbove_iff (h : b.IsStrictAt .lessThan w) (day : Int) :
    b.isAbove day = true ↔ day < w.day := by
  unfold IsStrictAt at h
  unfold isAbove
  split at h
  · next hi =>
    have hday := (DateValue.shift?_eq_some h).1
    rw [if_neg nofun] at hday
    rw [if_pos hi, decide_eq_true_eq]
    omega
  · next hi =>
    rw [if_neg hi, decide_eq_true_eq, h]

/-- A bound that is included loses its time. -/
theorem isMidnight_of_isStrictAt {op : Operator} (h : b.IsStrictAt op w) :
    w.isMidnight = (b.isInclusive || b.value.isMidnight) := by
  unfold IsStrictAt at h
  split at h
  · next hi => rw [(DateValue.shift?_eq_some h).2, hi, Bool.true_or]
  · next hi => rw [h, eq_false_of_ne_true hi, Bool.false_or]

/-- The day behind a lower bound is missing only at an edge, and never if the bound is included. -/
theorem atEdge_of_shift? (h : b.IsStrictAt .greaterThan w) (hw : w.shift? 1 = none) :
    b.value.AtEdge := by
  unfold IsStrictAt at h
  split at h
  · obtain ⟨x, hx⟩ := DateValue.shift?_back h
    cases hw.symm.trans hx
  · rw [h] at hw
    exact .inr (DateValue.shift?_eq_none hw)

end DateBound

namespace MatchTree

variable {ctx : Context} {arg : String} {a : Assignment}

/-- A leaf is consolidated by alignment alone. -/
theorem consolidated_leaf {l : Leaf}
    (hl : ∀ r, alignDays ctx (.leaf l) = .ok r →
      alignDays ctx r = .ok r ∧ complementArg? r = none) :
    consolidated ctx (.leaf l) = alignDays ctx (.leaf l) :=
  consolidateLevel_eq_alignDays (mergeBoundPairs_of_unpaired (boundPair?_singleton _ _)) hl

theorem flattened_days (j : Connective) (op op' : Operator) (v w : DateValue) (hne : op ≠ op') :
    flattened j [.leaf (.day a arg op v), .leaf (.day a arg op' w)] =
      [.leaf (.day a arg op v), .leaf (.day a arg op' w)] :=
  flattened_of_flat (by simp [opened]) (by simp [Leaf.day, Condition.withOperator, hne])

theorem settles_consolidateEach_pair {edge : Prop} {covered : List String} {s t : MatchTree}
    {P Q : MatchTree → Prop} (hs : Settles ctx edge (consolidateBelow ctx covered s) P)
    (ht : Settles ctx edge (consolidateBelow ctx covered t) Q) :
    Settles ctx edge (consolidateEach ctx covered [s, t]) fun ts =>
      ∃ x y, P x ∧ Q y ∧ ts = [x, y] := by
  refine hs.bind fun x hx => ?_
  have hlast : Settles ctx edge (consolidateEach ctx covered [t]) fun ts => ∃ y, Q y ∧ ts = [y] :=
    ht.bind fun y hy => settles_ok ⟨y, hy, rfl⟩
  refine hlast.bind ?_
  rintro _ ⟨y, hy, rfl⟩
  exact settles_ok ⟨x, y, hx, hy, rfl⟩

section Bounds

variable (h : ctx.ComparesDays arg a)
include h

theorem build_day (known : List String) (op : Operator) (v : DateValue) (hop : op ≠ .isUnknown) :
    build ctx known (.condition (.withOperator arg op v.text)) = .ok (.leaf (.day a arg op v)) := by
  rw [build, ctx.singleTree_day h op v hop]

theorem build_bound (known : List String) (b : DateBound) (op : Operator)
    (hop : op.isBound = true) :
    build ctx known (b.expression arg op) = .ok (b.tree a arg op) := by
  have hstrict := fun known =>
    build_day h known op b.value (Operator.ne_of_isBound hop rfl)
  have hequal := fun known => build_day h known .equals b.value nofun
  unfold DateBound.expression DateBound.tree
  split
  · refine build_combined_eq_ok.2 ⟨_, mapM_cons_eq_ok.2 ⟨_, _, hstrict _, ?_, rfl⟩, by simp, rfl⟩
    exact mapM_cons_eq_ok.2 ⟨_, _, hequal _, rfl, rfl⟩
  · exact hstrict known

theorem build_bounds (lower upper : DateBound) (lowerFirst : Bool) :
    ofExpression ctx ((DayQuery.within lower upper lowerFirst).expression arg) =
      .ok (.combined .and (lower.trees upper lowerFirst a arg)) := by
  have hlow := fun known => build_bound h known lower .greaterThan rfl
  have hup := fun known => build_bound h known upper .lessThan rfl
  cases lowerFirst with
  | true =>
    refine build_combined_eq_ok.2 ⟨_, mapM_cons_eq_ok.2 ⟨_, _, hlow _, ?_, rfl⟩, by simp, rfl⟩
    exact mapM_cons_eq_ok.2 ⟨_, _, hup _, rfl, rfl⟩
  | false =>
    refine build_combined_eq_ok.2 ⟨_, mapM_cons_eq_ok.2 ⟨_, _, hup _, ?_, rfl⟩, by simp, rfl⟩
    exact mapM_cons_eq_ok.2 ⟨_, _, hlow _, rfl, rfl⟩

theorem settles_consolidateBelow_bound (covered : List String) (b : DateBound) (op : Operator)
    (hop : op.isBound = true) :
    Settles ctx b.value.AtEdge (consolidateBelow ctx covered (b.tree a arg op)) fun t =>
      ∃ w, b.IsStrictAt op w ∧ t = .leaf (.day a arg op w) := by
  unfold DateBound.IsStrictAt DateBound.tree
  split
  · have heach : consolidateEach ctx (coveredOn .or covered
        [.leaf (.day a arg op b.value), .leaf (.day a arg .equals b.value)])
        [.leaf (.day a arg op b.value), .leaf (.day a arg .equals b.value)] =
          .ok [.leaf (.day a arg op b.value), .leaf (.day a arg .equals b.value)] := by
      rw [consolidateEach_eq_mapM]
      exact mapM_eq_ok_self (by simp [Leaf.day, consolidateBelow])
    rw [consolidateBelow, heach]
    show Settles ctx _ (consolidateLevel ctx .or _ (flattened .or _)) _
    rw [flattened_days .or op .equals _ _ (Operator.ne_of_isBound hop rfl)]
    exact consolidateLevel_orEqual h hop b.value
  · exact settles_ok ⟨_, rfl, rfl⟩

theorem consolidated_bound (b : DateBound) (op : Operator) (hop : op.isBound = true) :
    consolidated ctx (b.tree a arg op) = consolidateBelow ctx [] (b.tree a arg op) := by
  unfold DateBound.tree
  split
  · rfl
  · have haligned := alignDays_day h (Operator.ne_of_isBound hop rfl) b.value
    show consolidated ctx (.leaf (.day a arg op b.value)) = .ok _
    rw [consolidated_leaf, haligned]
    intro r hr
    cases haligned.symm.trans hr
    exact ⟨haligned, rfl⟩

theorem settles_consolidated_equality (v : DateValue) :
    Settles ctx v.AtEdge (consolidated ctx (.leaf (.day a arg .equals v))) fun t =>
      ∃ lower upper, v.shift? (-1) = some lower ∧ v.shift? 1 = some upper ∧
        t = .leaf (.days a arg lower upper) := by
  have hsettles := settles_alignEquality h v
  rw [consolidated_leaf fun r hr => ?_]
  · exact hsettles
  · obtain ⟨lower, upper, -, -, rfl⟩ := hsettles.of_eq_ok hr
    exact ⟨alignDays_days h lower upper, rfl⟩

/-- A lower and an upper bound, in either order. -/
theorem settles_consolidated_bounds (lower upper : DateBound) (lowerFirst : Bool) :
    Settles ctx (lower.value.AtEdge ∨ upper.value.AtEdge)
      (consolidated ctx (.combined .and (lower.trees upper lowerFirst a arg))) fun t =>
      ∃ v w, lower.IsStrictAt .greaterThan v ∧ upper.IsStrictAt .lessThan w ∧
        t = .leaf (.days a arg v w) := by
  have hlow := fun covered => (settles_consolidateBelow_bound h covered lower
    .greaterThan rfl).mono (Or.inl : _ → lower.value.AtEdge ∨ upper.value.AtEdge)
  have hup := fun covered => (settles_consolidateBelow_bound h covered upper
    .lessThan rfl).mono (Or.inr : _ → lower.value.AtEdge ∨ upper.value.AtEdge)
  cases lowerFirst with
  | true =>
    refine (settles_consolidateEach_pair (hlow _) (hup _)).bind ?_
    rintro _ ⟨_, _, ⟨v, hv, rfl⟩, ⟨w, hw, rfl⟩, rfl⟩
    rw [flattened_days .and .greaterThan .lessThan v w nofun,
      consolidateLevel_days h v w (.inl rfl)]
    exact settles_ok ⟨v, w, hv, hw, rfl⟩
  | false =>
    refine (settles_consolidateEach_pair (hup _) (hlow _)).bind ?_
    rintro _ ⟨_, _, ⟨w, hw, rfl⟩, ⟨v, hv, rfl⟩, rfl⟩
    rw [flattened_days .and .lessThan .greaterThan w v nofun,
      consolidateLevel_days h v w (.inr rfl)]
    exact settles_ok ⟨v, w, hv, hw, rfl⟩

end Bounds

end MatchTree

/-! ## Days and points in time -/

namespace InstantRange

theorem contains_from_iff (lower t : Int) :
    contains ⟨some lower, true, none, true⟩ t = true ↔ lower ≤ t := by
  simp [contains]

theorem contains_before_iff (upper t : Int) :
    contains ⟨none, true, some upper, false⟩ t = true ↔ t < upper := by
  simp [contains]

theorem contains_between_iff (lower upper t : Int) :
    contains ⟨some lower, true, some upper, false⟩ t = true ↔ lower ≤ t ∧ t < upper := by
  simp [contains]

end InstantRange

theorem lt_dayOfInstant_iff (day t : Int) :
    day < dayOfInstant t ↔ (day + 1) * dayMillis ≤ t := by
  simp only [dayOfInstant, dayMillis]
  omega

namespace DateValue

/-- What lies before a date is what lies before its day only if the date is at midnight. -/
theorem before_iff (upper : DateValue) :
    (∀ t, t < upper.instant ↔ dayOfInstant t < upper.day) ↔ upper.isMidnight = true := by
  obtain ⟨hstart, -⟩ := upper.instant_bounds
  simp only [dayOfInstant, upper.isMidnight_iff, dayMillis] at hstart ⊢
  constructor
  · intro hexact
    have hday := hexact (upper.day * 86400000)
    omega
  · intro hmidnight t
    omega

/-- What lies between a day and a date is what lies before the day of the date only if the date is
at midnight, or that day does not lie behind the other. -/
theorem between_iff (day : Int) (upper : DateValue) :
    (∀ t, (day + 1) * dayMillis ≤ t ∧ t < upper.instant ↔
      day < dayOfInstant t ∧ dayOfInstant t < upper.day) ↔
        upper.isMidnight = true ∨ ¬ day < upper.day := by
  obtain ⟨hstart, hend⟩ := upper.instant_bounds
  simp only [dayOfInstant, upper.isMidnight_iff, dayMillis] at hstart hend ⊢
  constructor
  · intro hexact
    have hday := hexact (upper.day * 86400000)
    omega
  · intro hmidnight t
    omega

end DateValue

/-! ## Queries by days -/

/-- Whether the text of a query is a range, which has the points in time on the days of a set if
and only if it is `exact`. -/
def ShowsDays (a : Assignment) (days : Int → Bool) (exact : Bool) (q : FilterQuery) : Prop :=
  ∃ range, Shows a range q ∧
    ((∀ t, range.contains t = true ↔ days (dayOfInstant t) = true) ↔ exact = true)

namespace Context

variable {ctx : Context} {arg : String} {a : Assignment} (h : ctx.ComparesDays arg a)
include h

theorem settles_aboveBound {b : DateBound} {v : DateValue} (hv : b.IsStrictAt .greaterThan v) :
    Settles ctx b.value.AtEdge (ctx.fragment (.leaf (.day a arg .greaterThan v)))
      (ShowsDays a b.isBelow true) := by
  refine ((settles_above h v).mono (DateBound.atEdge_of_shift? hv)).imp fun q hq => ⟨_, hq, ?_⟩
  simp only [InstantRange.contains_from_iff, DateBound.isBelow_iff hv, lt_dayOfInstant_iff,
    implies_true]

theorem settles_belowBound {edge : Prop} {b : DateBound} {v : DateValue}
    (hv : b.IsStrictAt .lessThan v) :
    Settles ctx edge (ctx.fragment (.leaf (.day a arg .lessThan v)))
      (ShowsDays a b.isAbove (b.isInclusive || b.value.isMidnight)) := by
  refine (settles_below h v).imp fun q hq => ⟨_, hq, ?_⟩
  simp only [InstantRange.contains_before_iff, DateBound.isAbove_iff hv, DateValue.before_iff,
    DateBound.isMidnight_of_isStrictAt hv]

theorem settles_withinBounds (lower upper : DateBound) {v w : DateValue}
    (hv : lower.IsStrictAt .greaterThan v) (hw : upper.IsStrictAt .lessThan w) :
    Settles ctx lower.value.AtEdge (ctx.fragment (.leaf (.days a arg v w)))
      (ShowsDays a (fun day => lower.isBelow day && upper.isAbove day)
        (upper.isInclusive || upper.value.isMidnight || !lower.isBelow upper.value.day)) := by
  refine ((settles_days h v w).mono (DateBound.atEdge_of_shift? hv)).imp fun q hq => ⟨_, hq, ?_⟩
  simp only [InstantRange.contains_between_iff, Bool.and_eq_true, DateBound.isBelow_iff hv,
    DateBound.isAbove_iff hw, DateValue.between_iff, DateBound.isMidnight_of_isStrictAt hw]
  rw [Bool.or_eq_true (_ || _), Bool.not_eq_true', ← Bool.not_eq_true, DateBound.isBelow_iff hv]
  cases hi : upper.isInclusive with
  | true => simp
  | false =>
    have hstrict : w = upper.value := by simpa [DateBound.IsStrictAt, hi] using hw
    rw [hstrict]

/-- A day is what lies between it and itself, both included. -/
theorem settles_onDay {v lower upper : DateValue} (hl : v.shift? (-1) = some lower)
    (hu : v.shift? 1 = some upper) :
    Settles ctx v.AtEdge (ctx.fragment (.leaf (.days a arg lower upper)))
      (ShowsDays a (DayQuery.on v).holds true) := by
  have hdays : (fun day => DateBound.isBelow ⟨v, true⟩ day && DateBound.isAbove ⟨v, true⟩ day) =
      (DayQuery.on v).holds := by
    funext day
    rw [Bool.eq_iff_iff]
    simp only [DateBound.isBelow, DateBound.isAbove, DayQuery.holds, if_true, Bool.and_eq_true,
      decide_eq_true_eq]
    omega
  have hwithin := settles_withinBounds h ⟨v, true⟩ ⟨v, true⟩ hl hu
  rwa [hdays] at hwithin

end Context

/-- The steps of a conversion, one after the other. -/
theorem settles_conversion {ctx : Context} {edge : Prop} {e : Expression} {t : MatchTree}
    {P : MatchTree → Prop} {Q : FilterQuery → Prop} (ht : MatchTree.ofExpression ctx e = .ok t)
    (hr : Settles ctx edge (MatchTree.consolidated ctx t) P)
    (hq : ∀ r, P r → Settles ctx edge (ctx.fragment r) Q) :
    Settles ctx edge (do
      let t ← MatchTree.ofExpression ctx e
      let r ← MatchTree.consolidated ctx t
      ctx.fragment r) Q := by
  rw [ht]
  exact hr.bind hq

/-- A query of days is a range of points in time, unless a date lies at an edge of the calendar or
comparisons by order are disabled. It has the points on the days that were asked for if and only if
the time of its upper bound leaves nothing of the day. -/
theorem settles_dayQuery {ctx : Context} {arg : String} {a : Assignment}
    (h : ctx.ComparesDays arg a) (q : DayQuery) :
    Settles ctx (∃ v ∈ q.values, v.AtEdge)
      (do
        let t ← MatchTree.ofExpression ctx (q.expression arg)
        let r ← MatchTree.consolidated ctx t
        ctx.fragment r)
      (ShowsDays a q.holds q.endsOnDay) := by
  cases q with
  | on v =>
    have hbuild := MatchTree.build_day h [] .equals v nofun
    have hedge : v.AtEdge → ∃ x ∈ [v], x.AtEdge := fun he => ⟨v, List.mem_singleton_self v, he⟩
    refine (settles_conversion hbuild (MatchTree.settles_consolidated_equality h v) ?_).mono hedge
    rintro _ ⟨lower, upper, hlower, hupper, rfl⟩
    exact Context.settles_onDay h hlower hupper
  | above b =>
    have hbuild := MatchTree.build_bound h [] b .greaterThan rfl
    have hstrict := MatchTree.settles_consolidateBelow_bound h [] b .greaterThan rfl
    rw [← MatchTree.consolidated_bound h b .greaterThan rfl] at hstrict
    refine (settles_conversion hbuild hstrict ?_).mono fun he =>
      ⟨b.value, List.mem_singleton_self _, he⟩
    rintro _ ⟨v, hv, rfl⟩
    exact Context.settles_aboveBound h hv
  | below b =>
    have hbuild := MatchTree.build_bound h [] b .lessThan rfl
    have hstrict := MatchTree.settles_consolidateBelow_bound h [] b .lessThan rfl
    rw [← MatchTree.consolidated_bound h b .lessThan rfl] at hstrict
    refine (settles_conversion hbuild hstrict ?_).mono fun he =>
      ⟨b.value, List.mem_singleton_self _, he⟩
    rintro _ ⟨v, hv, rfl⟩
    exact Context.settles_belowBound h hv
  | within lower upper lowerFirst =>
    have hstrict := MatchTree.settles_consolidated_bounds h lower upper lowerFirst
    refine (settles_conversion (MatchTree.build_bounds h lower upper lowerFirst) hstrict ?_).mono ?_
    · rintro _ ⟨v, w, hv, hw, rfl⟩
      exact (Context.settles_withinBounds h lower upper hv hw).mono .inl
    · rintro (he | he)
      · exact ⟨_, List.mem_cons_self, he⟩
      · exact ⟨_, List.mem_cons_of_mem _ List.mem_cons_self, he⟩

/-- With a mapping that was built, queries of days are settled so for every argument that is stored
by days, with one value in one document and without a formatter. -/
theorem dayQuery_instants_iff {d : Draft} {cat : Catalog} {ctx : Context} {arg : String}
    {a : Assignment} (hd : d.build = .ok cat) (hm : ctx.mapping = cat.toMapping)
    (ha : ctx.assignment arg = .ok a) (haligned : ctx.alignsDays a = true)
    (hvalue : a.field.isCollection = false) (hdocument : a.isMultiDoc = false)
    (hformatter : a.field.type.formatter = none) (q : DayQuery) :
    Settles ctx (∃ v ∈ q.values, v.AtEdge)
      (do
        let t ← MatchTree.ofExpression ctx (q.expression arg)
        let r ← MatchTree.consolidated ctx t
        ctx.fragment r)
      (ShowsDays a q.holds q.endsOnDay) :=
  settles_dayQuery ⟨Draft.checked hd hm, ha, haligned, hvalue, hdocument, hformatter⟩ q

/-- A time on the first of March. -/
def DateValue.firstOfMarch : DateValue :=
  ⟨"2025-03-01 12:30:00", ⟨⟨2025, 3, 1⟩, 12, 30, 0⟩, by decide +kernel⟩

/-- A time on the fifth of March. -/
def DateValue.fifthOfMarch : DateValue :=
  ⟨"2025-03-05 08:00:00", ⟨⟨2025, 3, 5⟩, 8, 0, 0⟩, by decide +kernel⟩

/-- The days of both times and those between them. -/
def DayQuery.earlyMarch : DayQuery :=
  .within ⟨.firstOfMarch, true⟩ ⟨.fifthOfMarch, true⟩ false

theorem dayQuery_instants_earlyMarch :
    Draft.visits.build = .ok Catalog.visits ∧ ∃ a query,
      Context.visits.assignment "logged" = .ok a ∧ Context.visits.alignsDays a = true ∧
      a.field.isCollection = false ∧ a.isMultiDoc = false ∧ a.field.type.formatter = none ∧
      (do
        let t ← MatchTree.ofExpression .visits (DayQuery.earlyMarch.expression "logged")
        let r ← MatchTree.consolidated .visits t
        Context.visits.fragment r) = .ok query ∧
      ShowsDays a DayQuery.earlyMarch.holds true query := by
  have hbuild : Draft.visits.build = .ok Catalog.visits := rfl
  have hassigned : Context.visits.assignment "logged" = .ok _ := rfl
  have hinner : ¬ ∃ v ∈ DayQuery.earlyMarch.values, v.AtEdge := by
    unfold DateValue.AtEdge
    decide +kernel
  rcases dayQuery_instants_iff hbuild rfl hassigned rfl rfl rfl rfl .earlyMarch with
    ⟨query, hquery, hshows⟩ | ⟨hedge, -⟩ | ⟨hdisabled, -⟩
  · exact ⟨hbuild, _, query, hassigned, rfl, rfl, rfl, rfl, hquery, hshows⟩
  · exact absurd hedge hinner
  · cases hdisabled

/-- The days before a time take in the part of its day that lies before it. -/
theorem dayQuery_instants_beforeNoon :
    Draft.visits.build = .ok Catalog.visits ∧ ∃ a query range,
      Context.visits.assignment "day" = .ok a ∧
      (do
        let t ← MatchTree.ofExpression .visits
          (DayQuery.expression "day" (.below ⟨.firstOfMarch, false⟩))
        let r ← MatchTree.consolidated .visits t
        Context.visits.fragment r) = .ok query ∧
      Shows a range query ∧ range.contains (DateValue.firstOfMarch.day * dayMillis) = true ∧
      (DayQuery.below ⟨.firstOfMarch, false⟩).holds
        (dayOfInstant (DateValue.firstOfMarch.day * dayMillis)) = false := by
  have hrun : (do
      let t ← MatchTree.ofExpression .visits
        (DayQuery.expression "day" (.below ⟨.firstOfMarch, false⟩))
      let r ← MatchTree.consolidated .visits t
      Context.visits.fragment r).toOption.map FilterQuery.text =
        some ("day" ++ ":" ++ "[* TO 2025\\-03\\-01T12\\:30\\:00Z\x7d") := by
    decide +kernel
  have hread : InstantRange.read? .date "[* TO 2025\\-03\\-01T12\\:30\\:00Z\x7d" =
      some ⟨none, true, some DateValue.firstOfMarch.instant, false⟩ := by
    decide +kernel
  obtain ⟨query, hquery, htext⟩ := Option.map_eq_some_iff.1 hrun
  exact ⟨rfl, _, query, _, rfl, eq_ok_of_toOption hquery, ⟨_, htext, hread⟩, by decide +kernel,
    by decide +kernel⟩

end AudienceFilter
