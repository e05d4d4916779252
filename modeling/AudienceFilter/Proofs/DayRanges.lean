import AudienceFilter.Proofs.DayBounds
import AudienceFilter.Proofs.FragmentSafety

/-!
# Ranges of strict bounds

The query of strict bounds on the day of an argument is one range of points in time (`Shows`). A
lower bound is moved to the start of the day behind it, and an upper bound is written with its time:

* `fieldFragment_range`: what is read back from the text of a range;
* `settles_above`, `settles_below`, `settles_days`: the ranges of one and of two bounds.
-/

namespace AudienceFilter

/-- Whether the text of a query is the field of an assignment with a range. -/
def Shows (a : Assignment) (r : InstantRange) (q : FilterQuery) : Prop :=
  ∃ text, q.text = a.field.name ++ ":" ++ text ∧ InstantRange.read? a.field.type.kind text = some r

namespace Context

variable {ctx : Context} {arg : String} {a : Assignment}

/-- Brackets keep a range from being trimmed. -/
theorem trim_rangeText {name lower upper : String} (hn : Text.isName name = true)
    (includesLower includesUpper : Bool) :
    Text.trim (name ++ ":" ++ rangeText includesLower lower upper includesUpper) =
      name ++ ":" ++ rangeText includesLower lower upper includesUpper := by
  obtain ⟨kept, d, hd, hlast⟩ : ∃ kept d, Text.isBlank d = false ∧
      (":" ++ rangeText includesLower lower upper includesUpper).toList = kept ++ [d] := by
    refine ⟨(":" ++ ((if includesLower then "[" else "\x7b") ++ lower ++ " TO " ++ upper)).toList,
      if includesUpper then ']' else '\x7d', ?_, ?_⟩
    · cases includesUpper <;> decide
    · cases includesUpper <;> simp [rangeText]
  rw [String.append_assoc, Text.trim_behind hn hlast hd fun _ hb => absurd hb List.not_mem_nil,
    ← hlast, String.ofList_toList]

/-- A range behind a field is the text of its query. -/
theorem fieldFragment_rangeText (hn : Text.isName a.field.nodeType = true)
    (hf : Text.isName a.field.name = true) (includesLower : Bool) (lower upper : String)
    (includesUpper : Bool) :
    ∃ q, fieldFragment a (a.field.name ++ ":" ++ rangeText includesLower lower upper includesUpper)
      .range = .ok q ∧
      q.text = a.field.name ++ ":" ++ rangeText includesLower lower upper includesUpper := by
  have hmake := FilterQuery.make_of_text
    (Text.isBlankText_colon a.field.name (rangeText includesLower lower upper includesUpper))
    (List.cons_ne_nil (⟨a.field.nodeType, a.field.name⟩ : QueryField) [])
    (List.cons_ne_nil ConditionKind.range [])
  rw [trim_rangeText hf] at hmake
  exact ⟨_, bind_eq_ok.2 ⟨_, liftName_eq_ok.2 (QueryField.make_of_isName hn hf),
    liftFault_eq_ok.2 hmake⟩, rfl⟩

variable (h : ctx.ComparesDays arg a)
include h

theorem fieldFragment_range {lower upper : String} {includesLower includesUpper : Bool}
    {lo hi : Option Int} (hl : InstantRange.readEnd? a.field.type.kind lower.toList = some lo)
    (hs : ' ' ∉ lower.toList)
    (hu : InstantRange.readEnd? a.field.type.kind upper.toList = some hi) :
    ∃ q, fieldFragment a (a.field.name ++ ":" ++ rangeText includesLower lower upper includesUpper)
      .range = .ok q ∧ Shows a ⟨lo, includesLower, hi, includesUpper⟩ q := by
  obtain ⟨q, hq, htext⟩ := fieldFragment_rangeText (h.checked.assignment h.assignment)
    (h.checked.field h.assignment) includesLower lower upper includesUpper
  exact ⟨q, hq, _, htext, InstantRange.read?_rangeText hl hs hu⟩

theorem argType_eq : a.argType = .date := by
  have haligned := h.aligned
  simp only [alignsDays, Bool.and_eq_true, beq_iff_eq] at haligned
  exact haligned.1.1

theorem isTimestamp_eq : a.field.type.kind.isTimestamp = true := by
  have haligned := h.aligned
  simp only [alignsDays, Bool.and_eq_true] at haligned
  exact haligned.1.2

variable {edge : Prop}

/-- Points in time are ordered, so only the directive can forbid it. -/
theorem settles_checkOrder : Settles ctx edge (liftError (ctx.checkOrder a)) fun _ => True := by
  have hordered : a.field.type.kind.supportsOrder = true := by
    have hkind := isTimestamp_eq h
    cases hk : a.field.type.kind with
    | boolean => rw [hk] at hkind; cases hkind
    | _ => rfl
  rw [checkOrder]
  split
  · next hd => exact .inr (.inr ⟨hd, _, _, rfl⟩)
  · rw [hordered]
    exact settles_ok trivial

theorem settles_formatNextDay (v : DateValue) :
    Settles ctx (v.shift? 1 = none) (liftError (formatNextDay a v.text)) fun text =>
      ∃ w, v.shift? 1 = some w ∧ text = Text.escape (a.field.type.kind.dateText w.time) := by
  rw [v.formatNextDay_eq (argType_eq h) h.formatter]
  cases hs : v.shift? 1 with
  | some w => exact settles_ok ⟨w, rfl, rfl⟩
  | none => exact .inr (.inl ⟨rfl, _, _, _, rfl⟩)

/-- The end of a range at the start of the day behind a date. -/
theorem readEnd?_nextDay {v w : DateValue} (hw : v.shift? 1 = some w) :
    InstantRange.readEnd? a.field.type.kind
      (Text.escape (a.field.type.kind.dateText w.time)).toList =
        some (some ((v.day + 1) * dayMillis)) := by
  rw [InstantRange.readEnd?_escape (isTimestamp_eq h) w.isValid_time,
    ← DateValue.instant_of_shift? hw]
  rfl

theorem settles_fragment {op : Operator} {v : DateValue} {x : String × ConditionKind → Prop}
    {P : FilterQuery → Prop} (hop : op ≠ .isUnknown)
    (hv : Settles ctx edge (ctx.valueCondition a (.withOperator arg op v.text)) x)
    (hq : ∀ text kind, x (text, kind) →
      Settles ctx edge (fieldFragment a (a.field.name ++ ":" ++ text) kind) P) :
    Settles ctx edge (ctx.fragment (.leaf (.day a arg op v))) P := by
  have hassigned : Settles ctx edge (liftError (ctx.assignment arg)) (· = a) :=
    .inl ⟨a, liftError_eq_ok.2 h.assignment, rfl⟩
  rw [Leaf.day, fragment_single hop rfl]
  refine hassigned.bind ?_
  rintro _ rfl
  exact hv.bind fun y => hq y.1 y.2

/-- The days above a date, from the start of the day behind it on. -/
theorem settles_above (lower : DateValue) :
    Settles ctx (lower.shift? 1 = none) (ctx.fragment (.leaf (.day a arg .greaterThan lower)))
      (Shows a ⟨some ((lower.day + 1) * dayMillis), true, none, true⟩) := by
  refine settles_fragment h nofun (x := fun y => ∃ w, lower.shift? 1 = some w ∧
    y = (rangeText true (Text.escape (a.field.type.kind.dateText w.time)) "*" true, .range)) ?_ ?_
  · refine (settles_checkOrder h).bind fun _ _ => ?_
    rw [h.aligned]
    refine (settles_formatNextDay h lower).bind ?_
    rintro _ ⟨w, hw, rfl⟩
    exact settles_ok ⟨w, hw, rfl⟩
  · rintro _ _ ⟨w, hw, ⟨⟩⟩
    exact .inl (fieldFragment_range h (readEnd?_nextDay h hw)
      (blank_not_mem_dateText _ _) (InstantRange.readEnd?_open _))

theorem settles_formatValue (v : DateValue) (op : Operator) (hop : op ≠ .contains) :
    Settles ctx edge (liftError (formatValue a v.text op)) fun text =>
      text = Text.escape (a.field.type.kind.dateText v.time) := by
  rw [v.formatValue_eq (argType_eq h) h.formatter hop]
  exact settles_ok rfl

/-- The points in time before a date. -/
theorem settles_below (upper : DateValue) :
    Settles ctx edge (ctx.fragment (.leaf (.day a arg .lessThan upper)))
      (Shows a ⟨none, true, some upper.instant, false⟩) := by
  have htime := isTimestamp_eq h
  refine settles_fragment h nofun (x := fun y =>
    y = (rangeText true "*" (Text.escape (a.field.type.kind.dateText upper.time)) false, .range))
    ?_ ?_
  · refine (settles_checkOrder h).bind fun _ _ => ?_
    refine (settles_formatValue h upper .lessThan nofun).bind ?_
    rintro _ rfl
    exact settles_ok rfl
  · rintro _ _ ⟨⟩
    exact .inl (fieldFragment_range h (InstantRange.readEnd?_open _) (by decide)
      (InstantRange.readEnd?_escape htime upper.isValid_time))

theorem betweenRange_days (lower upper : DateValue) :
    ctx.betweenRange a ⟨.day a arg .greaterThan lower, .day a arg .lessThan upper, true⟩ = (do
      ctx.checkOrder a
      let lower ← formatNextDay a lower.text
      let upper ← formatValue a upper.text .lessThan
      return rangeText true lower upper false) := by
  rw [betweenRange, h.aligned]
  rfl

/-- The points in time between two dates, from the start of the day behind the first on. -/
theorem settles_days (lower upper : DateValue) :
    Settles ctx (lower.shift? 1 = none) (ctx.fragment (.leaf (.days a arg lower upper)))
      (Shows a ⟨some ((lower.day + 1) * dayMillis), true, some upper.instant, false⟩) := by
  have htime := isTimestamp_eq h
  have hrange : Settles ctx (lower.shift? 1 = none) (liftError (ctx.betweenRange a
      ⟨.day a arg .greaterThan lower, .day a arg .lessThan upper, true⟩)) fun text =>
        ∃ w, lower.shift? 1 = some w ∧ text = rangeText true
          (Text.escape (a.field.type.kind.dateText w.time))
          (Text.escape (a.field.type.kind.dateText upper.time)) false := by
    rw [betweenRange_days h, liftError_bind]
    refine (settles_checkOrder h).bind fun _ _ => ?_
    rw [liftError_bind]
    refine (settles_formatNextDay h lower).bind ?_
    rintro _ ⟨w, hw, rfl⟩
    rw [liftError_bind]
    refine (settles_formatValue h upper .lessThan nofun).bind ?_
    rintro _ rfl
    exact settles_ok ⟨w, hw, rfl⟩
  have hassigned : Settles ctx (lower.shift? 1 = none) (liftError (ctx.assignment arg)) (· = a) :=
    .inl ⟨a, liftError_eq_ok.2 h.assignment, rfl⟩
  refine hassigned.bind ?_
  rintro b rfl
  refine hrange.bind ?_
  rintro _ ⟨w, hw, rfl⟩
  exact .inl (fieldFragment_range h (readEnd?_nextDay h hw) (blank_not_mem_dateText _ _)
    (InstantRange.readEnd?_escape htime upper.isValid_time))

end Context

end AudienceFilter
