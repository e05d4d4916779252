import AudienceFilter.Proofs.InstantRange

/-!
# Values of dates

A value of a date is a text that reads as a day, with or without a time on it. Moving it by days
drops the time, and in a field of points in time it is written as the point that it stands for:

* `DateValue.shiftDate_eq`: the text of a moved date;
* `DateValue.formatValue_eq`, `DateValue.formatNextDay_eq`: the texts of a date and of the day
  behind it in a query;
* `DateValue.instant_bounds`, `DateValue.isMidnight_iff`: where on its day the point lies.
-/

namespace AudienceFilter

open Calendar

/-- The milliseconds of a day. -/
def dayMillis : Int := 86400000

/-- The number of the day on which a point in time lies. -/
def dayOfInstant (t : Int) : Int := t / dayMillis

/-- A text that reads as a date, or as a date and a time. -/
structure DateValue where
  text : String
  time : DateTime
  reads : DateTime.ofText? text = some time

namespace DateValue

variable {v w : DateValue}

/-- The number of the day. -/
def day (v : DateValue) : Int := v.time.date.toDayNumber

/-- The point in time, in milliseconds since the start of 1970. -/
def instant (v : DateValue) : Int := v.time.toEpochMillis

/-- Whether the day is meant from its start on. -/
def isMidnight (v : DateValue) : Bool := v.time == .midnight v.time.date

/-- Whether the day before or the day behind lies outside the calendar. -/
def AtEdge (v : DateValue) : Prop :=
  v.time.date.addDays? (-1) = none ∨ v.time.date.addDays? 1 = none

/-! ## What was read -/

theorem isValid_time (v : DateValue) : v.time.isValid = true := by
  have hreads := v.reads
  simp only [DateTime.ofText?, date?, dateTime?] at hreads
  grind [DateTime.isValid, DateTime.midnight]

theorem isValid_date (v : DateValue) : v.time.date.isValid = true :=
  DateTime.date_isValid v.isValid_time

theorem isBlankText_text (v : DateValue) : Text.isBlankText v.text = false := by
  rw [← Bool.not_eq_true]
  intro hblank
  have htrim : Text.trimChars v.text.toList = [] := by
    have hstart : Text.trimStart v.text.toList = [] := by
      rw [Text.trimStart, ← List.append_nil v.text.toList,
        List.dropWhile_append_of_pos (List.all_eq_true.1 hblank)]
      rfl
    rw [Text.trimChars, hstart]
    rfl
  have hreads := v.reads
  rw [DateTime.ofText?, htrim] at hreads
  cases hreads

/-- A point in time lies on its day, or at its end. -/
theorem instant_bounds (v : DateValue) :
    v.day * dayMillis ≤ v.instant ∧ v.instant ≤ (v.day + 1) * dayMillis := by
  have hvalid := v.isValid_time
  simp only [DateTime.isValid, Bool.and_eq_true, decide_eq_true_eq] at hvalid
  simp only [instant, day, DateTime.toEpochMillis, dayMillis]
  omega

/-- Only midnight is the start of its day. -/
theorem isMidnight_iff (v : DateValue) : v.isMidnight = true ↔ v.instant = v.day * dayMillis := by
  obtain ⟨text, ⟨date, hour, minute, second⟩, reads⟩ := v
  simp only [isMidnight, instant, day, DateTime.toEpochMillis, dayMillis, DateTime.midnight,
    beq_iff_eq, DateTime.mk.injEq, true_and]
  omega

/-! ## Moved dates -/

/-- The start of a day of the calendar. -/
def ofDate (d : Date) (h : d.isValid = true) : DateValue :=
  ⟨d.text, .midnight d, DateTime.ofText?_text h⟩

/-- The start of the day that many days later, unless that lies outside the calendar. -/
def shift? (v : DateValue) (k : Int) : Option DateValue :=
  if h : (Date.ofDayNumber (v.day + k)).inRange = true then
    some (ofDate _ (Date.isValid_ofDayNumber h))
  else none

theorem shift?_eq_some {k : Int} (h : v.shift? k = some w) :
    w.day = v.day + k ∧ w.isMidnight = true := by
  unfold shift? at h
  split at h
  · cases h
    exact ⟨Date.toDayNumber_ofDayNumber _, by simp [isMidnight, ofDate, DateTime.midnight]⟩
  · cases h

/-- What is read back from a moved date is the start of its day. -/
theorem instant_of_shift? {k : Int} (h : v.shift? k = some w) :
    w.instant = (v.day + k) * dayMillis := by
  obtain ⟨hday, hmidnight⟩ := shift?_eq_some h
  rw [(isMidnight_iff w).1 hmidnight, hday]

/-- The day between two days of the calendar is one of it. -/
theorem shift?_back {k : Int} (h : v.shift? k = some w) : ∃ x, w.shift? (-k) = some x := by
  obtain ⟨hday, -⟩ := shift?_eq_some h
  have hnumber : w.day + -k = v.time.date.toDayNumber := by
    rw [hday, day]
    omega
  obtain ⟨hrange, hproper⟩ := Date.isValid_iff.1 v.isValid_date
  have hin : (Date.ofDayNumber (w.day + -k)).inRange = true := by
    rw [hnumber, Date.ofDayNumber_toDayNumber hproper, hrange]
  exact ⟨_, dif_pos hin⟩

theorem map_text_shift? (v : DateValue) (k : Int) :
    (v.shift? k).map text = (v.time.date.addDays? k).map Date.text := by
  have hadd : v.time.date.addDays? k =
      if (Date.ofDayNumber (v.day + k)).inRange = true then some (Date.ofDayNumber (v.day + k))
      else none := rfl
  by_cases h : (Date.ofDayNumber (v.day + k)).inRange = true
  · rw [hadd, if_pos h, shift?, dif_pos h]
    rfl
  · rw [hadd, if_neg h, shift?, dif_neg h]
    rfl

theorem shift?_eq_none {k : Int} (h : v.shift? k = none) : v.time.date.addDays? k = none := by
  have hmap := map_text_shift? v k
  rw [h, Option.map_none] at hmap
  exact Option.map_eq_none_iff.1 hmap.symm

/-- The text of a moved date. -/
theorem shiftDate_eq (v : DateValue) (arg : String) (k : Int) :
    shiftDate arg v.text k = match v.shift? k with
      | some w => .ok w.text
      | none => .error (.formatting arg v.text "date out of range") := by
  have hmap := map_text_shift? v k
  rw [shiftDate, readDate, v.reads]
  cases hs : v.shift? k with
  | some w =>
    rw [hs, Option.map_some, eq_comm, Option.map_eq_some_iff] at hmap
    obtain ⟨d, hd, hw⟩ := hmap
    simp only [bind, Except.bind, hd, ← hw]
    rfl
  | none =>
    simp only [bind, Except.bind, shift?_eq_none hs]
    rfl

/-! ## Texts in queries -/

/-- The text of a date in a field. -/
theorem native_eq (v : DateValue) (kind : FieldKind) (arg : String) :
    kind.native arg .date v.text = .ok (kind.dateText v.time) := by
  simp only [FieldKind.native, v.isBlankText_text, readDate, v.reads]
  rfl

section Format

variable {a : Assignment} (ht : a.argType = .date) (hf : a.field.type.formatter = none)
include ht hf

/-- A date in a query. -/
theorem formatValue_eq (v : DateValue) {op : Operator} (hop : op ≠ .contains) :
    Context.formatValue a v.text op = .ok (Text.escape (a.field.type.kind.dateText v.time)) := by
  simp only [Context.formatValue, FieldType.format, hf, ht, FieldKind.format, v.native_eq, hop]
  rfl

/-- The day behind a date in a query. -/
theorem formatNextDay_eq (v : DateValue) :
    Context.formatNextDay a v.text = match v.shift? 1 with
      | some w => .ok (Text.escape (a.field.type.kind.dateText w.time))
      | none => .error (.formatting a.arg v.text "date out of range") := by
  rw [Context.formatNextDay, shiftDate_eq]
  cases v.shift? 1 with
  | none => rfl
  | some w => exact formatValue_eq ht hf w nofun

end Format

end DateValue

end AudienceFilter
