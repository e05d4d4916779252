import AudienceFilter.Proofs.DateValues

/-!
# Days one by one

Going through the calendar day by day, along the lengths of its months, reaches the same day as
counting with day numbers. So a date value that is moved by days and written down reads as the day
that many days away, and it can be moved back.

* `Date.toDayNumber_next`: the day behind a day has the next number, over the ends of months and
  years;
* `Date.moved`: a day moved one day at a time, forward or back;
* `Date.ofDayNumber_eq_moved`: the date of a number is the day moved so far;
* `shiftDate_roundTrip`: what a moved date value reads as, when it cannot be moved, and that it
  can be moved back.
-/

namespace AudienceFilter

namespace Calendar.Date

/-- The day behind a day. -/
def next (d : Date) : Date :=
  if d.day < daysInMonth d.year d.month then { d with day := d.day + 1 }
  else if d.month < 12 then { year := d.year, month := d.month + 1, day := 1 }
  else { year := d.year + 1, month := 1, day := 1 }

/-- The day before a day. -/
def previous (d : Date) : Date :=
  if 1 < d.day then { d with day := d.day - 1 }
  else if 1 < d.month then
    { year := d.year, month := d.month - 1, day := daysInMonth d.year (d.month - 1) }
  else { year := d.year - 1, month := 12, day := 31 }

/-- The day some days later. -/
def later (d : Date) : Nat → Date
  | 0 => d
  | n + 1 => (d.later n).next

/-- The day some days earlier. -/
def earlier (d : Date) : Nat → Date
  | 0 => d
  | n + 1 => (d.earlier n).previous

/-- The day moved forward, or back if the number of days is negative. -/
def moved (d : Date) : Int → Date
  | .ofNat n => d.later n
  | .negSucc n => d.earlier (n + 1)

/-! ## Neighbours -/

theorem daysInMonth_pos (y : Int) (m : Nat) : 1 ≤ daysInMonth y m := by
  simp only [daysInMonth]
  repeat' split
  all_goals omega

theorem next_inMonth {d : Date} (h : d.day < daysInMonth d.year d.month) :
    d.next = { d with day := d.day + 1 } := if_pos h

theorem next_monthEnd {y : Int} {m : Nat} (h : m < 12) :
    next ⟨y, m, daysInMonth y m⟩ = ⟨y, m + 1, 1⟩ := by
  rw [next, if_neg (Nat.lt_irrefl _), if_pos h]

theorem next_yearEnd (y : Int) : next ⟨y, 12, daysInMonth y 12⟩ = ⟨y + 1, 1, 1⟩ := rfl

/-- Where a day of the calendar can stand: in its month, or at the end of a month or of a year. -/
theorem Proper.cases_end {d : Date} (h : d.Proper) : d.day < daysInMonth d.year d.month ∨
    (∃ y m, 1 ≤ m ∧ m < 12 ∧ d = ⟨y, m, daysInMonth y m⟩) ∨ ∃ y, d = ⟨y, 12, daysInMonth y 12⟩ := by
  obtain ⟨y, m, day⟩ := d
  obtain ⟨h1, h12, -, hday⟩ := h
  dsimp only at h1 h12 hday ⊢
  rcases Nat.lt_or_eq_of_le hday with hlt | rfl
  · exact .inl hlt
  · rcases Nat.lt_or_eq_of_le h12 with hlt | rfl
    · exact .inr (.inl ⟨y, m, h1, hlt, rfl⟩)
    · exact .inr (.inr ⟨y, rfl⟩)

theorem proper_next {d : Date} (h : d.Proper) : d.next.Proper := by
  rcases h.cases_end with hday | ⟨y, m, h1, h12, rfl⟩ | ⟨y, rfl⟩
  · rw [next_inMonth hday]
    exact ⟨h.month_pos, h.month_le, Nat.le_add_left 1 _, hday⟩
  · rw [next_monthEnd h12]
    exact ⟨Nat.le_add_left 1 _, h12, Nat.le_refl 1, daysInMonth_pos _ _⟩
  · rw [next_yearEnd]
    exact ⟨Nat.le_refl 1, Nat.le_add_left 1 11, Nat.le_refl 1, daysInMonth_pos _ _⟩

/-- A month starts on the day behind the last one of the month before it. -/
theorem toDayNumber_monthStart (y : Int) {m : Nat} (h1 : 1 ≤ m) (h12 : m < 12) :
    toDayNumber ⟨y, m + 1, 1⟩ = toDayNumber ⟨y, m, daysInMonth y m⟩ + 1 := by
  by_cases h2 : m = 2
  · -- Numbers count years from March on, so here one of them ends.
    subst h2
    have hfeb := daysInMonth_february y
    simp only [toDayNumber_eq, marchYear, marchMonth]
    rw [if_neg (show ¬2 + 1 ≤ 2 by decide), if_pos (Nat.le_refl 2),
      show daysBeforeMonth ((2 + 1 + 9) % 12) = 0 from rfl,
      show daysBeforeMonth ((2 + 9) % 12) = 337 from rfl]
    omega
  · have hnext := daysBeforeMonth_add_daysInMonth y h1 (Nat.le_of_lt h12) h2
    have hmonth : (m + 1 + 9) % 12 = (m + 9) % 12 + 1 := by omega
    have hyear : (if m + 1 ≤ 2 then y - 1 else y) = if m ≤ 2 then y - 1 else y := by
      split <;> split <;> omega
    simp only [toDayNumber_eq, marchYear, marchMonth, hmonth, hyear]
    omega

/-- A year starts on the day behind the last one of the year before it. -/
theorem toDayNumber_yearStart (y : Int) :
    toDayNumber ⟨y + 1, 1, 1⟩ = toDayNumber ⟨y, 12, daysInMonth y 12⟩ + 1 := by
  simp only [toDayNumber_eq, marchYear, marchMonth]
  rw [if_pos (show 1 ≤ 2 by decide), if_neg (show ¬12 ≤ 2 by decide), Int.add_sub_cancel,
    show daysInMonth y 12 = 31 from rfl, show daysBeforeMonth ((1 + 9) % 12) = 306 from rfl,
    show daysBeforeMonth ((12 + 9) % 12) = 275 from rfl]
  omega

/-- The day behind a day has the next number. -/
theorem toDayNumber_next {d : Date} (h : d.Proper) : d.next.toDayNumber = d.toDayNumber + 1 := by
  rcases h.cases_end with hday | ⟨y, m, h1, h12, rfl⟩ | ⟨y, rfl⟩
  · rw [next_inMonth hday]
    simp only [toDayNumber]
    omega
  · rw [next_monthEnd h12, toDayNumber_monthStart y h1 h12]
  · rw [next_yearEnd, toDayNumber_yearStart]

/-- The day before a day is one of the calendar, and the day itself is the one behind it. -/
theorem previous_spec {d : Date} (h : d.Proper) : d.previous.Proper ∧ d.previous.next = d := by
  obtain ⟨y, m, day⟩ := d
  obtain ⟨h1, h12, hpos, hday⟩ := h
  dsimp only at h1 h12 hpos hday
  by_cases hinside : 1 < day
  · have hprevious : previous ⟨y, m, day⟩ = ⟨y, m, day - 1⟩ := if_pos hinside
    have hlt : day - 1 < daysInMonth y m := by omega
    have hsucc : day - 1 + 1 = day := by omega
    rw [hprevious, next_inMonth hlt, hsucc]
    exact ⟨⟨h1, h12, Nat.le_sub_one_of_lt hinside, Nat.le_of_lt hlt⟩, rfl⟩
  obtain rfl : day = 1 := by omega
  by_cases hmonth : 1 < m
  · have hprevious : previous ⟨y, m, 1⟩ = ⟨y, m - 1, daysInMonth y (m - 1)⟩ := if_pos hmonth
    have hlt : m - 1 < 12 := by omega
    have hsucc : m - 1 + 1 = m := by omega
    rw [hprevious, next_monthEnd hlt, hsucc]
    exact ⟨⟨Nat.le_sub_one_of_lt hmonth, Nat.le_of_lt hlt, daysInMonth_pos _ _, Nat.le_refl _⟩, rfl⟩
  · obtain rfl : m = 1 := by omega
    have hprevious : previous ⟨y, 1, 1⟩ = ⟨y - 1, 12, daysInMonth (y - 1) 12⟩ := rfl
    rw [hprevious, next_yearEnd, Int.sub_add_cancel]
    exact ⟨⟨Nat.le_add_left 1 11, Nat.le_refl 12, daysInMonth_pos (y - 1) 12, Nat.le_refl _⟩, rfl⟩

theorem toDayNumber_previous {d : Date} (h : d.Proper) :
    d.previous.toDayNumber = d.toDayNumber - 1 := by
  obtain ⟨hproper, hback⟩ := previous_spec h
  have hnext := toDayNumber_next hproper
  rw [hback] at hnext
  omega

/-! ## Several days -/

theorem later_spec {d : Date} (h : d.Proper) (n : Nat) :
    (d.later n).Proper ∧ (d.later n).toDayNumber = d.toDayNumber + n := by
  induction n with
  | zero => exact ⟨h, (Int.add_zero _).symm⟩
  | succ n ih =>
    refine ⟨proper_next ih.1, ?_⟩
    rw [later, toDayNumber_next ih.1, ih.2]
    omega

theorem earlier_spec {d : Date} (h : d.Proper) (n : Nat) :
    (d.earlier n).Proper ∧ (d.earlier n).toDayNumber = d.toDayNumber - n := by
  induction n with
  | zero => exact ⟨h, (Int.sub_zero _).symm⟩
  | succ n ih =>
    refine ⟨(previous_spec ih.1).1, ?_⟩
    rw [earlier, toDayNumber_previous ih.1, ih.2]
    omega

/-- A moved day is a day of the calendar, and its number is moved as far. -/
theorem moved_spec {d : Date} (h : d.Proper) (k : Int) :
    (d.moved k).Proper ∧ (d.moved k).toDayNumber = d.toDayNumber + k := by
  cases k with
  | ofNat n => exact later_spec h n
  | negSucc n => exact earlier_spec h (n + 1)

/-- Day numbers count the days between two days of the calendar. -/
theorem ofDayNumber_eq_moved {d : Date} (h : d.Proper) (k : Int) :
    ofDayNumber (d.toDayNumber + k) = d.moved k := by
  obtain ⟨hproper, hnumber⟩ := moved_spec h k
  rw [← hnumber, ofDayNumber_toDayNumber hproper]

theorem moved_moved {d : Date} (h : d.Proper) (j k : Int) :
    (d.moved j).moved k = d.moved (j + k) := by
  obtain ⟨hproper, hnumber⟩ := moved_spec h j
  rw [← ofDayNumber_eq_moved hproper, hnumber, Int.add_assoc, ofDayNumber_eq_moved h]

end Calendar.Date

open Calendar

/-! ## Moved date values -/

namespace DateValue

variable {v w : DateValue} {k : Int}

theorem ofDayNumber_day_add (v : DateValue) (k : Int) :
    Date.ofDayNumber (v.day + k) = v.time.date.moved k :=
  Date.ofDayNumber_eq_moved (Date.isValid_iff.1 v.isValid_date).2 k

/-- A moved date value stands for midnight of the day that many days away. -/
theorem time_of_shift? (h : v.shift? k = some w) : w.time = .midnight (v.time.date.moved k) := by
  unfold shift? at h
  split at h
  · cases h
    exact congrArg DateTime.midnight (ofDayNumber_day_add v k)
  · cases h

/-- A date value is moved to the day that many days away, unless that lies outside the calendar. -/
theorem shiftDate_eq_moved (v : DateValue) (arg : String) (k : Int) :
    shiftDate arg v.text k =
      if (v.time.date.moved k).inRange = true then .ok (v.time.date.moved k).text
      else .error (.formatting arg v.text "date out of range") := by
  rw [shiftDate_eq, shift?, ← ofDayNumber_day_add]
  by_cases h : (Date.ofDayNumber (v.day + k)).inRange = true
  · rw [dif_pos h, if_pos h]
    rfl
  · rw [dif_neg h, if_neg h]

theorem exists_of_shiftDate {arg s : String} (h : shiftDate arg v.text k = .ok s) :
    ∃ w : DateValue, v.shift? k = some w ∧ w.text = s := by
  rw [shiftDate_eq] at h
  cases hw : v.shift? k with
  | none =>
    rw [hw] at h
    cases h
  | some w =>
    rw [hw] at h
    exact ⟨w, rfl, Except.ok.inj h⟩

/-- A moved date value can be moved back to its own day. -/
theorem shiftDate_neg (h : v.shift? k = some w) (arg : String) :
    shiftDate arg w.text (-k) = .ok v.time.date.text := by
  obtain ⟨hrange, hproper⟩ := Date.isValid_iff.1 v.isValid_date
  have hback : (v.time.date.moved k).moved (-k) = v.time.date := by
    rw [Date.moved_moved hproper, Int.add_right_neg]
    rfl
  rw [shiftDate_eq_moved, time_of_shift? h, DateTime.midnight, hback, if_pos hrange]

end DateValue

theorem readDate_eq_ok {arg value : String} {t : DateTime} :
    readDate arg value = .ok t ↔ DateTime.ofText? value = some t := by
  rw [readDate]
  cases DateTime.ofText? value with
  | none => simp
  | some u => simp

/-- A date value that can be moved reads as midnight of the day that many days away, and it can be
moved back to its own day; it cannot be moved exactly if that day lies outside the calendar. -/
theorem shiftDate_roundTrip {arg value : String} {t : DateTime} (h : readDate arg value = .ok t)
    (k : Int) :
    (∀ s, shiftDate arg value k = .ok s →
      readDate arg s = .ok (.midnight (t.date.moved k)) ∧
        shiftDate arg s (-k) = .ok t.date.text) ∧
      ((∃ s, shiftDate arg value k = .ok s) ↔
        -262143 ≤ (t.date.moved k).year ∧ (t.date.moved k).year ≤ 262142) ∧
      (shiftDate arg value k = .error (.formatting arg value "date out of range") ↔
        (t.date.moved k).year < -262143 ∨ 262142 < (t.date.moved k).year) := by
  let v : DateValue := ⟨value, t, readDate_eq_ok.1 h⟩
  have hrange : (t.date.moved k).inRange = true ↔
      -262143 ≤ (t.date.moved k).year ∧ (t.date.moved k).year ≤ 262142 := by
    rw [Date.inRange, Bool.and_eq_true, decide_eq_true_eq, decide_eq_true_eq]
    rfl
  constructor
  · intro s hs
    obtain ⟨w, hw, rfl⟩ := DateValue.exists_of_shiftDate (v := v) hs
    refine ⟨readDate_eq_ok.2 (w.reads.trans ?_), DateValue.shiftDate_neg hw arg⟩
    rw [DateValue.time_of_shift? hw]
  · rw [v.shiftDate_eq_moved arg k]
    by_cases hr : (t.date.moved k).inRange = true
    · have hyears := hrange.1 hr
      rw [if_pos hr]
      exact ⟨iff_of_true ⟨_, rfl⟩ hyears, iff_of_false (by simp) (by omega)⟩
    · have hyears := mt hrange.2 hr
      rw [if_neg hr]
      exact ⟨iff_of_false (by simp) hyears, iff_of_true rfl (by omega)⟩

theorem shiftDate_roundTrip_overEdges :
    readDate "day" " 2024-2-28 23:59:60" = .ok ⟨⟨2024, 2, 28⟩, 23, 59, 60⟩ ∧
      shiftDate "day" " 2024-2-28 23:59:60" 2 = .ok "2024-03-01" ∧
      readDate "day" "2024-03-01" = .ok (.midnight ⟨2024, 3, 1⟩) ∧
      shiftDate "day" "2024-03-01" (-2) = .ok "2024-02-28" ∧
      shiftDate "day" "0000-03-01" (-61) = .ok "-0001-12-31" ∧
      shiftDate "day" "-0001-12-31" 61 = .ok "0000-03-01" ∧
      shiftDate "day" "+262142-12-31" 1 =
        .error (.formatting "day" "+262142-12-31" "date out of range") := by
  have hleap : readDate "day" " 2024-2-28 23:59:60" = .ok ⟨⟨2024, 2, 28⟩, 23, 59, 60⟩ := rfl
  have hzero : readDate "day" "0000-03-01" = .ok (.midnight ⟨0, 3, 1⟩) := rfl
  have hlast : readDate "day" "+262142-12-31" = .ok (.midnight ⟨262142, 12, 31⟩) := rfl
  have hmarch : shiftDate "day" " 2024-2-28 23:59:60" 2 = .ok "2024-03-01" :=
    eq_ok_of_toOption (by decide +kernel)
  have hdecember : shiftDate "day" "0000-03-01" (-61) = .ok "-0001-12-31" :=
    eq_ok_of_toOption (by decide +kernel)
  obtain ⟨hread, hback⟩ := (shiftDate_roundTrip hleap 2).1 _ hmarch
  exact ⟨hleap, hmarch, hread, hback, hdecember,
    ((shiftDate_roundTrip hzero (-61)).1 _ hdecember).2,
    (shiftDate_roundTrip hlast 1).2.2.2 (by decide)⟩

end AudienceFilter
