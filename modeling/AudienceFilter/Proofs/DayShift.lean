import AudienceFilter.Proofs.Results
import AudienceFilter.Schema.Value

/-!
# Days moved and written

A date that is moved by days is written as text and read again when it is compared. Both keep the
day:

* `toDayNumber_ofDayNumber`, `ofDayNumber_toDayNumber`: day numbers and dates belong to each other;
* `toDayNumber_lt`: day numbers grow with the days;
* `isValid_ofDayNumber`: the date of a number is one of the calendar;
* `ofText?_text`: a valid date is read back from its text;
* `shiftDate_eq_ok`: a moved date reads as the day that many days later.
-/

namespace AudienceFilter

/-! ## Numbers of days -/

namespace Calendar.Date

/-- The century, the four years and the year in it of a day in a cycle of 400 years. The last
day of a year with 366 days is that of a leap year. -/
theorem cycle_parts {r c a f b s : Nat} (hr : r < 146097) (hc : min (r / 36524) 3 = c)
    (ha : r - 36524 * c = a) (hf : a / 1461 = f) (hb : a - 1461 * f = b)
    (hs : min (b / 365) 3 = s) :
    c ≤ 3 ∧ f ≤ 24 ∧ s ≤ 3 ∧ b - 365 * s ≤ 365 ∧
      (b - 365 * s = 365 → s = 3 ∧ (f = 24 → c = 3)) ∧
      r = 36524 * c + 1461 * f + 365 * s + (b - 365 * s) := by
  have hc3 : c ≤ 3 := by omega
  have ha' : a ≤ 36524 ∧ (c < 3 → a < 36524) ∧ r = 36524 * c + a := by omega
  have hf' : f ≤ 24 := by omega
  have hb' : b ≤ 1460 ∧ a = 1461 * f + b := by omega
  have hs3 : s ≤ 3 := by omega
  have hs' : 365 * s ≤ b ∧ b ≤ 365 * s + 365 ∧ (b = 365 * s + 365 → s = 3) := by omega
  omega

/-- The parts of a day number: a cycle of 400 years, the century, the four years and the year in
it, and the day of that year. -/
theorem dayNumber_parts (n : Int) :
    ∃ (q : Int) (c f s k : Nat), (c ≤ 3 ∧ f ≤ 24 ∧ s ≤ 3 ∧ k ≤ 365 ∧
      (k = 365 → s = 3 ∧ (f = 24 → c = 3))) ∧
      n + epochOffset = 146097 * q + (36524 * c + 1461 * f + 365 * s + k : Nat) ∧
      ofDayNumber n =
        let m := (5 * k + 2) / 153
        let y := q * 400 + (100 * c + 4 * f + s : Nat)
        { year := if m < 10 then y else y + 1
          month := if m < 10 then m + 3 else m - 9
          day := k - daysBeforeMonth m + 1 } := by
  have hpos : 0 ≤ (n + epochOffset) % 146097 := Int.emod_nonneg _ (by decide)
  have hlt : (n + epochOffset) % 146097 < 146097 := Int.emod_lt_of_pos _ (by decide)
  obtain ⟨hc, hf, hs, hk, hlast, hr⟩ :=
    cycle_parts (r := ((n + epochOffset) % 146097).toNat) (by omega) rfl rfl rfl rfl rfl
  refine ⟨(n + epochOffset) / 146097, _, _, _, _, ⟨hc, hf, hs, hk, hlast⟩, ?_, rfl⟩
  rw [← hr, Int.toNat_of_nonneg hpos]
  exact (Int.mul_ediv_add_emod _ _).symm

/-- The month of a day of a year that starts in March. -/
theorem month_parts {k m : Nat} (hk : k ≤ 365) (hm : (5 * k + 2) / 153 = m) :
    m ≤ 11 ∧ daysBeforeMonth m ≤ k ∧ (m < 11 → k < daysBeforeMonth (m + 1)) := by
  simp only [daysBeforeMonth]
  omega

/-- The years before a year of a cycle that are leap years. -/
theorem leapYears_parts {q y : Int} {c f s : Nat} (hc : c ≤ 3) (hf : f ≤ 24) (hs : s ≤ 3)
    (hy : y = q * 400 + (100 * c + 4 * f + s : Nat)) :
    y / 4 = 100 * q + 25 * c + f ∧ y / 100 = 4 * q + c ∧ y / 400 = q := by
  omega

/-- The date of a day number has that number. -/
theorem toDayNumber_ofDayNumber (n : Int) : (ofDayNumber n).toDayNumber = n := by
  obtain ⟨q, c, f, s, k, ⟨hc, hf, hs, hk, -⟩, hn, h⟩ := dayNumber_parts n
  rw [h, toDayNumber]
  generalize hm : (5 * k + 2) / 153 = m
  obtain ⟨hm11, hle, -⟩ := month_parts hk hm
  generalize hy : q * 400 + ((100 * c + 4 * f + s : Nat) : Int) = y
  obtain ⟨h4, h100, h400⟩ := leapYears_parts hc hf hs hy.symm
  have hmonth : ((if m < 10 then m + 3 else m - 9) + 9) % 12 = m := by
    split <;> omega
  have hyear : (if (if m < 10 then m + 3 else m - 9) ≤ 2 then (if m < 10 then y else y + 1) - 1
      else if m < 10 then y else y + 1) = y := by
    by_cases h10 : m < 10
    · simp only [h10, if_true]
      rw [if_neg (by omega)]
    · simp only [h10, if_false]
      rw [if_pos (by omega)]
      omega
  simp only [hmonth, hyear, h4, h100, h400]
  omega

/-- In a leap year February has a 29th day, the last day of the year that started in March. -/
theorem isLeapYear_of_last {q : Int} {c f : Nat} (hf : f ≤ 24) (hlast : f = 24 → c = 3) :
    isLeapYear (q * 400 + (100 * c + 4 * f + 3 : Nat) + 1) = true := by
  simp only [isLeapYear, Bool.and_eq_true, Bool.or_eq_true, beq_iff_eq, bne_iff_ne]
  omega

/-- A day lies in its month. -/
theorem day_le_daysInMonth {k m : Nat} {y : Int} (hk : k ≤ 365) (hm : (5 * k + 2) / 153 = m)
    (hleap : k = 365 → isLeapYear (y + 1) = true) :
    k - daysBeforeMonth m + 1 ≤ daysInMonth (if m < 10 then y else y + 1)
      (if m < 10 then m + 3 else m - 9) := by
  obtain ⟨hm11, -, hnext⟩ := month_parts hk hm
  by_cases h11 : m = 11
  · subst h11
    by_cases hl : k = 365
    · simp [daysInMonth, hleap hl, hl, daysBeforeMonth]
    · have : 28 ≤ daysInMonth (y + 1) 2 := by
        simp only [daysInMonth, if_true]
        split <;> omega
      have : daysBeforeMonth 11 = 337 := rfl
      show k - daysBeforeMonth 11 + 1 ≤ daysInMonth (y + 1) 2
      omega
  · have hnext := hnext (by omega)
    simp only [daysBeforeMonth] at hnext ⊢
    rw [daysInMonth, if_neg (by split <;> omega)]
    split <;> split at * <;> omega

/-- Whether month and day fit the calendar, whatever the year. -/
structure Proper (d : Date) : Prop where
  month_pos : 1 ≤ d.month
  month_le : d.month ≤ 12
  day_pos : 1 ≤ d.day
  day_le : d.day ≤ daysInMonth d.year d.month

theorem isValid_iff {d : Date} : d.isValid = true ↔ d.inRange = true ∧ d.Proper := by
  simp only [isValid, Bool.and_eq_true, decide_eq_true_eq]
  exact ⟨fun ⟨⟨⟨⟨hr, h1⟩, h12⟩, hpos⟩, hle⟩ => ⟨hr, h1, h12, hpos, hle⟩,
    fun ⟨hr, h1, h12, hpos, hle⟩ => ⟨⟨⟨⟨hr, h1⟩, h12⟩, hpos⟩, hle⟩⟩

/-- The date of a day number has a month and a day of the calendar. -/
theorem proper_ofDayNumber (n : Int) : (ofDayNumber n).Proper := by
  obtain ⟨q, c, f, s, k, ⟨hc, hf, hs, hk, hlast⟩, -, h⟩ := dayNumber_parts n
  have hmonth : 1 ≤ (ofDayNumber n).month ∧ (ofDayNumber n).month ≤ 12 := by
    obtain ⟨hm11, -, -⟩ := month_parts hk rfl
    rw [h]
    simp only
    split <;> omega
  have hday : 1 ≤ (ofDayNumber n).day := by
    rw [h]
    exact Nat.le_add_left 1 _
  have hend : (ofDayNumber n).day ≤ daysInMonth (ofDayNumber n).year (ofDayNumber n).month := by
    rw [h]
    refine day_le_daysInMonth hk rfl fun hl => ?_
    obtain ⟨rfl, hcentury⟩ := hlast hl
    exact isLeapYear_of_last hf hcentury
  exact ⟨hmonth.1, hmonth.2, hday, hend⟩

/-- The date of a day number is one of the calendar if its year is. -/
theorem isValid_ofDayNumber {n : Int} (hr : (ofDayNumber n).inRange = true) :
    (ofDayNumber n).isValid = true :=
  isValid_iff.2 ⟨hr, proper_ofDayNumber n⟩

/-! ### The order of days -/

/-- The days before a year that starts in March. -/
def daysBeforeYear (y : Int) : Int := 365 * y + y / 4 - y / 100 + y / 400

theorem daysBeforeYear_mono {y y' : Int} (h : y ≤ y') : daysBeforeYear y ≤ daysBeforeYear y' := by
  simp only [daysBeforeYear]
  omega

/-- A month apart from the last one ends where the next one starts. -/
theorem daysBeforeMonth_add_daysInMonth (y : Int) {month : Nat} (h1 : 1 ≤ month) (h12 : month ≤ 12)
    (h2 : month ≠ 2) : daysBeforeMonth ((month + 9) % 12) + daysInMonth y month =
      daysBeforeMonth ((month + 9) % 12 + 1) := by
  have hcases : month = 1 ∨ month = 3 ∨ month = 4 ∨ month = 5 ∨ month = 6 ∨ month = 7 ∨ month = 8 ∨
      month = 9 ∨ month = 10 ∨ month = 11 ∨ month = 12 := by omega
  rcases hcases with rfl | rfl | rfl | rfl | rfl | rfl | rfl | rfl | rfl | rfl | rfl <;> rfl

/-- The last month ends with the year. -/
theorem daysInMonth_february (y : Int) :
    daysBeforeYear (y - 1) + 337 + daysInMonth y 2 = daysBeforeYear y := by
  rw [daysInMonth, if_pos rfl]
  by_cases h : isLeapYear y = true
  · rw [if_pos h]
    simp only [isLeapYear, Bool.and_eq_true, Bool.or_eq_true, beq_iff_eq, bne_iff_ne] at h
    simp only [daysBeforeYear]
    omega
  · rw [if_neg h]
    simp only [isLeapYear, Bool.and_eq_true, Bool.or_eq_true, beq_iff_eq, bne_iff_ne] at h
    simp only [daysBeforeYear]
    omega

/-- The year that starts in March. -/
def marchYear (d : Date) : Int := if d.month ≤ 2 then d.year - 1 else d.year

/-- The month of the year that starts in March, counted from 0. -/
def marchMonth (d : Date) : Nat := (d.month + 9) % 12

theorem toDayNumber_eq (d : Date) : d.toDayNumber =
    daysBeforeYear d.marchYear + daysBeforeMonth d.marchMonth + d.day - 1 - epochOffset := rfl

/-- A day lies in its month, unless that is the last one, and in its year. -/
theorem Proper.bounds {d : Date} (h : d.Proper) : d.marchMonth ≤ 11 ∧
    (d.marchMonth < 11 → daysBeforeMonth d.marchMonth + d.day ≤ daysBeforeMonth (d.marchMonth + 1)) ∧
    daysBeforeYear d.marchYear + daysBeforeMonth d.marchMonth + d.day ≤
      daysBeforeYear (d.marchYear + 1) := by
  obtain ⟨h1, h12, -, hday⟩ := h
  have hmonth : d.marchMonth ≤ 11 := Nat.le_of_lt_succ (Nat.mod_lt _ (by decide))
  refine ⟨hmonth, ?_⟩
  by_cases h2 : d.month = 2
  · have hfeb := daysInMonth_february d.year
    have hlast : d.marchMonth = 11 := by rw [marchMonth, h2]
    have hyear : d.marchYear = d.year - 1 := if_pos (by omega)
    rw [h2] at hday
    rw [hlast, hyear, Int.sub_add_cancel, show daysBeforeMonth 11 = 337 from rfl]
    omega
  · have hnext := daysBeforeMonth_add_daysInMonth d.year h1 h12 h2
    have hlast : d.marchMonth < 11 := by
      rw [marchMonth]
      omega
    have hle : daysBeforeMonth (d.marchMonth + 1) ≤ 337 := by
      simp only [daysBeforeMonth]
      omega
    have hyear : daysBeforeYear d.marchYear + 365 ≤ daysBeforeYear (d.marchYear + 1) := by
      simp only [daysBeforeYear]
      omega
    change daysBeforeMonth d.marchMonth + _ = daysBeforeMonth (d.marchMonth + 1) at hnext
    omega

theorem daysBeforeMonth_mono {m m' : Nat} (h : m ≤ m') :
    daysBeforeMonth m ≤ daysBeforeMonth m' := by
  simp only [daysBeforeMonth]
  omega

/-- Whether a day comes before another: by year, then by month, then by day. -/
def Before (d e : Date) : Prop :=
  d.year < e.year ∨ d.year = e.year ∧ (d.month < e.month ∨ d.month = e.month ∧ d.day < e.day)

instance (d e : Date) : Decidable (d.Before e) := inferInstanceAs (Decidable (_ ∨ _))

theorem before_or_eq_or_before (d e : Date) : d.Before e ∨ d = e ∨ e.Before d := by
  obtain ⟨year, month, day⟩ := d
  obtain ⟨year', month', day'⟩ := e
  simp only [Before, mk.injEq]
  omega

theorem Before.ne {d e : Date} (h : d.Before e) : d ≠ e := by
  rintro rfl
  simp only [Before] at h
  omega

/-- The order of days is also that of the years that start in March, their months and days. -/
theorem Before.march {d e : Date} (h : d.Before e) (hd : d.Proper) (he : e.Proper) :
    d.marchYear < e.marchYear ∨ d.marchYear = e.marchYear ∧
      (d.marchMonth < e.marchMonth ∨ d.marchMonth = e.marchMonth ∧ d.day < e.day) := by
  obtain ⟨h1, h12, -, -⟩ := hd
  obtain ⟨h1', h12', -, -⟩ := he
  simp only [Before] at h
  simp only [marchYear, marchMonth]
  omega

/-- A day that comes before another has a smaller number. -/
theorem toDayNumber_lt {d e : Date} (hd : d.Proper) (he : e.Proper) (h : d.Before e) :
    d.toDayNumber < e.toDayNumber := by
  obtain ⟨hm, hmonth, hyear⟩ := hd.bounds
  obtain ⟨hm', -, -⟩ := he.bounds
  have hpos := he.day_pos
  rw [toDayNumber_eq, toDayNumber_eq]
  rcases h.march hd he with hy | ⟨hy, hmm | ⟨hmm, hday⟩⟩
  · have := daysBeforeYear_mono (show d.marchYear + 1 ≤ e.marchYear by omega)
    omega
  · have := daysBeforeMonth_mono (show d.marchMonth + 1 ≤ e.marchMonth by omega)
    rw [hy]
    omega
  · rw [hy, hmm]
    omega

/-- Dates with the same number are equal. -/
theorem eq_of_toDayNumber {d e : Date} (hd : d.Proper) (he : e.Proper)
    (h : d.toDayNumber = e.toDayNumber) : d = e := by
  rcases before_or_eq_or_before d e with hlt | heq | hlt
  · have := toDayNumber_lt hd he hlt
    omega
  · exact heq
  · have := toDayNumber_lt he hd hlt
    omega

/-- The date of the number of a date is that date. -/
theorem ofDayNumber_toDayNumber {d : Date} (h : d.Proper) : ofDayNumber d.toDayNumber = d :=
  eq_of_toDayNumber (proper_ofDayNumber _) h (toDayNumber_ofDayNumber _)

end Calendar.Date

/-! ## Text -/

theorem Text.isBlank_of_isDigit {c : Char} (h : c.isDigit = true) : Text.isBlank c = false := by
  rw [Char.isDigit, Bool.and_eq_true, decide_eq_true_eq, decide_eq_true_eq] at h
  have hlo : 48 ≤ c.toNat := UInt32.le_iff_toNat_le.1 h.1
  have hhi : c.toNat ≤ 57 := UInt32.le_iff_toNat_le.1 h.2
  grind [isBlank, blankRanges, inRanges]

theorem Text.trimStart_of_not_isBlank {c : Char} {cs : List Char} (h : Text.isBlank c = false) :
    Text.trimStart (c :: cs) = c :: cs := by
  rw [trimStart, List.dropWhile_cons_of_neg (by simp [h])]

namespace Number

theorem isDigit_padded {width n : Nat} : ∀ c ∈ padded width n, c.isDigit = true := by
  intro c hc
  rcases List.mem_append.1 hc with hc | hc
  · rw [List.eq_of_mem_replicate hc]
    rfl
  · exact Nat.isDigit_of_mem_toDigits (by decide) (by decide) hc

theorem padded_ne_nil (width n : Nat) : padded width n ≠ [] := by
  simp [padded, digits]

theorem ofDigits_padded (width n : Nat) : ofDigits (padded width n) = n := by
  rw [ofDigits, padded, Nat.ofDigitChars_append, Nat.ofDigitChars_replicate_zero, Nat.mul_zero,
    digits, Nat.ofDigitChars_ten_toDigits]

/-- A number that fits into the width fills it. -/
theorem length_padded {width n : Nat} (h : (digits n).length ≤ width) :
    (padded width n).length = width := by
  rw [padded, List.length_append, List.length_replicate]
  omega

/-- Digits are read to their end if they fill what may be read, or something else follows. -/
theorem readDigits?_append {most : Nat} {ds rest : List Char} (hd : ∀ c ∈ ds, c.isDigit = true)
    (hne : ds ≠ []) (hlen : ds.length ≤ most)
    (hstop : ds.length = most ∨ ∀ c, rest.head? = some c → c.isDigit = false) :
    readDigits? most (ds ++ rest) = some (ofDigits ds, rest) := by
  have htake : ((ds ++ rest).take most).takeWhile Char.isDigit = ds := by
    rw [List.take_append, List.take_of_length_le hlen, List.takeWhile_append_of_pos hd]
    rcases hstop with h | h
    · simp [h]
    · cases rest with
      | nil => simp
      | cons c rest =>
        cases hk : most - ds.length with
        | zero => simp
        | succ k => simp [h c rfl]
  simp only [readDigits?, htake, List.isEmpty_iff, hne, if_false, List.drop_left]

end Number

namespace Calendar

open Number Text

theorem trimStart_append {cs rest : List Char} (hne : cs ≠ [])
    (h : ∀ c ∈ cs, isBlank c = false) : trimStart (cs ++ rest) = cs ++ rest := by
  obtain ⟨c, cs, rfl⟩ := List.exists_cons_of_ne_nil hne
  exact trimStart_of_not_isBlank (h c List.mem_cons_self)

theorem isBlank_padded {width n : Nat} : ∀ c ∈ padded width n, isBlank c = false :=
  fun c hc => isBlank_of_isDigit (isDigit_padded c hc)

/-- A number of two digits is read back. -/
theorem readPart?_padded {n : Nat} {rest : List Char} (hn : n < 100) :
    readPart? (padded 2 n ++ rest) = some (n, rest) := by
  have hl : (padded 2 n).length = 2 :=
    length_padded ((Nat.length_toDigits_le_iff (by decide) (by decide)).2 hn)
  rw [readPart?, trimStart_append (padded_ne_nil 2 n) isBlank_padded,
    readDigits?_append isDigit_padded (padded_ne_nil 2 n) (Nat.le_of_eq hl) (.inl hl),
    ofDigits_padded]

theorem readYear?_minus (cs : List Char) :
    readYear? ('-' :: cs) = (readDigits? cs.length cs).map fun (n, tail) => (-Int.ofNat n, tail) :=
  rfl

theorem readYear?_plus (cs : List Char) :
    readYear? ('+' :: cs) = (readDigits? cs.length cs).map fun (n, tail) => (Int.ofNat n, tail) :=
  rfl

theorem readYear?_of_isDigit {c : Char} {cs : List Char} (h : c.isDigit = true) :
    readYear? (c :: cs) = (readDigits? 4 (c :: cs)).map fun (n, tail) => (Int.ofNat n, tail) := by
  unfold readYear?
  rw [trimStart_of_not_isBlank (isBlank_of_isDigit h)]
  split
  · next heq =>
    rw [(List.cons.inj heq).1] at h
    cases h
  · next heq =>
    rw [(List.cons.inj heq).1] at h
    cases h
  · rfl

/-- A year is read back. -/
theorem readYear?_yearText {y : Int} {rest : List Char} :
    readYear? (yearText y ++ '-' :: rest) = some (y, '-' :: rest) := by
  rw [yearText]
  split
  · next h =>
    have hl : (padded 4 y.natAbs).length = 4 :=
      length_padded ((Nat.length_toDigits_le_iff (by decide) (by decide)).2 (by omega))
    obtain ⟨c, cs, hc⟩ := List.exists_cons_of_ne_nil (padded_ne_nil 4 y.natAbs)
    have hd : c.isDigit = true := isDigit_padded c (hc ▸ List.mem_cons_self)
    rw [hc, List.cons_append, readYear?_of_isDigit hd, ← List.cons_append, ← hc,
      readDigits?_append isDigit_padded (padded_ne_nil 4 _) (Nat.le_of_eq hl) (.inl hl),
      ofDigits_padded]
    simp only [Option.map_some, Option.some.injEq, Prod.mk.injEq, and_true, Int.ofNat_eq_natCast]
    omega
  · next h =>
    -- Behind a sign the digits end where something else follows.
    have hread : readDigits? (padded 4 y.natAbs ++ '-' :: rest).length
        (padded 4 y.natAbs ++ '-' :: rest) = some (y.natAbs, '-' :: rest) := by
      rw [readDigits?_append isDigit_padded (padded_ne_nil 4 _) (by simp) (.inr ?_),
        ofDigits_padded]
      rintro _ ⟨⟩
      rfl
    split
    · rw [List.cons_append, readYear?_minus, hread]
      simp only [Option.map_some, Option.some.injEq, Prod.mk.injEq, and_true, Int.ofNat_eq_natCast]
      omega
    · rw [List.cons_append, readYear?_plus, hread]
      simp only [Option.map_some, Option.some.injEq, Prod.mk.injEq, and_true, Int.ofNat_eq_natCast]
      omega

/-- A date is read back, whatever follows it. -/
theorem readDate?_chars {d : Date} (hm : d.month < 100) (hd : d.day < 100) (rest : List Char) :
    readDate? (d.chars ++ rest) = some (d, rest) := by
  have hchars : d.chars ++ rest =
      yearText d.year ++ '-' :: (padded 2 d.month ++ '-' :: (padded 2 d.day ++ rest)) := by
    simp [Date.chars]
  rw [readDate?, hchars, readYear?_yearText]
  simp [expect?, readPart?_padded hm, readPart?_padded hd]

theorem isBlank_yearText {y : Int} : ∀ c ∈ yearText y, isBlank c = false := by
  intro c hc
  rw [yearText] at hc
  split at hc
  · exact isBlank_padded c hc
  · rcases List.mem_cons.1 hc with rfl | hc
    · split <;> rfl
    · exact isBlank_padded c hc

theorem trimChars_chars (d : Date) : trimChars d.chars = d.chars := by
  have hyear : yearText d.year ≠ [] := by
    rw [yearText]
    split <;> simp [padded_ne_nil]
  have hend : d.chars.reverse = (padded 2 d.day).reverse ++
      ('-' :: ((padded 2 d.month).reverse ++ '-' :: (yearText d.year).reverse)) := by
    simp [Date.chars]
  have hrev : trimStart d.chars.reverse = d.chars.reverse := by
    rw [hend]
    refine trimStart_append (by simp [padded_ne_nil]) fun c hc => ?_
    exact isBlank_padded c (List.mem_reverse.1 hc)
  have hfront : trimStart d.chars = d.chars := trimStart_append hyear isBlank_yearText
  rw [trimChars, hfront, hrev, List.reverse_reverse]

theorem Date.lt_of_isValid {d : Date} (h : d.isValid = true) : d.month < 100 ∧ d.day < 100 := by
  obtain ⟨-, -, hm, -, hd⟩ := Date.isValid_iff.1 h
  have hdays : daysInMonth d.year d.month ≤ 31 := by
    simp only [daysInMonth]
    repeat' split
    all_goals omega
  omega

theorem DateTime.date_isValid {t : DateTime} (h : t.isValid = true) : t.date.isValid = true := by
  simp only [isValid, Bool.and_eq_true] at h
  exact h.1.1.1

/-- A valid date is read back from its text. -/
theorem DateTime.ofText?_text {d : Date} (h : d.isValid = true) :
    DateTime.ofText? d.text = some (.midnight d) := by
  obtain ⟨hm, hd⟩ := Date.lt_of_isValid h
  have hread := readDate?_chars hm hd []
  rw [List.append_nil] at hread
  rw [ofText?, Date.text, String.toList_ofList, trimChars_chars, date?, hread]
  simp [h]

end Calendar

/-- A moved date reads as the day that many days later. -/
theorem shiftDate_eq_ok {arg value s : String} {k : Int} (h : shiftDate arg value k = .ok s) :
    ∃ t d, Calendar.DateTime.ofText? value = some t ∧
      Calendar.DateTime.ofText? s = some (.midnight d) ∧
      d.toDayNumber = t.date.toDayNumber + k := by
  rw [shiftDate, bind_eq_ok] at h
  obtain ⟨t, ht, h⟩ := h
  rw [readDate] at ht
  split at ht
  · next hv =>
    cases ht
    split at h
    · next d hd =>
      rw [Calendar.Date.addDays?] at hd
      simp only [Option.ite_none_right_eq_some, Option.some.injEq] at hd
      obtain ⟨hr, rfl⟩ := hd
      cases h
      refine ⟨t, _, hv, ?_, Calendar.Date.toDayNumber_ofDayNumber _⟩
      exact Calendar.DateTime.ofText?_text (Calendar.Date.isValid_ofDayNumber hr)
    · cases h
  · cases ht

end AudienceFilter
