import AudienceFilter.Proofs.InstantRange

/-!
# Dates as numbers

Points in time come one after the other by year, month, day, hour, minute and second. In a field of
numbers a point in time stands as its milliseconds or as the code of its day, and both are compared
as integers:

* `DateTime.toEpochMillis_le`: milliseconds keep the order, leap seconds included;
* `integer?_codeText`: the number of a day code, which carries the sign of its year;
* `Date.code_le_iff`: day codes keep the order as well, apart from the days of one year before
  year 0, whose codes run backwards.
-/

namespace AudienceFilter.Calendar

open Number

/-! ## Points in time -/

namespace DateTime

/-- Whether a point in time comes before another: by day, then by hour, minute and second. A leap
second comes behind second 59 and before the next minute. -/
def Before (t u : DateTime) : Prop :=
  t.date.Before u.date ∨ t.date = u.date ∧
    (t.hour < u.hour ∨ t.hour = u.hour ∧
      (t.minute < u.minute ∨ t.minute = u.minute ∧ t.second < u.second))

instance (t u : DateTime) : Decidable (t.Before u) := inferInstanceAs (Decidable (_ ∨ _))

/-- Whether a point in time is the same as another or comes before it. -/
def UpTo (t u : DateTime) : Prop := t = u ∨ t.Before u

instance (t u : DateTime) : Decidable (t.UpTo u) := inferInstanceAs (Decidable (_ ∨ _))

theorem UpTo.date {t u : DateTime} (h : t.UpTo u) : t.date = u.date ∨ t.date.Before u.date := by
  rcases h with rfl | hbefore | ⟨hdate, -⟩
  · exact .inl rfl
  · exact .inr hbefore
  · exact .inl hdate

/-- The milliseconds of points in time have their order. -/
theorem toEpochMillis_le {t u : DateTime} (ht : t.isValid = true) (hu : u.isValid = true)
    (h : t.UpTo u) : t.toEpochMillis ≤ u.toEpochMillis := by
  simp only [isValid, Bool.and_eq_true, decide_eq_true_eq] at ht hu
  obtain ⟨⟨⟨htdate, hthour⟩, htminute⟩, htsecond⟩ := ht
  obtain ⟨⟨⟨hudate, -⟩, -⟩, -⟩ := hu
  simp only [toEpochMillis]
  rcases h with rfl | hbefore | ⟨hdate, htime⟩
  · exact Int.le_refl _
  -- The last leap second of a day has the number of the midnight behind it, and no day reaches
  -- further than that.
  · have hday := Date.toDayNumber_lt (Date.isValid_iff.1 htdate).2
      (Date.isValid_iff.1 hudate).2 hbefore
    omega
  · rw [hdate]
    omega

end DateTime

/-! ## Day codes -/

theorem ofDigits_append_padded (ds : List Char) {n : Nat} (hn : n < 100) :
    ofDigits (ds ++ padded 2 n) = ofDigits ds * 100 + n := by
  have hlen : (padded 2 n).length = 2 :=
    length_padded ((Nat.length_toDigits_le_iff (by decide) (by decide)).2 hn)
  have hvalue := ofDigits_padded 2 n
  rw [ofDigits] at hvalue
  rw [ofDigits, Nat.ofDigitChars_append, Nat.ofDigitChars_eq_ofDigitChars_zero, hvalue, hlen,
    ofDigits]
  omega

/-- The code of a day as a number: year, month and day behind each other, with the sign of the
year. -/
def Date.code (d : Date) : Int :=
  let parts := Int.ofNat (d.year.natAbs * 10000 + d.month * 100 + d.day)
  if d.year < 0 then -parts else parts

/-- The text of a day code reads as its number. -/
theorem integer?_codeText {d : Date} (hm : d.month < 100) (hd : d.day < 100) :
    integer? d.codeText.toList = some d.code := by
  have hdigits : ∀ c ∈ padded 4 d.year.natAbs ++ (padded 2 d.month ++ padded 2 d.day),
      c.isDigit = true := by
    simp only [List.forall_mem_append]
    exact ⟨isDigit_padded, isDigit_padded, isDigit_padded⟩
  have hne : padded 4 d.year.natAbs ++ (padded 2 d.month ++ padded 2 d.day) ≠ [] := by
    simp [padded_ne_nil]
  have hvalue : ofDigits (padded 4 d.year.natAbs ++ (padded 2 d.month ++ padded 2 d.day)) =
      d.year.natAbs * 10000 + d.month * 100 + d.day := by
    rw [← List.append_assoc, ofDigits_append_padded _ hd, ofDigits_append_padded _ hm,
      ofDigits_padded]
    omega
  rw [Date.codeText, String.toList_ofList, yearText, Date.code]
  by_cases hfour : 0 ≤ d.year ∧ d.year ≤ 9999
  · rw [if_pos hfour, integer?_of_isDigit hdigits hne, hvalue, if_neg (by omega)]
  · rw [if_neg hfour, List.cons_append]
    by_cases hneg : d.year < 0
    · rw [if_pos hneg, if_pos hneg, integer?, natural?_of_isDigit hdigits hne, hvalue]
      rfl
    · rw [if_neg hneg, if_neg hneg, integer?, natural?_of_isDigit hdigits hne, hvalue]
      rfl

namespace Date

/-- The code of a day is at most that of a later one, unless both lie in one year before year 0. -/
theorem code_le_iff {d e : Date} (hd : d.isValid = true) (he : e.isValid = true) (h : d.Before e) :
    d.code ≤ e.code ↔ ¬ (d.year < 0 ∧ d.year = e.year) := by
  obtain ⟨hm, hday⟩ := lt_of_isValid hd
  obtain ⟨hm', hday'⟩ := lt_of_isValid he
  simp only [Before] at h
  simp only [code, Int.ofNat_eq_natCast]
  -- Month and day make up less than one year of the code, so only the sign of the year matters.
  by_cases hneg : d.year < 0
  · rw [if_pos hneg]
    split <;> omega
  · rw [if_neg hneg, if_neg (by omega)]
    omega

end Date

end AudienceFilter.Calendar
