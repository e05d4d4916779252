import AudienceFilter.Proofs.DayShift
import AudienceFilter.Proofs.EscapedValues

/-!
# Ranges of points in time

A range in a query has two ends, each a point in time or open, which belong to it or not.
`InstantRange.read?` reads a range as the index does, from its text alone:

* `readInstant?_dateText`: a point in time is read back from the text of its field;
* `InstantRange.read?_rangeText`: a range is read back from its ends.
-/

namespace AudienceFilter

open Calendar Number Text

/-! ## Points in time -/

/-- A date and a time as `year-month-dayThour:minute:secondZ`, in milliseconds. -/
def readStamp? (cs : List Char) : Option Int := do
  let (date, cs) ← readDate? cs
  let cs ← expect? 'T' cs
  let (hour, cs) ← readPart? cs
  let cs ← expect? ':' cs
  let (minute, cs) ← readPart? cs
  let cs ← expect? ':' cs
  let (second, cs) ← readPart? cs
  let cs ← expect? 'Z' cs
  if cs.isEmpty then some (DateTime.toEpochMillis { date, hour, minute, second }) else none

/-- A point in time as a field of the kind stores it, in milliseconds since the start of 1970. -/
def readInstant? (kind : FieldKind) (cs : List Char) : Option Int :=
  match kind with
  | .date => readStamp? cs
  | .long => integer? cs
  | _ => none

theorem natural?_of_isDigit {ds : List Char} (hd : ∀ c ∈ ds, c.isDigit = true) (hne : ds ≠ []) :
    natural? ds = some (ofDigits ds) := by
  rw [natural?, List.isEmpty_eq_false_iff.2 hne, List.all_eq_true.2 hd]
  rfl

/-- Digits without a sign are read as a number that is not negative. -/
theorem integer?_of_isDigit {ds : List Char} (hd : ∀ c ∈ ds, c.isDigit = true) (hne : ds ≠ []) :
    integer? ds = some (Int.ofNat (ofDigits ds)) := by
  unfold integer?
  split
  · exact absurd (hd '+' List.mem_cons_self) (by decide)
  · exact absurd (hd '-' List.mem_cons_self) (by decide)
  · rw [natural?_of_isDigit hd hne]
    rfl

theorem isDigit_digits (n : Nat) : ∀ c ∈ digits n, c.isDigit = true :=
  fun _ hc => Nat.isDigit_of_mem_toDigits (by decide) (by decide) hc

theorem integer?_intText (n : Int) : integer? (intText n) = some n := by
  have hne : digits n.natAbs ≠ [] := by
    simp [digits]
  have hvalue : ofDigits (digits n.natAbs) = n.natAbs := Nat.ofDigitChars_ten_toDigits
  rw [intText]
  split
  · rw [integer?, natural?_of_isDigit (isDigit_digits _) hne, hvalue]
    simp only [Option.map_some, Option.some.injEq, Int.ofNat_eq_natCast]
    omega
  · rw [integer?_of_isDigit (isDigit_digits _) hne, hvalue]
    simp only [Option.some.injEq, Int.ofNat_eq_natCast]
    omega

theorem readStamp?_text {t : DateTime} (h : t.isValid = true) :
    readStamp? t.text.toList = some t.toEpochMillis := by
  simp only [DateTime.isValid, Bool.and_eq_true, decide_eq_true_eq] at h
  obtain ⟨⟨⟨hdate, hhour⟩, hminute⟩, hsecond⟩ := h
  obtain ⟨hm, hd⟩ := Date.lt_of_isValid hdate
  rw [DateTime.text, String.toList_ofList, readStamp?, readDate?_chars hm hd]
  simp [expect?, readPart?_padded (show t.hour < 100 by omega),
    readPart?_padded (show t.minute < 100 by omega), readPart?_padded (show t.second < 100 by omega)]

/-- A point in time is read back from the text of its field. -/
theorem readInstant?_dateText {kind : FieldKind} {t : DateTime} (hk : kind.isTimestamp = true)
    (h : t.isValid = true) : readInstant? kind (kind.dateText t).toList = some t.toEpochMillis := by
  cases kind with
  | date => exact readStamp?_text h
  | long =>
    rw [FieldKind.dateText, DateTime.millisText, String.toList_ofList]
    exact integer?_intText _
  | _ => cases hk

/-! ## Ranges -/

/-- A range of points in time in milliseconds, each end of which is open or a point that may belong
to the range. -/
structure InstantRange where
  lower : Option Int
  includesLower : Bool
  upper : Option Int
  includesUpper : Bool
deriving DecidableEq, Repr

namespace InstantRange

/-- Whether a point in time lies in the range. -/
def contains (r : InstantRange) (t : Int) : Bool :=
  (r.lower.all fun l => if r.includesLower then l ≤ t else l < t) &&
    r.upper.all fun u => if r.includesUpper then t ≤ u else t < u

/-- Whether a bracket includes its end of the range: it does if it is square. -/
def includes? (square brace c : Char) : Option Bool :=
  if c = square then some true else if c = brace then some false else none

/-- An end of a range: a star if it is open, otherwise an escaped point in time. -/
def readEnd? (kind : FieldKind) (cs : List Char) : Option (Option Int) :=
  if cs = ['*'] then some none else (readInstant? kind (unescapeChars cs)).map some

/-- What follows the lower end of a range: the word between the ends, the upper end and its
bracket. -/
def readUpper? (kind : FieldKind) : List Char → Option (Option Int × Bool)
  | ' ' :: 'T' :: 'O' :: ' ' :: cs => do
    let upper ← readEnd? kind cs.dropLast
    let bracket ← cs.getLast?
    let includesUpper ← includes? ']' '\x7d' bracket
    return (upper, includesUpper)
  | _ => none

/-- The range of a text. -/
def read? (kind : FieldKind) (text : String) : Option InstantRange :=
  match text.toList with
  | [] => none
  | bracket :: cs => do
    let includesLower ← includes? '[' '\x7b' bracket
    let lower ← readEnd? kind (cs.takeWhile (· ≠ ' '))
    let (upper, includesUpper) ← readUpper? kind (cs.dropWhile (· ≠ ' '))
    return { lower, includesLower, upper, includesUpper }

theorem readUpper?_of_readEnd? {kind : FieldKind} {cs : List Char} {upper : Option Int}
    {includesUpper : Bool} (h : readEnd? kind cs = some upper) :
    readUpper? kind (' ' :: 'T' :: 'O' :: ' ' :: (cs ++ [if includesUpper then ']' else '\x7d'])) =
      some (upper, includesUpper) := by
  rw [readUpper?, List.dropLast_concat, h]
  cases includesUpper <;> simp [includes?]

/-- A range is read back from its ends. -/
theorem read?_rangeText {kind : FieldKind} {lower upper : String} {lo hi : Option Int}
    {includesLower includesUpper : Bool} (hl : readEnd? kind lower.toList = some lo)
    (hs : ' ' ∉ lower.toList) (hu : readEnd? kind upper.toList = some hi) :
    read? kind (Context.rangeText includesLower lower upper includesUpper) =
      some ⟨lo, includesLower, hi, includesUpper⟩ := by
  have htext : (Context.rangeText includesLower lower upper includesUpper).toList =
      (if includesLower then '[' else '\x7b') :: (lower.toList ++ (' ' :: 'T' :: 'O' :: ' ' ::
        (upper.toList ++ [if includesUpper then ']' else '\x7d']))) := by
    cases includesLower <;> cases includesUpper <;> simp [Context.rangeText]
  have hword : ∀ c ∈ lower.toList, (decide (c ≠ ' ')) = true := by
    intro c hc
    rw [decide_eq_true_eq]
    rintro rfl
    exact hs hc
  rw [read?, htext]
  dsimp only
  rw [List.takeWhile_append_of_pos hword, List.dropWhile_append_of_pos hword,
    List.takeWhile_cons_of_neg (by simp), List.dropWhile_cons_of_neg (by simp), List.append_nil, hl,
    readUpper?_of_readEnd? hu]
  cases includesLower <;> simp [includes?]

theorem readEnd?_open (kind : FieldKind) : readEnd? kind "*".toList = some none := rfl

theorem escapeChars_ne_star (cs : List Char) : escapeChars cs ≠ ['*'] := by
  intro h
  have hescaped := isEscapedChars_escapeChars cs []
  rw [List.append_nil, h] at hescaped
  exact absurd hescaped (by decide)

/-- What a text reads as, an end that has its escaped form reads as. -/
theorem readEnd?_escape_of_readInstant? {kind : FieldKind} {text : String} {n : Int}
    (h : readInstant? kind text.toList = some n) :
    readEnd? kind (escape text).toList = some (some n) := by
  have hunescape := unescapeChars_escapeChars text.toList []
  rw [List.append_nil, unescapeChars, List.append_nil] at hunescape
  rw [escape, String.toList_ofList, readEnd?, if_neg (escapeChars_ne_star _), hunescape, h]
  rfl

/-- A point in time is read back from an end that has its escaped text. -/
theorem readEnd?_escape {kind : FieldKind} {t : DateTime} (hk : kind.isTimestamp = true)
    (h : t.isValid = true) :
    readEnd? kind (escape (kind.dateText t)).toList = some (some t.toEpochMillis) :=
  readEnd?_escape_of_readInstant? (readInstant?_dateText hk h)

end InstantRange

theorem not_mem_escapeChars {c : Char} {cs : List Char} (h : c ∉ cs) (hc : c ≠ '\\') :
    c ∉ escapeChars cs := by
  rw [escapeChars, List.mem_flatMap]
  rintro ⟨d, hd, hcd⟩
  have hne : c ≠ d := by
    rintro rfl
    exact h hd
  rw [escapeChar] at hcd
  split at hcd <;> simp [hne, hc] at hcd

/-- The text of a point in time has no blanks. -/
theorem blank_not_mem_dateText (kind : FieldKind) (t : DateTime) :
    ' ' ∉ (escape (kind.dateText t)).toList := by
  have hpadded : ∀ width n, ' ' ∉ padded width n := fun width n h =>
    absurd (isBlank_padded ' ' h) (by decide)
  have hyear : ∀ y, ' ' ∉ yearText y := fun y h => absurd (isBlank_yearText ' ' h) (by decide)
  rw [escape, String.toList_ofList]
  refine not_mem_escapeChars ?_ (by decide)
  cases kind with
  | long =>
    have hdigits : ∀ n, ' ' ∉ digits n := fun n h => absurd (isDigit_digits n ' ' h) (by decide)
    rw [FieldKind.dateText, DateTime.millisText, String.toList_ofList, intText]
    split <;> simp [hdigits]
  | integer => simp [FieldKind.dateText, Date.codeText, hpadded, hyear]
  | _ => simp [FieldKind.dateText, DateTime.text, Date.chars, hpadded, hyear]

end AudienceFilter
