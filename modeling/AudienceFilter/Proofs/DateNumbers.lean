import AudienceFilter.Proofs.DateOrder
import AudienceFilter.Proofs.DayRanges

/-!
# Dates in fields of numbers

A field of milliseconds and a field of day codes hold dates as integers, and a range on such a field
compares integers. Their order is that of the dates, with one exception (`FieldKind.Reverses`):

* `DateValue.dateNumber?_eq`: the number that the text of a date reads as;
* `dateNumber_le_iff`: when the numbers of two dates have the order of the dates;
* `Context.boundsAgree`: what that means for the ranges of bounds by dates;
* `dateNumber_order`: both together.
-/

namespace AudienceFilter

open Calendar

/-! ## Numbers of dates -/

namespace FieldKind

/-- The number of a date value in a field of the kind: its native text, read as an integer. -/
def dateNumber? (kind : FieldKind) (arg value : String) : Option Int :=
  (kind.native arg .date value).toOption.bind fun text => Number.integer? text.toList

/-- The number of a point in time in a field of day codes or of milliseconds. -/
def dateNumber (kind : FieldKind) (t : DateTime) : Int :=
  if kind = integer then t.date.code else t.toEpochMillis

/-- Whether a field of the kind holds dates as numbers. -/
def HoldsDateNumbers (kind : FieldKind) : Prop := kind = long ∨ kind = integer

/-- Whether the numbers of two days run against the order of the days: day codes of different days
in one year before year 0. -/
def Reverses (kind : FieldKind) (d e : Date) : Prop :=
  kind = integer ∧ d.year < 0 ∧ d.year = e.year ∧ d ≠ e

end FieldKind

variable {kind : FieldKind}

theorem integer?_dateText (hk : kind.HoldsDateNumbers) {t : DateTime} (ht : t.isValid = true) :
    Number.integer? (kind.dateText t).toList = some (kind.dateNumber t) := by
  rcases hk with rfl | rfl
  · rw [FieldKind.dateText, DateTime.millisText, String.toList_ofList]
    exact integer?_intText _
  · obtain ⟨hm, hd⟩ := Date.lt_of_isValid (DateTime.date_isValid ht)
    exact integer?_codeText hm hd

/-- The numbers of dates have the order of the dates, unless they run against it. -/
theorem dateNumber_le_iff (hk : kind.HoldsDateNumbers) {t u : DateTime} (ht : t.isValid = true)
    (hu : u.isValid = true) (h : t.UpTo u) :
    kind.dateNumber t ≤ kind.dateNumber u ↔ ¬ kind.Reverses t.date u.date := by
  rcases hk with rfl | rfl
  · exact iff_of_true (DateTime.toEpochMillis_le ht hu h) fun hr => absurd hr.1 (by decide)
  -- A code has no time of day, so points in time on one day have the same code.
  · rcases h.date with hdate | hbefore
    · exact iff_of_true (Int.le_of_eq (congrArg Date.code hdate)) fun hr => hr.2.2.2 hdate
    · have hreverses : FieldKind.integer.Reverses t.date u.date ↔
          t.date.year < 0 ∧ t.date.year = u.date.year :=
        ⟨fun hr => ⟨hr.2.1, hr.2.2.1⟩, fun hy => ⟨rfl, hy.1, hy.2, hbefore.ne⟩⟩
      rw [hreverses]
      exact Date.code_le_iff (DateTime.date_isValid ht) (DateTime.date_isValid hu) hbefore

namespace DateValue

theorem dateNumber?_eq (hk : kind.HoldsDateNumbers) (v : DateValue) (arg : String) :
    kind.dateNumber? arg v.text = some (kind.dateNumber v.time) := by
  rw [FieldKind.dateNumber?, v.native_eq]
  exact integer?_dateText hk v.isValid_time

end DateValue

/-! ## Ranges of numbers -/

/-- A range of a text whose ends are integers. Milliseconds are integers too, so this is how a field
of milliseconds reads a range. -/
def readNumbers? (text : String) : Option InstantRange := InstantRange.read? .long text

theorem readNumbers?_end (hk : kind.HoldsDateNumbers) (v : DateValue) :
    InstantRange.readEnd? .long (Text.escape (kind.dateText v.time)).toList =
      some (some (kind.dateNumber v.time)) :=
  InstantRange.readEnd?_escape_of_readInstant? (integer?_dateText hk v.isValid_time)

/-- Whether dates of an argument are compared as the numbers that a field of the kind holds: no
formatter writes them, they are not cut to whole days, and comparisons by order are permitted. -/
structure Context.ComparesNumbers (ctx : Context) (kind : FieldKind) (arg : String)
    (a : Assignment) : Prop where
  checked : ctx.Checked
  assignment : ctx.assignment arg = .ok a
  argType : a.argType = .date
  kind : a.field.type.kind = kind
  formatter : a.field.type.formatter = none
  unaligned : ctx.alignsDays a = false
  ordered : ctx.checkOrder a = .ok ()

/-- A range from one date to another, both included. -/
def Leaf.fromTo (a : Assignment) (arg : String) (lower upper : DateValue) : Leaf :=
  .between ⟨.dayOrEqual a arg .greaterThan lower, .dayOrEqual a arg .lessThan upper, true⟩

namespace Context

/-- Whether the query of a leaf is a range of numbers behind a field. -/
def ShowsNumbers (ctx : Context) (a : Assignment) (l : Leaf) (r : InstantRange) : Prop :=
  ∃ q text, ctx.fragment (.leaf l) = .ok q ∧ q.text = a.field.name ++ ":" ++ text ∧
    readNumbers? text = some r

variable {ctx : Context} {arg : String} {a : Assignment}

section Ranges

variable (h : ctx.ComparesNumbers kind arg a) (hk : kind.HoldsDateNumbers)
include h

theorem formatValue_number (v : DateValue) (op : Operator) (hop : op ≠ .contains) :
    formatValue a v.text op = .ok (Text.escape (kind.dateText v.time)) := by
  rw [v.formatValue_eq h.argType h.formatter hop, h.kind]

/-- A leaf whose text is a range shows the range that the ends read as. -/
theorem showsNumbers_of_range {l : Leaf} {lower upper : String} {includesLower includesUpper : Bool}
    {lo hi : Option Int}
    (hrun : ∀ q, fieldFragment a (a.field.name ++ ":" ++
      rangeText includesLower lower upper includesUpper) .range = .ok q →
        ctx.fragment (.leaf l) = .ok q)
    (hl : InstantRange.readEnd? .long lower.toList = some lo) (hs : ' ' ∉ lower.toList)
    (hu : InstantRange.readEnd? .long upper.toList = some hi) :
    ctx.ShowsNumbers a l ⟨lo, includesLower, hi, includesUpper⟩ := by
  obtain ⟨q, hq, htext⟩ := fieldFragment_rangeText (h.checked.assignment h.assignment)
    (h.checked.field h.assignment) includesLower lower upper includesUpper
  exact ⟨q, _, hrun q hq, htext, InstantRange.read?_rangeText hl hs hu⟩

/-- The query of a strict bound, from its condition. -/
theorem fragment_day {op : Operator} (hop : op ≠ .isUnknown) {v : DateValue} {text : String}
    {q : FilterQuery}
    (hc : ctx.valueCondition a (.withOperator arg op v.text) = .ok (text, .range))
    (hq : fieldFragment a (a.field.name ++ ":" ++ text) .range = .ok q) :
    ctx.fragment (.leaf (.day a arg op v)) = .ok q := by
  rw [Leaf.day, fragment_single hop rfl]
  exact bind_eq_ok.2 ⟨a, liftError_eq_ok.2 h.assignment, bind_eq_ok.2 ⟨_, hc, hq⟩⟩

/-- The query of a bound that is included, from its range. -/
theorem fragment_dayOrEqual {op : Operator} {v : DateValue} {text : String} {q : FilterQuery}
    (hb : ctx.inclusiveBound a (.dayOrEqual a arg op v) = .ok text)
    (hq : fieldFragment a (a.field.name ++ ":" ++ text) .range = .ok q) :
    ctx.fragment (.leaf (.multi (.dayOrEqual a arg op v))) = .ok q :=
  bind_eq_ok.2 ⟨a, liftError_eq_ok.2 h.assignment, bind_eq_ok.2 ⟨_, liftError_eq_ok.2 hb, hq⟩⟩

include hk

/-- The range of the dates above a date. -/
theorem showsNumbers_above (v : DateValue) :
    ctx.ShowsNumbers a (.day a arg .greaterThan v)
      ⟨some (kind.dateNumber v.time), false, none, true⟩ := by
  have hcondition : ctx.valueCondition a (.withOperator arg .greaterThan v.text) =
      .ok (rangeText false (Text.escape (kind.dateText v.time)) "*" true, .range) := by
    refine bind_eq_ok.2 ⟨(), liftError_eq_ok.2 h.ordered, ?_⟩
    rw [h.unaligned]
    exact bind_eq_ok.2 ⟨_, liftError_eq_ok.2 (formatValue_number h v .greaterThan (by decide)), rfl⟩
  exact showsNumbers_of_range h (fun q hq => fragment_day h (by decide) hcondition hq)
    (readNumbers?_end hk v) (blank_not_mem_dateText _ _) (InstantRange.readEnd?_open _)

/-- The range of the dates below a date. -/
theorem showsNumbers_below (v : DateValue) :
    ctx.ShowsNumbers a (.day a arg .lessThan v)
      ⟨none, true, some (kind.dateNumber v.time), false⟩ := by
  have hcondition : ctx.valueCondition a (.withOperator arg .lessThan v.text) =
      .ok (rangeText true "*" (Text.escape (kind.dateText v.time)) false, .range) := by
    refine bind_eq_ok.2 ⟨(), liftError_eq_ok.2 h.ordered, ?_⟩
    exact bind_eq_ok.2 ⟨_, liftError_eq_ok.2 (formatValue_number h v .lessThan (by decide)), rfl⟩
  exact showsNumbers_of_range h (fun q hq => fragment_day h (by decide) hcondition hq)
    (InstantRange.readEnd?_open _) (by decide) (readNumbers?_end hk v)

/-- The range of the dates from a date on. -/
theorem showsNumbers_from (v : DateValue) :
    ctx.ShowsNumbers a (.multi (.dayOrEqual a arg .greaterThan v))
      ⟨some (kind.dateNumber v.time), true, none, true⟩ := by
  have hbound : ctx.inclusiveBound a (.dayOrEqual a arg .greaterThan v) =
      .ok (rangeText true (Text.escape (kind.dateText v.time)) "*" true) := by
    refine bind_eq_ok.2 ⟨(), h.ordered, ?_⟩
    exact bind_eq_ok.2 ⟨_, formatValue_number h v .greaterThan (by decide), rfl⟩
  exact showsNumbers_of_range h (fun q hq => fragment_dayOrEqual h hbound hq)
    (readNumbers?_end hk v) (blank_not_mem_dateText _ _) (InstantRange.readEnd?_open _)

/-- The range of the dates up to a date. -/
theorem showsNumbers_upTo (v : DateValue) :
    ctx.ShowsNumbers a (.multi (.dayOrEqual a arg .lessThan v))
      ⟨none, true, some (kind.dateNumber v.time), true⟩ := by
  have hbound : ctx.inclusiveBound a (.dayOrEqual a arg .lessThan v) =
      .ok (rangeText true "*" (Text.escape (kind.dateText v.time)) true) := by
    refine bind_eq_ok.2 ⟨(), h.ordered, ?_⟩
    rw [h.unaligned]
    exact bind_eq_ok.2 ⟨_, formatValue_number h v .lessThan (by decide), rfl⟩
  exact showsNumbers_of_range h (fun q hq => fragment_dayOrEqual h hbound hq)
    (InstantRange.readEnd?_open _) (by decide) (readNumbers?_end hk v)

/-- The range from one date to another. -/
theorem showsNumbers_fromTo (v w : DateValue) :
    ctx.ShowsNumbers a (.fromTo a arg v w)
      ⟨some (kind.dateNumber v.time), true, some (kind.dateNumber w.time), true⟩ := by
  have hrange : ctx.betweenRange a
      ⟨.dayOrEqual a arg .greaterThan v, .dayOrEqual a arg .lessThan w, true⟩ =
        .ok (rangeText true (Text.escape (kind.dateText v.time))
          (Text.escape (kind.dateText w.time)) true) := by
    refine bind_eq_ok.2 ⟨(), h.ordered, ?_⟩
    rw [h.unaligned]
    exact bind_eq_ok.2 ⟨_, formatValue_number h v .greaterThan (by decide),
      bind_eq_ok.2 ⟨_, formatValue_number h w .lessThan (by decide), rfl⟩⟩
  refine showsNumbers_of_range h (fun q hq => ?_) (readNumbers?_end hk v)
    (blank_not_mem_dateText _ _) (readNumbers?_end hk w)
  exact bind_eq_ok.2 ⟨a, liftError_eq_ok.2 h.assignment,
    bind_eq_ok.2 ⟨_, liftError_eq_ok.2 hrange, hq⟩⟩

end Ranges

/-- Whether ranges with ends at two dates `v` and `w` treat the numbers `m` and `n` of the dates as
if `v` did not come behind `w`, exactly if `agree` holds: what lies above `w` leaves out `v`, what
lies below `v` leaves out `w`, what lies from `v` on takes in `w`, what lies up to `w` takes in `v`,
and what lies from `v` to `w` takes in both. -/
structure BoundsAgree (ctx : Context) (arg : String) (a : Assignment) (v w : DateValue) (m n : Int)
    (agree : Prop) : Prop where
  above : ∃ r, ctx.ShowsNumbers a (.day a arg .greaterThan w) r ∧ (r.contains m = false ↔ agree)
  below : ∃ r, ctx.ShowsNumbers a (.day a arg .lessThan v) r ∧ (r.contains n = false ↔ agree)
  fromOn : ∃ r, ctx.ShowsNumbers a (.multi (.dayOrEqual a arg .greaterThan v)) r ∧
    (r.contains n = true ↔ agree)
  upTo : ∃ r, ctx.ShowsNumbers a (.multi (.dayOrEqual a arg .lessThan w)) r ∧
    (r.contains m = true ↔ agree)
  within : ∃ r, ctx.ShowsNumbers a (.fromTo a arg v w) r ∧
    (r.contains m = true ∧ r.contains n = true ↔ agree)

theorem boundsAgree (h : ctx.ComparesNumbers kind arg a) (hk : kind.HoldsDateNumbers)
    (v w : DateValue) :
    ctx.BoundsAgree arg a v w (kind.dateNumber v.time) (kind.dateNumber w.time)
      (kind.dateNumber v.time ≤ kind.dateNumber w.time) where
  above := ⟨_, showsNumbers_above h hk w, by simp [InstantRange.contains]⟩
  below := ⟨_, showsNumbers_below h hk v, by simp [InstantRange.contains]⟩
  fromOn := ⟨_, showsNumbers_from h hk v, by simp [InstantRange.contains]⟩
  upTo := ⟨_, showsNumbers_upTo h hk w, by simp [InstantRange.contains]⟩
  within := ⟨_, showsNumbers_fromTo h hk v w, by simp [InstantRange.contains]⟩

end Context

/-- Two dates in their order have numbers, in a field of milliseconds and in a field of day codes,
and the numbers have that order too unless they are codes of different days in one year before
year 0. Exactly then ranges with ends at the dates agree with their order. -/
theorem dateNumber_order (hk : kind.HoldsDateNumbers) {v w : DateValue} (h : v.time.UpTo w.time)
    (arg : String) :
    ∃ m n, kind.dateNumber? arg v.text = some m ∧ kind.dateNumber? arg w.text = some n ∧
      (m ≤ n ↔ ¬ kind.Reverses v.time.date w.time.date) ∧
      ∀ (ctx : Context) (a : Assignment), ctx.ComparesNumbers kind arg a →
        ctx.BoundsAgree arg a v w m n (¬ kind.Reverses v.time.date w.time.date) := by
  have horder := dateNumber_le_iff hk v.isValid_time w.isValid_time h
  refine ⟨_, _, v.dateNumber?_eq hk arg, w.dateNumber?_eq hk arg, horder, fun ctx a ha => ?_⟩
  have hagree := Context.boundsAgree ha hk v w
  rwa [propext horder] at hagree

/-! ## Entries of a chronicle -/

/-- Entries with the day that they are about, as a day code, and the time at which they were
written, in milliseconds. -/
def Draft.chronicle : Draft where
  main := { name := "entry", nature := .main }
  assignments := [
    { arg := "day", argType := .date,
      field := { nodeType := "entry", name := "day_code", type := { kind := .integer } } },
    { arg := "written", argType := .date,
      field := { nodeType := "entry", name := "written", type := { kind := .long } } }]

/-- The catalog of the draft. -/
def Catalog.chronicle : Catalog where
  main := Draft.chronicle.main
  others := []
  assignments := Draft.chronicle.assignments
  policies := []
  nodeTypeField := "node_type"
  uniqueKeyField := "id"
  dependentKeyField := "main_id"

/-- The context of conversions that compare points in time and not days. -/
def Context.chronicle : Context :=
  .new { mapping := Catalog.chronicle.toMapping, directives := [.disableAlignment] }

/-- The leap second at the end of the year before year 0. -/
def DateValue.beforeYearZero : DateValue :=
  ⟨"-0001-12-31 23:59:60", ⟨⟨-1, 12, 31⟩, 23, 59, 60⟩, by decide +kernel⟩

/-- The start of year 0. -/
def DateValue.yearZero : DateValue := ⟨"0000-01-01", .midnight ⟨0, 1, 1⟩, by decide +kernel⟩

theorem dateNumber_order_yearZero :
    FieldKind.long.HoldsDateNumbers ∧ FieldKind.integer.HoldsDateNumbers ∧
      DateValue.beforeYearZero.time.UpTo DateValue.yearZero.time ∧
      (∃ a m n, Context.chronicle.ComparesNumbers .long "written" a ∧
        FieldKind.long.dateNumber? "written" "-0001-12-31 23:59:60" = some m ∧
        FieldKind.long.dateNumber? "written" "0000-01-01" = some n ∧ m ≤ n ∧
        Context.chronicle.BoundsAgree "written" a .beforeYearZero .yearZero m n True) ∧
      ∃ a m n, Context.chronicle.ComparesNumbers .integer "day" a ∧
        FieldKind.integer.dateNumber? "day" "-0001-12-31 23:59:60" = some m ∧
        FieldKind.integer.dateNumber? "day" "0000-01-01" = some n ∧ m ≤ n ∧
        Context.chronicle.BoundsAgree "day" a .beforeYearZero .yearZero m n True := by
  have hbuild : Draft.chronicle.build = .ok Catalog.chronicle := rfl
  have hchecked : Context.chronicle.Checked := Draft.checked hbuild rfl
  have horder : DateValue.beforeYearZero.time.UpTo DateValue.yearZero.time := by decide
  have hkept : ∀ kind : FieldKind, ¬ kind.Reverses DateValue.beforeYearZero.time.date
      DateValue.yearZero.time.date := by
    rintro kind ⟨-, -, hyear, -⟩
    exact absurd hyear (by decide)
  have hwritten : Context.chronicle.ComparesNumbers .long "written" _ :=
    ⟨hchecked, rfl, rfl, rfl, rfl, rfl, rfl⟩
  have hday : Context.chronicle.ComparesNumbers .integer "day" _ :=
    ⟨hchecked, rfl, rfl, rfl, rfl, rfl, rfl⟩
  obtain ⟨m, n, hm, hn, hle, hagree⟩ := dateNumber_order (.inl rfl) horder "written"
  obtain ⟨m', n', hm', hn', hle', hagree'⟩ := dateNumber_order (.inr rfl) horder "day"
  have hwrittenBounds := hagree _ _ hwritten
  have hdayBounds := hagree' _ _ hday
  rw [eq_true (hkept _)] at hwrittenBounds hdayBounds
  exact ⟨.inl rfl, .inr rfl, horder, ⟨_, m, n, hwritten, hm, hn, hle.2 (hkept _), hwrittenBounds⟩,
    _, m', n', hday, hm', hn', hle'.2 (hkept _), hdayBounds⟩

/-- The last day of a year before year 0 has a smaller code than the first, and the range between
them is empty. -/
theorem dateNumber_order_withinNegativeYear :
    readDate "day" "-0001-01-01" = .ok (.midnight ⟨-1, 1, 1⟩) ∧
      readDate "day" "-0001-12-31" = .ok (.midnight ⟨-1, 12, 31⟩) ∧
      (DateTime.midnight ⟨-1, 1, 1⟩).UpTo (.midnight ⟨-1, 12, 31⟩) ∧
      FieldKind.integer.dateNumber? "day" "-0001-01-01" = some (-10101) ∧
      FieldKind.integer.dateNumber? "day" "-0001-12-31" = some (-11231) ∧
      ¬ (-10101 : Int) ≤ -11231 ∧
      Draft.chronicle.build = .ok Catalog.chronicle ∧
      ((do
        let t ← MatchTree.ofExpression .chronicle
          (.combined .and [.condition (.withOperator "day" .greaterThan "-0001-01-01"),
            .condition (.withOperator "day" .lessThan "-0001-12-31")])
        let r ← MatchTree.consolidated .chronicle t
        Context.chronicle.fragment r).toOption.map FilterQuery.text) =
          some ("day_code:" ++ "\x7b\\-00010101 TO \\-00011231\x7d") ∧
      readNumbers? "\x7b\\-00010101 TO \\-00011231\x7d" =
        some ⟨some (-10101), false, some (-11231), false⟩ := by
  refine ⟨rfl, rfl, ?_, ?_, ?_, ?_, rfl, ?_, ?_⟩
  all_goals decide +kernel

end AudienceFilter
