import AudienceFilter.Expression.Json
import AudienceFilter.Proofs.GuardCoverage

/-!
# What the stored form keeps

Expressions are stored as they stand, but only those are read back whose conditions all pass the
check of a new condition:

* `Condition.ofJson?_toJson`: a stored condition is read back or refused, as the check says;
* `Expression.ofJson?_toJson`: so is an expression, by the conditions at any depth in it;
* `Expression.valid_of_ofJson?`: whatever is read, from any JSON value, has passed the check.
-/

namespace AudienceFilter

/-! ## Names -/

@[simp] theorem Operator.ofName?_name (op : Operator) : ofName? op.name = some op := by
  cases op <;> decide

@[simp] theorem Connective.ofName?_name (j : Connective) : ofName? j.name = some j := by
  cases j <;> decide

@[simp] theorem Extent.ofName?_name (e : Extent) : ofName? e.name = some e := by
  cases e <;> decide

/-! ## Conditions -/

theorem Operand.ofJson?_toJson (o : Operand) : ofJson? o.toJson = some o := by
  cases o with
  | value v => rfl
  | reference arg => rfl

theorem Operand.optionOfJson?_toJson (o : Option Operand) :
    optionOfJson? (some ((o.map toJson).getD .null)) = some o := by
  cases o with
  | none => rfl
  | some o =>
    have hread : optionOfJson? (some o.toJson) = (ofJson? o.toJson).map some := by
      cases o <;> rfl
    rw [Option.map_some, Option.getD_some, hread, ofJson?_toJson, Option.map_some]

namespace Condition

/-- The check passes on the parts of a condition as they are. -/
theorem make_eq_ok {arg : String} {op : Operator} {operand : Option Operand} {c : Condition}
    (h : make arg op operand = .ok c) : c = { arg, op, operand } := by
  unfold make at h
  split at h
  · cases h
  · split at h
    · cases h
      rfl
    · cases h
    · cases h
    · cases h
    · split at h
      · cases h
      · cases h
        rfl
    · cases h
      rfl

theorem toOption_make (c : Condition) :
    (make c.arg c.op c.operand).toOption = if c.isValid then some c else none := by
  unfold isValid
  cases h : make c.arg c.op c.operand with
  | error e => rfl
  | ok d => rw [make_eq_ok h]; rfl

theorem isValid_of_make {arg : String} {op : Operator} {operand : Option Operand} {c : Condition}
    (h : make arg op operand = .ok c) : c.isValid = true := by
  rw [make_eq_ok h, isValid, h]
  rfl

theorem ofJson?_toJson (c : Condition) : ofJson? c.toJson = if c.isValid then some c else none := by
  have hop : (Json.string c.op.name).constant? >>= Operator.ofName? = some c.op :=
    Operator.ofName?_name c.op
  calc ofJson? c.toJson
      = (do
          let op ← (Json.string c.op.name).constant? >>= Operator.ofName?
          let operand ← Operand.optionOfJson? (some ((c.operand.map Operand.toJson).getD .null))
          (make c.arg op operand).toOption) := rfl
    _ = (make c.arg c.op c.operand).toOption := by
      rw [hop, Operand.optionOfJson?_toJson]
      rfl
    _ = if c.isValid then some c else none := toOption_make c

theorem isValid_of_ofJson? {json : Json} {c : Condition} (h : ofJson? json = some c) :
    c.isValid = true := by
  unfold ofJson? at h
  split at h
  · obtain ⟨arg, -, h⟩ := Option.bind_eq_some_iff.1 h
    obtain ⟨op, -, h⟩ := Option.bind_eq_some_iff.1 h
    obtain ⟨operand, -, h⟩ := Option.bind_eq_some_iff.1 h
    exact isValid_of_make (eq_ok_of_toOption h)
  · cases h

end Condition

/-! ## Expressions -/

namespace Expression

/-- Whether every condition in an expression passes the check, negated ones included. -/
def isValid (e : Expression) : Bool := e.conditions.all Condition.isValid

theorem isValid_condition (c : Condition) : (Expression.condition c).isValid = c.isValid :=
  Bool.and_true _

theorem isValid_negation (strict : Bool) (c : Condition) :
    (Expression.negation strict c).isValid = c.isValid := Bool.and_true _

theorem isValid_combined (j : Connective) (members : List Expression) :
    (Expression.combined j members).isValid = members.all isValid := by
  rw [isValid, conditions_combined, List.all_flatMap]
  rfl

theorem toJsonAll_eq_map (es : List Expression) : toJsonAll es = es.map toJson := by
  induction es with
  | nil => rfl
  | cons e es ih => rw [toJsonAll, ih, List.map_cons]

/-- The members of a combination are read back together or not at all. -/
theorem ofJsonAll?_map_toJson {es : List Expression}
    (h : ∀ e ∈ es, ofJson? e.toJson = if e.isValid then some e else none) :
    ofJsonAll? (es.map toJson) = if es.all isValid then some es else none := by
  induction es with
  | nil => rfl
  | cons e es ih =>
    rw [List.forall_mem_cons] at h
    rw [List.map_cons, ofJsonAll?, h.1, ih h.2, List.all_cons]
    cases e.isValid <;> cases es.all isValid <;> rfl

/-- What is stored is read back as it was, or refused for one of its conditions. -/
theorem ofJson?_toJson (e : Expression) :
    ofJson? e.toJson = if e.isValid then some e else none := by
  induction e using memberInduction with
  | condition c =>
    calc ofJson? (toJson (.condition c))
        = (Condition.ofJson? c.toJson).map .condition := rfl
      _ = if (Expression.condition c).isValid then some (.condition c) else none := by
        rw [Condition.ofJson?_toJson, isValid_condition]
        cases c.isValid <;> rfl
  | negation strict c =>
    calc ofJson? (toJson (.negation strict c))
        = (Condition.ofJson? c.toJson).bind fun d => some (.negation strict d) := rfl
      _ = if (Expression.negation strict c).isValid then some (.negation strict c) else none := by
        rw [Condition.ofJson?_toJson, isValid_negation]
        cases c.isValid <;> rfl
  | combined j members ih =>
    calc ofJson? (toJson (.combined j members))
        = (Connective.ofName? j.name).bind fun i =>
            (ofJsonAll? (toJsonAll members)).bind fun es => some (.combined i es) := rfl
      _ = if (Expression.combined j members).isValid then some (.combined j members) else none := by
        rw [Connective.ofName?_name, toJsonAll_eq_map, ofJsonAll?_map_toJson ih, isValid_combined]
        cases members.all isValid <;> rfl
  | extent x =>
    calc ofJson? (toJson (.extent x))
        = (Extent.ofName? x.name).map .extent := rfl
      _ = some (.extent x) := by rw [Extent.ofName?_name, Option.map_some]

theorem valid_of_negationOfJson? {json : Json} {e : Expression}
    (h : negationOfJson? json = some e) : e.isValid = true := by
  unfold negationOfJson? at h
  split at h
  · obtain ⟨c, hc, h⟩ := Option.bind_eq_some_iff.1 h
    obtain ⟨strict, -, h⟩ := Option.bind_eq_some_iff.1 h
    obtain rfl := Option.some.inj h
    rw [isValid_negation, Condition.isValid_of_ofJson? hc]
  · cases h

theorem valid_of_extentOfJson? {json : Json} {e : Expression} (h : extentOfJson? json = some e) :
    e.isValid = true := by
  obtain ⟨name, -, h⟩ := Option.bind_eq_some_iff.1 h
  obtain ⟨x, -, rfl⟩ := Option.map_eq_some_iff.1 h
  rfl

mutual

/-- Whatever is read has passed the check, from whichever JSON value it is read. -/
theorem valid_of_ofJson? : ∀ {json : Json} {e : Expression}, ofJson? json = some e →
    e.isValid = true
  | .object [(tag, content)], e, h => by
    rw [ofJson?] at h
    split at h
    · obtain ⟨c, hc, rfl⟩ := Option.map_eq_some_iff.1 h
      rw [isValid_condition, Condition.isValid_of_ofJson? hc]
    · split at h
      · exact valid_of_negationOfJson? h
      · split at h
        · exact valid_of_combinedOfJson? h
        · split at h
          · exact valid_of_extentOfJson? h
          · cases h
  | .null, _, h | .bool _, _, h | .number _ _, _, h | .string _, _, h | .array _, _, h
  | .object [], _, h | .object (_ :: _ :: _), _, h => by cases h

theorem valid_of_combinedOfJson? : ∀ {json : Json} {e : Expression},
    combinedOfJson? json = some e → e.isValid = true
  | .object fields, e, h => by
    rw [combinedOfJson?] at h
    obtain ⟨j, -, h⟩ := Option.bind_eq_some_iff.1 h
    obtain ⟨members, hm, h⟩ := Option.bind_eq_some_iff.1 h
    obtain rfl := Option.some.inj h
    rw [isValid_combined, valid_of_membersField? hm]
  | .array [j, members], e, h => by
    rw [combinedOfJson?] at h
    obtain ⟨j, -, h⟩ := Option.bind_eq_some_iff.1 h
    obtain ⟨members, hm, h⟩ := Option.bind_eq_some_iff.1 h
    obtain rfl := Option.some.inj h
    rw [isValid_combined, valid_of_membersOfJson? hm]
  | .null, _, h | .bool _, _, h | .number _ _, _, h | .string _, _, h | .array [], _, h
  | .array [_], _, h | .array (_ :: _ :: _ :: _), _, h => by cases h

theorem valid_of_membersField? : ∀ {fields : List (String × Json)} {es : List Expression},
    membersField? fields = some es → es.all isValid = true
  | [], _, h => by cases h
  | (name, content) :: rest, es, h => by
    rw [membersField?] at h
    split at h
    · exact valid_of_membersOfJson? h
    · exact valid_of_membersField? h

theorem valid_of_membersOfJson? : ∀ {json : Json} {es : List Expression},
    membersOfJson? json = some es → es.all isValid = true
  | .array items, es, h => by
    rw [membersOfJson?] at h
    exact valid_of_ofJsonAll? h
  | .null, _, h | .bool _, _, h | .number _ _, _, h | .string _, _, h | .object _, _, h => by
    cases h

theorem valid_of_ofJsonAll? : ∀ {items : List Json} {es : List Expression},
    ofJsonAll? items = some es → es.all isValid = true
  | [], es, h => by
    obtain rfl := Option.some.inj h
    rfl
  | item :: rest, es, h => by
    rw [ofJsonAll?] at h
    obtain ⟨e, he, h⟩ := Option.bind_eq_some_iff.1 h
    obtain ⟨es', hes, h⟩ := Option.bind_eq_some_iff.1 h
    obtain rfl := Option.some.inj h
    rw [List.all_cons, valid_of_ofJson? he, valid_of_ofJsonAll? hes, Bool.true_and]

end

/-- The stored form reads back as the expression itself if every condition in it passes the check
of a new condition, and as nothing otherwise; and nothing is ever read but conditions that pass. -/
theorem storedForm_keeps_valid (e : Expression) :
    ofJson? e.toJson = (if e.conditions.all Condition.isValid then some e else none) ∧
      ∀ (json : Json) (d : Expression), ofJson? json = some d →
        ∀ c ∈ d.conditions, c.isValid = true :=
  ⟨ofJson?_toJson e, fun _ _ h => List.all_eq_true.1 (valid_of_ofJson? h)⟩

/-- A disjunction with a comparison below, which may be one that no condition makes. -/
def withinLimit (op : Operator) : Expression :=
  .combined .or [.condition (.unknown "age"),
    .combined .and [.extent .all, .negation true (.withReference "age" op "limit")]]

/-- A disjunction of one condition, with its parts given by position. -/
def storedByPosition : Json :=
  .object [("Combined", .array [.object [("Or", .null)],
    .array [.object [("Match", .array [.string "age", .string "IsUnknown", .null])]]])]

theorem storedForm_keeps_valid_withinLimit :
    ofJson? (withinLimit .greaterThan).toJson = some (withinLimit .greaterThan) ∧
      ofJson? (withinLimit .contains).toJson = none ∧
        ofJson? storedByPosition = some (.combined .or [.condition (.unknown "age")]) ∧
          (Condition.unknown "age").isValid = true := by
  have hread : ofJson? storedByPosition = some (.combined .or [.condition (.unknown "age")]) := rfl
  refine ⟨(storedForm_keeps_valid _).1.trans (if_pos (by decide)),
    (storedForm_keeps_valid _).1.trans (if_neg (by decide)), hread, ?_⟩
  exact (storedForm_keeps_valid (withinLimit .greaterThan)).2 _ _ hread _ (by decide)

end Expression

end AudienceFilter
