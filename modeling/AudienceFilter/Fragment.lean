import AudienceFilter.MatchTree.Assigned

/-!
# Query fragments

The query text of a leaf, taken positively: `field:value`, a range, a list of values, or a
function query that compares two fields. A fragment with more than one term stands in
parentheses, so that it can be put anywhere in a query. Writing a fragment also checks that the
field supports the comparison and that no directive forbids it.
-/

namespace AudienceFilter.Context

/-- The field of an assignment as a query refers to it. -/
def queryField (a : Assignment) : Result QueryField :=
  liftName (QueryField.make a.field.nodeType a.field.name)

/-- A fragment on the field of an assignment. -/
def fieldFragment (a : Assignment) (text : String) (kind : ConditionKind) :
    Result FilterQuery := do
  let field ← queryField a
  liftFault (FilterQuery.make text [field] [kind])

/-- The fragment that an argument has any value. -/
def anyValue (ctx : Context) (arg : String) : Result FilterQuery := do
  let a ← liftError (ctx.assignment arg)
  fieldFragment a (a.field.name ++ ":*") .anyValue

/-! ## Capabilities -/

/-- Whether snippets may be searched for in the field of an argument. -/
def checkContains (ctx : Context) (a : Assignment) : Except ConversionError Unit :=
  if ctx.isEnabled .disableContains then
    .error (.containsNotSupported a.arg .disabledByDirective)
  else if !a.field.type.kind.supportsContains then
    .error (.containsNotSupported a.arg (.unsupportedKind a.field.type.kind))
  else .ok ()

/-- Whether the values of an argument may be compared by order. -/
def checkOrder (ctx : Context) (a : Assignment) : Except ConversionError Unit :=
  if ctx.isEnabled .disableOrder then
    .error (.orderNotSupported a.arg .disabledByDirective)
  else if !a.field.type.kind.supportsOrder then
    .error (.orderNotSupported a.arg (.unsupportedKind a.field.type.kind))
  else .ok ()

/-- Whether two arguments can be compared by a function query: dates if both or neither are
points in time, numbers always, otherwise the same type in the same kind of field. -/
def comparable (a b : Assignment) : Bool :=
  let kinds := (a.field.type.kind, b.field.type.kind)
  if a.argType = .date ∧ b.argType = .date then kinds.1.isTimestamp == kinds.2.isTimestamp
  else if a.argType.isNumeric && b.argType.isNumeric then true
  else a.argType == b.argType && kinds.1 == kinds.2

/-- Whether two arguments may be compared, and, if `ordered`, by order. -/
def checkReference (ctx : Context) (a b : Assignment) (ordered : Bool) :
    Except ConversionError Unit := do
  let refuse (reason : Refusal) : Except ConversionError Unit :=
    .error (.referenceNotSupported a.arg b.arg reason)
  if ctx.isEnabled .disableReferences then
    refuse .disabledByDirective
  if a.field.nodeType ≠ b.field.nodeType then
    refuse (.nodeTypeMismatch a.field.nodeType b.field.nodeType)
  if a.field.isCollection then
    refuse (.collectionField a.field.name)
  if b.field.isCollection then
    refuse (.collectionField b.field.name)
  if !comparable a b then
    refuse (.incompatibleKinds a.field.type.kind b.field.type.kind)
  if ordered then
    if ctx.isEnabled .disableOrder then
      throw (.orderNotSupported a.arg .disabledByDirective)
    if !a.field.type.kind.supportsFunctionOrder then
      refuse (.unsupportedKind a.field.type.kind)
    if !b.field.type.kind.supportsFunctionOrder then
      refuse (.unsupportedKind b.field.type.kind)

/-! ## Values and ranges -/

/-- A range between two texts, with a square bracket at an end that is included and a brace at
one that is not. -/
def rangeText (includesLower : Bool) (lower upper : String) (includesUpper : Bool) : String :=
  (if includesLower then "[" else "\x7b") ++ lower ++ " TO " ++ upper ++
    (if includesUpper then "]" else "\x7d")

/-- The day behind a date value, as it stands in a query. -/
def formatNextDay (a : Assignment) (value : String) : Except ConversionError String := do
  let next ← shiftDate a.arg value 1
  formatValue a next .equals

/-- What follows `field:` for a condition with a value, and the kind of the condition. -/
def valueCondition (ctx : Context) (a : Assignment) (c : Condition) :
    Result (String × ConditionKind) := do
  let value := c.value?.getD ""
  match c.op with
  | .contains =>
    liftError (ctx.checkContains a)
    let text ← liftError (formatValue a value .contains)
    return (text, .contains)
  | .equals =>
    let text ← liftError (formatValue a value .equals)
    if ctx.alignsDays a then
      let next ← liftError (formatNextDay a value)
      return (rangeText true text next false, .range)
    else return (text, .value)
  | .greaterThan =>
    liftError (ctx.checkOrder a)
    if ctx.alignsDays a then
      let next ← liftError (formatNextDay a value)
      return (rangeText true next "*" true, .range)
    else
      let text ← liftError (formatValue a value .greaterThan)
      return (rangeText false text "*" true, .range)
  | .lessThan =>
    liftError (ctx.checkOrder a)
    let text ← liftError (formatValue a value .lessThan)
    return (rangeText true "*" text false, .range)
  | .isUnknown => throw (.fault .noValueCondition)

/-- What follows `field:` for an inclusive bound. -/
def inclusiveBound (ctx : Context) (a : Assignment) (m : Multi) : Except ConversionError String := do
  ctx.checkOrder a
  let value := m.bound?.getD ""
  if m.leadOp = .greaterThan then
    let text ← formatValue a value m.leadOp
    return rangeText true text "*" true
  else if ctx.alignsDays a then
    let next ← formatNextDay a value
    return rangeText true "*" next false
  else
    let text ← formatValue a value m.leadOp
    return rangeText true "*" text true

/-- What follows `field:` for two bounds. -/
def betweenRange (ctx : Context) (a : Assignment) (b : Between) : Except ConversionError String := do
  ctx.checkOrder a
  let aligned := ctx.alignsDays a
  let lowerValue := b.lower.bound?.getD ""
  let upperValue := b.upper.bound?.getD ""
  let lower ←
    if !b.lower.isInclusive && aligned then formatNextDay a lowerValue
    else formatValue a lowerValue .greaterThan
  let upper ←
    if b.upper.isInclusive && aligned then formatNextDay a upperValue
    else formatValue a upperValue .lessThan
  return rangeText (b.lower.isInclusive || aligned) lower upper (b.upper.isInclusive && !aligned)

/-! ## Comparison of fields -/

/-- The milliseconds of a day. -/
def millisPerDay : String := "86400000"

/-- A field as a function query reads it; points in time are cut to whole days if `aligned`. -/
def valueSource (a : Assignment) (aligned : Bool) : String :=
  let source := if a.field.type.kind = .date then "ms(" ++ a.field.name ++ ")" else a.field.name
  if aligned then
    "sub(" ++ source ++ ",sub(" ++ source ++ ",product(floor(div(" ++ source ++ "," ++
      millisPerDay ++ "))," ++ millisPerDay ++ ")))"
  else source

/-- The function that compares two fields. -/
def comparison? (op : Operator) (inclusive : Bool) : Option String :=
  match op, inclusive with
  | .equals, _ => some "eq"
  | .greaterThan, false => some "gt"
  | .greaterThan, true => some "gte"
  | .lessThan, false => some "lt"
  | .lessThan, true => some "lte"
  | .contains, _ | .isUnknown, _ => none

/-- The fragment that compares two arguments; `inclusive` adds their equality to a bound. -/
def referenceFragment (ctx : Context) (c : Condition) (inclusive : Bool) : Result FilterQuery := do
  let other := c.reference?.getD ""
  let a ← liftError (ctx.assignment c.arg)
  let b ← liftError (ctx.assignment other)
  liftError (ctx.checkReference a b c.op.isBound)
  match comparison? c.op inclusive with
  | none => throw (.fault (.noComparison c.op.symbol c.arg other))
  | some function =>
    let aligned := ctx.alignsDays a && ctx.alignsDays b
    let text := "(" ++ a.field.name ++ ":* AND " ++ b.field.name ++
      ":* AND \x7b!frange l=1 u=1 v='if(" ++ function ++ "(" ++ valueSource a aligned ++ "," ++
      valueSource b aligned ++ "),1,0)'\x7d)"
    let left ← queryField a
    let right ← queryField b
    liftFault (FilterQuery.make text [left, right] [.anyValue, .funcRange])

/-! ## Fragments -/

/-- The fragment of a single condition. -/
def singleFragment (ctx : Context) (s : Single) : Result FilterQuery := do
  let c := s.condition
  if c.op = .isUnknown then
    ctx.anyValue c.arg
  else if c.isReference then
    ctx.referenceFragment c false
  else
    let a ← liftError (ctx.assignment c.arg)
    let (text, kind) ← ctx.valueCondition a c
    fieldFragment a (a.field.name ++ ":" ++ text) kind

/-- The fragment of several conditions: an inclusive bound, a list of values, or a disjunction of
conditions. -/
def multiFragment (ctx : Context) (m : Multi) : Result FilterQuery := do
  if m.shape.isReference then
    ctx.referenceFragment m.lead (!m.others.isEmpty)
  else
    let a ← liftError (ctx.assignment m.arg)
    let name := a.field.name
    match m.shape with
    | .valueOrEqual =>
      let range ← liftError (ctx.inclusiveBound a m)
      fieldFragment a (name ++ ":" ++ range) .range
    | .values =>
      if m.leadOp = .equals ∧ ctx.alignsDays a = false then
        let values ← m.members.mapM fun c => liftError (formatValue a (c.value?.getD "") .equals)
        fieldFragment a (name ++ ":(" ++ String.intercalate " OR " values ++ ")") .value
      else
        let conditions ← m.members.mapM (ctx.valueCondition a)
        let texts := conditions.map fun condition => name ++ ":" ++ condition.1
        let kind := (conditions.getLast?.map Prod.snd).getD .value
        fieldFragment a ("(" ++ String.intercalate " OR " texts ++ ")") kind
    | _ =>
      let (text, kind) ← ctx.valueCondition a m.lead
      fieldFragment a (name ++ ":" ++ text) kind

/-- The fragment of two bounds. -/
def betweenFragment (ctx : Context) (b : Between) : Result FilterQuery := do
  let a ← liftError (ctx.assignment b.arg)
  let range ← liftError (ctx.betweenRange a b)
  fieldFragment a (a.field.name ++ ":" ++ range) .range

/-- The fragment of a leaf, taken positively. -/
def leafFragment (ctx : Context) : Leaf → Result FilterQuery
  | .single s => ctx.singleFragment s
  | .multi m => ctx.multiFragment m
  | .between b => ctx.betweenFragment b

/-- The fragment of the documents that have a value for the argument of a leaf but do not match
the leaf. -/
def leafComplement (ctx : Context) (l : Leaf) : Result FilterQuery := do
  let positive ← ctx.leafFragment l
  let any ← ctx.anyValue l.arg
  liftFault (FilterQuery.make ("(" ++ any.text ++ " -" ++ positive.text ++ ")")
    (positive.fields ++ any.fields) (positive.kinds ++ any.kinds))

/-- The fragment of a tree, which has to be a leaf. -/
def fragment (ctx : Context) (t : MatchTree) : Result FilterQuery :=
  match t with
  | .leaf l => ctx.leafFragment l
  | _ => .error (.fault (.fragmentOfInner t.text))

/-- The complement of a tree, which has to be a leaf, among the documents that have a value. -/
def complement (ctx : Context) (t : MatchTree) : Result FilterQuery :=
  match t with
  | .leaf l => ctx.leafComplement l
  | _ => .error (.fault (.complementOfInner t.text))

end AudienceFilter.Context
