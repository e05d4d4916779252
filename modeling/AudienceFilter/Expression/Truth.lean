import AudienceFilter.Expression

/-!
# The truth of expressions

A valuation says which conditions and which negations hold, and thereby which expressions do
(`Expression.holds`). Usually it comes from what is known about the arguments
(`Valuation.ofKnown`): a comparison holds only if its arguments are known, a negation is the
complement of its condition, and a strict one holds only if the arguments are known as well.

* `Expression.holdsEach_eq_map`: the members of a combination are valued one by one.
-/

namespace AudienceFilter

/-- The truth of a combination. Without members a conjunction is true and a disjunction false. -/
def Connective.truth : Connective → List Bool → Bool
  | .and, bs => bs.all id
  | .or, bs => bs.any id

/-- The truth of the two sets. -/
def Extent.truth : Extent → Bool
  | .all => true
  | .none => false

/-- Which conditions hold, and which negations. -/
structure Valuation where
  condition : Condition → Bool
  negation : (strict : Bool) → Condition → Bool

namespace Valuation

/-- Whether a condition holds, by which arguments are known and which comparisons are met. -/
def conditionOfKnown (known : String → Bool) (meets : Condition → Bool) (c : Condition) : Bool :=
  if c.op = .isUnknown then !known c.arg else c.args.all known && meets c

/-- The valuation by which arguments are known and which comparisons are met. -/
def ofKnown (known : String → Bool) (meets : Condition → Bool) : Valuation where
  condition := conditionOfKnown known meets
  negation strict c := !conditionOfKnown known meets c && (!strict || c.args.all known)

end Valuation

namespace Expression

mutual

/-- Whether the expression holds. -/
def holds (v : Valuation) : Expression → Bool
  | .condition c => v.condition c
  | .negation strict c => v.negation strict c
  | .combined j members => j.truth (holdsEach v members)
  | .extent e => e.truth

/-- Whether each of the expressions holds. -/
def holdsEach (v : Valuation) : List Expression → List Bool
  | [] => []
  | e :: rest => holds v e :: holdsEach v rest

end

theorem holdsEach_eq_map (v : Valuation) (es : List Expression) :
    holdsEach v es = es.map (holds v) := by
  induction es with
  | nil => rfl
  | cons e es ih => rw [holdsEach, ih, List.map_cons]

end Expression

end AudienceFilter
