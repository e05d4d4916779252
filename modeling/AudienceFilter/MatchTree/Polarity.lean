/-!
# Polarities

How a leaf of a match tree is taken: as it stands, as its complement, or as its complement among
the documents in which one or both sides of a comparison have a value.
-/

namespace AudienceFilter

/-- How a leaf is taken. -/
inductive Polarity where
  | positive
  | negated
  | negatedLeftKnown
  | negatedRightKnown
  | negatedBothKnown
deriving DecidableEq, Repr

namespace Polarity

/-- The name of the polarity. -/
def name : Polarity → String
  | positive => "Default"
  | negated => "Negate"
  | negatedLeftKnown => "NegateVerifyLeftHasAnyValue"
  | negatedRightKnown => "NegateVerifyRightHasAnyValue"
  | negatedBothKnown => "NegateVerifyBothHaveAnyValue"

/-- Every polarity. -/
def all : List Polarity :=
  [positive, negated, negatedLeftKnown, negatedRightKnown, negatedBothKnown]

/-- The polarity of a name. -/
def ofName? (s : String) : Option Polarity := all.find? fun p => p.name = s

/-- What stands in front of a leaf in the notation of match trees. -/
def mark : Polarity → String
  | positive => ""
  | negated => "NOT "
  | negatedLeftKnown => "NOT(L) "
  | negatedRightKnown => "NOT(R) "
  | negatedBothKnown => "NOT(LR) "

/-- Whether the complement is taken. -/
def isNegated (p : Polarity) : Bool := p != positive

/-- Whether the left side has to have a value. -/
def verifiesLeft (p : Polarity) : Bool := p == negatedLeftKnown || p == negatedBothKnown

/-- Whether the right side has to have a value. -/
def verifiesRight (p : Polarity) : Bool := p == negatedRightKnown || p == negatedBothKnown

/-- Whether some side has to have a value. -/
def verifies (p : Polarity) : Bool := p.verifiesLeft || p.verifiesRight

/-- The negation that requires values on the given sides. -/
def verifying : (left right : Bool) → Polarity
  | true, true => negatedBothKnown
  | true, false => negatedLeftKnown
  | false, true => negatedRightKnown
  | false, false => negated

end Polarity

end AudienceFilter
