/-!
# Numbers in text

Decimal digits, integers within bounds, and the decimal numbers that a double precision field
can hold.
-/

namespace AudienceFilter.Number

/-- The decimal digits of a number. -/
def digits (n : Nat) : List Char := Nat.toDigits 10 n

/-- The number that decimal digits stand for. -/
def ofDigits (ds : List Char) : Nat := Nat.ofDigitChars 10 ds 0

/-- Digits filled up with zeros in front to at least `width`. -/
def padded (width n : Nat) : List Char :=
  List.replicate (width - (digits n).length) '0' ++ digits n

/-- An integer in decimal digits, with a minus sign if it is negative. -/
def intText (n : Int) : List Char :=
  if n < 0 then '-' :: digits n.natAbs else digits n.natAbs

/-- The number of the leading digits, at most `most` of them, and what follows; there has to be
at least one. -/
def readDigits? (most : Nat) (cs : List Char) : Option (Nat × List Char) :=
  let ds := (cs.take most).takeWhile Char.isDigit
  if ds.isEmpty then none else some (ofDigits ds, cs.drop ds.length)

/-- All of the characters as a number without a sign. -/
def natural? (cs : List Char) : Option Nat :=
  if cs.isEmpty || !cs.all Char.isDigit then none else some (ofDigits cs)

/-- All of the characters as an integer with at most one sign. -/
def integer? : List Char → Option Int
  | '+' :: ds => (natural? ds).map Int.ofNat
  | '-' :: ds => (natural? ds).map fun n => -Int.ofNat n
  | ds => (natural? ds).map Int.ofNat

/-- An integer that fits into `bits` bits in two's complement. -/
def signed? (bits : Nat) (cs : List Char) : Option Int :=
  let bound := Int.ofNat (Nat.pow 2 (bits - 1))
  (integer? cs).filter fun n => -bound ≤ n && n < bound

/-! ## Decimal numbers -/

/-- A decimal number `coefficient · 10 ^ exponent`, its sign left out. -/
structure Decimal where
  coefficient : Nat
  exponent : Int
deriving DecidableEq, Repr

/-- The characters without a sign in front. -/
def dropSign : List Char → List Char
  | '+' :: cs => cs
  | '-' :: cs => cs
  | cs => cs

/-- What follows the coefficient: nothing, or an exponent. -/
def exponent? : List Char → Option Int
  | [] => some 0
  | c :: cs => if c = 'e' ∨ c = 'E' then integer? cs else none

/-- Digits with at most one point among them and an optional exponent; a sign may stand in front
of either. -/
def decimal? (cs : List Char) : Option Decimal :=
  let unsigned := dropSign cs
  let whole := unsigned.takeWhile Char.isDigit
  let rest := unsigned.drop whole.length
  let afterPoint := match rest with
    | '.' :: tail => tail
    | _ => []
  let fraction := afterPoint.takeWhile Char.isDigit
  let tail := match rest with
    | '.' :: _ => afterPoint.drop fraction.length
    | _ => rest
  if whole.isEmpty && fraction.isEmpty then none
  else (exponent? tail).map fun e =>
    { coefficient := ofDigits (whole ++ fraction), exponent := e - fraction.length }

/-- The least number that no longer rounds to a finite double. -/
def overflowBound : Nat := Nat.pow 2 1024 - Nat.pow 2 970

/-- Whether the number rounds to a finite double. The bound has 309 digits, so the number of
digits decides except for numbers with exactly as many. -/
def Decimal.isFinite (d : Decimal) : Bool :=
  let magnitude := (digits d.coefficient).length + d.exponent
  if d.coefficient = 0 ∨ magnitude < 309 then true
  else if 309 < magnitude then false
  else d.coefficient * Nat.pow 10 d.exponent.toNat < overflowBound * Nat.pow 10 (-d.exponent).toNat

/-- Whether the characters are a decimal number that rounds to a finite double. -/
def isFiniteDecimal (cs : List Char) : Bool := (decimal? cs).any Decimal.isFinite

end AudienceFilter.Number
