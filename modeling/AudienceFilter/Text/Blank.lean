import AudienceFilter.Text.CharRange

/-!
# White space

The white space characters of Unicode (property White_Space), and text with the white space at
its ends cut off.
-/

namespace AudienceFilter.Text

/-- The white space characters, as increasing ranges of code points. -/
def blankRanges : List (Nat × Nat) := [
  (0x9, 0xd), (0x20, 0x20), (0x85, 0x85), (0xa0, 0xa0), (0x1680, 0x1680), (0x2000, 0x200a),
  (0x2028, 0x2029), (0x202f, 0x202f), (0x205f, 0x205f), (0x3000, 0x3000)]

/-- White space of every script. -/
def isBlank (c : Char) : Bool := inRanges c.toNat blankRanges

/-- The characters without the white space in front of them. -/
def trimStart (cs : List Char) : List Char := cs.dropWhile isBlank

/-- The characters without the white space at either end. -/
def trimChars (cs : List Char) : List Char := (trimStart (trimStart cs).reverse).reverse

/-- The text without the white space at either end. -/
def trim (s : String) : String := String.ofList (trimChars s.toList)

/-- Whether the text is empty or white space throughout. -/
def isBlankText (s : String) : Bool := s.toList.all isBlank

end AudienceFilter.Text
