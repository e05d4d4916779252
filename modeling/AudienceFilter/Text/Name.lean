/-!
# Names of node types and fields

A name starts with a letter, goes on with letters, digits and underscores, and does not end with
an underscore; letters and digits are those of ASCII.
-/

namespace AudienceFilter.Text

/-- Letters, digits and the underscore. -/
def isNameChar (c : Char) : Bool := c.isAlphanum || c == '_'

/-- The rule for names over their characters. -/
def isNameChars : List Char → Bool
  | [] => false
  | c :: rest => c.isAlpha && rest.all isNameChar && (c :: rest).getLast? != some '_'

/-- Whether a text can name a node type or a field. -/
def isName (s : String) : Bool := isNameChars s.toList

end AudienceFilter.Text
