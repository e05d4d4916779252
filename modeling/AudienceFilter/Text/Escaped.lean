import AudienceFilter.Text.Blank

/-!
# Escaped values

Inside a query a value stands with a backslash in front of every character of the query grammar
and of all white space. `escape` writes that form and `unescape` drops each escaping backslash.
-/

namespace AudienceFilter.Text

/-- The characters that the query grammar gives a meaning of their own. -/
def grammarChars : List Char := [
  '+', '-', '&', '|', '!', '(', ')', '\x7b', '\x7d', '[', ']', '^', '\x22', '~', '*', '?', ':',
  '/', '\\']

/-- Whether a character of a value takes a backslash. -/
def needsEscape (c : Char) : Bool := grammarChars.contains c || isBlank c

/-- The escaped form of one character. -/
def escapeChar (c : Char) : List Char := if needsEscape c then ['\\', c] else [c]

/-- The escaped form of a list of characters. -/
def escapeChars (cs : List Char) : List Char := cs.flatMap escapeChar

/-- The escaped form of a value. -/
def escape (s : String) : String := String.ofList (escapeChars s.toList)

/-- Whether escaping leaves the value as it is. -/
def isPlainValue (s : String) : Bool := s.toList.all fun c => !needsEscape c

/-- The characters with each escaping backslash dropped. A backslash escapes the character
behind it, so a backslash that is itself escaped stays. -/
def unescapeChars : List Char → List Char
  | [] => []
  | [c] => [c]
  | a :: b :: rest => if a = '\\' then b :: unescapeChars rest else a :: unescapeChars (b :: rest)

/-- The value that an escaped text stands for. -/
def unescape (s : String) : String := String.ofList (unescapeChars s.toList)

end AudienceFilter.Text
