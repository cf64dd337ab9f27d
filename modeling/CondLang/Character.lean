import CondLang.Text.Alphabetic

/-!
# Character classes

The classes by which the first character of a literal decides what kind of literal it is.  Names may
use the letters of every script; digits and hexadecimal digits are ASCII.
-/

namespace CondLang.Character

/-- A character a number may start with: a sign, a point or a digit. -/
def isNumberStart (c : Char) : Bool := c == '+' || c == '-' || c == '.' || c.isDigit

/-- A character a name may start with: a letter or an underscore. -/
def isNameStart (c : Char) : Bool := c == '_' || Text.isAlphabetic c

/-- A character a name may hold: one that may start it, or a digit. -/
def isNameChar (c : Char) : Bool := isNameStart c || c.isDigit

/-- A letter that is a hexadecimal digit. -/
def isHexLetter (c : Char) : Bool :=
  (decide ('a' ≤ c) && decide (c ≤ 'f')) || (decide ('A' ≤ c) && decide (c ≤ 'F'))

/-- A hexadecimal digit. -/
def isHexDigit (c : Char) : Bool := c.isDigit || isHexLetter c

/-- Whether a text is a name: not empty, and of name characters only. -/
def isName (text : List Char) : Bool := !text.isEmpty && text.all isNameChar

end CondLang.Character
