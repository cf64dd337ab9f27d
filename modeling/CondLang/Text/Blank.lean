import CondLang.Text.Ranges

/-!
# Blank characters

`isBlank` is the Unicode property White_Space.  Blanks separate the tokens of a condition and are
trimmed off names, paths and arguments.
-/

namespace CondLang.Text

/-- The ranges of the property White_Space. -/
def blankRanges : Ranges :=
  [(0x9, 0xD), (0x20, 0x20), (0x85, 0x85), (0xA0, 0xA0), (0x1680, 0x1680), (0x2000, 0x200A),
   (0x2028, 0x2029), (0x202F, 0x202F), (0x205F, 0x205F), (0x3000, 0x3000)]

/-- Whether a character is white space. -/
def isBlank (c : Char) : Bool := blankRanges.contains c.toNat

/-- Characters without the blanks in front. -/
def dropBlanks (text : List Char) : List Char := text.dropWhile isBlank

/-- Characters without the blanks at both ends. -/
def trimmed (text : List Char) : List Char :=
  (dropBlanks (dropBlanks text).reverse).reverse

/-- Text without the blanks at both ends. -/
def trim (text : String) : String := .ofList (trimmed text.toList)

/-- Whether text holds nothing but blanks. -/
def isBlankText (text : String) : Bool := text.toList.all isBlank

end CondLang.Text
