import CondLang.Text.Ascii

/-!
# Truth values

`true`, `on` and `yes` are true; `false`, `off`, `no` and the empty text are false.  ASCII case does
not matter, and no other text has a truth value.
-/

namespace CondLang.Value

/-- The words for true. -/
def trueWords : List String := ["true", "on", "yes"]

/-- The words for false. -/
def falseWords : List String := ["false", "off", "no"]

/-- The truth value of a text, if it has one. -/
def boolean? (text : String) : Option Bool :=
  if text.isEmpty then some false
  else if trueWords.any (Text.sameIgnoringAscii text) then some true
  else if falseWords.any (Text.sameIgnoringAscii text) then some false
  else none

end CondLang.Value
