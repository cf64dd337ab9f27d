import CondLang.Text.Ascii
import CondLang.Text.CaseMap

/-!
# Equality without regard to case

The values of a condition are equal if they differ in case only.  Two ASCII texts are compared by
the case of ASCII letters.  Other texts are compared character by character after each character is
made upper case where its upper case is a single character: `ä` is equal to `Ä`, and `ß` is not
equal to `SS`.
-/

namespace CondLang.Text

/-- Whether two texts differ at most in case. -/
def sameIgnoringCase (a b : String) : Bool :=
  if isAscii a && isAscii b then sameIgnoringAscii a b
  else a.toList.map upperOne == b.toList.map upperOne

end CondLang.Text
