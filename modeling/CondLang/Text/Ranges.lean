/-!
# Ranges of code points

A character property is stored as the ascending list of its maximal ranges of code points, both ends
included.  `contains` looks a character up and stops at the first range that starts behind it, so
plain letters are decided by the first entries.
-/

namespace CondLang.Text

/-- Ascending, disjoint ranges of code points, both ends included. -/
abbrev Ranges := List (Nat × Nat)

namespace Ranges

/-- Whether a code point lies in one of the ranges. -/
def contains : Ranges → Nat → Bool
  | [], _ => false
  | (first, last) :: rest, code =>
      if code < first then false else decide (code ≤ last) || contains rest code

/-- A code point below the first range is in none of them. -/
theorem contains_of_lt {first last code : Nat} {rest : Ranges} (hbelow : code < first) :
    contains ((first, last) :: rest) code = false := by
  simp [contains, hbelow]

end Ranges

end CondLang.Text
