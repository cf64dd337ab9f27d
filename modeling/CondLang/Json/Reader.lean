import CondLang.Json

/-!
# Reading JSON

`Json.parse?` reads one value with blanks around it and nothing else; it answers `none` for any
other text.  Beyond the grammar of JSON, three things are refused: a value inside more than 127
brackets, an escape of a surrogate that is not one of a pair, and a number beyond the largest
double.

A whole number is read exactly if it fits in 64 bits.  Other numbers are read as a significand, of
at most 64 bits, and a power of ten: digits that do not fit any more count only by their place if
they are whole digits, and not at all if they are decimals.  The significand is made a double and
multiplied or divided by the power of ten, which is rounded, too.
-/

namespace CondLang.Json

/-- A reader takes something off the front of a text. -/
abbrev Reader (α : Type) := List Char → Option (α × List Char)

/-- The brackets a value may stand in. -/
def maxDepth : Nat := 127

/-- Whether a character is a blank of JSON. -/
def isSpace (c : Char) : Bool := c == ' ' || c == '\n' || c == '\r' || c == '\t'

/-- A text without the blanks in front. -/
def skipSpace (text : List Char) : List Char := text.dropWhile isSpace

/-- Takes fixed characters off the front. -/
def expect? (characters : List Char) (text : List Char) : Option (List Char) :=
  if characters.isPrefixOf text then some (text.drop characters.length) else none

/-! ## Numbers -/

/-- What whole numbers and significands stay below. -/
def wordLimit : Nat := Nat.pow 2 64

/-- A significand and the power of ten it is multiplied with. -/
structure Scientific where
  significand : Nat
  exponent : Int

/-- Takes whole digits while they fit; one that does not, and all behind it, raise the exponent. -/
def takeWhole (value : Nat) : List Nat → Scientific
  | [] => ⟨value, 0⟩
  | digit :: rest =>
      if value * 10 + digit < wordLimit then takeWhole (value * 10 + digit) rest
      else ⟨value, rest.length + 1⟩

/-- Takes decimals while they fit, and drops the others. -/
def takeFraction (number : Scientific) : List Nat → Scientific
  | [] => number
  | digit :: rest =>
      let value := number.significand * 10 + digit
      if value < wordLimit then takeFraction ⟨value, number.exponent - 1⟩ rest else number

/-- Divides by ten to a power, by at most ten to the 308th at a time. -/
def divideByTens (x : Double) (power : Nat) : Option Double :=
  if power ≤ 308 then x.overTenTo power
  else if x.mantissa = 0 then some x
  else do
    let y ← x.overTenTo 308
    divideByTens y (power - 308)
termination_by power

/-- The double of a significand and a power of ten; `none` if it is too large. -/
def Scientific.toDouble? (number : Scientific) (negative : Bool) : Option Double := do
  let x ← Double.round number.significand 1
  let y ←
    if x.mantissa = 0 then some x
    else if number.exponent < 0 then divideByTens x number.exponent.natAbs
    else if number.exponent ≤ 308 then x.timesTenTo number.exponent.toNat
    else none
  return { y with negative }

/-- Takes at least one digit off the front. -/
def takeDigits? : Reader (List Nat) := fun text =>
  let digits := text.takeWhile Char.isDigit
  if digits.isEmpty then none
  else some (digits.map Text.digitValue, text.dropWhile Char.isDigit)

/-- Takes an exponent off the front, behind its `e`. -/
def takeExponent? : Reader Int := fun text =>
  match text with
  | '-' :: rest => (takeDigits? rest).map fun (digits, left) =>
      (-(Text.natOfDigits 10 digits : Int), left)
  | '+' :: rest => (takeDigits? rest).map fun (digits, left) =>
      ((Text.natOfDigits 10 digits : Int), left)
  | _ => (takeDigits? text).map fun (digits, left) =>
      ((Text.natOfDigits 10 digits : Int), left)

/-- Takes a point and decimals off the front, if they come next; a point without digits is refused.
-/
def takeDecimals? (number : Scientific) : Reader (Option Scientific) := fun text =>
  match text with
  | '.' :: rest => (takeDigits? rest).map fun (digits, left) =>
      (some (takeFraction number digits), left)
  | _ => some (none, text)

/-- Whether a text goes on with an exponent. -/
def splitExponentSign : List Char → Option (List Char)
  | c :: rest => if c = 'e' ∨ c = 'E' then some rest else none
  | [] => none

/-- The number of whole digits only. -/
def wholeNumber? (negative : Bool) (number : Scientific) : Option JsonNumber :=
  if number.exponent = 0 then
    if !negative then some (.integer number.significand)
    else if 0 < number.significand ∧ number.significand ≤ Nat.pow 2 63 then
      some (.integer (-(number.significand : Int)))
    else (number.toDouble? true).map .double
  else (number.toDouble? negative).map .double

/-- Takes a number without its sign off the front. -/
def takeUnsigned? (negative : Bool) : Reader JsonNumber := fun text => do
  let (digits, left) ← takeDigits? text
  if digits.head? = some 0 ∧ digits.length > 1 then none
  let number := takeWhole 0 digits
  let (decimals, left) ← takeDecimals? number left
  match splitExponentSign left with
  | some behind =>
      let (exponent, left) ← takeExponent? behind
      let number := decimals.getD number
      let x ← Scientific.toDouble? ⟨number.significand, number.exponent + exponent⟩ negative
      return (.double x, left)
  | none =>
      match decimals with
      | some number => return (.double (← number.toDouble? negative), left)
      | none => return (← wholeNumber? negative number, left)

/-- Takes a number off the front. -/
def takeNumber? : Reader JsonNumber := fun text =>
  match text with
  | '-' :: rest => takeUnsigned? true rest
  | _ => takeUnsigned? false text

/-! ## Strings -/

/-- Takes four hexadecimal digits off the front. -/
def takeUnit? : Reader Nat
  | a :: b :: c :: d :: rest =>
      if [a, b, c, d].all fun x => x.isDigit || ('a' ≤ x && x ≤ 'f') || ('A' ≤ x && x ≤ 'F') then
        some (Text.hexValue [a, b, c, d], rest)
      else none
  | _ => none

/-- The character that a letter behind a backslash stands for. -/
def simpleEscape? (c : Char) : Option Char :=
  if c = '"' ∨ c = '\\' ∨ c = '/' then some c
  else if c = 'b' then some '\x08'
  else if c = 'f' then some '\x0c'
  else if c = 'n' then some '\n'
  else if c = 'r' then some '\r'
  else if c = 't' then some '\t'
  else none

/-- Takes the character off the front that the text behind `\u` stands for; it takes two such
escapes if the first is the first half of a pair of surrogates. -/
def takeEscapedUnit? : Reader Char := fun text => do
  let (unit, left) ← takeUnit? text
  if 0xD800 ≤ unit ∧ unit < 0xDC00 then
    let behind ← expect? ['\\', 'u'] left
    let (low, left) ← takeUnit? behind
    if 0xDC00 ≤ low ∧ low < 0xE000 then
      return (Char.ofNat (0x10000 + (unit - 0xD800) * 0x400 + (low - 0xDC00)), left)
    else none
  else if 0xDC00 ≤ unit ∧ unit < 0xE000 then none
  else return (Char.ofNat unit, left)

/-- Takes one character of a string off the front. -/
def takeStringChar? : Reader Char
  | '\\' :: 'u' :: rest => takeEscapedUnit? rest
  | '\\' :: c :: rest => (simpleEscape? c).map (·, rest)
  | c :: rest => if c.toNat < 0x20 ∨ c = '\\' then none else some (c, rest)
  | [] => none

/-- Takes the characters of a string off the front, and its closing quote.  Each takes characters of
the text, and `fuel` counts them. -/
def takeString? : Nat → Reader (List Char)
  | 0, _ => none
  | fuel + 1, text =>
      match text with
      | '"' :: rest => some ([], rest)
      | _ => do
          let (c, left) ← takeStringChar? text
          let (others, left) ← takeString? fuel left
          return (c :: others, left)

/-! ## Values -/

/-- Takes the values of an array off the front, the first of which must come next, and the closing
bracket. -/
def takeValues? (value : Reader Json) : Nat → Reader (List Json)
  | 0, _ => none
  | fuel + 1, text => do
      let (first, left) ← value text
      match skipSpace left with
      | ',' :: rest =>
          let (others, left) ← takeValues? value fuel rest
          return (first :: others, left)
      | ']' :: rest => return ([first], rest)
      | _ => none

/-- Takes the members of an object off the front, the first of which must come next, and the closing
brace. -/
def takeMembers? (value : Reader Json) : Nat → Reader (List (String × Json))
  | 0, _ => none
  | fuel + 1, text =>
      match skipSpace text with
      | '"' :: rest => do
          let (key, left) ← takeString? rest.length rest
          let behind ← expect? [':'] (skipSpace left)
          let (first, left) ← value behind
          match skipSpace left with
          | ',' :: rest =>
              let (others, left) ← takeMembers? value fuel rest
              return ((.ofList key, first) :: others, left)
          | '\x7d' :: rest => return ([(.ofList key, first)], rest)
          | _ => none
      | _ => none

/-- Takes an array off the front, behind its opening bracket. -/
def takeArray? (value : Reader Json) : Reader Json := fun text =>
  match skipSpace text with
  | ']' :: rest => some (array [], rest)
  | inner => (takeValues? value inner.length inner).map fun (values, left) => (array values, left)

/-- Takes an object off the front, behind its opening brace. -/
def takeObject? (value : Reader Json) : Reader Json := fun text =>
  match skipSpace text with
  | '\x7d' :: rest => some (object [], rest)
  | inner =>
      (takeMembers? value inner.length inner).map fun (members, left) => (ofMembers members, left)

/-- Takes a value and the blanks before it off the front, given the reader of the values within its
brackets, if there may be brackets. -/
def takeValueWith? (inner : Option (Reader Json)) : Reader Json := fun text =>
  match skipSpace text with
  | '[' :: rest => inner.bind (takeArray? · rest)
  | '\x7b' :: rest => inner.bind (takeObject? · rest)
  | '"' :: rest =>
      (takeString? rest.length rest).map fun (chars, left) => (string (.ofList chars), left)
  | 'n' :: rest => (expect? ['u', 'l', 'l'] rest).map (null, ·)
  | 't' :: rest => (expect? ['r', 'u', 'e'] rest).map (bool true, ·)
  | 'f' :: rest => (expect? ['a', 'l', 's', 'e'] rest).map (bool false, ·)
  | trimmed => (takeNumber? trimmed).map fun (value, left) => (number value, left)

/-- Takes a value off the front that may have a number of brackets within it. -/
def takeValue? : Nat → Reader Json
  | 0 => takeValueWith? none
  | depth + 1 => takeValueWith? (some (takeValue? depth))

/-- The value that a text writes, if it does. -/
def parse? (text : String) : Option Json := do
  let (value, left) ← takeValue? maxDepth text.toList
  if (skipSpace left).isEmpty then some value else none

end CondLang.Json
