import CondLang.Character
import CondLang.Text.Digits

/-!
# Decimal numbers

A number is a whole mantissa and a count of decimals; the decimals written are kept, so `10.000` has
three.  A mantissa is below `2 ^ 96` and there are at most 28 decimals.

A number is written in decimal, with an optional sign and a point that may lack digits on one side,
or as `0x` and hexadecimal digits of a value below `2 ^ 64`.  Decimal digits are taken from left to
right while they fit.  Whole digits must all fit; at the first decimal that does not, the number is
rounded by that digit, five and up away from zero, and the remaining digits are dropped.  All digits
are ASCII, those that are dropped included.

Numbers are compared by value: `10` and `10.0` are equal.
-/

namespace CondLang

/-- The number `mantissa / 10 ^ scale`. -/
structure Decimal where
  mantissa : Int
  scale : Nat
  deriving DecidableEq, Repr, Inhabited

namespace Decimal

/-- What the digits of a number stay below. -/
def mantissaLimit : Nat := Nat.pow 2 96

/-- The most decimals of a number. -/
def maxScale : Nat := 28

/-- What a hexadecimal number stays below. -/
def hexLimit : Nat := Nat.pow 2 64

/-! ## Reading -/

/-- Takes whole digits; there is no number if one does not fit. -/
def takeWhole (value : Nat) : List Nat → Option Nat
  | [] => some value
  | digit :: rest =>
      if value * 10 + digit < mantissaLimit then takeWhole (value * 10 + digit) rest else none

/-- Rounds digits with `scale` decimals by the next digit.  If that takes them out of range, the
last decimal is rounded off, too. -/
def roundBy (digit value scale : Nat) : Option (Nat × Nat) :=
  if digit < 5 then some (value, scale)
  else if value + 1 < mantissaLimit then some (value + 1, scale)
  else if scale = 0 then none
  else some ((value + 1 + 4) / 10, scale - 1)

/-- Takes decimals behind digits that already have `scale` of them, and rounds by the first that
does not fit. -/
def takeFraction (value scale : Nat) : List Nat → Option (Nat × Nat)
  | [] => some (value, scale)
  | digit :: rest =>
      if scale < maxScale ∧ value * 10 + digit < mantissaLimit then
        takeFraction (value * 10 + digit) (scale + 1) rest
      else roundBy digit value scale

/-- The number of a sign, whole digits and decimals. -/
def ofDigits? (negative : Bool) (whole fraction : List Char) : Option Decimal := do
  let value ← takeWhole 0 (whole.map Text.digitValue)
  let (value, scale) ← takeFraction value 0 (fraction.map Text.digitValue)
  return ⟨if negative then -(value : Int) else value, scale⟩

/-- The number written behind a sign. -/
def ofUnsigned? (negative : Bool) (text : List Char) : Option Decimal :=
  let whole := text.takeWhile Char.isDigit
  match text.dropWhile Char.isDigit with
  | [] => if whole.isEmpty then none else ofDigits? negative whole []
  | '.' :: fraction =>
      if fraction.all Char.isDigit && !(whole.isEmpty && fraction.isEmpty) then
        ofDigits? negative whole fraction
      else none
  | _ => none

/-- The number of hexadecimal digits. -/
def ofHex? (digits : List Char) : Option Decimal :=
  let value := Text.hexValue digits
  if value < hexLimit then some ⟨value, 0⟩ else none

/-- The hexadecimal digits of a number written with `0x`, of which there is at least one. -/
def hexDigits? : List Char → Option (List Char)
  | '0' :: x :: digits =>
      if (x = 'x' ∨ x = 'X') ∧ !digits.isEmpty ∧ digits.all Character.isHexDigit then some digits
      else none
  | _ => none

/-- The number that characters write, if they do. -/
def ofChars? (text : List Char) : Option Decimal :=
  match hexDigits? text with
  | some digits => ofHex? digits
  | none =>
      match text with
      | '-' :: unsigned => ofUnsigned? true unsigned
      | '+' :: unsigned => ofUnsigned? false unsigned
      | unsigned => ofUnsigned? false unsigned

/-- The number that a text writes, if it does. -/
def parse? (text : String) : Option Decimal := ofChars? text.toList

/-! ## Comparing and writing -/

/-- The order of two numbers by value. -/
def compare (a b : Decimal) : Ordering :=
  Ord.compare (a.mantissa * Int.pow 10 b.scale) (b.mantissa * Int.pow 10 a.scale)

/-- The digits of a number with its decimals behind a point. -/
def digits (value scale : Nat) : List Char :=
  let all := Text.paddedDigits (scale + 1) value
  if scale = 0 then all
  else all.take (all.length - scale) ++ '.' :: all.drop (all.length - scale)

/-- A number as text, with all its decimals. -/
def toText (a : Decimal) : String :=
  let text := digits a.mantissa.natAbs a.scale
  .ofList (if a.mantissa < 0 then '-' :: text else text)

end Decimal

end CondLang
