import CondLang.Text.Utf8

/-!
# Percent escapes

A `%` followed by two hexadecimal digits stands for one byte of UTF-8 text.  Everything else,
a lone `%` included, stands for itself.  Decoding goes over the text once, from left to right, so a
decoded `%` never starts another escape.
-/

namespace CondLang.Text

/-- The value of a hexadecimal digit given as a byte. -/
def hexValue? (byte : Nat) : Option Nat :=
  if 0x30 ≤ byte ∧ byte ≤ 0x39 then some (byte - 0x30)
  else if 0x41 ≤ byte ∧ byte ≤ 0x46 then some (byte - 0x41 + 10)
  else if 0x61 ≤ byte ∧ byte ≤ 0x66 then some (byte - 0x61 + 10)
  else none

/-- The byte that two hexadecimal digits write. -/
def hexPair? (high low : Nat) : Option Nat :=
  match hexValue? high, hexValue? low with
  | some h, some l => some (16 * h + l)
  | _, _ => none

/-- Replaces the escapes in the bytes of a text by the bytes they stand for. -/
def decodeEscapes : List Nat → List Nat
  | 0x25 :: high :: low :: rest =>
      match hexPair? high low with
      | some byte => byte :: decodeEscapes rest
      | none => 0x25 :: decodeEscapes (high :: low :: rest)
  | byte :: rest => byte :: decodeEscapes rest
  | [] => []

/-- A text with its escapes decoded. -/
def unescape (text : String) : String :=
  .ofList (Utf8.decode (decodeEscapes (Utf8.encode text.toList)))

end CondLang.Text
