/-!
# UTF-8

`encode` writes characters as bytes.  `decode` reads bytes back and never fails: where a byte cannot
continue the character begun before it, the bytes of that character so far become one replacement
character and reading starts anew at the offending byte; a byte that can start no character, and a
character cut off by the end, become one replacement character each.

The reader is a machine over the bytes.  Between characters it owes nothing; inside one it keeps the
bits read, the number of bytes still due, and the range in which the next byte must lie.  The range
of the second byte depends on the first, which rules out overlong forms, surrogates and code points
above the last one.
-/

namespace CondLang.Text.Utf8

/-- The bytes of a character, as numbers below 256. -/
def bytesOf (code : Nat) : List Nat :=
  if code < 0x80 then [code]
  else if code < 0x800 then [0xC0 + code / 0x40, 0x80 + code % 0x40]
  else if code < 0x10000 then
    [0xE0 + code / 0x1000, 0x80 + code / 0x40 % 0x40, 0x80 + code % 0x40]
  else
    [0xF0 + code / 0x40000, 0x80 + code / 0x1000 % 0x40, 0x80 + code / 0x40 % 0x40,
      0x80 + code % 0x40]

/-- The bytes of a text. -/
def encode (text : List Char) : List Nat := text.flatMap fun c => bytesOf c.toNat

/-- A character begun but not ended: the bits read so far, the bytes still due, and the least and
the greatest byte that may come next. -/
structure Pending where
  bits : Nat
  due : Nat
  least : Nat
  greatest : Nat

/-- The character put in place of bytes that encode none. -/
def replacement : Char := '\ufffd'

/-- What a byte begins: nothing, a whole character, or one with more bytes due. -/
inductive Lead where
  | none
  | whole (c : Char)
  | more (pending : Pending)

/-- What a byte begins when it stands at the start of a character. -/
def lead (byte : Nat) : Lead :=
  if byte < 0x80 then .whole (Char.ofNat byte)
  else if byte < 0xC2 then .none
  else if byte < 0xE0 then .more ⟨byte - 0xC0, 1, 0x80, 0xBF⟩
  else if byte = 0xE0 then .more ⟨0, 2, 0xA0, 0xBF⟩
  else if byte = 0xED then .more ⟨0xD, 2, 0x80, 0x9F⟩
  else if byte < 0xF0 then .more ⟨byte - 0xE0, 2, 0x80, 0xBF⟩
  else if byte = 0xF0 then .more ⟨0, 3, 0x90, 0xBF⟩
  else if byte < 0xF4 then .more ⟨byte - 0xF0, 3, 0x80, 0xBF⟩
  else if byte = 0xF4 then .more ⟨4, 3, 0x80, 0x8F⟩
  else .none

/-- Reads bytes, inside a character or between two. -/
def decodeFrom : Option Pending → List Nat → List Char
  | none, [] => []
  | some _, [] => [replacement]
  | none, byte :: rest =>
      match lead byte with
      | .none => replacement :: decodeFrom none rest
      | .whole c => c :: decodeFrom none rest
      | .more pending => decodeFrom (some pending) rest
  | some pending, byte :: rest =>
      if pending.least ≤ byte ∧ byte ≤ pending.greatest then
        let bits := pending.bits * 0x40 + (byte - 0x80)
        if pending.due = 1 then Char.ofNat bits :: decodeFrom none rest
        else decodeFrom (some ⟨bits, pending.due - 1, 0x80, 0xBF⟩) rest
      else
        replacement ::
          match lead byte with
          | .none => replacement :: decodeFrom none rest
          | .whole c => c :: decodeFrom none rest
          | .more pending => decodeFrom (some pending) rest

/-- The characters that bytes encode, with replacement characters where they encode none. -/
def decode (bytes : List Nat) : List Char := decodeFrom none bytes

end CondLang.Text.Utf8
