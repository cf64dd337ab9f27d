import CondLang.Character
import CondLang.Text.Ascii
import CondLang.Text.Blank
import CondLang.Token

/-!
# Reading tokens

`Lexeme.read` reads one lexeme from the front of a text that starts with no blank.  Its answer, a
`Reading`, counts the characters taken, so spans and error positions are offsets added to where the
reader stands.  A `Cursor` is a place in the text of a condition: what it has read of the text is a
number of characters, and what is left is a list of them.  `Cursor.next` skips blanks and reads one
token; after an error it stands where reading stopped, so one may go on.

* A name is a keyword (`and`, `or`, `not` in any case), the name of a function if the next character
  that is no blank is `(`, and else a string.
* A number is `0x` and hexadecimal digits, or an optional sign and a run of digits and points with
  at least one digit in it.
* A quoted string ends at the next quote that is in no reference; it may need expansion if it holds
  a reference or any `%`.
-/

namespace CondLang

/-- What can be wrong with the text of a condition before it is parsed. -/
inductive LexErrorKind where
  | unterminatedString
  | unterminatedReference (kind : ReferenceKind)
  | illFormedReference (kind : ReferenceKind)
  | illFormedEquals
  | illegalCharacter (c : Char)
  | malformedNumber (text : String)
  deriving DecidableEq, Repr

/-- The error in words. -/
def LexErrorKind.message : LexErrorKind → String
  | unterminatedString => "unterminated quoted string"
  | unterminatedReference kind =>
      "unterminated '" ++ kind.sigil.toString ++ "(' reference, missing ')'"
  | illFormedReference kind => "'" ++ kind.sigil.toString ++ "' must be followed by '('"
  | illFormedEquals => "unexpected '=' (did you mean '=='?)"
  | illegalCharacter c => "unexpected character '" ++ c.toString ++ "'"
  | malformedNumber text => "malformed number '" ++ text ++ "'"

/-- An error and the offset of the character it is about. -/
structure LexError where
  kind : LexErrorKind
  position : Nat
  deriving DecidableEq, Repr

/-- The error in words, with its position. -/
def LexError.message (error : LexError) : String :=
  error.kind.message ++ " at position " ++ toString error.position

/-- What came of reading at the front of a text: a lexeme, or an error with its offset from where
reading began.  Either way `taken` characters were consumed and `rest` is left. -/
inductive Reading where
  | lexeme (lexeme : Lexeme) (taken : Nat) (rest : List Char)
  | failure (kind : LexErrorKind) (offset : Nat) (taken : Nat) (rest : List Char)

namespace Lexeme

/-! ## The kinds of lexeme -/

/-- A symbol of `taken` characters. -/
def readSymbol (s : Symbol) (taken : Nat) (rest : List Char) : Reading :=
  .lexeme (.symbol s) taken rest

/-- Reads a bare reference, whose sigil starts the text. -/
def readReference (kind : ReferenceKind) (text : List Char) : Reading :=
  match text with
  | _ :: '(' :: inner =>
      match Reference.splitGroup? ('(' :: inner) with
      | some (group, rest) =>
          .lexeme (.text (.reference kind) (.ofList (kind.sigil :: group)) true)
            (group.length + 1) rest
      | none => .failure (.unterminatedReference kind) 0 0 text
  | _ => .failure (.illFormedReference kind) 0 0 text

/-- Reads on inside a quoted string, behind its opening quote.  `taken` characters have been taken,
`before` are those of the string, last first, and `expandable` says whether they need expansion. -/
def readQuoted (taken : Nat) (before : List Char) (expandable : Bool) (text : List Char) :
    Reading :=
  match text with
  | [] => .failure .unterminatedString 0 taken []
  | c :: rest =>
      if c = '\'' then
        .lexeme (.text .string (.ofList before.reverse) expandable) (taken + 1) rest
      else
        match _hfront : Reference.front (c :: rest) with
        | .closed _ group left =>
            readQuoted (taken + 1 + group.length) (group.reverse ++ c :: before) true left
        | .unclosed kind => .failure (.unterminatedReference kind) taken taken (c :: rest)
        | .plain => readQuoted (taken + 1) (c :: before) (expandable || c == '%') rest
termination_by text.length
decreasing_by
  · exact Reference.length_left_lt _hfront
  · simp

/-- The digits of a number, or that it has none. -/
def numberReading (text : List Char) (wellFormed : Bool) (rest : List Char) : Reading :=
  if wellFormed then .lexeme (.text .number (.ofList text) false) text.length rest
  else .failure (.malformedNumber (.ofList text)) 0 text.length rest

/-- Splits a sign off a number. -/
def splitSign : List Char → List Char × List Char
  | c :: rest => if c = '+' ∨ c = '-' then ([c], rest) else ([], c :: rest)
  | [] => ([], [])

/-- Whether a character may stand in a decimal number behind its sign. -/
def isDecimalChar (c : Char) : Bool := c.isDigit || c == '.'

/-- Reads a decimal number. -/
def readDecimal (text : List Char) : Reading :=
  let (sign, unsigned) := splitSign text
  let digits := unsigned.takeWhile isDecimalChar
  numberReading (sign ++ digits) (digits.any Char.isDigit) (unsigned.dropWhile isDecimalChar)

/-- Reads a number. -/
def readNumber (text : List Char) : Reading :=
  match text with
  | '0' :: x :: rest =>
      if x = 'x' ∨ x = 'X' then
        let digits := rest.takeWhile Character.isHexDigit
        numberReading ('0' :: x :: digits) (!digits.isEmpty) (rest.dropWhile Character.isHexDigit)
      else readDecimal text
  | _ => readDecimal text

/-- The symbol a name stands for, if it is a keyword. -/
def keyword? (name : String) : Option Symbol :=
  if Text.sameIgnoringAscii name "and" then some (.connective .and)
  else if Text.sameIgnoringAscii name "or" then some (.connective .or)
  else if Text.sameIgnoringAscii name "not" then some .not
  else none

/-- The lexeme of a name, given the text behind it. -/
def ofName (name : String) (rest : List Char) : Lexeme :=
  match keyword? name with
  | some s => .symbol s
  | none =>
      if (Text.dropBlanks rest).head? = some '(' then .text .function name false
      else .text .string name false

/-- Reads a name. -/
def readName (text : List Char) : Reading :=
  let name := text.takeWhile Character.isNameChar
  let rest := text.dropWhile Character.isNameChar
  .lexeme (ofName (.ofList name) rest) name.length rest

/-- Reads one lexeme from a text that starts with no blank. -/
def read (text : List Char) : Reading :=
  match text with
  | [] => readSymbol .endOfInput 0 []
  | '(' :: rest => readSymbol .leftParen 1 rest
  | ')' :: rest => readSymbol .rightParen 1 rest
  | ',' :: rest => readSymbol .comma 1 rest
  | '=' :: '=' :: rest => readSymbol (.relation .equal) 2 rest
  | '=' :: _ => .failure .illFormedEquals 0 0 text
  | '!' :: '=' :: rest => readSymbol (.relation .notEqual) 2 rest
  | '!' :: rest => readSymbol .not 1 rest
  | '<' :: '=' :: rest => readSymbol (.relation .lessOrEqual) 2 rest
  | '<' :: rest => readSymbol (.relation .less) 1 rest
  | '>' :: '=' :: rest => readSymbol (.relation .greaterOrEqual) 2 rest
  | '>' :: rest => readSymbol (.relation .greater) 1 rest
  | '\'' :: rest => readQuoted 1 [] false rest
  | c :: _ =>
      match ReferenceKind.ofSigil? c with
      | some kind => readReference kind text
      | none =>
          if Character.isNumberStart c then readNumber text
          else if Character.isNameStart c then readName text
          else .failure (.illegalCharacter c) 0 0 text

end Lexeme

/-- A place in a text: how many characters were read, and those that are left. -/
structure Cursor where
  position : Nat
  rest : List Char
  deriving DecidableEq, Repr

namespace Cursor

/-- The start of a text. -/
def ofText (text : String) : Cursor := ⟨0, text.toList⟩

/-- Behind the blanks that come next. -/
def skipBlanks (cursor : Cursor) : Cursor :=
  ⟨cursor.position + (cursor.rest.takeWhile Text.isBlank).length, Text.dropBlanks cursor.rest⟩

/-- Reads one token, or finds what is wrong; either way with the cursor behind what was read. -/
def next (cursor : Cursor) : Except LexError Token × Cursor :=
  let start := cursor.skipBlanks
  match Lexeme.read start.rest with
  | .lexeme lexeme taken rest =>
      (.ok ⟨lexeme, ⟨start.position, start.position + taken⟩⟩, ⟨start.position + taken, rest⟩)
  | .failure kind offset taken rest =>
      (.error ⟨kind, start.position + offset⟩, ⟨start.position + taken, rest⟩)

end Cursor

end CondLang
