import CondLang.Token.Lexer

/-!
# What can be wrong with a condition

A parse error has a cause, the offset of the token it is about, and the condition as written.
-/

namespace CondLang

/-- What the parser would have taken where it met something else. -/
inductive Expected where
  | primary
  | argument
  | ending
  | groupEnd
  | callStart
  | callEnd
  deriving DecidableEq, Repr

/-- The things expected, in words. -/
def Expected.words : Expected → List String
  | primary =>
      ["'('", "string", "number", "property", "item list", "item metadata", "function"]
  | argument => ["string", "number", "property", "item list", "item metadata"]
  | ending => ["'and'", "'or'", "end of input"]
  | groupEnd => ["')'", "'and'", "'or'"]
  | callStart => ["'('"]
  | callEnd => ["','", "')'"]

/-- The causes of parse errors. -/
inductive ParseErrorKind where
  | lex (kind : LexErrorKind)
  | unexpectedToken (found : String) (expected : Expected)
  | unexpectedEnd (expected : Expected)
  | referenceNotAllowed (kind : ReferenceKind) (text : String)
  | nestingTooDeep (limit : Nat)
  deriving DecidableEq, Repr

/-- The cause in words. -/
def ParseErrorKind.message : ParseErrorKind → String
  | lex kind => kind.message
  | unexpectedToken found expected =>
      "unexpected '" ++ found ++ "', expected " ++ " or ".intercalate expected.words
  | unexpectedEnd expected =>
      "unexpected end of input, expected " ++ " or ".intercalate expected.words
  | referenceNotAllowed kind text =>
      kind.words ++ " reference '" ++ text ++ "' is not allowed in this condition"
  | nestingTooDeep limit =>
      "expression nested more than " ++ toString limit ++ " levels deep"

/-- A condition that cannot be read or parsed. -/
structure ParseError where
  kind : ParseErrorKind
  position : Nat
  condition : String
  deriving DecidableEq, Repr

/-- The error in words. -/
def ParseError.message (error : ParseError) : String :=
  error.kind.message ++ " at position " ++ toString error.position ++
    " in condition \"" ++ error.condition ++ "\""

end CondLang
