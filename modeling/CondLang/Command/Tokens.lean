import CondLang.Command.Error
import CondLang.Json

/-!
# Listing tokens

`tokens` lists the tokens of a condition as JSON, up to and including the end of the input.
-/

namespace CondLang.Command

/-- A token as a JSON object. -/
def tokenReport (token : Token) : Json :=
  .ofMembers [("kind", .string token.lexeme.kind.name), ("text", .ofText? token.lexeme.text?),
    ("expandable", .bool token.lexeme.expandable), ("start", .ofNat token.span.start),
    ("end", .ofNat token.span.stop)]

/-- The tokens from a cursor on, up to and including the end of the input.  Every token but that
takes characters of the text, and `fuel` counts them. -/
def readTokens : Nat → Cursor → Except LexError (List Token)
  | 0, _ => .ok []
  | fuel + 1, cursor =>
      match cursor.next with
      | (.error e, _) => .error e
      | (.ok token, left) =>
          if token.is .endOfInput then .ok [token]
          else (readTokens fuel left).map (token :: ·)

/-- All tokens of a text. -/
def allTokens (text : String) : Except LexError (List Token) :=
  readTokens (text.toList.length + 1) (.ofText text)

/-- The report of the tokens of a condition. -/
def tokens (condition : String) : Except CommandError Json :=
  match allTokens condition with
  | .ok tokens => .ok (.array (tokens.map tokenReport))
  | .error e => .error (.lex e)

end CondLang.Command
