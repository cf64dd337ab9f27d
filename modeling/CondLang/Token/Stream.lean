import CondLang.Token.Lexer

/-!
# Tokens one at a time

A stream gives out the tokens of a text one after the other, the end of the input among them.  It
has ended once it has given that or an error, and gives nothing from then on.
-/

namespace CondLang

/-- The tokens of a text that are still to be given out. -/
structure TokenStream where
  cursor : Cursor
  ended : Bool
  deriving DecidableEq, Repr

namespace TokenStream

/-- All tokens of a text. -/
def ofText (text : String) : TokenStream := ⟨.ofText text, false⟩

/-- Whether a stream has ended behind an answer. -/
def isLast : Except LexError Token → Bool
  | .ok token => token.is .endOfInput
  | .error _ => true

/-- The next token, or what is wrong there; nothing if the stream has ended. -/
def next (stream : TokenStream) : Option (Except LexError Token) × TokenStream :=
  if stream.ended then (none, stream)
  else
    let (answer, cursor) := stream.cursor.next
    (some answer, ⟨cursor, isLast answer⟩)

/-- The stream after it was asked a number of times. -/
def after (stream : TokenStream) : Nat → TokenStream
  | 0 => stream
  | n + 1 => stream.next.2.after n

/-- What the stream answers when it is asked for the `n`-th time, counted from nothing. -/
def answer? (stream : TokenStream) (n : Nat) : Option (Except LexError Token) :=
  (stream.after n).next.1

end TokenStream

end CondLang
