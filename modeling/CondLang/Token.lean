import CondLang.Operator
import CondLang.Reference.Extent
import CondLang.Span

/-!
# Tokens

A condition is read as a sequence of tokens.  A token is a lexeme and the span it was read from.  A
lexeme is a symbol, which carries nothing, or a piece of text of some kind, together with whether
that text may still hold references or escapes.

The names of the kinds (`TokenKind.name`) appear in token listings; the words for them
(`TokenKind.symbol`) appear in messages.
-/

namespace CondLang

/-- The lexemes that carry no text. -/
inductive Symbol where
  | comma
  | leftParen
  | rightParen
  | relation (relation : Relation)
  | connective (connective : Connective)
  | not
  | endOfInput
  deriving DecidableEq, Repr, Inhabited

/-- The kinds of text a lexeme may carry.  The text of a string is what stands between its quotes,
or a bare name; the text of a reference includes its sigil and parentheses. -/
inductive TextKind where
  | string
  | number
  | reference (kind : ReferenceKind)
  | function
  deriving DecidableEq, Repr, Inhabited

/-- The kind of a lexeme. -/
inductive TokenKind where
  | symbol (symbol : Symbol)
  | text (kind : TextKind)
  deriving DecidableEq, Repr, Inhabited

namespace Symbol

/-- The symbol as it is shown. -/
def shown : Symbol → String
  | comma => ","
  | leftParen => "("
  | rightParen => ")"
  | relation r => r.symbol
  | connective c => c.symbol
  | not => "!"
  | endOfInput => "end of input"

/-- The name of the symbol in token listings. -/
def name : Symbol → String
  | comma => "Comma"
  | leftParen => "LeftParen"
  | rightParen => "RightParen"
  | relation .equal => "EqualTo"
  | relation .notEqual => "NotEqualTo"
  | relation .less => "LessThan"
  | relation .greater => "GreaterThan"
  | relation .lessOrEqual => "LessThanOrEqualTo"
  | relation .greaterOrEqual => "GreaterThanOrEqualTo"
  | connective .and => "And"
  | connective .or => "Or"
  | not => "Not"
  | endOfInput => "EndOfInput"

end Symbol

namespace TextKind

/-- The words for the kind in messages. -/
def words : TextKind → String
  | string => "string"
  | number => "number"
  | reference kind => kind.words
  | function => "function"

/-- The name of the kind in token listings. -/
def name : TextKind → String
  | string => "String"
  | number => "Numeric"
  | reference .property => "Property"
  | reference .itemList => "ItemList"
  | reference .metadata => "ItemMetadata"
  | function => "Function"

end TextKind

namespace TokenKind

/-- All kinds. -/
def all : List TokenKind :=
  [.symbol .comma, .symbol .leftParen, .symbol .rightParen, .symbol (.relation .less),
    .symbol (.relation .greater), .symbol (.relation .lessOrEqual),
    .symbol (.relation .greaterOrEqual), .symbol (.relation .equal),
    .symbol (.relation .notEqual), .symbol (.connective .and), .symbol (.connective .or),
    .symbol .not, .text (.reference .property), .text .string, .text .number,
    .text (.reference .itemList), .text (.reference .metadata), .text .function,
    .symbol .endOfInput]

/-- The kind in messages: the symbol itself, or words for the kind of text. -/
def shown : TokenKind → String
  | symbol s => s.shown
  | text kind => kind.words

/-- The name of the kind in token listings. -/
def name : TokenKind → String
  | symbol s => s.name
  | text kind => kind.name

/-- The kind with a given name. -/
def ofName? (name : String) : Option TokenKind := all.find? (·.name == name)

/-- Whether lexemes of this kind carry text. -/
def carriesText : TokenKind → Bool
  | symbol _ => false
  | text _ => true

end TokenKind

/-- A symbol, or text of some kind that may or may not still hold references or escapes. -/
inductive Lexeme where
  | symbol (symbol : Symbol)
  | text (kind : TextKind) (text : String) (expandable : Bool)
  deriving DecidableEq, Repr, Inhabited

namespace Lexeme

/-- The kind of a lexeme. -/
def kind : Lexeme → TokenKind
  | symbol s => .symbol s
  | text kind _ _ => .text kind

/-- The text a lexeme carries. -/
def text? : Lexeme → Option String
  | symbol _ => none
  | text _ content _ => some content

/-- Whether the text a lexeme carries may still hold references or escapes. -/
def expandable : Lexeme → Bool
  | symbol _ => false
  | text _ _ expandable => expandable

/-- The text of a lexeme, or the symbol. -/
def plain : Lexeme → String
  | symbol s => s.shown
  | text _ content _ => content

/-- A lexeme as it could be written in a condition: strings stand in quotes. -/
def shown : Lexeme → String
  | text .string content _ => "'" ++ content ++ "'"
  | text _ content _ => content
  | symbol s => s.shown

/-- The lexeme of a kind that carries no text. -/
def ofSymbol? : TokenKind → Option Lexeme
  | .symbol s => some (symbol s)
  | .text _ => none

/-- The lexeme of a kind that carries text. -/
def ofText? : TokenKind → String → Bool → Option Lexeme
  | .symbol _, _, _ => none
  | .text kind, content, expandable => some (text kind content expandable)

end Lexeme

/-- A lexeme and where it was read. -/
structure Token where
  lexeme : Lexeme
  span : Span
  deriving DecidableEq, Repr, Inhabited

/-- Whether a token is a given symbol. -/
def Token.is (token : Token) (symbol : Symbol) : Bool := token.lexeme == .symbol symbol

end CondLang
