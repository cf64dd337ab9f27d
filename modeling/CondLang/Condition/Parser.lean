import CondLang.Condition.Error
import CondLang.Condition.Policy
import CondLang.Expr

/-!
# Parsing conditions

```text
Expression  := Conjunction ( 'or' Conjunction )*
Conjunction := Unary ( 'and' Unary )*
Unary       := ( '!' | 'not' ) Unary | Comparison
Comparison  := Primary ( Relation Primary )?
Primary     := '(' Expression ')' | Call | Leaf
Call        := Name '(' ( Leaf ( ',' Leaf )* )? ')'
```

The parser looks one token ahead.  Its state survives an error: the token looked at, the numbers
given out and the depth reached stay as they were when the error arose.

Groups, negations and operators each take the parser one level deeper, at most `maxNesting` of them
at a time.  An operator counts for all that follows it in its chain, because each operator of a
chain wraps everything to its left.  So what may be parsed depends on how many levels are left, and
the parsers of `Level` are given level by level: those with `n + 1` levels left use those with `n`.
-/

namespace CondLang

/-- The most levels a condition may nest. -/
def maxNesting : Nat := 128

/-- A parser at work on a condition: the token it looks at, where the next one is read, the number
of the next node and the level reached. -/
structure Parser where
  source : String
  policy : Policy
  cursor : Cursor
  current : Token
  nextId : Nat
  depth : Nat

/-- A step of a parser, which keeps its state when it fails. -/
abbrev ParserM := EStateM ParseError Parser

namespace Parser

/-- An error in the condition being parsed. -/
def error (parser : Parser) (kind : ParseErrorKind) (position : Nat) : ParseError :=
  ⟨kind, position, parser.source⟩

/-- A parser of the tokens from a place in a condition on, with its first token read. -/
def ofCursor (source : String) (cursor : Cursor) (policy : Policy) : Except ParseError Parser :=
  match cursor.next with
  | (.ok token, cursor) => .ok ⟨source, policy, cursor, token, 0, 0⟩
  | (.error e, _) => .error ⟨.lex e.kind, e.position, source⟩

/-- Looks at the next token. -/
def advance : ParserM Unit := fun parser =>
  match parser.cursor.next with
  | (.ok token, cursor) => .ok () { parser with current := token, cursor }
  | (.error e, cursor) => .error (parser.error (.lex e.kind) e.position) { parser with cursor }

/-- Fails at the token looked at. -/
def fail {α : Type} (kind : ParseErrorKind) : ParserM α := fun parser =>
  .error (parser.error kind parser.current.span.start) parser

/-- Fails because the token looked at cannot stand here. -/
def unexpected {α : Type} (expected : Expected) : ParserM α := do
  let parser ← get
  if parser.current.is .endOfInput then fail (.unexpectedEnd expected)
  else fail (.unexpectedToken parser.current.lexeme.plain expected)

/-- Takes a symbol and answers its span. -/
def expect (symbol : Symbol) (expected : Expected) : ParserM Span := do
  let parser ← get
  if parser.current.is symbol then
    advance
    return parser.current.span
  else unexpected expected

/-- The mark of a new node. -/
def newMark (span : Span) : ParserM Mark := fun parser =>
  .ok ⟨parser.nextId, span, false⟩ { parser with nextId := parser.nextId + 1 }

/-- Goes one level deeper, to the parsers of that level if there is one. -/
def descend {α : Type} (below : Option α) : ParserM α := fun parser =>
  let deeper := { parser with depth := parser.depth + 1 }
  match below with
  | some level => .ok level deeper
  | none => fail (.nestingTooDeep maxNesting) deeper

/-- Comes back from one level deeper. -/
def ascend : ParserM Unit := modify fun parser => { parser with depth := parser.depth - 1 }

/-! ## Leaves and calls -/

/-- The leaf that a lexeme is, if it is one. -/
def leafOf? : Lexeme → Option Leaf
  | .text .string text expandable => some (.string text expandable)
  | .text .number text _ => some (.number text)
  | .text (.reference kind) text _ => some (.reference kind text)
  | _ => none

/-- Takes the leaf at the token looked at, if it is one and the policy allows it. -/
def leaf? : ParserM (Option LeafNode) := do
  let parser ← get
  let token := parser.current
  match leafOf? token.lexeme with
  | none => return none
  | some leaf =>
      match parser.policy.violation? token.lexeme with
      | some kind => fail (.referenceNotAllowed kind token.lexeme.plain)
      | none =>
          advance
          let mark ← newMark token.span
          return some ⟨mark, leaf⟩

/-- The arguments of a call up to its closing parenthesis, the first of which must come next.  Each
argument takes a token of the text, and `fuel` counts them. -/
def arguments : Nat → ParserM (List LeafNode)
  | 0 => unexpected .argument
  | fuel + 1 => do
      match ← leaf? with
      | none => unexpected .argument
      | some first =>
          let parser ← get
          if parser.current.is .comma then
            advance
            let others ← arguments fuel
            return first :: others
          else return [first]

/-- Takes a call, whose name is the token looked at. -/
def call : ParserM Expr := do
  let parser ← get
  let name := parser.current
  advance
  let _ ← expect .leftParen .callStart
  let opened ← get
  let args ←
    if opened.current.is .rightParen then pure []
    else arguments (opened.cursor.rest.length + 1)
  let close ← expect .rightParen .callEnd
  let mark ← newMark (name.span.cover close)
  return .call mark name.lexeme.plain args

/-! ## Levels -/

/-- The parsers at one level: a unary expression, and the rest of a chain of each connective behind
what stands to its left. -/
structure Level where
  unary : ParserM Expr
  andTail : Expr → ParserM Expr
  orTail : Expr → ParserM Expr

namespace Level

/-- A chain of `and`. -/
def conjunction (level : Level) : ParserM Expr := level.unary >>= level.andTail

/-- A chain of `or`, which is any expression. -/
def expression (level : Level) : ParserM Expr := level.conjunction >>= level.orTail

end Level

/-- A leaf, a call or a group; a group holds what the level below can parse. -/
def primary (below : Option Level) : ParserM Expr := do
  match ← leaf? with
  | some node => return .leaf node
  | none =>
      let parser ← get
      match parser.current.lexeme with
      | .symbol .leftParen =>
          let deeper ← descend below
          advance
          let inner ← deeper.expression
          let close ← expect .rightParen .groupEnd
          ascend
          return inner.group ⟨parser.current.span.start, close.stop⟩
      | .text .function _ _ => call
      | _ => unexpected .primary

/-- A primary, or two of them compared. -/
def comparison (below : Option Level) : ParserM Expr := do
  let left ← primary below
  let parser ← get
  match parser.current.lexeme with
  | .symbol (.relation op) =>
      advance
      let right ← primary below
      let mark ← newMark (left.span.cover right.span)
      return .comparison mark op left right
  | _ => return left

/-- Any number of negations and a comparison. -/
def unary (below : Option Level) : ParserM Expr := do
  let parser ← get
  if parser.current.is .not then
    let deeper ← descend below
    advance
    let operand ← deeper.unary
    ascend
    let mark ← newMark (parser.current.span.cover operand.span)
    return .not mark operand
  else comparison below

/-- The rest of a chain of one connective behind what stands to its left.  The next operand, and the
chain behind it, are parsed one level deeper. -/
def tail (op : Connective) (operand : Level → ParserM Expr) (more : Level → Expr → ParserM Expr)
    (below : Option Level) (left : Expr) : ParserM Expr := do
  let parser ← get
  if parser.current.is (.connective op) then
    let deeper ← descend below
    advance
    let right ← operand deeper
    let mark ← newMark (left.span.cover right.span)
    let whole ← more deeper (.logical mark op left right)
    ascend
    return whole
  else return left

/-- The parsers of a level, given those of the level below, if there is one. -/
def Level.above (below : Option Level) : Level where
  unary := Parser.unary below
  andTail := tail .and Level.unary Level.andTail below
  orTail := tail .or Level.conjunction Level.orTail below

/-- The parsers with a number of levels left below them. -/
def Level.withLeft : Nat → Level
  | 0 => above none
  | n + 1 => above (some (withLeft n))

/-! ## Whole conditions -/

/-- Parses an expression from the token looked at on. -/
def expression : ParserM Expr := do
  let parser ← get
  (Level.withLeft (maxNesting - parser.depth)).expression

/-- Parses an expression that nothing may follow. -/
def whole : ParserM Expr := do
  let e ← expression
  let parser ← get
  if parser.current.is .endOfInput then return e
  else unexpected .ending

end Parser

end CondLang
