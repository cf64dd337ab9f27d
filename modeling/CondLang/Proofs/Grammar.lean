import CondLang.Expr
import CondLang.Token

/-!
# The grammar of conditions

A `Derivation` is one way to read a sequence of tokens by the grammar

```text
Expression  := Conjunction ( 'or' Conjunction )*
Conjunction := Unary ( 'and' Unary )*
Unary       := ( '!' | 'not' ) Unary | Comparison
Comparison  := Primary ( Relation Primary )?
Primary     := '(' Expression ')' | Call | Leaf
Call        := Name '(' ( Leaf ( ',' Leaf )* )? ')'
```

It knows nothing of the parser.  `Derivation.yield` is the tokens that are read, `Derivation.tree`
the tree they stand for, `Derivation.size` the number of its nodes and `Derivation.need` how many
levels the reading takes.

The two kinds of chain are one family: `Category.chain .or` is an expression and `Category.chain
.and` a conjunction.  Behind its first operand a chain has the category `others`, whose tree grows
to the right of a tree that is given: this makes both connectives associate to the left.
-/

namespace CondLang

/-- The nonterminals of the grammar. -/
inductive Category where
  | primary
  | comparison
  | unary
  | operand (op : Connective)
  | chain (op : Connective)
  | others (op : Connective)
  deriving DecidableEq

namespace Category

/-- Any condition. -/
abbrev expression : Category := chain .or

/-- What has to be known of the text to the left of a phrase to tell its tree. -/
abbrev Left : Category → Type
  | others _ => Expr
  | _ => Unit

/-- Whether a connective behind a phrase belongs to the phrase. -/
def joins : Category → Connective → Bool
  | operand .or, word => word == .and
  | chain op, word => word == op || word == .and
  | others op, word => word == op || word == .and
  | _, _ => false

/-- Whether a lexeme behind a phrase belongs to the phrase. -/
def extendedBy (c : Category) : Lexeme → Bool
  | .symbol (.relation _) => c != primary
  | .symbol (.connective word) => c.joins word
  | _ => false

end Category

/-- Which lexemes are leaves, and of which kind. -/
inductive Lexeme.Denotes : Lexeme → Leaf → Prop where
  | string (text : String) (expandable : Bool) :
      Denotes (.text .string text expandable) (.string text expandable)
  | number (text : String) (expandable : Bool) :
      Denotes (.text .number text expandable) (.number text)
  | reference (kind : ReferenceKind) (text : String) (expandable : Bool) :
      Denotes (.text (.reference kind) text expandable) (.reference kind text)

theorem Lexeme.Denotes.unique {lexeme : Lexeme} {leaf leaf' : Leaf} (h : lexeme.Denotes leaf)
    (h' : lexeme.Denotes leaf') : leaf = leaf' := by
  cases h <;> cases h' <;> rfl

/-- A token that is a literal or a reference. -/
structure LeafToken where
  token : Token
  leaf : Leaf
  denotes : token.lexeme.Denotes leaf

namespace LeafToken

/-- The leaf of a tree that the token stands for, with a given number. -/
def node (t : LeafToken) (id : Nat) : LeafNode := ⟨⟨id, t.token.span, false⟩, t.leaf⟩

theorem lexeme_ne_symbol (t : LeafToken) (s : Symbol) : t.token.lexeme ≠ .symbol s := by
  intro h
  have hleaf := t.denotes
  rw [h] at hleaf
  cases hleaf

theorem is_symbol (t : LeafToken) (s : Symbol) : t.token.is s = false := by
  simpa [Token.is] using t.lexeme_ne_symbol s

theorem lexeme_ne_function (t : LeafToken) (name : String) (e : Bool) :
    t.token.lexeme ≠ .text .function name e := by
  intro h
  have hleaf := t.denotes
  rw [h] at hleaf
  cases hleaf

end LeafToken

/-- The arguments of a call, of which there is at least one. -/
inductive Arguments where
  | last (argument : LeafToken)
  | more (argument : LeafToken) (comma : Span) (others : Arguments)

namespace Arguments

/-- The tokens of the arguments and the commas between them. -/
def yield : Arguments → List Token
  | last argument => [argument.token]
  | more argument comma others => argument.token :: ⟨.symbol .comma, comma⟩ :: others.yield

/-- The arguments as leaves of a tree, the first of which has a given number. -/
def leaves : Arguments → Nat → List LeafNode
  | last argument, id => [argument.node id]
  | more argument _ others, id => argument.node id :: others.leaves (id + 1)

/-- How many arguments there are. -/
def count : Arguments → Nat
  | last _ => 1
  | more _ _ others => others.count + 1

theorem count_le_length_yield (arguments : Arguments) :
    arguments.count ≤ arguments.yield.length := by
  induction arguments with
  | last => simp [count, yield]
  | more _ _ _ ih =>
    simp only [count, yield, List.length_cons]
    omega

theorem yield_eq_cons (arguments : Arguments) :
    ∃ (argument : LeafToken) (tail : List Token), arguments.yield = argument.token :: tail := by
  cases arguments with
  | last argument => exact ⟨argument, _, rfl⟩
  | more argument comma others => exact ⟨argument, _, rfl⟩

theorem is_endOfInput_of_mem_yield {arguments : Arguments} {token : Token}
    (h : token ∈ arguments.yield) : token.is .endOfInput = false := by
  induction arguments with
  | last argument =>
    rw [yield, List.mem_singleton] at h
    rw [h, argument.is_symbol]
  | more argument comma others ih =>
    simp only [yield, List.mem_cons] at h
    rcases h with rfl | rfl | h
    · exact argument.is_symbol _
    · rfl
    · exact ih h

end Arguments

/-- The ways to read tokens as a phrase of some category. -/
inductive Derivation : Category → Type where
  | leaf (token : LeafToken) : Derivation .primary
  | call (name : String) (expandable : Bool) (span opening : Span)
      (arguments : Option Arguments) (closing : Span) : Derivation .primary
  | group (opening : Span) (inner : Derivation .expression) (closing : Span) :
      Derivation .primary
  | single (only : Derivation .primary) : Derivation .comparison
  | compared (left : Derivation .primary) (op : Relation) (sign : Span)
      (right : Derivation .primary) : Derivation .comparison
  | plain (inner : Derivation .comparison) : Derivation .unary
  | negated (sign : Span) (inner : Derivation .unary) : Derivation .unary
  | conjunct (inner : Derivation .unary) : Derivation (.operand .and)
  | disjunct (inner : Derivation (.chain .and)) : Derivation (.operand .or)
  | chain {op : Connective} (first : Derivation (.operand op))
      (others : Derivation (.others op)) : Derivation (.chain op)
  | done {op : Connective} : Derivation (.others op)
  | more (op : Connective) (word : Span) (next : Derivation (.operand op))
      (others : Derivation (.others op)) : Derivation (.others op)

namespace Derivation

/-- The tokens that a phrase consists of. -/
def yield {c : Category} : Derivation c → List Token
  | leaf token => [token.token]
  | call name expandable span opening arguments closing =>
      ⟨.text .function name expandable, span⟩ :: ⟨.symbol .leftParen, opening⟩ ::
        (arguments.elim [] Arguments.yield ++ [⟨.symbol .rightParen, closing⟩])
  | group opening inner closing =>
      ⟨.symbol .leftParen, opening⟩ :: (inner.yield ++ [⟨.symbol .rightParen, closing⟩])
  | single only => only.yield
  | compared left op sign right =>
      left.yield ++ ⟨.symbol (.relation op), sign⟩ :: right.yield
  | plain inner => inner.yield
  | negated sign inner => ⟨.symbol .not, sign⟩ :: inner.yield
  | conjunct inner => inner.yield
  | disjunct inner => inner.yield
  | chain first others => first.yield ++ others.yield
  | done => []
  | more op word next others =>
      ⟨.symbol (.connective op), word⟩ :: (next.yield ++ others.yield)

/-- The number of nodes of the tree that a phrase adds. -/
def size {c : Category} : Derivation c → Nat
  | leaf _ => 1
  | call _ _ _ _ arguments _ => arguments.elim 0 Arguments.count + 1
  | group _ inner _ => inner.size
  | single only => only.size
  | compared left _ _ right => left.size + right.size + 1
  | plain inner => inner.size
  | negated _ inner => inner.size + 1
  | conjunct inner => inner.size
  | disjunct inner => inner.size
  | chain first others => first.size + others.size
  | done => 0
  | more _ _ next others => next.size + 1 + others.size

/-- The tree of a phrase, whose nodes are numbered from `id` on, each after those below it. -/
def tree {c : Category} : Derivation c → c.Left → Nat → Expr
  | leaf token, _, id => .leaf (token.node id)
  | call name _ span _ arguments closing, _, id =>
      .call ⟨id + arguments.elim 0 Arguments.count, span.cover closing, false⟩ name
        (arguments.elim [] (·.leaves id))
  | group opening inner closing, _, id =>
      (inner.tree () id).group ⟨opening.start, closing.stop⟩
  | single only, _, id => only.tree () id
  | compared left op _ right, _, id =>
      let l := left.tree () id
      let r := right.tree () (id + left.size)
      .comparison ⟨id + left.size + right.size, l.span.cover r.span, false⟩ op l r
  | plain inner, _, id => inner.tree () id
  | negated sign inner, _, id =>
      let e := inner.tree () id
      .not ⟨id + inner.size, sign.cover e.span, false⟩ e
  | conjunct inner, _, id => inner.tree () id
  | disjunct inner, _, id => inner.tree () id
  | chain first others, _, id => others.tree (first.tree () id) (id + first.size)
  | done, left, _ => left
  | more op _ next others, left, id =>
      let right := next.tree () id
      others.tree (.logical ⟨id + next.size, left.span.cover right.span, false⟩ op left right)
        (id + next.size + 1)

/-- How many levels a phrase takes: one for a group or a negation, and one for each operator of a
chain, which counts for all operands behind it. -/
def need {c : Category} : Derivation c → Nat
  | leaf _ => 0
  | call .. => 0
  | group _ inner _ => inner.need + 1
  | single only => only.need
  | compared left _ _ right => max left.need right.need
  | plain inner => inner.need
  | negated _ inner => inner.need + 1
  | conjunct inner => inner.need
  | disjunct inner => inner.need
  | chain first others => max first.need others.need
  | done => 0
  | more _ _ next others => max next.need others.need + 1

/-- The operands of a chain behind the first one, in the order of the text. -/
def operands {op : Connective} : Derivation (.others op) → List (Derivation (.operand op))
  | done => []
  | more _ _ next others => next :: others.operands

theorem need_others_le_iff {op : Connective} : (d : Derivation (.others op)) → (n : Nat) →
    (d.need ≤ n ↔ ∀ k x, d.operands[k]? = some x → k + 1 + x.need ≤ n)
  | done, n => by simp [need, operands]
  | more _ _ next others, 0 => by
    refine ⟨fun h => by simp [need] at h, fun h => ?_⟩
    have := h 0 next (by simp [operands])
    omega
  | more _ _ next others, n + 1 => by
    have ih := need_others_le_iff others n
    simp only [need, operands, Nat.add_le_add_iff_right, Nat.max_le, ih]
    constructor
    · rintro ⟨hnext, hothers⟩ (_ | k) x hx
      · cases hx
        omega
      · have := hothers k x hx
        omega
    · intro h
      refine ⟨?_, fun k x hx => ?_⟩
      · have := h 0 next (by simp)
        omega
      · have := h (k + 1) x hx
        omega

/-- A chain takes what its first operand takes, and what the `k`-th one behind it takes and `k`
levels more. -/
theorem need_chain_le_iff {op : Connective} (first : Derivation (.operand op))
    (others : Derivation (.others op)) (n : Nat) :
    (chain first others).need ≤ n ↔
      first.need ≤ n ∧ ∀ k x, others.operands[k]? = some x → k + 1 + x.need ≤ n := by
  rw [need, Nat.max_le, need_others_le_iff]

end Derivation

/-! ## Where phrases end -/

/-- Whether no token of a phrase of this category could stand where the phrase ends. -/
def Category.EndsBefore (c : Category) (rest : List Token) : Prop :=
  ∀ token ∈ rest.head?, c.extendedBy token.lexeme = false

namespace Category.EndsBefore

variable {op : Connective} {rest : List Token}

theorem primary (rest : List Token) : Category.primary.EndsBefore rest := by
  intro token _
  unfold Category.extendedBy
  split <;> rfl

/-- A phrase ends before any symbol that is no operator. -/
theorem cons {c : Category} {token : Token} (h : c.extendedBy token.lexeme = false) :
    c.EndsBefore (token :: rest) := by
  intro other hother
  cases hother
  exact h

/-- A phrase ends wherever one ends to which more lexemes belong. -/
theorem of_joins {c c' : Category} (h : c.EndsBefore rest) (hc : c ≠ .primary)
    (hle : ∀ word, c.joins word = false → c'.joins word = false) : c'.EndsBefore rest := by
  intro token htoken
  have hends := h token htoken
  unfold Category.extendedBy at hends ⊢
  split at hends
  · simp [hc] at hends
  · exact hle _ hends
  · rfl

theorem comparison (h : Category.unary.EndsBefore rest) : Category.comparison.EndsBefore rest :=
  h.of_joins nofun fun _ _ => rfl

theorem unary (h : (Category.operand .and).EndsBefore rest) : Category.unary.EndsBefore rest :=
  h.of_joins nofun fun _ _ => rfl

theorem conjunction (h : (Category.operand .or).EndsBefore rest) :
    (Category.chain .and).EndsBefore rest :=
  h.of_joins nofun fun word hword => by simpa [Category.joins] using hword

theorem others (h : (Category.chain op).EndsBefore rest) : (Category.others op).EndsBefore rest :=
  h.of_joins nofun fun _ hword => hword

theorem operand (h : (Category.others op).EndsBefore rest) :
    (Category.operand op).EndsBefore rest := by
  refine h.of_joins nofun fun word hword => ?_
  cases op with
  | and => rfl
  | or =>
    simp only [Category.joins, Bool.or_eq_false_iff] at hword ⊢
    exact hword.2

/-- An operand ends before the connective of its chain. -/
theorem operand_cons (word : Span) (rest : List Token) :
    (Category.operand op).EndsBefore (⟨.symbol (.connective op), word⟩ :: rest) := by
  intro token htoken
  cases htoken
  cases op <;> rfl

end Category.EndsBefore

namespace Derivation

/-- An operand ends where its chain goes on or ends. -/
theorem endsBefore_operand {op : Connective} (others : Derivation (.others op))
    {rest : List Token} (hrest : (Category.others op).EndsBefore rest) :
    (Category.operand op).EndsBefore (others.yield ++ rest) := by
  cases others with
  | done => exact hrest.operand
  | more op word next others =>
    rw [yield, List.cons_append]
    exact .operand_cons word _

end Derivation

end CondLang
