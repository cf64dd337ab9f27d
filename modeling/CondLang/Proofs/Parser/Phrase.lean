import CondLang.Proofs.Grammar
import CondLang.Proofs.Parser.Run

/-!
# The parsers of phrases

`Category.parser` is the parser of each category of the grammar when a number of levels are left.
For each category one lemma says when its parser succeeds: which parsers run one after the other,
with how many levels, and what they take in between.  Nothing else about the parsers of phrases is
used further on.
-/

namespace CondLang

namespace Parser

/-- The parsers one level down, when a number of levels are left. -/
def below : Nat → Option Level
  | 0 => none
  | levels + 1 => some (.withLeft levels)

end Parser

/-- The parser of a category with a number of levels left. -/
def Category.parser (levels : Nat) : (c : Category) → c.Left → ParserM Expr
  | .primary, _ => Parser.primary (Parser.below levels)
  | .comparison, _ => Parser.comparison (Parser.below levels)
  | .unary, _ => (Parser.Level.withLeft levels).unary
  | .operand .and, _ => (Parser.Level.withLeft levels).unary
  | .operand .or, _ => (Parser.Level.withLeft levels).conjunction
  | .chain .and, _ => (Parser.Level.withLeft levels).conjunction
  | .chain .or, _ => (Parser.Level.withLeft levels).expression
  | .others .and, left => (Parser.Level.withLeft levels).andTail left
  | .others .or, left => (Parser.Level.withLeft levels).orTail left

namespace Parser

variable {levels : Nat} {p q : Parser} {e : Expr}

theorem withLeft_eq (levels : Nat) : Level.withLeft levels = .above (below levels) := by
  cases levels <;> rfl

theorem descend_below_eq_ok {level : Level} :
    descend (below levels) p = .ok level q ↔
      ∃ m, levels = m + 1 ∧ level = .withLeft m ∧ q = p.deeper := by
  rw [descend_eq_ok]
  cases levels with
  | zero => simp [below]
  | succ m => simp [below, eq_comm]

/-! ## Chains -/

theorem chain_eq_ok {op : Connective} :
    (Category.chain op).parser levels () p = .ok e q ↔
      ∃ first p₁, (Category.operand op).parser levels () p = .ok first p₁ ∧
        (Category.others op).parser levels first p₁ = .ok e q := by
  have heq : (Category.chain op).parser levels () =
      (Category.operand op).parser levels () >>= (Category.others op).parser levels := by
    cases op <;> rfl
  rw [heq, bind_eq_ok]

/-- Another operand is parsed one level deeper, and so is the chain behind it. -/
theorem tail_eq_ok {op : Connective} {operand : Level → ParserM Expr}
    {more : Level → Expr → ParserM Expr} {left : Expr} :
    tail op operand more (below levels) left p = .ok e q ↔
      (∃ m word p₁ right p₂ p₃ p₄, levels = m + 1 ∧
        p.deeper.Takes [⟨.symbol (.connective op), word⟩] 0 p₁ ∧
        operand (.withLeft m) p₁ = .ok right p₂ ∧ p₂.Takes [] 1 p₃ ∧
        more (.withLeft m)
          (.logical ⟨p₂.nextId, left.span.cover right.span, false⟩ op left right) p₃ =
            .ok e p₄ ∧ q = p₄.shallower) ∨
      (p.current.lexeme ≠ .symbol (.connective op) ∧ e = left ∧ q = p) := by
  rw [tail, get_bind]
  split
  · next hword =>
    rw [is_iff] at hword
    have hadvance {u : Unit} {q : Parser} : advance p.deeper = .ok u q ↔
        p.deeper.Takes [⟨.symbol (.connective op), p.current.span⟩] 0 q :=
      advance_symbol_eq_ok (p := p.deeper) hword
    simp only [bind_eq_ok, descend_below_eq_ok, ascend_eq_ok, newMark_eq_ok, pure_eq_ok]
    constructor
    · intro h
      rcases h with ⟨_, _, ⟨m, rfl, rfl, rfl⟩, _, p₁, hop, right, p₂, hright, _, p₃, ⟨rfl, hmark⟩,
        whole, p₄, hwhole, _, _, rfl, rfl, rfl⟩
      exact .inl ⟨m, _, p₁, right, p₂, p₃, p₄, rfl, hadvance.1 hop, hright, hmark, hwhole, rfl⟩
    · intro h
      rcases h with ⟨m, word, p₁, right, p₂, p₃, p₄, rfl, hop, hright, hmark, hwhole, rfl⟩ |
        ⟨hother, -⟩
      · have hcurrent : p.current = ⟨.symbol (.connective op), word⟩ := hop.current_eq
        exact ⟨_, _, ⟨m, rfl, rfl, rfl⟩, (), p₁, hadvance.2 (by rwa [hcurrent]), right, p₂,
          hright, _, p₃, ⟨rfl, hmark⟩, e, p₄, hwhole, (), _, rfl, rfl, rfl⟩
      · exact absurd hword hother
  · next hword =>
    rw [is_iff] at hword
    rw [pure_eq_ok]
    constructor
    · exact fun h => .inr ⟨hword, h⟩
    · intro h
      rcases h with ⟨m, word, p₁, right, p₂, p₃, p₄, rfl, hop, -⟩ | ⟨-, h⟩
      · have hcurrent : p.current = ⟨.symbol (.connective op), word⟩ := hop.current_eq
        exact absurd (by rw [hcurrent]) hword
      · exact h

theorem others_eq_ok {op : Connective} {left : Expr} :
    (Category.others op).parser levels left p = .ok e q ↔
      (∃ m word p₁ right p₂ p₃ p₄, levels = m + 1 ∧
        p.deeper.Takes [⟨.symbol (.connective op), word⟩] 0 p₁ ∧
        (Category.operand op).parser m () p₁ = .ok right p₂ ∧ p₂.Takes [] 1 p₃ ∧
        (Category.others op).parser m
          (.logical ⟨p₂.nextId, left.span.cover right.span, false⟩ op left right) p₃ =
            .ok e p₄ ∧ q = p₄.shallower) ∨
      (p.current.lexeme ≠ .symbol (.connective op) ∧ e = left ∧ q = p) := by
  cases op with
  | and =>
    have heq : (Category.others .and).parser levels left =
        tail .and Level.unary Level.andTail (below levels) left := by
      rw [Category.parser, withLeft_eq]
      rfl
    rw [heq]
    exact tail_eq_ok
  | or =>
    have heq : (Category.others .or).parser levels left =
        tail .or Level.conjunction Level.orTail (below levels) left := by
      rw [Category.parser, withLeft_eq]
      rfl
    rw [heq]
    exact tail_eq_ok

/-! ## Operands -/

theorem unary_eq_ok :
    Category.unary.parser levels () p = .ok e q ↔
      (∃ m sign p₁ inner p₂, levels = m + 1 ∧ p.deeper.Takes [⟨.symbol .not, sign⟩] 0 p₁ ∧
        Category.unary.parser m () p₁ = .ok inner p₂ ∧ p₂.shallower.Takes [] 1 q ∧
        e = .not ⟨p₂.nextId, sign.cover inner.span, false⟩ inner) ∨
      (p.current.lexeme ≠ .symbol .not ∧ Category.comparison.parser levels () p = .ok e q) := by
  have heq : Category.unary.parser levels () = Parser.unary (below levels) := by
    rw [Category.parser, withLeft_eq]
    rfl
  rw [heq, Parser.unary, get_bind]
  split
  · next hnot =>
    rw [is_iff] at hnot
    have hadvance {u : Unit} {q : Parser} :
        advance p.deeper = .ok u q ↔ p.deeper.Takes [⟨.symbol .not, p.current.span⟩] 0 q :=
      advance_symbol_eq_ok (p := p.deeper) hnot
    simp only [bind_eq_ok, descend_below_eq_ok, ascend_eq_ok, newMark_eq_ok, pure_eq_ok]
    constructor
    · intro h
      rcases h with ⟨_, _, ⟨m, rfl, rfl, rfl⟩, _, p₁, hsign, inner, p₂, hinner, _, _, rfl, _, _,
        ⟨rfl, hmark⟩, rfl, rfl⟩
      exact .inl ⟨m, _, p₁, inner, p₂, rfl, hadvance.1 hsign, hinner, hmark, rfl⟩
    · intro h
      rcases h with ⟨m, sign, p₁, inner, p₂, rfl, hsign, hinner, hmark, rfl⟩ | ⟨hother, -⟩
      · have hspan : p.current = ⟨.symbol .not, sign⟩ := hsign.current_eq
        exact ⟨_, _, ⟨m, rfl, rfl, rfl⟩, (), p₁, hadvance.2 (by rwa [hspan]), inner, p₂, hinner,
          (), _, rfl, _, q, ⟨rfl, hmark⟩, by rw [hspan]; rfl, rfl⟩
      · exact absurd hnot hother
  · next hnot =>
    rw [is_iff] at hnot
    constructor
    · exact fun h => .inr ⟨hnot, h⟩
    · intro h
      rcases h with ⟨m, sign, p₁, inner, p₂, rfl, hsign, -⟩ | ⟨-, h⟩
      · have hcurrent : p.current = ⟨.symbol .not, sign⟩ := hsign.current_eq
        exact absurd (by rw [hcurrent]) hnot
      · exact h

theorem comparison_eq_ok :
    Category.comparison.parser levels () p = .ok e q ↔
      ∃ left p₁, Category.primary.parser levels () p = .ok left p₁ ∧
        ((∃ op sign p₂ right p₃, p₁.Takes [⟨.symbol (.relation op), sign⟩] 0 p₂ ∧
            Category.primary.parser levels () p₂ = .ok right p₃ ∧ p₃.Takes [] 1 q ∧
            e = .comparison ⟨p₃.nextId, left.span.cover right.span, false⟩ op left right) ∨
          ((∀ op, p₁.current.lexeme ≠ .symbol (.relation op)) ∧ e = left ∧ q = p₁)) := by
  show Parser.comparison (below levels) p = .ok e q ↔ _
  rw [Parser.comparison, bind_eq_ok]
  refine exists_congr fun left => exists_congr fun p₁ => and_congr_right fun _ => ?_
  rw [get_bind]
  generalize hlexeme : p₁.current.lexeme = lexeme
  split
  · next _ op =>
    have hadvance {u : Unit} {q : Parser} : advance p₁ = .ok u q ↔
        p₁.Takes [⟨.symbol (.relation op), p₁.current.span⟩] 0 q :=
      advance_symbol_eq_ok hlexeme
    simp only [bind_eq_ok, newMark_eq_ok, pure_eq_ok]
    constructor
    · intro h
      rcases h with ⟨_, p₂, hsign, right, p₃, hright, _, _, ⟨rfl, hmark⟩, rfl, rfl⟩
      exact .inl ⟨op, _, p₂, right, p₃, hadvance.1 hsign, hright, hmark, rfl⟩
    · intro h
      rcases h with ⟨op', sign, p₂, right, p₃, hsign, hright, hmark, rfl⟩ | ⟨hother, -⟩
      · have hcurrent := hsign.current_eq
        rw [hcurrent] at hlexeme
        cases hlexeme
        exact ⟨(), p₂, hadvance.2 (by rwa [hcurrent]), right, p₃, hright, _, q, ⟨rfl, hmark⟩,
          rfl, rfl⟩
      · exact absurd rfl (hother op)
  · next hother =>
    rw [pure_eq_ok]
    constructor
    · exact fun h => .inr ⟨hother, h⟩
    · intro h
      rcases h with ⟨op, sign, p₂, right, p₃, hsign, -⟩ | ⟨-, h⟩
      · exact absurd (by rw [← hlexeme, hsign.current_eq]) (hother op)
      · exact h

/-! ## Primaries -/

theorem leafOf?_eq_some_iff {lexeme : Lexeme} {leaf : Leaf} :
    leafOf? lexeme = some leaf ↔ lexeme.Denotes leaf := by
  constructor
  · intro h
    unfold leafOf? at h
    split at h
    · cases h
      exact .string _ _
    · cases h
      exact .number _ _
    · cases h
      exact .reference _ _ _
    · cases h
  · intro h
    cases h <;> rfl

theorem leaf?_eq_ok_some {node : LeafNode} :
    leaf? p = .ok (some node) q ↔
      ∃ token : LeafToken, node = token.node p.nextId ∧ p.Takes [token.token] 1 q := by
  constructor
  · intro h
    cases hleaf : leafOf? p.current.lexeme with
    | none =>
      rw [leaf?_of_none hleaf] at h
      cases h
    | some leaf =>
      obtain ⟨hnode, htakes⟩ := (leaf?_eq_ok hleaf).1 h
      exact ⟨⟨p.current, leaf, leafOf?_eq_some_iff.1 hleaf⟩, Option.some.inj hnode, htakes⟩
  · intro h
    rcases h with ⟨token, rfl, htakes⟩
    have hcurrent : p.current = token.token := htakes.current_eq
    have hleaf := leafOf?_eq_some_iff.2 token.denotes
    rw [← hcurrent] at hleaf htakes
    rw [leaf?_eq_ok hleaf, LeafToken.node, hcurrent]
    exact ⟨rfl, hcurrent ▸ htakes⟩

/-- A token that is a leaf is a primary. -/
theorem primary_of_leaf (hleaf : (leafOf? p.current.lexeme).isSome) :
    Category.primary.parser levels () p = .ok e q ↔
      ∃ token : LeafToken, e = .leaf (token.node p.nextId) ∧ p.Takes [token.token] 1 q := by
  rw [Category.parser, Parser.primary, bind_eq_ok]
  constructor
  · intro h
    rcases h with ⟨node, p₁, hnode, h⟩
    cases node with
    | none =>
      obtain ⟨leaf, hleaf⟩ := Option.isSome_iff_exists.1 hleaf
      cases ((leaf?_eq_ok hleaf).1 hnode).1
    | some node =>
      obtain ⟨token, rfl, htakes⟩ := leaf?_eq_ok_some.1 hnode
      obtain ⟨rfl, rfl⟩ := pure_eq_ok.1 h
      exact ⟨token, rfl, htakes⟩
  · intro h
    rcases h with ⟨token, rfl, htakes⟩
    exact ⟨_, q, leaf?_eq_ok_some.2 ⟨token, rfl, htakes⟩, rfl⟩

/-- What is no leaf is parsed by its first token. -/
theorem primary_of_none (hleaf : leafOf? p.current.lexeme = none) :
    Category.primary.parser levels () p = .ok e q ↔ (match p.current.lexeme with
      | .symbol .leftParen => (do
          let deeper ← descend (below levels)
          advance
          let inner ← deeper.expression
          let close ← expect .rightParen .groupEnd
          ascend
          return inner.group ⟨p.current.span.start, close.stop⟩ : ParserM Expr)
      | .text .function _ _ => call
      | _ => unexpected .primary) p = .ok e q := by
  show Parser.primary (below levels) p = .ok e q ↔ _
  rw [Parser.primary, bind_eq_ok]
  constructor
  · intro h
    rcases h with ⟨node, p₀, hnode, h⟩
    rw [leaf?_of_none hleaf] at hnode
    cases hnode
    exact h
  · exact fun h => ⟨none, p, leaf?_of_none hleaf, h⟩

/-- A group is parsed one level deeper. -/
theorem primary_of_leftParen {opening : Span}
    (hcurrent : p.current = ⟨.symbol .leftParen, opening⟩) :
    Category.primary.parser levels () p = .ok e q ↔
      ∃ m p₁ inner p₂ closing p₃, levels = m + 1 ∧
        p.deeper.Takes [⟨.symbol .leftParen, opening⟩] 0 p₁ ∧
        Category.expression.parser m () p₁ = .ok inner p₂ ∧
        p₂.Takes [⟨.symbol .rightParen, closing⟩] 0 p₃ ∧ q = p₃.shallower ∧
        e = inner.group ⟨opening.start, closing.stop⟩ := by
  have hadvance {u : Unit} {q : Parser} : advance p.deeper = .ok u q ↔
      p.deeper.Takes [⟨.symbol .leftParen, p.current.span⟩] 0 q :=
    advance_symbol_eq_ok (p := p.deeper) (by rw [deeper, hcurrent])
  rw [primary_of_none (by rw [hcurrent]; rfl)]
  rw [hcurrent] at hadvance ⊢
  simp only [bind_eq_ok, descend_below_eq_ok, expect_eq_ok, ascend_eq_ok, pure_eq_ok]
  constructor
  · intro h
    rcases h with ⟨_, _, ⟨m, rfl, rfl, rfl⟩, _, p₁, hopening, inner, p₂, hinner, closing, p₃,
      hclosing, _, _, rfl, rfl, rfl⟩
    exact ⟨m, p₁, inner, p₂, closing, p₃, rfl, hadvance.1 hopening, hinner, hclosing, rfl, rfl⟩
  · intro h
    rcases h with ⟨m, p₁, inner, p₂, closing, p₃, rfl, hopening, hinner, hclosing, rfl, rfl⟩
    exact ⟨_, _, ⟨m, rfl, rfl, rfl⟩, (), p₁, hadvance.2 hopening, inner, p₂, hinner, closing, p₃,
      hclosing, (), _, rfl, rfl, rfl⟩

/-- Nothing else starts a primary. -/
theorem current_of_primary (h : Category.primary.parser levels () p = .ok e q) :
    (leafOf? p.current.lexeme).isSome ∨
      p.current.lexeme = .symbol .leftParen ∨
      ∃ name expandable, p.current.lexeme = .text .function name expandable := by
  cases hleaf : leafOf? p.current.lexeme with
  | some leaf => exact .inl rfl
  | none =>
    rw [primary_of_none hleaf] at h
    generalize p.current.lexeme = lexeme at h
    split at h
    · exact .inr (.inl rfl)
    · exact .inr (.inr ⟨_, _, rfl⟩)
    · exact absurd h unexpected_ne_ok

/-! ## Calls -/

theorem arguments_succ_eq_ok {fuel : Nat} {leaves : List LeafNode} :
    arguments (fuel + 1) p = .ok leaves q ↔
      ∃ (first : LeafToken) (p₁ : Parser), p.Takes [first.token] 1 p₁ ∧
        ((∃ comma p₂ others, p₁.Takes [⟨.symbol .comma, comma⟩] 0 p₂ ∧
            arguments fuel p₂ = .ok others q ∧ leaves = first.node p.nextId :: others) ∨
          (p₁.current.lexeme ≠ .symbol .comma ∧ leaves = [first.node p.nextId] ∧ q = p₁)) := by
  rw [arguments, bind_eq_ok]
  constructor
  · intro h
    rcases h with ⟨_ | node, p₁, hnode, h⟩
    · exact absurd h unexpected_ne_ok
    · obtain ⟨first, rfl, hfirst⟩ := leaf?_eq_ok_some.1 hnode
      refine ⟨first, p₁, hfirst, ?_⟩
      simp only [get_bind] at h
      split at h
      · next hcomma =>
        rw [is_iff] at hcomma
        simp only [bind_eq_ok, advance_symbol_eq_ok hcomma, pure_eq_ok] at h
        obtain ⟨_, p₂, hcomma, others, p₃, hothers, rfl, rfl⟩ := h
        exact .inl ⟨_, p₂, others, hcomma, hothers, rfl⟩
      · next hother =>
        rw [is_iff] at hother
        exact .inr ⟨hother, pure_eq_ok.1 h⟩
  · intro h
    rcases h with ⟨first, p₁, hfirst, h⟩
    refine ⟨_, p₁, leaf?_eq_ok_some.2 ⟨first, rfl, hfirst⟩, ?_⟩
    simp only [get_bind]
    rcases h with ⟨comma, p₂, others, hcomma, hothers, rfl⟩ | ⟨hother, rfl, rfl⟩
    · have hcurrent : p₁.current = ⟨.symbol .comma, comma⟩ := hcomma.current_eq
      have hsymbol : p₁.current.lexeme = .symbol .comma := by rw [hcurrent]
      rw [if_pos (is_iff.2 hsymbol)]
      simp only [bind_eq_ok, advance_symbol_eq_ok hsymbol, pure_eq_ok]
      exact ⟨(), p₂, by rwa [hcurrent], others, q, hothers, rfl, rfl⟩
    · rw [if_neg (by rwa [is_iff])]
      rfl

/-- Arguments go on as long as commas come. -/
theorem arguments_eq_ok {fuel : Nat} {leaves : List LeafNode} :
    arguments fuel p = .ok leaves q ↔
      ∃ a : Arguments, a.count ≤ fuel ∧ leaves = a.leaves p.nextId ∧ p.Takes a.yield a.count q ∧
        q.current.lexeme ≠ .symbol .comma := by
  induction fuel generalizing p leaves with
  | zero =>
    refine ⟨fun h => absurd h unexpected_ne_ok, ?_⟩
    intro h
    rcases h with ⟨a, hcount, -⟩
    cases a <;> simp [Arguments.count] at hcount
  | succ fuel ih =>
    rw [arguments_succ_eq_ok]
    constructor
    · intro h
      rcases h with ⟨first, p₁, hfirst, ⟨comma, p₂, others, hcomma, hothers, rfl⟩ | ⟨hother, rfl,
        rfl⟩⟩
      · obtain ⟨a, hcount, rfl, htakes, hend⟩ := ih.1 hothers
        refine ⟨.more first comma a, Nat.succ_le_succ hcount, ?_, ?_, hend⟩
        · rw [Arguments.leaves, hcomma.nextId_eq, hfirst.nextId_eq]
        · have hall := hfirst.append (hcomma.cons htakes)
          rwa [Nat.add_comm] at hall
      · exact ⟨.last first, by simp [Arguments.count], rfl, hfirst, hother⟩
    · intro h
      rcases h with ⟨first | ⟨first, comma, others⟩, hcount, rfl, htakes, hend⟩
      · exact ⟨first, q, htakes, .inr ⟨hend, rfl, rfl⟩⟩
      · have htakes : p.Takes ([first.token] ++ (⟨.symbol .comma, comma⟩ :: others.yield))
            (1 + others.count) q := by rwa [Nat.add_comm]
        obtain ⟨p₁, hfirst, htakes⟩ := htakes.split
        obtain ⟨p₂, hcomma, hothers⟩ := htakes.uncons
        refine ⟨first, p₁, hfirst, .inl ⟨comma, p₂, others.leaves p₂.nextId, hcomma, ?_, ?_⟩⟩
        · exact ih.2 ⟨others, Nat.le_of_succ_le_succ hcount, rfl, hothers, hend⟩
        · rw [Arguments.leaves, hcomma.nextId_eq, hfirst.nextId_eq]

/-- What stands between the parentheses of a call. -/
def listed : ParserM (List LeafNode) := do
  let opened ← get
  if opened.current.is .rightParen then return []
  else arguments (opened.cursor.rest.length + 1)

/-- Each argument takes a character at least, so the fuel of `arguments` never runs out. -/
theorem listed_eq_ok {leaves : List LeafNode} (hend : q.current.lexeme = .symbol .rightParen) :
    listed p = .ok leaves q ↔
      ∃ a : Option Arguments, leaves = a.elim [] (·.leaves p.nextId) ∧
        p.Takes (a.elim [] Arguments.yield) (a.elim 0 Arguments.count) q := by
  rw [listed, get_bind]
  split
  · next hnone =>
    rw [pure_eq_ok]
    constructor
    · intro h
      rcases h with ⟨rfl, rfl⟩
      exact ⟨none, rfl, .nil⟩
    · intro h
      rcases h with ⟨_ | a, rfl, htakes⟩
      · exact ⟨rfl, htakes.eq_self⟩
      · obtain ⟨argument, tail, hyield⟩ := a.yield_eq_cons
        have htakes : p.Takes (argument.token :: tail) a.count q := hyield ▸ htakes
        rw [htakes.current_eq, argument.is_symbol] at hnone
        cases hnone
  · next hsome =>
    rw [arguments_eq_ok]
    constructor
    · intro h
      rcases h with ⟨a, -, rfl, htakes, -⟩
      exact ⟨some a, rfl, htakes⟩
    · intro h
      rcases h with ⟨_ | a, rfl, htakes⟩
      · have hself : q = p := htakes.eq_self
        rw [is_iff, ← hself] at hsome
        exact absurd hend hsome
      · have hfuel : a.yield.length ≤ p.cursor.rest.length + 1 :=
          htakes.passes.length_le fun t ht =>
            Arguments.is_endOfInput_of_mem_yield (List.mem_of_mem_tail ht)
        have hcount := a.count_le_length_yield
        exact ⟨a, by omega, rfl, htakes, by rw [hend]; nofun⟩

theorem call_eq_ok :
    call p = .ok e q ↔
      ∃ p₁ opening p₂ leaves p₃ closing p₄, advance p = .ok () p₁ ∧
        p₁.Takes [⟨.symbol .leftParen, opening⟩] 0 p₂ ∧ listed p₂ = .ok leaves p₃ ∧
        p₃.Takes [⟨.symbol .rightParen, closing⟩] 0 p₄ ∧ p₄.Takes [] 1 q ∧
        e = .call ⟨p₄.nextId, p.current.span.cover closing, false⟩ p.current.lexeme.plain
          leaves := by
  have hcall : call = (do
      let parser ← get
      advance
      let _ ← expect .leftParen .callStart
      let args ← listed
      let close ← expect .rightParen .callEnd
      let mark ← newMark (parser.current.span.cover close)
      return .call mark parser.current.lexeme.plain args) := by
    unfold call listed
    refine bind_congr fun parser => bind_congr fun _ => bind_congr fun _ => ?_
    rw [bind_assoc]
    refine bind_congr fun opened => ?_
    split <;> rfl
  rw [hcall]
  simp only [get_bind, bind_eq_ok, expect_eq_ok, newMark_eq_ok, pure_eq_ok]
  constructor
  · intro h
    rcases h with ⟨_, p₁, hname, opening, p₂, hopening, leaves, p₃, hlisted, closing, p₄, hclosing,
      _, _, ⟨rfl, hmark⟩, rfl, rfl⟩
    exact ⟨p₁, opening, p₂, leaves, p₃, closing, p₄, hname, hopening, hlisted, hclosing, hmark, rfl⟩
  · intro h
    rcases h with ⟨p₁, opening, p₂, leaves, p₃, closing, p₄, hname, hopening, hlisted, hclosing,
      hmark, rfl⟩
    exact ⟨(), p₁, hname, opening, p₂, hopening, leaves, p₃, hlisted, closing, p₄, hclosing, _, q,
      ⟨rfl, hmark⟩, rfl, rfl⟩

/-- A call takes no level, whatever its arguments. -/
theorem primary_of_function {name : String} {expandable : Bool} {span : Span}
    (hcurrent : p.current = ⟨.text .function name expandable, span⟩) :
    Category.primary.parser levels () p = .ok e q ↔
      ∃ opening arguments closing, ∃ d : Derivation .primary,
        d = .call name expandable span opening arguments closing ∧ e = d.tree () p.nextId ∧
          p.Takes d.yield d.size q := by
  have hadvance {q : Parser} : advance p = .ok () q ↔ p.Takes [p.current] 0 q :=
    advance_eq_ok (by rw [hcurrent]; rfl)
  rw [primary_of_none (by rw [hcurrent]; rfl), hcurrent]
  rw [hcurrent] at hadvance
  show call p = .ok e q ↔ _
  rw [call_eq_ok, hcurrent]
  constructor
  · intro h
    rcases h with ⟨p₁, opening, p₂, leaves, p₃, closing, p₄, hname, hopening, hlisted, hclosing,
      hmark, rfl⟩
    have hname := hadvance.1 hname
    obtain ⟨a, rfl, harguments⟩ := (listed_eq_ok (by rw [hclosing.current_eq])).1 hlisted
    refine ⟨opening, a, closing, _, rfl, ?_, ?_⟩
    · rw [hclosing.nextId_eq, harguments.nextId_eq, hopening.nextId_eq, hname.nextId_eq]
      rfl
    · exact hname.cons (hopening.cons (harguments.append hclosing |>.numbered hmark))
  · intro h
    rcases h with ⟨opening, a, closing, _, rfl, rfl, htakes⟩
    obtain ⟨p₁, hname, htakes⟩ := htakes.uncons
    obtain ⟨p₂, hopening, htakes⟩ := htakes.uncons
    obtain ⟨p₄, htakes, hmark⟩ := htakes.unnumbered
    obtain ⟨p₃, harguments, hclosing⟩ := htakes.split (n := 0)
    refine ⟨p₁, opening, p₂, _, p₃, closing, p₄, hadvance.2 hname, hopening,
      (listed_eq_ok (by rw [hclosing.current_eq])).2 ⟨a, rfl, harguments⟩, hclosing, hmark, ?_⟩
    rw [hclosing.nextId_eq, harguments.nextId_eq, hopening.nextId_eq, hname.nextId_eq]
    rfl

end Parser

end CondLang
