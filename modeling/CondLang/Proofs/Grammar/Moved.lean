import CondLang.Proofs.Grammar.Unambiguous

/-!
# Phrases elsewhere in a text

The grammar looks at lexemes only.  So tokens that stand elsewhere make up the same phrase, whose
tree has the same shape and texts: `Expr.placed` is what becomes of a tree if the text in front of
it grows by some characters and the numbers of its nodes start later.  If tokens that are moved are
those of an expression, they are the tokens of an expression where they are
(`Derivation.exists_of_map_moved`).
-/

namespace CondLang

/-! ## Trees and tokens that are moved -/

/-- The mark of a node whose numbers start later and whose text has more characters in front. -/
def Mark.placed (first offset : Nat) (mark : Mark) : Mark :=
  ⟨mark.id + first, mark.span.moved offset, mark.grouped⟩

/-- A leaf whose numbers start later and whose text has more characters in front. -/
def LeafNode.placed (first offset : Nat) (node : LeafNode) : LeafNode :=
  ⟨node.mark.placed first offset, node.leaf⟩

namespace Expr

/-- A tree whose numbers start later and whose text has more characters in front. -/
def placed (first offset : Nat) : Expr → Expr
  | leaf node => leaf (node.placed first offset)
  | call mark name arguments =>
      call (mark.placed first offset) name (arguments.map (·.placed first offset))
  | not mark operand => not (mark.placed first offset) (operand.placed first offset)
  | logical mark op left right =>
      logical (mark.placed first offset) op (left.placed first offset) (right.placed first offset)
  | comparison mark op left right =>
      comparison (mark.placed first offset) op (left.placed first offset)
        (right.placed first offset)

variable {first offset : Nat}

@[simp] theorem mark_placed (e : Expr) :
    (e.placed first offset).mark = e.mark.placed first offset := by
  cases e <;> rfl

@[simp] theorem span_placed (e : Expr) :
    (e.placed first offset).span = e.span.moved offset := by
  rw [span, mark_placed]
  rfl

theorem group_placed (e : Expr) (span : Span) :
    (e.placed first offset).group (span.moved offset) = (e.group span).placed first offset := by
  cases e <;> rfl

end Expr

namespace Span

theorem cover_moved (a b : Span) (offset : Nat) :
    (a.moved offset).cover (b.moved offset) = (a.cover b).moved offset := by
  simp [cover, moved, Nat.add_min_add_right, Nat.add_max_add_right]

/-- The same characters in a text that lacks the first `offset` ones. -/
def movedBack (offset : Nat) (span : Span) : Span := ⟨span.start - offset, span.stop - offset⟩

@[simp] theorem movedBack_moved (span : Span) (offset : Nat) :
    (span.moved offset).movedBack offset = span := by
  simp [moved, movedBack]

end Span

/-- A token that stands elsewhere. -/
def Token.mapSpan (f : Span → Span) (token : Token) : Token := ⟨token.lexeme, f token.span⟩

/-- A literal or a reference that stands elsewhere. -/
def LeafToken.mapSpan (f : Span → Span) (t : LeafToken) : LeafToken :=
  ⟨t.token.mapSpan f, t.leaf, t.denotes⟩

namespace Arguments

/-- Arguments that stand elsewhere. -/
def mapSpans (f : Span → Span) : Arguments → Arguments
  | last argument => last (argument.mapSpan f)
  | more argument comma others => more (argument.mapSpan f) (f comma) (others.mapSpans f)

variable {f : Span → Span}

theorem yield_mapSpans (arguments : Arguments) :
    (arguments.mapSpans f).yield = arguments.yield.map (·.mapSpan f) := by
  induction arguments with
  | last argument => rfl
  | more argument comma others ih =>
    rw [mapSpans, yield, ih]
    rfl

@[simp] theorem count_mapSpans (arguments : Arguments) :
    (arguments.mapSpans f).count = arguments.count := by
  induction arguments with
  | last argument => rfl
  | more argument comma others ih => rw [mapSpans, count, ih, count]

theorem leaves_mapSpans (arguments : Arguments) (id first offset : Nat) :
    (arguments.mapSpans (Span.moved offset)).leaves (id + first) =
      (arguments.leaves id).map (·.placed first offset) := by
  induction arguments generalizing id with
  | last argument => rfl
  | more argument comma others ih =>
    rw [mapSpans, leaves, leaves, Nat.add_right_comm, ih]
    rfl

end Arguments

namespace Derivation

variable {c : Category} {f : Span → Span} {first offset : Nat}

/-- The same phrase with its tokens elsewhere. -/
def mapSpans {c : Category} (f : Span → Span) : Derivation c → Derivation c
  | leaf token => leaf (token.mapSpan f)
  | call name expandable span opening arguments closing =>
      call name expandable (f span) (f opening) (arguments.map (·.mapSpans f)) (f closing)
  | group opening inner closing => group (f opening) (inner.mapSpans f) (f closing)
  | single only => single (only.mapSpans f)
  | compared left op sign right => compared (left.mapSpans f) op (f sign) (right.mapSpans f)
  | plain inner => plain (inner.mapSpans f)
  | negated sign inner => negated (f sign) (inner.mapSpans f)
  | conjunct inner => conjunct (inner.mapSpans f)
  | disjunct inner => disjunct (inner.mapSpans f)
  | chain first others => chain (first.mapSpans f) (others.mapSpans f)
  | done => done
  | more op word next others => more op (f word) (next.mapSpans f) (others.mapSpans f)

theorem yield_mapSpans (d : Derivation c) :
    (d.mapSpans f).yield = d.yield.map (·.mapSpan f) := by
  induction d with
  | leaf token => rfl
  | call name expandable span opening arguments closing =>
    cases arguments with
    | none => rfl
    | some a => simp [mapSpans, yield, a.yield_mapSpans, Token.mapSpan]
  | group opening inner closing ih => simp [mapSpans, yield, ih, Token.mapSpan]
  | single only ih => exact ih
  | compared left op sign right ihl ihr => simp [mapSpans, yield, ihl, ihr, Token.mapSpan]
  | plain inner ih => exact ih
  | negated sign inner ih => simp [mapSpans, yield, ih, Token.mapSpan]
  | conjunct inner ih => exact ih
  | disjunct inner ih => exact ih
  | chain first others ihf iho => simp [mapSpans, yield, ihf, iho]
  | done => rfl
  | more op word next others ihn iho => simp [mapSpans, yield, ihn, iho, Token.mapSpan]

theorem mem_yield_mapSpans {d : Derivation c} {token : Token} (h : token ∈ d.yield) :
    token.mapSpan f ∈ (d.mapSpans f).yield := by
  rw [yield_mapSpans]
  exact List.mem_map.2 ⟨token, h, rfl⟩

@[simp] theorem need_mapSpans (d : Derivation c) : (d.mapSpans f).need = d.need := by
  induction d with
  | leaf | call | done => rfl
  | single _ ih | plain _ ih | conjunct _ ih | disjunct _ ih => exact ih
  | group _ _ _ ih | negated _ _ ih => rw [mapSpans, need, need, ih]
  | compared _ _ _ _ ihl ihr => rw [mapSpans, need, need, ihl, ihr]
  | chain _ _ ihf iho => rw [mapSpans, need, need, ihf, iho]
  | more _ _ _ _ ihn iho => rw [mapSpans, need, need, ihn, iho]

@[simp] theorem size_mapSpans (d : Derivation c) : (d.mapSpans f).size = d.size := by
  induction d with
  | leaf | done => rfl
  | call _ _ _ _ arguments _ => cases arguments <;> simp [mapSpans, size]
  | single _ ih | plain _ ih | conjunct _ ih | disjunct _ ih | group _ _ _ ih => exact ih
  | negated _ _ ih => rw [mapSpans, size, size, ih]
  | compared _ _ _ _ ihl ihr => rw [mapSpans, size, size, ihl, ihr]
  | chain _ _ ihf iho => rw [mapSpans, size, size, ihf, iho]
  | more _ _ _ _ ihn iho => rw [mapSpans, size, size, ihn, iho]

/-- What stands to the left of a phrase, moved with it. -/
def placedLeft (first offset : Nat) : (c : Category) → c.Left → c.Left
  | .others _, left => left.placed first offset
  | .primary, _ | .comparison, _ | .unary, _ | .operand _, _ | .chain _, _ => ()

/-- The tree of a phrase that is moved is the tree, moved. -/
theorem tree_mapSpans (d : Derivation c) : ∀ (left : c.Left) (id : Nat),
    (d.mapSpans (Span.moved offset)).tree (placedLeft first offset c left) (id + first) =
      (d.tree left id).placed first offset := by
  induction d with
  | leaf token => exact fun _ _ => rfl
  | call name expandable span opening arguments closing =>
    intro _ id
    cases arguments with
    | none => rw [mapSpans, tree, tree, Span.cover_moved]; rfl
    | some a =>
      simp only [mapSpans, tree, Option.map_some, Option.elim_some, Arguments.count_mapSpans,
        Arguments.leaves_mapSpans, Span.cover_moved, Nat.add_right_comm id first]
      rfl
  | group opening inner closing ih =>
    intro _ id
    have hinner : (inner.mapSpans (Span.moved offset)).tree () (id + first) = _ := ih () id
    rw [mapSpans, tree, hinner]
    exact Expr.group_placed _ ⟨opening.start, closing.stop⟩
  | single only ih => exact fun _ id => ih () id
  | compared left op sign right ihl ihr =>
    intro _ id
    have hleft : (left.mapSpans (Span.moved offset)).tree () (id + first) = _ := ihl () id
    have hright : (right.mapSpans (Span.moved offset)).tree () (id + left.size + first) = _ :=
      ihr () (id + left.size)
    simp only [mapSpans, tree, size_mapSpans, Nat.add_right_comm _ first, hleft, hright,
      Expr.span_placed, Span.cover_moved]
    rfl
  | plain inner ih => exact fun _ id => ih () id
  | negated sign inner ih =>
    intro _ id
    have hinner : (inner.mapSpans (Span.moved offset)).tree () (id + first) = _ := ih () id
    simp only [mapSpans, tree, size_mapSpans, Nat.add_right_comm _ first, hinner,
      Expr.span_placed, Span.cover_moved]
    rfl
  | conjunct inner ih => exact fun _ id => ih () id
  | disjunct inner ih => exact fun _ id => ih () id
  | chain front others ihf iho =>
    intro _ id
    have hfront : (front.mapSpans (Span.moved offset)).tree () (id + first) = _ := ihf () id
    simp only [mapSpans, tree, size_mapSpans, Nat.add_right_comm _ first, hfront]
    exact iho (front.tree () id) (id + front.size)
  | done => exact fun _ _ => rfl
  | more op word next others ihn iho =>
    intro left id
    have hnext : (next.mapSpans (Span.moved offset)).tree () (id + first) = _ := ihn () id
    simp only [mapSpans, tree, size_mapSpans, Nat.add_right_comm _ first, hnext, placedLeft,
      Expr.span_placed, Span.cover_moved]
    exact iho (.logical ⟨id + next.size, left.span.cover (next.tree () id).span, false⟩ op left
      (next.tree () id)) (id + next.size + 1)

theorem tree_mapSpans_expression (d : Derivation .expression) (id offset : Nat) :
    (d.mapSpans (Span.moved offset)).tree () id = (d.tree () 0).placed id offset := by
  have htree : (d.mapSpans (Span.moved offset)).tree () (0 + id) = _ := d.tree_mapSpans () 0
  rwa [Nat.zero_add] at htree

/-- Tokens that are those of an expression when they are moved are those of an expression, which is
the other one before it is moved. -/
theorem exists_of_map_moved {d : Derivation .expression} {tokens : List Token} {offset : Nat}
    (h : tokens.map (·.mapSpan (Span.moved offset)) = d.yield) :
    ∃ e : Derivation .expression, e.yield = tokens ∧ e.mapSpans (Span.moved offset) = d := by
  have hback : (d.mapSpans (Span.movedBack offset)).yield = tokens := by
    rw [yield_mapSpans, ← h, List.map_map]
    simp [Function.comp_def, Token.mapSpan]
  refine ⟨d.mapSpans (Span.movedBack offset), hback, eq_of_yield_eq ?_⟩
  rw [yield_mapSpans, hback, h]

end Derivation

end CondLang
