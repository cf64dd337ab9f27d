import CondLang.Proofs.Grammar
import CondLang.Proofs.Twins
import Mathlib.Order.MinMax

/-!
# Phrases of the same shape

The grammar does not tell a reference from a string, nor does it look at where tokens stand.  So if
tokens are exchanged for twins of them, which may stand elsewhere as long as the order of places is
kept, they make up a phrase of the same shape, whose tree is a twin (`Derivation.exists_twin`).
-/

namespace CondLang

/-! ## Twins elsewhere in a text -/

/-- The span between the places that a span is moved to. -/
def Span.map (f : ℕ → ℕ) (span : Span) : Span := ⟨f span.start, f span.stop⟩

theorem Span.map_cover {f : ℕ → ℕ} (hf : Monotone f) (a b : Span) :
    (a.map f).cover (b.map f) = (a.cover b).map f := by
  simp only [cover, map, hf.map_min, hf.map_max]

/-- Two marks are the same but for where they stand. -/
structure Mark.Moved (f : ℕ → ℕ) (mark mark' : Mark) : Prop where
  id : mark'.id = mark.id
  span : mark'.span = mark.span.map f
  grouped : mark'.grouped = mark.grouped

theorem Expr.Twins.group {f : ℕ → ℕ} {e e' : Expr} (h : e.Twins (Mark.Moved f) e') (span : Span) :
    (e.group span).Twins (Mark.Moved f) (e'.group (span.map f)) :=
  h.withMark ⟨h.mark.id, rfl, rfl⟩

/-- Two lexemes are the same, or the text of a reference is that of a string that needs
expansion. -/
inductive Lexeme.Alike : Lexeme → Lexeme → Prop
  | same (lexeme : Lexeme) : Alike lexeme lexeme
  | quoted (kind : ReferenceKind) (text : String) (expandable : Bool) :
      Alike (.text (.reference kind) text expandable) (.text .string text true)

/-- Two tokens have lexemes that are alike, and one stands where the other one is moved to. -/
structure Token.Twins (f : ℕ → ℕ) (token token' : Token) : Prop where
  lexeme : token.lexeme.Alike token'.lexeme
  span : token'.span = token.span.map f

namespace Token.Twins

variable {f : ℕ → ℕ} {token token' : Token}

/-- A token that is no reference is its own twin. -/
theorem eq_of_lexeme {lexeme : Lexeme} {span : Span}
    (h : (⟨lexeme, span⟩ : Token).Twins f token')
    (hlexeme : ∀ kind text expandable, lexeme ≠ .text (.reference kind) text expandable) :
    token' = ⟨lexeme, span.map f⟩ := by
  obtain ⟨lexeme', span'⟩ := token'
  obtain ⟨halike, hspan⟩ := h
  cases hspan
  generalize hsame : (⟨lexeme, span⟩ : Token).lexeme = other at halike
  cases halike with
  | same => cases hsame; rfl
  | quoted kind text expandable => exact absurd hsame (hlexeme kind text expandable)

theorem eq_symbol {s : Symbol} {span : Span} (h : (⟨.symbol s, span⟩ : Token).Twins f token') :
    token' = ⟨.symbol s, span.map f⟩ := h.eq_of_lexeme nofun

/-- The twin of a literal or a reference is one. -/
theorem exists_leaf {t : LeafToken} (h : t.token.Twins f token') :
    ∃ t' : LeafToken, t'.token = token' ∧
      ∀ id, (t.node id).Twins (Mark.Moved f) (t'.node id) := by
  obtain ⟨token, leaf, hdenotes⟩ := t
  obtain ⟨lexeme, span⟩ := token
  obtain ⟨lexeme', span'⟩ := token'
  obtain ⟨halike, hspan⟩ := h
  cases hspan
  generalize hlexeme : (⟨lexeme, span⟩ : Token).lexeme = other at halike
  cases halike with
  | same =>
    cases hlexeme
    exact ⟨⟨⟨lexeme, span.map f⟩, leaf, hdenotes⟩, rfl,
      fun id => ⟨⟨rfl, rfl, rfl⟩, .same leaf⟩⟩
  | quoted kind text expandable =>
    cases hlexeme
    cases hdenotes
    exact ⟨⟨⟨_, span.map f⟩, _, .string text true⟩, rfl,
      fun id => ⟨⟨rfl, rfl, rfl⟩, .quoted kind text⟩⟩

end Token.Twins

/-- What goes with two lists that are laid end to end is two such lists. -/
theorem exists_append_of_forall₂ {α β : Type} {R : α → β → Prop} {xs ys : List α}
    {zs : List β} (h : List.Forall₂ R (xs ++ ys) zs) :
    ∃ us vs, zs = us ++ vs ∧ List.Forall₂ R xs us ∧ List.Forall₂ R ys vs := by
  induction xs generalizing zs with
  | nil => exact ⟨[], zs, rfl, .nil, h⟩
  | cons x xs ih =>
    cases h with
    | cons hx hrest =>
      obtain ⟨us, vs, rfl, hus, hvs⟩ := ih hrest
      exact ⟨_ :: us, vs, rfl, .cons hx hus, hvs⟩

/-! ## Phrases -/

variable {f : ℕ → ℕ}

theorem Arguments.exists_twin (arguments : Arguments) {tokens : List Token}
    (h : List.Forall₂ (Token.Twins f) arguments.yield tokens) :
    ∃ arguments' : Arguments, arguments'.yield = tokens ∧ arguments'.count = arguments.count ∧
      ∀ id, List.Forall₂ (LeafNode.Twins (Mark.Moved f)) (arguments.leaves id)
        (arguments'.leaves id) := by
  induction arguments generalizing tokens with
  | last argument =>
    obtain ⟨token', others, hargument, hothers, rfl⟩ := List.forall₂_cons_left_iff.1 h
    obtain rfl := List.forall₂_nil_left_iff.1 hothers
    obtain ⟨t', rfl, ht'⟩ := hargument.exists_leaf
    exact ⟨.last t', rfl, rfl, fun id => .cons (ht' id) .nil⟩
  | more argument comma others ih =>
    obtain ⟨token', rest, hargument, hrest, rfl⟩ := List.forall₂_cons_left_iff.1 h
    obtain ⟨comma', behind, hcomma, hbehind, rfl⟩ := List.forall₂_cons_left_iff.1 hrest
    obtain ⟨t', rfl, ht'⟩ := hargument.exists_leaf
    obtain rfl := hcomma.eq_symbol
    obtain ⟨others', rfl, hcount, hleaves⟩ := ih hbehind
    exact ⟨.more t' (comma.map f) others', rfl, congrArg (· + 1) hcount,
      fun id => .cons (ht' id) (hleaves (id + 1))⟩

namespace Derivation

/-- What stands to the left of two phrases is twins. -/
def TwinsBefore (f : ℕ → ℕ) : (c : Category) → c.Left → c.Left → Prop
  | .others _, left, left' => left.Twins (Mark.Moved f) left'
  | .primary, _, _ | .comparison, _, _ | .unary, _, _ | .operand _, _, _ | .chain _, _, _ => True

/-- Two phrases take the same and stand for twins. -/
structure Twins (f : ℕ → ℕ) {c : Category} (d d' : Derivation c) : Prop where
  need : d'.need = d.need
  size : d'.size = d.size
  tree (left left' : c.Left) (hleft : TwinsBefore f c left left') (id : Nat) :
    (d.tree left id).Twins (Mark.Moved f) (d'.tree left' id)

/-- Twins of the tokens of a phrase are the tokens of a phrase that is its twin. -/
theorem exists_twin (hf : Monotone f) {c : Category} (d : Derivation c) :
    ∀ {tokens : List Token}, List.Forall₂ (Token.Twins f) d.yield tokens →
      ∃ d' : Derivation c, d'.yield = tokens ∧ d.Twins f d' := by
  -- The span of an operator covers its operands, and covering is kept because the order is.
  have hcover {a b : Expr} {a' b' : Expr} (ha : a.Twins (Mark.Moved f) a')
      (hb : b.Twins (Mark.Moved f) b') : a'.span.cover b'.span = (a.span.cover b.span).map f := by
    rw [Expr.span, Expr.span, ha.mark.span, hb.mark.span, Span.map_cover hf]
    rfl
  induction d with
  | leaf token =>
    intro tokens h
    obtain ⟨token', others, htoken, hothers, rfl⟩ := List.forall₂_cons_left_iff.1 h
    obtain rfl := List.forall₂_nil_left_iff.1 hothers
    obtain ⟨t', rfl, ht'⟩ := htoken.exists_leaf
    exact ⟨leaf t', rfl, rfl, rfl, fun _ _ _ id => .leaf (ht' id)⟩
  | call name expandable span opening arguments closing =>
    intro tokens h
    obtain ⟨name', rest, hname, hrest, rfl⟩ := List.forall₂_cons_left_iff.1 h
    obtain ⟨opening', inside, hopening, hinside, rfl⟩ := List.forall₂_cons_left_iff.1 hrest
    obtain ⟨between, behind, rfl, hbetween, hbehind⟩ := exists_append_of_forall₂ hinside
    obtain ⟨closing', none, hclosing, hnone, rfl⟩ := List.forall₂_cons_left_iff.1 hbehind
    obtain rfl := List.forall₂_nil_left_iff.1 hnone
    obtain rfl := hname.eq_of_lexeme nofun
    obtain rfl := hopening.eq_symbol
    obtain rfl := hclosing.eq_symbol
    have hspan : (span.map f).cover (closing.map f) = (span.cover closing).map f :=
      Span.map_cover hf span closing
    cases arguments with
    | none =>
      obtain rfl := List.forall₂_nil_left_iff.1 hbetween
      exact ⟨call name expandable (span.map f) (opening.map f) none (closing.map f), rfl, rfl, rfl,
        fun _ _ _ id => .call ⟨rfl, hspan, rfl⟩ name .nil⟩
    | some a =>
      obtain ⟨a', rfl, hcount, hleaves⟩ := a.exists_twin hbetween
      refine ⟨call name expandable (span.map f) (opening.map f) (some a') (closing.map f), rfl,
        rfl, congrArg (· + 1) hcount, fun _ _ _ id => ?_⟩
      exact .call ⟨congrArg (id + ·) hcount, hspan, rfl⟩ name (hleaves id)
  | group opening inner closing ih =>
    intro tokens h
    obtain ⟨opening', rest, hopening, hrest, rfl⟩ := List.forall₂_cons_left_iff.1 h
    obtain ⟨between, behind, rfl, hbetween, hbehind⟩ := exists_append_of_forall₂ hrest
    obtain ⟨closing', none, hclosing, hnone, rfl⟩ := List.forall₂_cons_left_iff.1 hbehind
    obtain rfl := List.forall₂_nil_left_iff.1 hnone
    obtain rfl := hopening.eq_symbol
    obtain rfl := hclosing.eq_symbol
    obtain ⟨inner', rfl, hinner⟩ := ih hbetween
    exact ⟨group (opening.map f) inner' (closing.map f), rfl, congrArg (· + 1) hinner.need,
      hinner.size, fun _ _ _ id => (hinner.tree () () trivial id).group _⟩
  | single only ih =>
    intro tokens h
    obtain ⟨only', rfl, honly⟩ := ih h
    exact ⟨single only', rfl, honly.need, honly.size, fun _ _ _ => honly.tree () () trivial⟩
  | compared left op sign right ihl ihr =>
    intro tokens h
    obtain ⟨before, rest, rfl, hbefore, hrest⟩ := exists_append_of_forall₂ h
    obtain ⟨sign', behind, hsign, hbehind, rfl⟩ := List.forall₂_cons_left_iff.1 hrest
    obtain rfl := hsign.eq_symbol
    obtain ⟨left', rfl, hleft⟩ := ihl hbefore
    obtain ⟨right', rfl, hright⟩ := ihr hbehind
    refine ⟨compared left' op (sign.map f) right', rfl, ?_, ?_, fun _ _ _ id => ?_⟩
    · rw [need, need, hleft.need, hright.need]
    · rw [size, size, hleft.size, hright.size]
    · have hl := hleft.tree () () trivial id
      have hr := hright.tree () () trivial (id + left.size)
      rw [tree, tree, hleft.size, hright.size]
      exact .comparison ⟨rfl, hcover hl hr, rfl⟩ op hl hr
  | plain inner ih =>
    intro tokens h
    obtain ⟨inner', rfl, hinner⟩ := ih h
    exact ⟨plain inner', rfl, hinner.need, hinner.size, fun _ _ _ => hinner.tree () () trivial⟩
  | negated sign inner ih =>
    intro tokens h
    obtain ⟨sign', rest, hsign, hrest, rfl⟩ := List.forall₂_cons_left_iff.1 h
    obtain rfl := hsign.eq_symbol
    obtain ⟨inner', rfl, hinner⟩ := ih hrest
    refine ⟨negated (sign.map f) inner', rfl, congrArg (· + 1) hinner.need,
      congrArg (· + 1) hinner.size, fun _ _ _ id => ?_⟩
    have htree := hinner.tree () () trivial id
    rw [tree, tree, hinner.size]
    refine .not ⟨rfl, ?_, rfl⟩ htree
    show (sign.map f).cover (Expr.span _) = _
    rw [Expr.span, htree.mark.span, Span.map_cover hf]
    rfl
  | conjunct inner ih =>
    intro tokens h
    obtain ⟨inner', rfl, hinner⟩ := ih h
    exact ⟨conjunct inner', rfl, hinner.need, hinner.size, fun _ _ _ => hinner.tree () () trivial⟩
  | disjunct inner ih =>
    intro tokens h
    obtain ⟨inner', rfl, hinner⟩ := ih h
    exact ⟨disjunct inner', rfl, hinner.need, hinner.size, fun _ _ _ => hinner.tree () () trivial⟩
  | chain first others ihf iho =>
    intro tokens h
    obtain ⟨before, behind, rfl, hbefore, hbehind⟩ := exists_append_of_forall₂ h
    obtain ⟨first', rfl, hfirst⟩ := ihf hbefore
    obtain ⟨others', rfl, hothers⟩ := iho hbehind
    refine ⟨chain first' others', rfl, ?_, ?_, fun _ _ _ id => ?_⟩
    · rw [need, need, hfirst.need, hothers.need]
    · rw [size, size, hfirst.size, hothers.size]
    · rw [tree, tree, hfirst.size]
      exact hothers.tree _ _ (hfirst.tree () () trivial id) (id + first.size)
  | done =>
    intro tokens h
    obtain rfl := List.forall₂_nil_left_iff.1 h
    exact ⟨done, rfl, rfl, rfl, fun _ _ hleft _ => hleft⟩
  | more op word next others ihn iho =>
    intro tokens h
    obtain ⟨word', rest, hword, hrest, rfl⟩ := List.forall₂_cons_left_iff.1 h
    obtain ⟨between, behind, rfl, hbetween, hbehind⟩ := exists_append_of_forall₂ hrest
    obtain rfl := hword.eq_symbol
    obtain ⟨next', rfl, hnext⟩ := ihn hbetween
    obtain ⟨others', rfl, hothers⟩ := iho hbehind
    refine ⟨more op (word.map f) next' others', rfl, ?_, ?_, fun left left' hleft id => ?_⟩
    · rw [need, need, hnext.need, hothers.need]
    · rw [size, size, hnext.size, hothers.size]
    · have hright := hnext.tree () () trivial id
      rw [tree, tree, hnext.size]
      exact hothers.tree _ _ (.logical ⟨rfl, hcover hleft hright, rfl⟩ op hleft hright) _

end Derivation

end CondLang
