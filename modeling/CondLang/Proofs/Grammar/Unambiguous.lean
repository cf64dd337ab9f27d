import CondLang.Proofs.Grammar

/-!
# The grammar is unambiguous

Two phrases of the same category that start the same sequence of tokens, each followed by something
that cannot belong to it, are the same phrase (`Derivation.yield_append_inj`).  The proof follows
the phrase from left to right: at each place the token that comes next tells which way the grammar
goes.
-/

namespace CondLang

theorem LeafToken.ext_token {a b : LeafToken} (h : a.token = b.token) : a = b := by
  cases a with
  | mk token leaf hleaf =>
    cases b with
    | mk token' leaf' hleaf' =>
      cases h
      cases hleaf.unique hleaf'
      rfl

theorem LeafToken.ne_symbol (t : LeafToken) (s : Symbol) (span : Span) :
    t.token ≠ ⟨.symbol s, span⟩ :=
  fun h => t.lexeme_ne_symbol s (by rw [h])

theorem LeafToken.ne_function (t : LeafToken) (name : String) (e : Bool) (span : Span) :
    t.token ≠ ⟨.text .function name e, span⟩ :=
  fun h => t.lexeme_ne_function name e (by rw [h])

theorem Arguments.yield_append_inj (a b : Arguments) {rest rest' : List Token}
    (h : a.yield ++ rest = b.yield ++ rest')
    (hrest : ∀ span, rest.head? ≠ some ⟨.symbol .comma, span⟩)
    (hrest' : ∀ span, rest'.head? ≠ some ⟨.symbol .comma, span⟩) :
    a = b ∧ rest = rest' := by
  induction a generalizing b with
  | last argument =>
    cases b with
    | last argument' =>
      simp only [yield, List.cons_append, List.nil_append, List.cons.injEq] at h
      exact ⟨by rw [LeafToken.ext_token h.1], h.2⟩
    | more argument' comma others =>
      simp only [yield, List.cons_append, List.nil_append, List.cons.injEq] at h
      exact absurd (by rw [h.2]; rfl) (hrest comma)
  | more argument comma others ih =>
    cases b with
    | last argument' =>
      simp only [yield, List.cons_append, List.nil_append, List.cons.injEq] at h
      exact absurd (by rw [← h.2]; rfl) (hrest' comma)
    | more argument' comma' others' =>
      simp only [yield, List.cons_append, List.cons.injEq, Token.mk.injEq, true_and] at h
      obtain ⟨htoken, hcomma, hothers⟩ := h
      obtain ⟨rfl, hrests⟩ := ih others' hothers
      exact ⟨by rw [LeafToken.ext_token htoken, hcomma], hrests⟩

/-- Arguments, if any, are told from the parenthesis that closes them. -/
theorem Arguments.closed_inj (a b : Option Arguments) {closing closing' : Span}
    {rest rest' : List Token}
    (h : a.elim [] yield ++ ⟨.symbol .rightParen, closing⟩ :: rest =
      b.elim [] yield ++ ⟨.symbol .rightParen, closing'⟩ :: rest') :
    a = b ∧ closing = closing' ∧ rest = rest' := by
  cases a with
  | none =>
    cases b with
    | none => simpa using h
    | some b =>
      obtain ⟨argument, tail, hb⟩ := b.yield_eq_cons
      simp only [Option.elim, hb, List.nil_append, List.cons_append, List.cons.injEq] at h
      exact absurd h.1.symm (argument.ne_symbol _ _)
  | some a =>
    cases b with
    | none =>
      obtain ⟨argument, tail, ha⟩ := a.yield_eq_cons
      simp only [Option.elim, ha, List.nil_append, List.cons_append, List.cons.injEq] at h
      exact absurd h.1 (argument.ne_symbol _ _)
    | some b =>
      obtain ⟨rfl, hrests⟩ := yield_append_inj a b h (by simp) (by simp)
      simpa using hrests

namespace Derivation

/-- A primary does not start with a negation. -/
theorem head_primary (d : Derivation .primary) (span : Span) (rest rest' : List Token) :
    d.yield ++ rest ≠ ⟨.symbol .not, span⟩ :: rest' := by
  intro h
  cases d with
  | leaf token =>
    simp only [yield, List.cons_append, List.cons.injEq] at h
    exact token.ne_symbol _ _ h.1
  | call => simp [yield] at h
  | group => simp [yield] at h

theorem head_comparison (d : Derivation .comparison) (span : Span) (rest rest' : List Token) :
    d.yield ++ rest ≠ ⟨.symbol .not, span⟩ :: rest' := by
  cases d with
  | single only => exact head_primary only span rest rest'
  | compared left op sign right =>
    rw [yield, List.append_assoc]
    exact head_primary left span _ rest'

/-- The tokens of a phrase can be read in one way only, wherever the phrase must end. -/
theorem yield_append_inj {c : Category} (d : Derivation c) : ∀ (e : Derivation c)
    {rest rest' : List Token}, d.yield ++ rest = e.yield ++ rest' → c.EndsBefore rest →
      c.EndsBefore rest' → d = e ∧ rest = rest' := by
  induction d with
  | leaf token =>
    intro e rest rest' h _ _
    cases e with
    | leaf token' =>
      simp only [yield, List.cons_append, List.nil_append, List.cons.injEq] at h
      exact ⟨by rw [LeafToken.ext_token h.1], h.2⟩
    | call =>
      simp only [yield, List.cons_append, List.cons.injEq] at h
      exact absurd h.1 (token.ne_function _ _ _)
    | group =>
      simp only [yield, List.cons_append, List.cons.injEq] at h
      exact absurd h.1 (token.ne_symbol _ _)
  | call name expandable span opening arguments closing =>
    intro e rest rest' h _ _
    cases e with
    | leaf token =>
      simp only [yield, List.cons_append, List.cons.injEq] at h
      exact absurd h.1.symm (token.ne_function _ _ _)
    | call name' expandable' span' opening' arguments' closing' =>
      simp only [yield, List.cons_append, List.append_assoc, List.nil_append, List.cons.injEq,
        Token.mk.injEq, Lexeme.text.injEq, true_and] at h
      obtain ⟨⟨⟨rfl, rfl⟩, rfl⟩, rfl, harguments⟩ := h
      obtain ⟨rfl, rfl, hrests⟩ := Arguments.closed_inj arguments arguments' harguments
      exact ⟨rfl, hrests⟩
    | group => simp [yield] at h
  | group opening inner closing ih =>
    intro e rest rest' h _ _
    cases e with
    | leaf token =>
      simp only [yield, List.cons_append, List.cons.injEq] at h
      exact absurd h.1.symm (token.ne_symbol _ _)
    | call => simp [yield] at h
    | group opening' inner' closing' =>
      simp only [yield, List.cons_append, List.append_assoc, List.nil_append, List.cons.injEq,
        Token.mk.injEq, true_and] at h
      obtain ⟨rfl, hinner⟩ := h
      obtain ⟨rfl, hrests⟩ := ih inner' hinner (.cons rfl) (.cons rfl)
      simp only [List.cons.injEq, Token.mk.injEq, true_and] at hrests
      obtain ⟨rfl, rfl⟩ := hrests
      exact ⟨rfl, rfl⟩
  | single only ih =>
    intro e rest rest' h hrest hrest'
    cases e with
    | single only' =>
      obtain ⟨rfl, hrests⟩ := ih only' h (.primary _) (.primary _)
      exact ⟨rfl, hrests⟩
    | compared left op sign right =>
      rw [yield, yield, List.append_assoc] at h
      obtain ⟨rfl, rfl⟩ := ih left h (.primary _) (.primary _)
      cases hrest _ rfl
  | compared left op sign right ihl ihr =>
    intro e rest rest' h hrest hrest'
    cases e with
    | single only =>
      rw [yield, yield, List.append_assoc] at h
      obtain ⟨rfl, rfl⟩ := ihl only h (.primary _) (.primary _)
      cases hrest' _ rfl
    | compared left' op' sign' right' =>
      rw [yield, yield, List.append_assoc, List.append_assoc] at h
      obtain ⟨rfl, hrests⟩ := ihl left' h (.primary _) (.primary _)
      simp only [List.cons_append, List.cons.injEq, Token.mk.injEq, Lexeme.symbol.injEq,
        Symbol.relation.injEq] at hrests
      obtain ⟨⟨rfl, rfl⟩, hright⟩ := hrests
      obtain ⟨rfl, hrests⟩ := ihr right' hright (.primary _) (.primary _)
      exact ⟨rfl, hrests⟩
  | plain inner ih =>
    intro e rest rest' h hrest hrest'
    cases e with
    | plain inner' =>
      obtain ⟨rfl, hrests⟩ := ih inner' h hrest.comparison hrest'.comparison
      exact ⟨rfl, hrests⟩
    | negated sign inner' => exact absurd h (head_comparison inner sign _ _)
  | negated sign inner ih =>
    intro e rest rest' h hrest hrest'
    cases e with
    | plain inner' => exact absurd h.symm (head_comparison inner' sign _ _)
    | negated sign' inner' =>
      simp only [yield, List.cons_append, List.cons.injEq, Token.mk.injEq, true_and] at h
      obtain ⟨rfl, hinner⟩ := h
      obtain ⟨rfl, hrests⟩ := ih inner' hinner hrest hrest'
      exact ⟨rfl, hrests⟩
  | conjunct inner ih =>
    intro e rest rest' h hrest hrest'
    cases e with
    | conjunct inner' =>
      obtain ⟨rfl, hrests⟩ := ih inner' h hrest.unary hrest'.unary
      exact ⟨rfl, hrests⟩
  | disjunct inner ih =>
    intro e rest rest' h hrest hrest'
    cases e with
    | disjunct inner' =>
      obtain ⟨rfl, hrests⟩ := ih inner' h hrest.conjunction hrest'.conjunction
      exact ⟨rfl, hrests⟩
  | chain first others ihf iho =>
    intro e rest rest' h hrest hrest'
    cases e with
    | chain first' others' =>
      rw [yield, yield, List.append_assoc, List.append_assoc] at h
      obtain ⟨rfl, hothers⟩ := ihf first' h (endsBefore_operand others hrest.others)
        (endsBefore_operand others' hrest'.others)
      obtain ⟨rfl, hrests⟩ := iho others' hothers hrest.others hrest'.others
      exact ⟨rfl, hrests⟩
  | done =>
    intro e rest rest' h hrest hrest'
    cases e with
    | done => exact ⟨rfl, h⟩
    | more op word next others =>
      rw [yield, yield, List.nil_append, List.cons_append] at h
      subst h
      have := hrest _ rfl
      simp [Category.extendedBy, Category.joins] at this
  | more op word next others ihn iho =>
    intro e rest rest' h hrest hrest'
    cases e with
    | done =>
      rw [yield, yield, List.nil_append, List.cons_append] at h
      subst h
      have := hrest' _ rfl
      simp [Category.extendedBy, Category.joins] at this
    | more _ word' next' others' =>
      simp only [yield, List.cons_append, List.append_assoc, List.cons.injEq, Token.mk.injEq,
        true_and] at h
      obtain ⟨rfl, hnext⟩ := h
      obtain ⟨rfl, hothers⟩ := ihn next' hnext (endsBefore_operand others hrest)
        (endsBefore_operand others' hrest')
      obtain ⟨rfl, hrests⟩ := iho others' hothers hrest hrest'
      exact ⟨rfl, hrests⟩

/-- No two expressions consist of the same tokens. -/
theorem eq_of_yield_eq {d e : Derivation .expression} (h : d.yield = e.yield) : d = e := by
  have hends : Category.expression.EndsBefore [] := nofun
  have hyields : d.yield ++ [] = e.yield ++ [] := by rw [h]
  exact (d.yield_append_inj e hyields hends hends).1

end Derivation

end CondLang
