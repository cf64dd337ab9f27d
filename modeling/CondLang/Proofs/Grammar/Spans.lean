import CondLang.Proofs.Grammar

/-!
# The spans of phrases

If the tokens of a phrase lie one behind the other, the span of its tree reaches from the start of
the first token to the end of the last (`Derivation.covers_span_tree`): groups with their
parentheses, negations with their sign, calls with their name.  So nothing that belongs to the
phrase lies outside the span, and nothing else inside it.
-/

namespace CondLang

/-- Tokens that lie one behind the other. -/
structure Token.Ordered (tokens : List Token) : Prop where
  pairwise : tokens.Pairwise fun a b => a.span.stop ≤ b.span.start
  start_le : ∀ t ∈ tokens, t.span.start ≤ t.span.stop

theorem Token.Ordered.sublist {tokens others : List Token} (h : Token.Ordered others)
    (hsub : tokens.Sublist others) : Token.Ordered tokens :=
  ⟨h.pairwise.sublist hsub, fun t ht => h.start_le t (hsub.subset ht)⟩

/-- A span reaches from the start of the first token to the end of the last. -/
structure Span.Covers (span : Span) (tokens : List Token) : Prop where
  first : ∃ t ∈ tokens.head?, t.span.start = span.start
  last : ∃ t ∈ tokens.getLast?, t.span.stop = span.stop

namespace Span.Covers

variable {a b : Span} {xs ys : List Token}

theorem singleton (token : Token) : token.span.Covers [token] :=
  ⟨⟨token, rfl, rfl⟩, ⟨token, rfl, rfl⟩⟩

/-- What reaches from the first tokens to the last ones covers all tokens between. -/
theorem append (ha : a.Covers xs) (hb : b.Covers ys) (mid : List Token) :
    Span.Covers ⟨a.start, b.stop⟩ (xs ++ (mid ++ ys)) := by
  obtain ⟨x, hx, hstart⟩ := ha.first
  obtain ⟨y, hy, hstop⟩ := hb.last
  rw [Option.mem_def] at hx hy
  exact ⟨⟨x, by simp [hx], hstart⟩, ⟨y, by simp [List.getLast?_append, hy], hstop⟩⟩

/-- The smallest span around two spans, one behind the other, covers all tokens between them. -/
theorem cover (ha : a.Covers xs) (hb : b.Covers ys) (mid : List Token)
    (h : Token.Ordered (xs ++ (mid ++ ys))) : (a.cover b).Covers (xs ++ (mid ++ ys)) := by
  have hbetween : ∀ x ∈ xs, ∀ y ∈ ys, x.span.stop ≤ y.span.start := fun x hx y hy =>
    (List.pairwise_append.1 h.pairwise).2.2 x hx y (List.mem_append_right _ hy)
  have hstarts : a.start ≤ b.start := by
    obtain ⟨x, hx, hxa⟩ := ha.first
    obtain ⟨y, hy, hyb⟩ := hb.first
    have hle := h.start_le x (List.mem_append_left _ (List.mem_of_mem_head? hx))
    have hgap := hbetween x (List.mem_of_mem_head? hx) y (List.mem_of_mem_head? hy)
    omega
  have hstops : a.stop ≤ b.stop := by
    obtain ⟨x, hx, hxa⟩ := ha.last
    obtain ⟨y, hy, hyb⟩ := hb.last
    have hmem := List.mem_of_mem_getLast? hy
    have hle := h.start_le y (List.mem_append_right _ (List.mem_append_right _ hmem))
    have hgap := hbetween x (List.mem_of_mem_getLast? hx) y hmem
    omega
  rw [Span.cover, Nat.min_eq_left hstarts, Nat.max_eq_right hstops]
  exact ha.append hb mid

end Span.Covers

namespace Derivation

/-- The tokens `before` a phrase are those of what stands to its left. -/
def Follows : (c : Category) → c.Left → List Token → Prop
  | .others _, left, before => left.span.Covers before
  | .primary, _, before | .comparison, _, before | .unary, _, before | .operand _, _, before
  | .chain _, _, before => before = []

/-- The tree of a phrase covers the tokens of the phrase and of what stands to its left. -/
theorem covers_span_tree {c : Category} (d : Derivation c) :
    ∀ (left : c.Left) (id : Nat) (before : List Token), Follows c left before →
      Token.Ordered (before ++ d.yield) → (d.tree left id).span.Covers (before ++ d.yield) := by
  induction d with
  | leaf token =>
    rintro _ id _ rfl _
    exact .singleton token.token
  | call name expandable span opening arguments closing =>
    rintro _ id _ rfl hordered
    exact Span.Covers.cover (.singleton ⟨.text .function name expandable, span⟩)
      (.singleton ⟨.symbol .rightParen, closing⟩) (_ :: _) hordered
  | group opening inner closing ih =>
    rintro _ id _ rfl _
    rw [tree, Expr.span, Expr.group, Expr.mark_withMark]
    exact Span.Covers.append (.singleton ⟨.symbol .leftParen, opening⟩)
      (.singleton ⟨.symbol .rightParen, closing⟩) inner.yield
  | single only ih => exact fun _ id before => ih () id before
  | compared left op sign right ihl ihr =>
    rintro _ id _ rfl hordered
    have hsuffix : right.yield <:+ (compared left op sign right).yield :=
      (List.suffix_cons _ _).trans (List.suffix_append _ _)
    have hleft := ihl () id [] rfl (hordered.sublist (List.sublist_append_left _ _))
    have hright := ihr () (id + left.size) [] rfl (hordered.sublist hsuffix.sublist)
    exact hleft.cover hright [⟨.symbol (.relation op), sign⟩] hordered
  | plain inner ih => exact fun _ id before => ih () id before
  | negated sign inner ih =>
    rintro _ id _ rfl hordered
    have hinner := ih () id [] rfl (hordered.sublist (List.sublist_cons_self _ _))
    exact Span.Covers.cover (.singleton ⟨.symbol .not, sign⟩) hinner [] hordered
  | conjunct inner ih => exact fun _ id before => ih () id before
  | disjunct inner ih => exact fun _ id before => ih () id before
  | chain first others ihf iho =>
    rintro _ id _ rfl hordered
    have hfirst := ihf () id [] rfl (hordered.sublist (List.sublist_append_left _ _))
    exact iho _ (id + first.size) first.yield hfirst hordered
  | done =>
    intro left id before hbefore _
    rw [yield, List.append_nil]
    exact hbefore
  | more op word next others ihn iho =>
    intro left id before hbefore hordered
    have hassoc : before ++ (more op word next others).yield =
        (before ++ ⟨.symbol (.connective op), word⟩ :: next.yield) ++ others.yield := by
      simp [yield]
    rw [hassoc] at hordered ⊢
    have hchain := hordered.sublist (List.sublist_append_left _ _)
    have hsuffix : next.yield <:+ before ++ ⟨.symbol (.connective op), word⟩ :: next.yield :=
      (List.suffix_cons _ _).trans (List.suffix_append _ _)
    have hnext := ihn () id [] rfl (hchain.sublist hsuffix.sublist)
    have hleft := Span.Covers.cover hbefore hnext [⟨.symbol (.connective op), word⟩] hchain
    exact iho _ (id + next.size + 1) _ hleft hordered

/-- The tree of an expression covers its tokens. -/
theorem covers_span_expression {d : Derivation .expression} (h : Token.Ordered d.yield) (id : Nat) :
    (d.tree () id).span.Covers d.yield :=
  d.covers_span_tree () id [] rfl h

/-! ## The last token -/

theorem mem_getLast?_append {token : Token} {xs ys : List Token}
    (h : token ∈ (xs ++ ys).getLast?) : token ∈ xs.getLast? ∨ token ∈ ys.getLast? := by
  rw [List.getLast?_append, Option.mem_def, Option.or_eq_some_iff] at h
  exact h.symm.imp And.right id

theorem mem_getLast?_cons {token x : Token} {ys : List Token}
    (h : token ∈ (x :: ys).getLast?) : token = x ∨ token ∈ ys.getLast? := by
  have happend : token ∈ ([x] ++ ys).getLast? := h
  refine (mem_getLast?_append happend).imp_left fun hx => ?_
  simpa [eq_comm] using hx

theorem kind_symbol_ne_function (s : Symbol) :
    (Lexeme.symbol s).kind ≠ .text .function := by
  simp [Lexeme.kind]

/-- No phrase ends with the name of a function. -/
theorem kind_getLast?_ne_function {c : Category} (d : Derivation c) :
    ∀ token ∈ d.yield.getLast?, token.lexeme.kind ≠ .text .function := by
  induction d with
  | leaf token =>
    intro t ht hfunction
    obtain rfl : t = token.token := by simpa [yield, eq_comm] using ht
    cases hlexeme : token.token.lexeme with
    | symbol s => exact token.lexeme_ne_symbol s hlexeme
    | text kind content expandable =>
      rw [hlexeme] at hfunction
      cases hfunction
      exact token.lexeme_ne_function content expandable hlexeme
  | call name expandable span opening arguments closing =>
    intro t ht
    have hclosing : t = ⟨.symbol .rightParen, closing⟩ := by
      simpa [yield, List.getLast?_cons, eq_comm] using ht
    rw [hclosing]
    exact kind_symbol_ne_function _
  | group opening inner closing ih =>
    intro t ht
    have hclosing : t = ⟨.symbol .rightParen, closing⟩ := by
      simpa [yield, List.getLast?_cons, eq_comm] using ht
    rw [hclosing]
    exact kind_symbol_ne_function _
  | single only ih => exact ih
  | compared left op sign right ihl ihr =>
    intro t ht
    rcases mem_getLast?_append ht with hleft | hright
    · exact ihl t hleft
    · rcases mem_getLast?_cons hright with rfl | hright
      · exact kind_symbol_ne_function _
      · exact ihr t hright
  | plain inner ih => exact ih
  | negated sign inner ih =>
    intro t ht
    rcases mem_getLast?_cons ht with rfl | hinner
    · exact kind_symbol_ne_function _
    · exact ih t hinner
  | conjunct inner ih => exact ih
  | disjunct inner ih => exact ih
  | chain first others ihf iho =>
    exact fun t ht => (mem_getLast?_append ht).elim (ihf t) (iho t)
  | done => exact fun t ht => absurd ht (Option.not_mem_none t)
  | more op word next others ihn iho =>
    intro t ht
    rcases mem_getLast?_cons ht with rfl | hbehind
    · exact kind_symbol_ne_function _
    · exact (mem_getLast?_append hbehind).elim (ihn t) (iho t)

end Derivation

end CondLang
