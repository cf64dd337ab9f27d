import CondLang.Proofs.Grammar.Unambiguous
import CondLang.Proofs.Parser.Phrase

/-!
# What is grammatical is accepted by the parser

Where the tokens of a derivation come next, behind which nothing stands that would belong to the
phrase, and no fewer levels are left than the derivation takes, the parser of its category goes over
exactly these tokens and results in its tree.

The induction is on the derivation; it is for any number of levels, since parts of a phrase are
parsed with fewer of them.
-/

namespace CondLang

open Category (EndsBefore)

theorem Category.EndsBefore.current {c : Category} {token : Token} (h : c.EndsBefore [token]) :
    c.extendedBy token.lexeme = false := h token rfl

/-- What ends a phrase behind further tokens ends it at the first of them. -/
theorem Category.EndsBefore.of_takes {c : Category} {tokens : List Token} {n : Nat} {p q : Parser}
    (htakes : p.Takes tokens n q) (h : c.EndsBefore (tokens ++ [q.current])) :
    c.EndsBefore [p.current] := by
  obtain ⟨tail, htail⟩ := htakes.append_current
  rw [htail] at h
  exact h

/-- The parser of its category accepts a phrase wherever it has to end. -/
theorem Derivation.parser_eq_ok {c : Category} (d : Derivation c) :
    ∀ {levels : Nat} {p q : Parser} (left : c.Left), d.need ≤ levels →
      p.Takes d.yield d.size q → c.EndsBefore [q.current] →
      c.parser levels left p = .ok (d.tree left p.nextId) q := by
  induction d with
  | leaf token =>
    intro levels p q _ _ htakes _
    have hleaf : (Parser.leafOf? p.current.lexeme).isSome := by
      rw [htakes.current_eq, Parser.leafOf?_eq_some_iff.2 token.denotes]
      rfl
    exact (Parser.primary_of_leaf hleaf).2 ⟨token, rfl, htakes⟩
  | call name expandable span opening arguments closing =>
    intro levels p q _ _ htakes _
    have hcurrent : p.current = ⟨.text .function name expandable, span⟩ := htakes.current_eq
    exact (Parser.primary_of_function hcurrent).2 ⟨opening, arguments, closing, _, rfl, rfl, htakes⟩
  | group opening inner closing ih =>
    intro levels p q _ hneed htakes _
    cases levels with
    | zero => exact absurd hneed (Nat.not_succ_le_zero _)
    | succ m =>
      have hcurrent : p.current = ⟨.symbol .leftParen, opening⟩ := htakes.current_eq
      obtain ⟨p₁, hopening, htakes⟩ := htakes.deeper.uncons
      obtain ⟨p₂, hinner, hclosing⟩ := htakes.split (n := 0)
      have hend : Category.expression.EndsBefore [p₂.current] := by
        rw [hclosing.current_eq]
        exact .cons rfl
      have hparsed := ih () (Nat.le_of_succ_le_succ hneed) hinner hend
      refine (Parser.primary_of_leftParen hcurrent).2 ⟨m, p₁, _, p₂, closing, q.deeper, rfl,
        hopening, hparsed, hclosing, rfl, ?_⟩
      rw [hopening.nextId_eq]
      rfl
  | single only ih =>
    intro levels p q _ hneed htakes hends
    refine Parser.comparison_eq_ok.2 ⟨_, q, ih () hneed htakes (.primary _), .inr ⟨?_, rfl, rfl⟩⟩
    intro op hop
    have hrelation := hends.current
    rw [hop] at hrelation
    cases hrelation
  | compared left op sign right ihl ihr =>
    intro levels p q _ hneed htakes _
    obtain ⟨hneed, hneed'⟩ := Nat.max_le.1 hneed
    obtain ⟨p₃, htakes, hmark⟩ := htakes.unnumbered
    obtain ⟨p₁, hleft, htakes⟩ := htakes.split
    obtain ⟨p₂, hsign, hright⟩ := htakes.uncons
    refine Parser.comparison_eq_ok.2 ⟨_, p₁, ihl () hneed hleft (.primary _), .inl ?_⟩
    refine ⟨op, sign, p₂, _, p₃, hsign, ihr () hneed' hright (.primary _), hmark, ?_⟩
    rw [hright.nextId_eq, hsign.nextId_eq, hleft.nextId_eq]
    rfl
  | plain inner ih =>
    intro levels p q _ hneed htakes hends
    refine Parser.unary_eq_ok.2 (.inr ⟨fun hnot => ?_, ih () hneed htakes hends.comparison⟩)
    obtain ⟨tail, htail⟩ := htakes.append_current
    have hcurrent : p.current = ⟨.symbol .not, p.current.span⟩ := by rw [← hnot]
    rw [hcurrent] at htail
    exact head_comparison inner _ _ _ htail
  | negated sign inner ih =>
    intro levels p q _ hneed htakes hends
    cases levels with
    | zero => exact absurd hneed (Nat.not_succ_le_zero _)
    | succ m =>
      obtain ⟨p₂, htakes, hmark⟩ := htakes.unnumbered
      obtain ⟨p₁, hsign, hinner⟩ := htakes.deeper.uncons
      have hend : Category.unary.EndsBefore [p₂.current] := EndsBefore.of_takes hmark hends
      have hparsed := ih () (Nat.le_of_succ_le_succ hneed) hinner hend
      refine Parser.unary_eq_ok.2 (.inl ⟨m, sign, p₁, _, p₂.deeper, rfl, hsign, hparsed, hmark, ?_⟩)
      rw [hinner.nextId_eq, hsign.nextId_eq]
      rfl
  | conjunct inner ih =>
    intro levels p q _ hneed htakes hends
    exact ih () hneed htakes hends.unary
  | disjunct inner ih =>
    intro levels p q _ hneed htakes hends
    exact ih () hneed htakes hends.conjunction
  | chain first others ihf iho =>
    intro levels p q _ hneed htakes hends
    obtain ⟨hneed, hneed'⟩ := Nat.max_le.1 hneed
    obtain ⟨p₁, hfirst, hothers⟩ := htakes.split
    have hend := EndsBefore.of_takes hothers (others.endsBefore_operand hends.others)
    refine Parser.chain_eq_ok.2 ⟨_, p₁, ihf () hneed hfirst hend, ?_⟩
    rw [iho _ hneed' hothers hends.others, hfirst.nextId_eq]
    rfl
  | @done op =>
    intro levels p q left _ htakes hends
    have hself : q = p := htakes.eq_self
    refine Parser.others_eq_ok.2 (.inr ⟨fun hword => ?_, rfl, hself⟩)
    have hjoins := hends.current
    rw [hself, hword] at hjoins
    simp [Category.extendedBy, Category.joins] at hjoins
  | more op word next others ihn iho =>
    intro levels p q left hneed htakes hends
    cases levels with
    | zero => exact absurd hneed (Nat.not_succ_le_zero _)
    | succ m =>
      obtain ⟨hneed, hneed'⟩ := Nat.max_le.1 (Nat.le_of_succ_le_succ hneed)
      obtain ⟨p₁, hword, htakes⟩ := htakes.deeper.uncons
      obtain ⟨p₃, htakes, hothers⟩ := htakes.split
      obtain ⟨p₂, hnext, hmark⟩ := htakes.unnumbered
      have hend : (Category.operand op).EndsBefore [p₃.current] :=
        EndsBefore.of_takes hothers (others.endsBefore_operand hends)
      have hright := ihn () hneed hnext (EndsBefore.of_takes hmark hend)
      refine Parser.others_eq_ok.2 (.inl ⟨m, word, p₁, _, p₂, p₃, q.deeper, rfl, hword, hright,
        hmark, ?_, rfl⟩)
      rw [iho _ hneed' hothers hends, hmark.nextId_eq, hnext.nextId_eq, hword.nextId_eq]
      rfl

end CondLang
