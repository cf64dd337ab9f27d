import CondLang.Evaluation
import CondLang.Proofs.Grammar.Moved
import CondLang.Proofs.Grammar.Parts
import CondLang.Proofs.Grammar.Spans
import CondLang.Proofs.Lexing.Slices
import CondLang.Proofs.Parser.Exact

/-!
# The text of a node

What an accepted condition holds under the span of a node is itself a condition, and its tree is
the node (`Condition.parse_slice`).  The node is the tree of a part of the whole expression; the
tokens of the part are read again from the slice, whatever stood around them; and tokens that are
moved make up the same expression.
-/

namespace CondLang

namespace Cursor

variable {cursor left : Cursor} {tokens : List Token}

/-- Tokens that stand together are read together. -/
theorem Takes.exists_of_isInfix {others : List Token} {source : List Char}
    (h : cursor.Takes tokens left) (hcursor : cursor.Within source)
    (htogether : others <:+: tokens) :
    ∃ first last, Cursor.Within first source ∧ Cursor.Takes first others last := by
  obtain ⟨before, behind, rfl⟩ := htogether
  obtain ⟨next, hfront, -⟩ := h.split
  obtain ⟨first, hbefore, hothers⟩ := hfront.split
  exact ⟨first, next, hbefore.within hcursor, hothers⟩

end Cursor

namespace Condition

variable {text : String} {policy : Policy} {condition : Condition} {n : Expr}

/-- An expression that is read somewhere in a text is accepted alone if it is allowed and there are
levels enough for it. -/
theorem exists_parse_of_takes {e : Derivation .expression} {first last : Cursor}
    (h : first.Takes e.yield last) (hfirst : first.Within text.toList)
    (hallowed : ∀ token ∈ e.yield, policy.violation? token.lexeme = none)
    (hneed : e.need ≤ maxNesting) (id : Nat) :
    ∃ part, parse ((e.tree () id).span.slice text) policy = .ok part ∧
      part.root.placed id (e.tree () id).span.start = e.tree () id := by
  have hspan := Derivation.covers_span_expression h.ordered id
  obtain ⟨again, stop, hstop, hagain, hmoved⟩ :=
    h.allTokens_slice hfirst hspan e.kind_getLast?_ne_function
  obtain ⟨offset, hoffset⟩ : ∃ offset, (e.tree () id).span.start = offset := ⟨_, rfl⟩
  rw [hoffset] at hmoved ⊢
  obtain ⟨e, rfl, rfl⟩ := Derivation.exists_of_map_moved hmoved
  have hallowed' : ∀ token ∈ e.yield, policy.violation? token.lexeme = none := fun token ht =>
    hallowed (token.mapSpan (Span.moved offset)) (Derivation.mem_yield_mapSpans ht)
  rw [Derivation.need_mapSpans] at hneed
  have hpart := parse_of_derivation e hstop hagain hallowed' hneed
  exact ⟨_, hpart, (e.tree_mapSpans_expression id offset).symm⟩

/-- The characters under the span of any node of an accepted condition are accepted under the same
policy, and the node is their tree: only the numbers of the nodes are counted on from another one,
and the spans from the start of the node.  These characters are what messages show for a call, a
connective or a comparison. -/
theorem parse_slice (h : parse text policy = .ok condition) (hn : n ∈ condition.root.nodes) :
    (∃ part first, parse (n.span.slice text) policy = .ok part ∧
      part.root.placed first n.span.start = n) ∧
    (n.isLeaf = false → (∀ mark operand, n ≠ .not mark operand) →
      n.unexpanded text = n.span.slice text) := by
  refine ⟨?_, ?_⟩
  · obtain ⟨d, stop, -, htokens, hallowed, hneed, rfl⟩ := exists_derivation_of_parse h
    obtain ⟨e, id, htogether, hle, rfl⟩ := Derivation.hasPart_of_mem_nodes hn
    obtain ⟨taken, left, stop', -, heq, htaken, -, -⟩ :=
      Cursor.reads_iff.1 (Command.allTokens_eq_ok_iff.1 htokens)
    obtain rfl : d.yield = taken := (List.append_inj' heq rfl).1
    obtain ⟨first, last, hfirst, htakes⟩ :=
      htaken.exists_of_isInfix (Cursor.within_ofText text) htogether
    obtain ⟨part, hpart, hplaced⟩ := exists_parse_of_takes htakes hfirst
      (fun token ht => hallowed token (htogether.subset ht)) (hle.trans hneed) id
    exact ⟨part, id, hpart, hplaced⟩
  · intro hleaf hnot
    cases n with
    | leaf node => cases hleaf
    | not mark operand => exact absurd rfl (hnot mark operand)
    | call | logical | comparison => rfl

/-- A name in parentheses and a call that is compared with nothing. -/
def comparedCallText : String := "(A)and Is(B)!=''"

/-- The comparison in `comparedCallText`. -/
def comparedCall : Expr :=
  .comparison ⟨4, ⟨7, 16⟩, false⟩ .notEqual
    (.call ⟨2, ⟨7, 12⟩, false⟩ "Is" [⟨⟨1, ⟨10, 11⟩, false⟩, .string "B" false⟩])
    (.leaf ⟨⟨3, ⟨14, 16⟩, false⟩, .string "" false⟩)

/-- The tree of `comparedCallText`. -/
def comparedCallTree : Expr :=
  .logical ⟨5, ⟨0, 16⟩, false⟩ .and (.leaf ⟨⟨0, ⟨0, 3⟩, true⟩, .string "A" false⟩) comparedCall

theorem parse_slice_comparedCall :
    parse comparedCallText .everything = .ok ⟨comparedCallText, comparedCallTree, 6⟩ ∧
      comparedCall ∈ comparedCallTree.nodes ∧
      (∃ part first, parse "Is(B)!=''" .everything = .ok part ∧
        part.root.placed first 7 = comparedCall) ∧
      comparedCall.unexpanded comparedCallText = "Is(B)!=''" := by
  have hparse : parse comparedCallText .everything =
      .ok ⟨comparedCallText, comparedCallTree, 6⟩ := by decide +kernel
  have hmem : comparedCall ∈ comparedCallTree.nodes := by
    simp [comparedCallTree, Expr.nodes]
  have hslice : comparedCall.span.slice comparedCallText = "Is(B)!=''" := by decide +kernel
  have hnot : ∀ mark operand, comparedCall ≠ .not mark operand := fun _ _ => Expr.noConfusion
  obtain ⟨hpart, htext⟩ := parse_slice hparse hmem
  rw [hslice] at hpart htext
  exact ⟨hparse, hmem, hpart, htext rfl hnot⟩

end Condition

end CondLang
