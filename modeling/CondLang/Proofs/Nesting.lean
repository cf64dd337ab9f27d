import CondLang.Proofs.Grammar.Depth
import CondLang.Proofs.Parser.Exact

/-!
# How high the trees of conditions are

The levels that the parser counts are not the height of its trees: the operators of a chain are
charged to the operands behind them, while it is the first operand that they put deeper.  So an
accepted condition may be higher than `maxNesting`, though not higher than its square, `maxNesting`
and one more.
-/

namespace CondLang.Condition

/-- A condition that is nested one level deeper than the limit: its negations take all levels, and
its connective puts them one level deeper. -/
def overNested : String := String.ofList (List.replicate maxNesting '!') ++ "a or a"

theorem height_overNested : ∃ condition,
    parse overNested .everything = .ok condition ∧ condition.root.height = maxNesting + 1 := by
  have hheight : (parse overNested .everything).toOption.map (·.root.height) =
      some (maxNesting + 1) := by decide +kernel
  cases hparse : parse overNested .everything with
  | error e =>
    rw [hparse] at hheight
    cases hheight
  | ok condition =>
    rw [hparse] at hheight
    exact ⟨condition, rfl, Option.some.inj hheight⟩

/-- The limit is no bound on the height of what is accepted. -/
theorem exists_height_gt_maxNesting : ∃ condition,
    parse overNested .everything = .ok condition ∧ maxNesting < condition.root.height := by
  obtain ⟨condition, hparse, hheight⟩ := height_overNested
  exact ⟨condition, hparse, by omega⟩

/-- The tree of an accepted condition is as high as its expression is deep, and within the limit
exactly when that is.  In a chain with `n` operators the first operand counts below all of them and
the `k`-th one behind it below all but `k`.  By the levels it takes the height is bounded by a
square only, and no smaller bound holds of expressions that take no more levels. -/
theorem height_root_of_parse {text : String} {policy : Policy} {condition : Condition}
    (hparse : parse text policy = .ok condition) :
    (∃ (d : Derivation .expression) (stop : Token), stop.is .endOfInput = true ∧
      Command.allTokens text = .ok (d.yield ++ [stop]) ∧ d.need ≤ maxNesting ∧
      condition.root.height = d.depth ∧
      (condition.root.height ≤ maxNesting ↔ d.depth ≤ maxNesting)) ∧
    (∀ (op : Connective) (first : Derivation (.operand op)) (others : Derivation (.others op))
      (n : Nat), (Derivation.chain first others).depth ≤ n ↔
        first.depth + others.operands.length ≤ n ∧
        ∀ k x, others.operands[k]? = some x → x.depth + (others.operands.length - k) ≤ n) ∧
    condition.root.height ≤ maxNesting * maxNesting + maxNesting + 1 ∧
    ∃ d : Derivation .expression, d.need = maxNesting ∧
      d.depth = maxNesting * maxNesting + maxNesting + 1 := by
  obtain ⟨d, stop, hstop, htokens, -, hneed, rfl⟩ := exists_derivation_of_parse hparse
  have hheight : (d.tree () 0).height = d.depth := d.height_tree_expression 0
  have hbound : d.depth ≤ maxNesting * maxNesting + maxNesting + 1 :=
    calc d.depth ≤ Category.expression.deepest d.need := d.depth_le_deepest
      _ ≤ Category.expression.deepest maxNesting := Category.deepest_mono _ hneed
      _ ≤ maxNesting * maxNesting + maxNesting + 1 := Category.deepest_expression _
  refine ⟨⟨d, stop, hstop, htokens, hneed, hheight, by rw [hheight]⟩,
    fun _ => Derivation.depth_chain_le_iff, ?_, Derivation.exists_depth_eq 127⟩
  rw [hheight]
  exact hbound

theorem height_root_of_parse_overNested : ∃ condition,
    parse overNested .everything = .ok condition ∧
      (∃ (d : Derivation .expression) (stop : Token), stop.is .endOfInput = true ∧
        Command.allTokens overNested = .ok (d.yield ++ [stop]) ∧ d.need ≤ maxNesting ∧
        d.depth = maxNesting + 1) ∧
      condition.root.height ≤ maxNesting * maxNesting + maxNesting + 1 := by
  obtain ⟨condition, hparse, hheight⟩ := height_overNested
  obtain ⟨⟨d, stop, hstop, htokens, hneed, hdepth, -⟩, -, hbound, -⟩ := height_root_of_parse hparse
  exact ⟨condition, hparse, ⟨d, stop, hstop, htokens, hneed, by rw [← hdepth, hheight]⟩, hbound⟩

end CondLang.Condition
