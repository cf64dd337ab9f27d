import CondLang.Proofs.Grammar

/-!
# The depth of trees

The levels that a phrase takes (`Derivation.need`) do not bound the depth of its tree.  Each
operator of a chain puts all operands to its left one level deeper, the first one deepest of all;
but its level is charged to the operands behind it, and the first operand has all levels for itself.
`Derivation.depth` charges each operand what it really lies under, and is the height of the tree.

Per nesting of groups a chain of each connective can be gained on the left, so the height may grow
with the square of the levels.  `Category.deepest` is the bound, and no smaller one holds.
-/

namespace CondLang

theorem Expr.height_group (e : Expr) (span : Span) : (e.group span).height = e.height := by
  cases e <;> rfl

namespace Derivation

/-- The height of the tree that a phrase adds.  An operand of a chain lies under its own operator
and all those behind it, the first operand under all of them. -/
def depth {c : Category} : Derivation c → Nat
  | leaf _ => 0
  | call .. => 0
  | group _ inner _ => inner.depth
  | single only => only.depth
  | compared left _ _ right => max left.depth right.depth
  | plain inner => inner.depth
  | negated _ inner => inner.depth + 1
  | conjunct inner => inner.depth
  | disjunct inner => inner.depth
  | chain first others => max (first.depth + others.operands.length) others.depth
  | done => 0
  | more _ _ next others => max (next.depth + 1 + others.operands.length) others.depth

theorem depth_others_le_iff {op : Connective} : (d : Derivation (.others op)) → (n : Nat) →
    (d.depth ≤ n ↔ ∀ k x, d.operands[k]? = some x → x.depth + (d.operands.length - k) ≤ n)
  | done, n => by simp [depth, operands]
  | more _ _ next others, n => by
    have ih := depth_others_le_iff others n
    rw [depth, operands, Nat.max_le, ih, List.length_cons]
    constructor
    · intro h k x hx
      cases k with
      | zero =>
        cases hx
        have hnext := h.1
        omega
      | succ k =>
        have hothers := h.2 k x hx
        omega
    · intro h
      refine ⟨?_, fun k x hx => ?_⟩
      · have hnext := h 0 next rfl
        omega
      · have hothers := h (k + 1) x hx
        omega

/-- In a chain with `n` operators the first operand lies under all of them, and the `k`-th one
behind it under all but `k`. -/
theorem depth_chain_le_iff {op : Connective} (first : Derivation (.operand op))
    (others : Derivation (.others op)) (n : Nat) :
    (chain first others).depth ≤ n ↔ first.depth + others.operands.length ≤ n ∧
      ∀ k x, others.operands[k]? = some x → x.depth + (others.operands.length - k) ≤ n := by
  rw [depth, Nat.max_le, depth_others_le_iff]

/-- The height of the tree of a phrase behind what stands to its left. -/
def heightBehind : {c : Category} → c.Left → Derivation c → Nat
  | .others _, left, d => max (left.height + d.operands.length) d.depth
  | .primary, _, d | .comparison, _, d | .unary, _, d | .operand _, _, d | .chain _, _, d => d.depth

theorem height_tree {c : Category} (d : Derivation c) : ∀ (left : c.Left) (id : Nat),
    (d.tree left id).height = d.heightBehind left := by
  induction d with
  | leaf token => exact fun _ _ => rfl
  | call name expandable span opening arguments closing => exact fun _ _ => rfl
  | group opening inner closing ih =>
    intro _ id
    rw [tree, Expr.height_group]
    exact ih () id
  | single only ih => exact fun _ id => ih () id
  | compared left op sign right ihl ihr =>
    intro _ id
    show max _ _ = max _ _
    rw [ihl, ihr]
    rfl
  | plain inner ih => exact fun _ id => ih () id
  | negated sign inner ih =>
    intro _ id
    show _ + 1 = _ + 1
    rw [ih]
    rfl
  | conjunct inner ih => exact fun _ id => ih () id
  | disjunct inner ih => exact fun _ id => ih () id
  | chain first others ihf iho =>
    intro _ id
    rw [tree, iho, heightBehind, ihf]
    rfl
  | done =>
    intro left _
    simp [tree, heightBehind, operands, depth]
  | more op word next others ihn iho =>
    intro left id
    have hright : (next.tree () id).height = next.depth := ihn () id
    rw [tree, iho, heightBehind, heightBehind, Expr.height, hright, operands, List.length_cons,
      depth]
    omega

/-- The height of the tree of an expression is its depth. -/
theorem height_tree_expression (d : Derivation .expression) (id : Nat) :
    (d.tree () id).height = d.depth := d.height_tree () id

end Derivation

/-! ## Bounds -/

/-- How many chains may stand one in the other at the top of a phrase. -/
def Category.chains : Category → Nat
  | primary | comparison | unary | operand .and => 0
  | chain .and | others .and | operand .or => 1
  | chain .or | others .or => 2

/-- The most depth of a unary expression that takes a number of levels. -/
def deepestUnary : Nat → Nat
  | 0 => 0
  | levels + 1 => levels * (levels + 1) + 1

/-- The most depth of a phrase that takes a number of levels. -/
def Category.deepest (c : Category) (levels : Nat) : Nat :=
  deepestUnary levels + c.chains * levels

theorem deepestUnary_add_le (levels : Nat) :
    deepestUnary levels + 2 * levels ≤ deepestUnary (levels + 1) := by
  cases levels with
  | zero => simp [deepestUnary]
  | succ levels =>
    simp only [deepestUnary, Nat.add_mul, Nat.mul_add]
    omega

theorem deepestUnary_succ_le (levels : Nat) :
    deepestUnary levels + 1 ≤ deepestUnary (levels + 1) := by
  cases levels with
  | zero => simp [deepestUnary]
  | succ levels =>
    simp only [deepestUnary, Nat.add_mul, Nat.mul_add]
    omega

theorem deepestUnary_mono {m n : Nat} (h : m ≤ n) : deepestUnary m ≤ deepestUnary n := by
  induction h with
  | refl => exact Nat.le_refl _
  | @step n _ ih => exact Nat.le_trans ih (Nat.le_of_succ_le (deepestUnary_succ_le n))

theorem Category.deepest_mono (c : Category) {m n : Nat} (h : m ≤ n) : c.deepest m ≤ c.deepest n :=
  Nat.add_le_add (deepestUnary_mono h) (Nat.mul_le_mul_left _ h)

/-- A chain with as many operators as there are levels puts its first operand under all of them. -/
theorem Category.deepest_chain (op : Connective) (levels : Nat) :
    (chain op).deepest levels = (operand op).deepest levels + levels := by
  cases op <;> simp only [deepest, chains] <;> omega

theorem Category.deepest_others (op : Connective) (levels : Nat) :
    (others op).deepest levels = (operand op).deepest levels + levels := by
  cases op <;> simp only [deepest, chains] <;> omega

theorem Category.deepest_expression (levels : Nat) :
    expression.deepest levels ≤ levels * levels + levels + 1 := by
  cases levels with
  | zero => decide
  | succ levels =>
    simp only [deepest, chains, deepestUnary, Nat.add_mul, Nat.mul_add]
    omega

namespace Derivation

/-- Each operator takes a level. -/
theorem length_operands_le_need {op : Connective} : (d : Derivation (.others op)) →
    d.operands.length ≤ d.need
  | done => by simp [operands]
  | more _ _ next others => by
    have ih := others.length_operands_le_need
    rw [operands, List.length_cons, need]
    omega

/-- The depth of a phrase is bounded by the levels that it takes. -/
theorem depth_le_deepest {c : Category} (d : Derivation c) : d.depth ≤ c.deepest d.need := by
  induction d with
  | leaf token => exact Nat.zero_le _
  | call name expandable span opening arguments closing => exact Nat.zero_le _
  | group opening inner closing ih =>
    have hlevel := deepestUnary_add_le inner.need
    show inner.depth ≤ deepestUnary (inner.need + 1) + 0 * (inner.need + 1)
    rw [Category.deepest, Category.chains] at ih
    omega
  | single only ih => exact ih
  | compared left op sign right ihl ihr =>
    refine Nat.max_le.2 ⟨?_, ?_⟩
    · exact Nat.le_trans ihl (Category.deepest_mono _ (Nat.le_max_left _ _))
    · exact Nat.le_trans ihr (Category.deepest_mono _ (Nat.le_max_right _ _))
  | plain inner ih => exact ih
  | negated sign inner ih =>
    have hlevel := deepestUnary_succ_le inner.need
    show inner.depth + 1 ≤ deepestUnary (inner.need + 1) + 0 * (inner.need + 1)
    rw [Category.deepest, Category.chains] at ih
    omega
  | conjunct inner ih => exact ih
  | disjunct inner ih => exact ih
  | @chain op first others ihf iho =>
    have hcount := others.length_operands_le_need
    have hfirst := Category.deepest_mono (.operand op) (Nat.le_max_left first.need others.need)
    have hothers := Category.deepest_mono (.others op) (Nat.le_max_right first.need others.need)
    rw [Category.deepest_others _ (max _ _)] at hothers
    rw [depth, need, Category.deepest_chain]
    omega
  | done => exact Nat.zero_le _
  | more op word next others ihn iho =>
    have hcount := others.length_operands_le_need
    have hnext := Category.deepest_mono (.operand op) (Nat.le_max_left next.need others.need)
    have hothers := Category.deepest_mono (.others op) (Nat.le_max_right next.need others.need)
    have hlevel := Category.deepest_mono (.operand op)
      (Nat.le_add_right (max next.need others.need) 1)
    rw [Category.deepest_others _ (max _ _)] at hothers
    rw [depth, need, Category.deepest_others]
    omega

/-! ## The bound is reached -/

/-- A chain whose operands but the first are all the same. -/
def repeated {op : Connective} (next : Derivation (.operand op)) :
    Nat → Derivation (.others op)
  | 0 => .done
  | count + 1 => .more op default next (repeated next count)

theorem length_operands_repeated {op : Connective} (next : Derivation (.operand op)) (count : Nat) :
    (repeated next count).operands.length = count := by
  induction count with
  | zero => simp [repeated, operands]
  | succ count ih => simp [repeated, operands, ih]

/-- Operands that take no level take one for each operator. -/
theorem need_repeated {op : Connective} {next : Derivation (.operand op)} (hnext : next.need = 0)
    (count : Nat) : (repeated next count).need = count := by
  induction count with
  | zero => simp [repeated, need]
  | succ count ih => simp [repeated, need, ih, hnext]

theorem depth_repeated {op : Connective} {next : Derivation (.operand op)} (hnext : next.depth = 0)
    (count : Nat) : (repeated next count).depth = count := by
  induction count with
  | zero => simp [repeated, depth]
  | succ count ih =>
    rw [repeated, depth, hnext, ih, length_operands_repeated]
    omega

/-- A literal, which takes no level. -/
def atom : Derivation .unary :=
  let token : Token := ⟨.text .string "a" false, default⟩
  .plain (.single (.leaf ⟨token, .string "a" false, .string "a" false⟩))

/-- A phrase in front of as many disjunctions, and before them conjunctions, as there are levels. -/
def chained (first : Derivation .unary) (levels : Nat) : Derivation .expression :=
  .chain (.disjunct (.chain (.conjunct first) (repeated (.conjunct atom) levels)))
    (repeated (.disjunct (.chain (.conjunct atom) .done)) levels)

theorem need_chained (first : Derivation .unary) (levels : Nat) :
    (chained first levels).need = max first.need levels := by
  have hand := need_repeated (show (Derivation.conjunct atom).need = 0 from rfl) levels
  have hatom : (Derivation.disjunct (.chain (.conjunct atom) .done)).need = 0 := rfl
  have hor := need_repeated hatom levels
  rw [chained, need, need, need, need, hand, hor]
  omega

theorem depth_chained (first : Derivation .unary) (levels : Nat) :
    (chained first levels).depth = first.depth + 2 * levels := by
  have hatom : (Derivation.disjunct (.chain (.conjunct atom) .done)).depth = 0 := by
    simp [depth, atom, operands]
  have hand := depth_repeated (show (Derivation.conjunct atom).depth = 0 from rfl) levels
  have hor := depth_repeated hatom levels
  rw [chained, depth, depth, depth, depth, hand, hor, length_operands_repeated,
    length_operands_repeated]
  omega

/-- An expression that is as deep as its levels let it be: each level but the last is spent on a
group in front of chains of both connectives. -/
theorem exists_depth_eq (levels : Nat) : ∃ d : Derivation .expression,
    d.need = levels + 1 ∧ d.depth = (levels + 1) * (levels + 1) + (levels + 1) + 1 := by
  induction levels with
  | zero =>
    refine ⟨chained (.negated default atom) 1, ?_, ?_⟩
    · rw [need_chained]
      rfl
    · rw [depth_chained]
      rfl
  | succ levels ih =>
    obtain ⟨d, hneed, hdepth⟩ := ih
    refine ⟨chained (.plain (.single (.group default d default))) (levels + 2), ?_, ?_⟩
    · rw [need_chained, need, need, need, hneed, Nat.max_self]
    · rw [depth_chained, depth, depth, depth, hdepth]
      simp only [Nat.add_mul, Nat.mul_add]
      omega

end Derivation

end CondLang
