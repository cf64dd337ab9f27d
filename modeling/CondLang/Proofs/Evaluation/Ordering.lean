import CondLang.Proofs.Evaluation.Equality

/-!
# Order of leaves

Two leaves that can be expanded have one order, which all six relations follow, or no order at all,
and then no relation that needs one applies to them (`Leaf.ordering`).  They have an order just if
both are numbers or both are versions.
-/

namespace CondLang

/-! ## The order of two values -/

namespace Value

/-- Whether two texts both write a number. -/
def BothNumbers (a b : String) : Prop :=
  (Decimal.parse? a).isSome = true ∧ (Decimal.parse? b).isSome = true

/-- Whether two texts both write a version. -/
def BothVersions (a b : String) : Prop :=
  (Version.parse? a).isSome = true ∧ (Version.parse? b).isSome = true

instance (a b : String) : Decidable (BothNumbers a b) := inferInstanceAs (Decidable (_ ∧ _))

instance (a b : String) : Decidable (BothVersions a b) := inferInstanceAs (Decidable (_ ∧ _))

/-- Whether a text has a place in some order: it writes a number or a version. -/
def isOrdered (text : String) : Bool :=
  (Decimal.parse? text).isSome || (Version.parse? text).isSome

/-- The order of two texts: by number if both write one, else by version if both write one. -/
def order? (a b : String) : Option Ordering :=
  match Decimal.parse? a, Decimal.parse? b with
  | some x, some y => some (x.compare y)
  | _, _ =>
      match Version.parse? a, Version.parse? b with
      | some v, some w => some (v.compare w)
      | _, _ => none

theorem order?_swap (a b : String) : order? b a = (order? a b).map Ordering.swap := by
  unfold order?
  rcases Decimal.parse? a with _ | x <;> rcases Decimal.parse? b with _ | y
  case some.some => exact congrArg some (Decimal.compare_swap x y)
  -- The texts are not both numbers, so their versions decide.
  all_goals
    rcases Version.parse? a with _ | v <;> rcases Version.parse? b with _ | w
    case some.some => exact congrArg some (Version.compare_swap v w)
    all_goals rfl

theorem isSome_order?_iff (a b : String) :
    (order? a b).isSome = true ↔ BothNumbers a b ∨ BothVersions a b := by
  unfold order? BothNumbers BothVersions
  rcases Decimal.parse? a with _ | x <;> rcases Decimal.parse? b with _ | y <;>
    rcases Version.parse? a with _ | v <;> rcases Version.parse? b with _ | w <;> simp

end Value

namespace Relation

/-- Answers to the six relations between two values, and those between the same values exchanged,
that come from a single order: the values are in exactly one of the three positions, a relation is
the negation of its opposite, and exchanging the values exchanges the direction. -/
structure Consistent (answer exchanged : Relation → Bool) : Prop where
  trichotomy : ∃! op, op ∈ [less, equal, greater] ∧ answer op = true
  opposite : ∀ op, answer op.opposite = !answer op
  swapped : ∀ op, exchanged op.swapped = answer op

theorem consistent_test (order : Ordering) :
    Consistent (·.test order) (·.test order.swap) := by
  refine ⟨?_, fun op => test_opposite op order, fun op => test_swapped op order⟩
  refine ⟨match order with | .lt => less | .eq => equal | .gt => greater, ?_, ?_⟩
  · cases order <;> decide
  · rintro op ⟨hop, hanswer⟩
    cases order <;> cases op <;> simp_all [test]

end Relation

/-! ## Comparing two leaves -/

namespace Expr

variable {s : Setting} {op : Relation} {left right : LeafNode} {a b : String}

/-- Leaves that have an order are compared by it, and others as texts. -/
theorem compareLeavesIn_eq_order (ha : left.leaf.expandedIn s = .ok a)
    (hb : right.leaf.expandedIn s = .ok b) :
    compareLeavesIn s op (.leaf left) (.leaf right) =
      match Value.order? a b with
      | some order => .ok (op.test order)
      | none => compareTextsIn s op (.leaf left) (.leaf right) := by
  unfold compareLeavesIn compareVersionsIn Value.order?
  rw [numberIn?, Leaf.numberIn_of_expandedIn ha, numberIn?, Leaf.numberIn_of_expandedIn hb,
    versionIn?, Leaf.versionIn_of_expandedIn ha, versionIn?, Leaf.versionIn_of_expandedIn hb]
  rcases Decimal.parse? a with _ | x <;> rcases Decimal.parse? b with _ | y
  case some.some => rfl
  all_goals
    rcases Version.parse? a with _ | v <;> rcases Version.parse? b with _ | w <;> rfl

theorem isOrderedIn_of_expandedIn (ha : left.leaf.expandedIn s = .ok a) :
    isOrderedIn s (.leaf left) = .ok (Value.isOrdered a) := by
  unfold isOrderedIn Value.isOrdered
  rw [numberIn?, Leaf.numberIn_of_expandedIn ha, versionIn?, Leaf.versionIn_of_expandedIn ha]
  cases Decimal.parse? a <;> rfl

/-- Relations that need an order do not apply to texts; the left one is to blame unless it has a
place in some order. -/
theorem compareTextsIn_of_isOrdering (hop : op.isOrdering = true)
    (ha : left.leaf.expandedIn s = .ok a) (hb : right.leaf.expandedIn s = .ok b) :
    compareTextsIn s op (.leaf left) (.leaf right) =
      .error (s.failure
        (.notComparable op (if Value.isOrdered a then .right else .left) a b)) := by
  unfold compareTextsIn culpritIn
  rw [expandedIn, ha, expandedIn, hb, isOrderedIn_of_expandedIn ha]
  exact if_pos hop

end Expr

namespace Leaf

variable {s : Setting} {a b : Leaf} {text text' : String}

/-- Comparing two leaves ends in some way, whatever the marks of the nodes. -/
def Compares (s : Setting) (a : Leaf) (op : Relation) (b : Leaf)
    (outcome : Except EvalError Bool) : Prop :=
  ∀ mark left right : Mark, (a.compared op b mark left right).ids.Nodup →
    ((a.compared op b mark left right).evaluate s .empty).outcome = outcome

theorem compares_of_order {order : Ordering} (ha : a.expandedIn s = .ok text)
    (hb : b.expandedIn s = .ok text') (horder : Value.order? text text' = some order)
    (op : Relation) : Compares s a op b (.ok (op.test order)) := by
  intro mark left right hids
  rw [Expr.outcome_evaluate hids]
  refine (Expr.compareLeavesIn_eq_order ha hb).trans ?_
  rw [horder]

theorem compares_of_no_order (ha : a.expandedIn s = .ok text) (hb : b.expandedIn s = .ok text')
    (hnone : Value.order? text text' = none) {op : Relation} (hop : op.isOrdering = true) :
    Compares s a op b (.error (s.failure
      (.notComparable op (if Value.isOrdered text then .right else .left) text text'))) := by
  intro mark left right hids
  rw [Expr.outcome_evaluate hids]
  refine (Expr.compareLeavesIn_eq_order ha hb).trans ?_
  rw [hnone]
  exact Expr.compareTextsIn_of_isOrdering hop ha hb

/-- Two leaves that can be expanded are compared by one order, or cannot be compared by order.
Either both are numbers or both are versions; then all six relations between them, and all six
between them exchanged, have answers, and these come from a single order.  Or they are neither, and
then the four relations that need an order fail for them in both directions. -/
theorem ordering (ha : a.expandedIn s = .ok text) (hb : b.expandedIn s = .ok text') :
    ((Value.BothNumbers text text' ∨ Value.BothVersions text text') ∧
      ∃ answer exchanged, Relation.Consistent answer exchanged ∧
        ∀ op, Compares s a op b (.ok (answer op)) ∧ Compares s b op a (.ok (exchanged op))) ∨
    ((¬ Value.BothNumbers text text' ∧ ¬ Value.BothVersions text text') ∧
      ∀ op : Relation, op.isOrdering = true →
        Compares s a op b (.error (s.failure
          (.notComparable op (if Value.isOrdered text then .right else .left) text text'))) ∧
        Compares s b op a (.error (s.failure
          (.notComparable op (if Value.isOrdered text' then .right else .left) text' text)))) := by
  have hordered := Value.isSome_order?_iff text text'
  have hswap := Value.order?_swap text text'
  cases horder : Value.order? text text' with
  | some order =>
    rw [horder] at hordered hswap
    refine .inl ⟨hordered.1 rfl, _, _, Relation.consistent_test order, fun op => ?_⟩
    exact ⟨compares_of_order ha hb horder op, compares_of_order hb ha hswap op⟩
  | none =>
    rw [horder] at hordered hswap
    refine .inr ⟨not_or.1 fun hboth => ?_, fun op hop => ?_⟩
    · cases hordered.2 hboth
    · exact ⟨compares_of_no_order ha hb horder hop, compares_of_no_order hb ha hswap hop⟩

/-- A property that is a version and no number stands before a version that is a number as well,
while a text that is neither cannot be compared with it. -/
theorem ordering_of_versions :
    let env := Environment.constant "1.9.2"
    let s : Setting := ⟨env, "", false⟩
    (∃ answer exchanged, Relation.Consistent answer exchanged ∧
      ∀ op, Compares s (.string "$(A)" true) op (.number "1.10") (.ok (answer op)) ∧
        Compares s (.number "1.10") op (.string "$(A)" true) (.ok (exchanged op))) ∧
    Compares s (.string "$(A)" true) .less (.string "1.9-beta" false)
      (.error (s.failure (.notComparable .less .right "1.9.2" "1.9-beta"))) := by
  intro env s
  have hproperty : (Leaf.string "$(A)" true).expandedIn s = .ok "1.9.2" := by decide +kernel
  constructor
  · have hnumber : (Leaf.number "1.10").expandedIn s = .ok "1.10" := rfl
    obtain ⟨-, hanswers⟩ | ⟨⟨-, hneither⟩, -⟩ := ordering hproperty hnumber
    · exact hanswers
    · exact absurd (by decide +kernel) hneither
  · have htext : (Leaf.string "1.9-beta" false).expandedIn s = .ok "1.9-beta" := rfl
    obtain ⟨hboth, -⟩ | ⟨-, hfails⟩ := ordering hproperty htext
    · exact absurd hboth (by decide +kernel)
    · exact (hfails .less rfl).1

end Leaf

end CondLang
