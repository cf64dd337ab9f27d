import CondLang.Expr
import Mathlib.Data.List.Forall2

/-!
# Trees of the same shape

Two trees are twins if they have the same shape and the same texts in their leaves.  The marks of
their nodes may differ in a way that is given: the numbers, where the nodes stand, and in which
condition.  And where one tree has a reference, the other one may have a string that holds the same
text.
-/

namespace CondLang

/-- Two leaves hold the same text, which is expanded in both or in neither. -/
inductive Leaf.Alike : Leaf → Leaf → Prop
  | same (leaf : Leaf) : Alike leaf leaf
  | quoted (kind : ReferenceKind) (text : String) : Alike (.reference kind text) (.string text true)

namespace Leaf.Alike

variable {leaf leaf' : Leaf}

theorem text (h : leaf.Alike leaf') : leaf.text = leaf'.text := by cases h <;> rfl

theorem expandable (h : leaf.Alike leaf') : leaf.expandable = leaf'.expandable := by
  cases h <;> rfl

end Leaf.Alike

/-- Two leaves of trees are alike, and their marks are in a given relation. -/
structure LeafNode.Twins (marks : Mark → Mark → Prop) (node node' : LeafNode) : Prop where
  mark : marks node.mark node'.mark
  leaf : node.leaf.Alike node'.leaf

/-- Two trees have the same shape and operators, leaves that are alike, and marks that are in a
given relation. -/
inductive Expr.Twins (marks : Mark → Mark → Prop) : Expr → Expr → Prop
  | leaf {node node' : LeafNode} (h : node.Twins marks node') :
      Twins marks (.leaf node) (.leaf node')
  | call {mark mark' : Mark} (hmark : marks mark mark') (name : String)
      {arguments arguments' : List LeafNode}
      (harguments : List.Forall₂ (LeafNode.Twins marks) arguments arguments') :
      Twins marks (.call mark name arguments) (.call mark' name arguments')
  | not {mark mark' : Mark} (hmark : marks mark mark') {operand operand' : Expr}
      (h : Twins marks operand operand') : Twins marks (.not mark operand) (.not mark' operand')
  | logical {mark mark' : Mark} (hmark : marks mark mark') (op : Connective)
      {left left' right right' : Expr} (hleft : Twins marks left left')
      (hright : Twins marks right right') :
      Twins marks (.logical mark op left right) (.logical mark' op left' right')
  | comparison {mark mark' : Mark} (hmark : marks mark mark') (op : Relation)
      {left left' right right' : Expr} (hleft : Twins marks left left')
      (hright : Twins marks right right') :
      Twins marks (.comparison mark op left right) (.comparison mark' op left' right')

namespace Expr.Twins

variable {marks marks' : Mark → Mark → Prop} {e e' : Expr}

theorem mono (hle : ∀ mark mark', marks mark mark' → marks' mark mark') (h : e.Twins marks e') :
    e.Twins marks' e' := by
  have hleaf : ∀ {node node' : LeafNode}, node.Twins marks node' → node.Twins marks' node' :=
    fun h => ⟨hle _ _ h.mark, h.leaf⟩
  induction h with
  | leaf h => exact .leaf (hleaf h)
  | call hmark name harguments =>
    exact .call (hle _ _ hmark) name (harguments.imp fun _ _ => hleaf)
  | not hmark _ ih => exact .not (hle _ _ hmark) ih
  | logical hmark op _ _ ihl ihr => exact .logical (hle _ _ hmark) op ihl ihr
  | comparison hmark op _ _ ihl ihr => exact .comparison (hle _ _ hmark) op ihl ihr

theorem mark (h : e.Twins marks e') : marks e.mark e'.mark := by
  cases h with
  | leaf h => exact h.mark
  | call hmark | not hmark | logical hmark | comparison hmark => exact hmark

theorem withMark (h : e.Twins marks e') {mark mark' : Mark} (hmark : marks mark mark') :
    (e.withMark mark).Twins marks (e'.withMark mark') := by
  cases h with
  | leaf h => exact .leaf ⟨hmark, h.leaf⟩
  | call _ name harguments => exact .call hmark name harguments
  | not _ h => exact .not hmark h
  | logical _ op hleft hright => exact .logical hmark op hleft hright
  | comparison _ op hleft hright => exact .comparison hmark op hleft hright

end Expr.Twins

end CondLang
