import CondLang.Operator
import CondLang.Reference.Extent
import CondLang.Span

/-!
# Conditions as trees

The leaves of a condition are strings, numbers and references; calls, negations, connectives and
comparisons join them.  The arguments of a call are leaves.  Each node bears a `Mark`: its number in
the tree, the span it was read from, and whether it stands in parentheses of its own, which the span
then includes.
-/

namespace CondLang

/-- What tells a node from the others of its tree: its number, its span, and whether it was written
in parentheses. -/
structure Mark where
  id : Nat
  span : Span
  grouped : Bool
  deriving DecidableEq, Repr, Inhabited

/-- A literal or a reference.  A string that is `expandable` may hold references or escapes; a
reference always is one. -/
inductive Leaf where
  | string (text : String) (expandable : Bool)
  | number (text : String)
  | reference (kind : ReferenceKind) (text : String)
  deriving DecidableEq, Repr, Inhabited

namespace Leaf

/-- The text a leaf stands for before it is expanded. -/
def text : Leaf → String
  | string text _ => text
  | number text => text
  | reference _ text => text

/-- Whether the text may hold references or escapes. -/
def expandable : Leaf → Bool
  | string _ expandable => expandable
  | number _ => false
  | reference _ _ => true

/-- The leaf as it is shown in a tree. -/
def shown : Leaf → String
  | string text _ => "'" ++ text ++ "'"
  | number text => text
  | reference _ text => text

end Leaf

/-- A leaf of a tree. -/
structure LeafNode where
  mark : Mark
  leaf : Leaf
  deriving DecidableEq, Repr, Inhabited

/-- A condition, or a part of one. -/
inductive Expr where
  | leaf (node : LeafNode)
  | call (mark : Mark) (name : String) (arguments : List LeafNode)
  | not (mark : Mark) (operand : Expr)
  | logical (mark : Mark) (op : Connective) (left right : Expr)
  | comparison (mark : Mark) (op : Relation) (left right : Expr)
  deriving DecidableEq, Repr, Inhabited

namespace Expr

/-- The mark of the topmost node. -/
def mark : Expr → Mark
  | leaf node => node.mark
  | call mark .. => mark
  | not mark _ => mark
  | logical mark .. => mark
  | comparison mark .. => mark

/-- The number of the topmost node. -/
def id (e : Expr) : Nat := e.mark.id

/-- The span of the whole tree. -/
def span (e : Expr) : Span := e.mark.span

/-- Whether the tree was written in parentheses. -/
def grouped (e : Expr) : Bool := e.mark.grouped

/-- The tree with another mark at its top. -/
def withMark (mark : Mark) : Expr → Expr
  | leaf node => leaf { node with mark }
  | call _ name arguments => call mark name arguments
  | not _ operand => not mark operand
  | logical _ op left right => logical mark op left right
  | comparison _ op left right => comparison mark op left right

@[simp] theorem mark_withMark (mark : Mark) (e : Expr) : (e.withMark mark).mark = mark := by
  cases e <;> rfl

/-- The tree as it stands in parentheses, which its span now includes. -/
def group (e : Expr) (span : Span) : Expr := e.withMark { e.mark with span, grouped := true }

/-- Whether the tree is a literal or a reference. -/
def isLeaf : Expr → Bool
  | leaf _ => true
  | _ => false

/-- The leaf, if the tree is one. -/
def leaf? : Expr → Option Leaf
  | leaf node => some node.leaf
  | _ => none

/-- The trees right below the top, from left to right. -/
def children : Expr → List Expr
  | leaf _ => []
  | call _ _ arguments => arguments.map leaf
  | not _ operand => [operand]
  | logical _ _ left right => [left, right]
  | comparison _ _ left right => [left, right]

/-- The tree and all trees below it, each before those below it. -/
def nodes : Expr → List Expr
  | leaf node => [leaf node]
  | call mark name arguments => call mark name arguments :: arguments.map leaf
  | not mark operand => not mark operand :: operand.nodes
  | logical mark op left right => logical mark op left right :: (left.nodes ++ right.nodes)
  | comparison mark op left right =>
      comparison mark op left right :: (left.nodes ++ right.nodes)

/-- The first tree with a given number, from the top. -/
def find? (e : Expr) (id : Nat) : Option Expr := e.nodes.find? (·.id == id)

@[simp] theorem self_mem_nodes (e : Expr) : e ∈ e.nodes := by
  cases e <;> simp [nodes]

/-- How many connectives and negations lie on the longest way down. -/
def height : Expr → Nat
  | leaf _ => 0
  | call .. => 0
  | not _ operand => operand.height + 1
  | logical _ _ left right => max left.height right.height + 1
  | comparison _ _ left right => max left.height right.height

/-- The tree in full, operators first. -/
def shown : Expr → String
  | leaf node => node.leaf.shown
  | call _ name arguments =>
      name ++ "(" ++ ", ".intercalate (arguments.map (·.leaf.shown)) ++ ")"
  | not _ operand => "(not " ++ operand.shown ++ ")"
  | logical _ op left right => "(" ++ op.symbol ++ " " ++ left.shown ++ " " ++ right.shown ++ ")"
  | comparison _ op left right =>
      "(" ++ op.symbol ++ " " ++ left.shown ++ " " ++ right.shown ++ ")"

/-! ## Mixing the connectives -/

/-- Whether a connective occurs in the tree outside the parentheses within it. -/
def mentions (wanted : Connective) : Expr → Bool
  | leaf _ => false
  | call .. => false
  | not _ operand => !operand.grouped && operand.mentions wanted
  | logical _ op left right =>
      op == wanted || (!left.grouped && left.mentions wanted) ||
        (!right.grouped && right.mentions wanted)
  | comparison _ _ left right =>
      (!left.grouped && left.mentions wanted) || (!right.grouped && right.mentions wanted)

/-- Whether both connectives occur in the tree outside the parentheses within it. -/
def mixes (e : Expr) : Bool := e.mentions .or && e.mentions .and

/-- Whether the tree, or a part of it in parentheses, mixes the connectives. -/
def mixesAnywhere (e : Expr) : Bool :=
  e.nodes.any fun node => (node.id == e.id || node.grouped) && node.mixes

end Expr

end CondLang
