import CondLang.Expr

/-!
# The leaves of a tree

The leaves of a tree are its operands and the arguments of its calls (`Expr.leaves_perm`).  The two
are told apart because an operand may be looked at any number of times in an evaluation, and a call
is made once at most.
-/

namespace CondLang

namespace Expr

/-- The leaves of a tree from left to right, those of calls included. -/
def leaves : Expr → List LeafNode
  | leaf node => [node]
  | call _ _ arguments => arguments
  | not _ operand => operand.leaves
  | logical _ _ left right => left.leaves ++ right.leaves
  | comparison _ _ left right => left.leaves ++ right.leaves

/-- The leaves of a tree outside its calls, from left to right. -/
def operands : Expr → List LeafNode
  | leaf node => [node]
  | call .. => []
  | not _ operand => operand.operands
  | logical _ _ left right => left.operands ++ right.operands
  | comparison _ _ left right => left.operands ++ right.operands

/-- The arguments of the calls of a tree from left to right. -/
def arguments : Expr → List LeafNode
  | leaf _ => []
  | call _ _ arguments => arguments
  | not _ operand => operand.arguments
  | logical _ _ left right => left.arguments ++ right.arguments
  | comparison _ _ left right => left.arguments ++ right.arguments

theorem leaves_perm (e : Expr) : e.leaves.Perm (e.operands ++ e.arguments) := by
  have happend : ∀ {left right : Expr}, left.leaves.Perm (left.operands ++ left.arguments) →
      right.leaves.Perm (right.operands ++ right.arguments) →
      (left.leaves ++ right.leaves).Perm
        (left.operands ++ right.operands ++ (left.arguments ++ right.arguments)) := by
    intro left right hleft hright
    refine (hleft.append hright).trans ?_
    rw [List.append_assoc, List.append_assoc]
    refine List.Perm.append_left _ ?_
    rw [← List.append_assoc, ← List.append_assoc]
    exact List.perm_append_comm.append_right _
  induction e with
  | leaf node => exact List.Perm.refl _
  | call mark name arguments => exact List.Perm.refl _
  | not mark operand ih => exact ih
  | logical mark op left right ihl ihr => exact happend ihl ihr
  | comparison mark op left right ihl ihr => exact happend ihl ihr

theorem leaves_subset_of_mem_nodes {e n : Expr} (h : n ∈ e.nodes) : n.leaves ⊆ e.leaves := by
  induction e with
  | leaf node =>
    rw [nodes, List.mem_singleton] at h
    rw [h]
    exact List.Subset.refl _
  | call mark name arguments =>
    rw [nodes, List.mem_cons, List.mem_map] at h
    rcases h with rfl | ⟨node, hnode, rfl⟩
    · exact List.Subset.refl _
    · intro other hother
      rw [leaves, List.mem_singleton] at hother
      rw [hother]
      exact hnode
  | not mark operand ih =>
    rw [nodes, List.mem_cons] at h
    rcases h with rfl | h
    · exact List.Subset.refl _
    · exact ih h
  | logical mark op left right ihl ihr | comparison mark op left right ihl ihr =>
    rw [nodes, List.mem_cons, List.mem_append] at h
    rcases h with rfl | h | h
    · exact List.Subset.refl _
    · exact List.subset_append_of_subset_left _ (ihl h)
    · exact List.subset_append_of_subset_right _ (ihr h)

end Expr

end CondLang
