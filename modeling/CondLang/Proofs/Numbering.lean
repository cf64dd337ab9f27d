import CondLang.Proofs.Parser.Exact

/-!
# The numbers of nodes

The nodes of an accepted condition are numbered without gaps in the order in which they are
finished: each after those below it, and these from left to right.  So no two nodes of a condition
have the same number.
-/

namespace CondLang

namespace Expr

/-- The tree and all trees below it, each after those below it. -/
def postorder : Expr → List Expr
  | leaf node => [leaf node]
  | call mark name arguments => arguments.map leaf ++ [call mark name arguments]
  | not mark operand => operand.postorder ++ [not mark operand]
  | logical mark op left right =>
      left.postorder ++ (right.postorder ++ [logical mark op left right])
  | comparison mark op left right =>
      left.postorder ++ (right.postorder ++ [comparison mark op left right])

/-- The numbers of a tree and all trees below it, each after those below it. -/
def ids (e : Expr) : List Nat := e.postorder.map id

theorem ids_call (mark : Mark) (name : String) (arguments : List LeafNode) :
    (call mark name arguments).ids = arguments.map (·.mark.id) ++ [mark.id] := by
  rw [ids, postorder, List.map_append, List.map_map]
  rfl

theorem ids_not (mark : Mark) (operand : Expr) :
    (not mark operand).ids = operand.ids ++ [mark.id] := by
  rw [ids, postorder, List.map_append]
  rfl

theorem ids_logical (mark : Mark) (op : Connective) (left right : Expr) :
    (logical mark op left right).ids = left.ids ++ (right.ids ++ [mark.id]) := by
  rw [ids, postorder, List.map_append, List.map_append]
  rfl

theorem ids_comparison (mark : Mark) (op : Relation) (left right : Expr) :
    (comparison mark op left right).ids = left.ids ++ (right.ids ++ [mark.id]) := by
  rw [ids, postorder, List.map_append, List.map_append]
  rfl

theorem ids_group (e : Expr) (span : Span) : (e.group span).ids = e.ids := by
  cases e <;> simp [group, withMark, ids, postorder, id, mark]

end Expr

theorem Arguments.ids_leaves (arguments : Arguments) (id : Nat) :
    (arguments.leaves id).map (·.mark.id) = List.range' id arguments.count := by
  induction arguments generalizing id with
  | last argument => rfl
  | more argument comma others ih =>
    rw [leaves, count, List.map_cons, List.range'_succ, ih]
    rfl

namespace Derivation

/-- The numbers of the tree of a phrase that starts with a given number, behind those of what stands
to its left. -/
def idsBehind : {c : Category} → c.Left → Nat → Derivation c → List Nat
  | .others _, left, id, d => left.ids ++ List.range' id d.size
  | .primary, _, id, d | .comparison, _, id, d | .unary, _, id, d | .operand _, _, id, d
  | .chain _, _, id, d => List.range' id d.size

/-- A phrase numbers its nodes one after the other. -/
theorem ids_tree {c : Category} (d : Derivation c) : ∀ (left : c.Left) (id : Nat),
    (d.tree left id).ids = d.idsBehind left id := by
  induction d with
  | leaf token => exact fun _ _ => rfl
  | call name expandable span opening arguments closing =>
    intro _ id
    have harguments : (arguments.elim [] (·.leaves id)).map (·.mark.id) =
        List.range' id (arguments.elim 0 Arguments.count) := by
      cases arguments with
      | none => rfl
      | some a => exact a.ids_leaves id
    rw [tree, Expr.ids_call, harguments]
    exact List.range'_1_concat.symm
  | group opening inner closing ih =>
    intro _ id
    rw [tree, Expr.ids_group]
    exact ih () id
  | single only ih => exact fun _ id => ih () id
  | compared left op sign right ihl ihr =>
    intro _ id
    rw [tree, Expr.ids_comparison, ihl, ihr]
    show List.range' id left.size ++ (List.range' (id + left.size) right.size ++
      [id + left.size + right.size]) = List.range' id (left.size + right.size + 1)
    rw [← List.range'_1_concat, List.range'_append_1, Nat.add_assoc]
  | plain inner ih => exact fun _ id => ih () id
  | negated sign inner ih =>
    intro _ id
    rw [tree, Expr.ids_not, ih]
    exact List.range'_1_concat.symm
  | conjunct inner ih => exact fun _ id => ih () id
  | disjunct inner ih => exact fun _ id => ih () id
  | chain first others ihf iho =>
    intro _ id
    rw [tree, iho, idsBehind, ihf]
    exact List.range'_append_1
  | done =>
    intro left id
    rw [tree, idsBehind, size, List.range'_zero, List.append_nil]
  | more op word next others ihn iho =>
    intro left id
    have hright : (next.tree () id).ids = List.range' id next.size := ihn () id
    rw [tree, iho, idsBehind, idsBehind, Expr.ids_logical, hright, List.append_assoc]
    show left.ids ++ (List.range' id next.size ++ [id + next.size] ++
      List.range' (id + next.size + 1) others.size) =
        left.ids ++ List.range' id (next.size + 1 + others.size)
    rw [← List.range'_1_concat, Nat.add_assoc id, List.range'_append_1]

end Derivation

/-- The nodes of an accepted condition are numbered in postorder from nothing on. -/
theorem Condition.ids_root {text : String} {policy : Policy} {condition : Condition}
    (hparse : parse text policy = .ok condition) :
    condition.root.ids = List.range condition.nodeCount := by
  obtain ⟨d, stop, -, -, -, -, rfl⟩ := exists_derivation_of_parse hparse
  rw [List.range_eq_range']
  exact d.ids_tree () 0

/-- No two nodes of an accepted condition have the same number. -/
theorem Condition.nodup_ids {text : String} {policy : Policy} {condition : Condition}
    (hparse : parse text policy = .ok condition) : condition.root.ids.Nodup := by
  rw [ids_root hparse]
  exact List.nodup_range

end CondLang
