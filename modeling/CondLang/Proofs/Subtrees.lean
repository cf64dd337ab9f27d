import CondLang.Proofs.Evaluation.Leaves
import CondLang.Proofs.Numbering
import Mathlib.Data.List.Nodup

/-!
# Trees within a tree

Where no two nodes have the same number, a node is known by its number (`Expr.eq_of_id_eq`), and of
two trees within a tree one lies within the other, or they have no node in common
(`Expr.nested_or_apart`).
-/

namespace CondLang

namespace Expr

variable {e m n : Expr}

theorem nodes_perm_postorder (e : Expr) : e.nodes.Perm e.postorder := by
  -- The top comes first in one order and last in the other.
  have htop : ∀ {top : Expr} {below below' : List Expr}, below.Perm below' →
      (top :: below).Perm (below' ++ [top]) := fun h =>
    (h.cons _).trans (List.perm_append_singleton _ _).symm
  have htwo : ∀ {top : Expr} {left left' right right' : List Expr}, left.Perm left' →
      right.Perm right' → (top :: (left ++ right)).Perm (left' ++ (right' ++ [top])) := by
    intro top left left' right right' hleft hright
    rw [← List.append_assoc]
    exact htop (hleft.append hright)
  induction e with
  | leaf node => exact List.Perm.refl _
  | call mark name arguments => exact htop (List.Perm.refl _)
  | not mark operand ih => exact htop ih
  | logical mark op left right ihl ihr => exact htwo ihl ihr
  | comparison mark op left right ihl ihr => exact htwo ihl ihr

theorem nodes_sublist_of_mem (h : n ∈ e.nodes) : n.nodes.Sublist e.nodes := by
  induction e with
  | leaf node =>
    obtain rfl := List.mem_singleton.1 h
    exact List.Sublist.refl _
  | call mark name arguments =>
    rw [nodes, List.mem_cons, List.mem_map] at h
    rcases h with rfl | ⟨node, hnode, rfl⟩
    · exact List.Sublist.refl _
    · exact (List.singleton_sublist.2 (List.mem_map_of_mem hnode)).cons _
  | not mark operand ih =>
    rcases List.mem_cons.1 h with rfl | h
    · exact List.Sublist.refl _
    · exact (ih h).cons _
  | logical mark op left right ihl ihr | comparison mark op left right ihl ihr =>
    rw [nodes, List.mem_cons, List.mem_append] at h
    rcases h with rfl | h | h
    · exact List.Sublist.refl _
    · exact ((ihl h).trans (List.sublist_append_left _ _)).cons _
    · exact ((ihr h).trans (List.sublist_append_right _ _)).cons _

theorem nodes_subset_of_mem (h : n ∈ e.nodes) : n.nodes ⊆ e.nodes :=
  (nodes_sublist_of_mem h).subset

theorem leaf_mem_nodes_iff {node : LeafNode} : leaf node ∈ e.nodes ↔ node ∈ e.leaves := by
  induction e with
  | leaf other => simp [nodes, leaves]
  | call mark name arguments => simp [nodes, leaves]
  | not mark operand ih => simp [nodes, leaves, ih]
  | logical mark op left right ihl ihr | comparison mark op left right ihl ihr =>
    simp [nodes, leaves, ihl, ihr]

/-! ## Nodes that are told apart by their numbers -/

theorem ids_perm_nodes (e : Expr) : (e.nodes.map id).Perm e.ids := e.nodes_perm_postorder.map id

theorem nodup_ids_of_mem (hids : e.ids.Nodup) (h : n ∈ e.nodes) : n.ids.Nodup := by
  rw [← e.ids_perm_nodes.nodup_iff] at hids
  rw [← n.ids_perm_nodes.nodup_iff]
  exact hids.sublist ((nodes_sublist_of_mem h).map _)

theorem eq_of_id_eq (hids : e.ids.Nodup) (hm : m ∈ e.nodes) (hn : n ∈ e.nodes)
    (h : m.id = n.id) : m = n :=
  List.inj_on_of_nodup_map (e.ids_perm_nodes.nodup_iff.2 hids) hm hn h

/-- Of two trees within a tree one lies within the other, or they have nothing in common. -/
theorem nested_or_apart (hids : e.ids.Nodup) (hm : m ∈ e.nodes) (hn : n ∈ e.nodes) :
    m ∈ n.nodes ∨ n ∈ m.nodes ∨ m.nodes.Disjoint n.nodes := by
  have hnodup : e.nodes.Nodup := .of_map _ (e.ids_perm_nodes.nodup_iff.2 hids)
  clear hids
  induction e with
  | leaf node =>
    obtain rfl := List.mem_singleton.1 hm
    exact .inr (.inl hn)
  | call mark name arguments =>
    rcases List.mem_cons.1 hm with rfl | hmbelow
    · exact .inr (.inl hn)
    rcases List.mem_cons.1 hn with rfl | hnbelow
    · exact .inl hm
    obtain ⟨node, -, rfl⟩ := List.mem_map.1 hmbelow
    obtain ⟨other, -, rfl⟩ := List.mem_map.1 hnbelow
    by_cases hsame : node = other
    · subst hsame
      exact .inl (self_mem_nodes _)
    · refine .inr (.inr fun k hk hk' => hsame ?_)
      obtain rfl := List.mem_singleton.1 hk
      exact leaf.inj (List.mem_singleton.1 hk')
  | not mark operand ih =>
    rcases List.mem_cons.1 hm with rfl | hmbelow
    · exact .inr (.inl hn)
    rcases List.mem_cons.1 hn with rfl | hnbelow
    · exact .inl hm
    exact ih hmbelow hnbelow (List.nodup_cons.1 hnodup).2
  | logical mark op left right ihl ihr | comparison mark op left right ihl ihr =>
    obtain ⟨-, hbelow⟩ := List.nodup_cons.1 hnodup
    obtain ⟨hleft, hright, hdisjoint⟩ := List.nodup_append'.1 hbelow
    rcases List.mem_cons.1 hm with rfl | hmbelow
    · exact .inr (.inl hn)
    rcases List.mem_cons.1 hn with rfl | hnbelow
    · exact .inl hm
    rcases List.mem_append.1 hmbelow with hm | hm <;>
      rcases List.mem_append.1 hnbelow with hn | hn
    · exact ihl hm hn hleft
    · exact .inr (.inr fun k hk hk' =>
        hdisjoint (nodes_subset_of_mem hm hk) (nodes_subset_of_mem hn hk'))
    · exact .inr (.inr fun k hk hk' =>
        hdisjoint (nodes_subset_of_mem hn hk') (nodes_subset_of_mem hm hk))
    · exact ihr hm hn hright

end Expr

end CondLang
