import CondLang.Proofs.Evaluation.Reset
import CondLang.Proofs.Parser.Sound

/-!
# Places of nodes

A node keeps what is found out about it under its number, and whatever is asked about a tree is
written under the numbers of its own nodes (`Inquiry.writesAt_ask`).  The parser numbers nodes in
postorder and without gaps, so each node of an accepted condition has a place of its own, and there
are never more places than nodes (`Parser.expression_numbers`).
-/

namespace CondLang

/-! ## Writing -/

theorem Memo.size_modify (memo : Memo) (id : Nat) (change : NodeMemo → NodeMemo) :
    (memo.modify id change).slots.size = max memo.slots.size (id + 1) := by
  simp only [modify, reserve, Array.size_modify, Array.size_append, Array.size_replicate]
  omega

/-- One memo comes from another by writing under some numbers. -/
inductive Memo.WrittenAt (ids : List Nat) (memo : Memo) : Memo → Prop
  | refl : WrittenAt ids memo memo
  | modify {after : Memo} (h : WrittenAt ids memo after) {id : Nat} (hid : id ∈ ids)
      (change : NodeMemo → NodeMemo) : WrittenAt ids memo (after.modify id change)

namespace Memo.WrittenAt

variable {ids : List Nat} {memo after later : Memo}

theorem trans (h : memo.WrittenAt ids after) (hlater : after.WrittenAt ids later) :
    memo.WrittenAt ids later := by
  induction hlater with
  | refl => exact h
  | modify _ hid change ih => exact ih.modify hid change

/-- What is known under other numbers stays. -/
theorem get_eq (h : memo.WrittenAt ids after) {id : Nat} (hid : id ∉ ids) :
    after.get id = memo.get id := by
  induction h with
  | refl => rfl
  | modify _ hother change ih =>
    rw [get_modify, if_neg (ne_of_mem_of_not_mem hother hid), ih]

/-- A memo gets no more places than the numbers need. -/
theorem size_le (h : memo.WrittenAt ids after) {places : Nat} (hids : ∀ id ∈ ids, id < places)
    (hsize : memo.slots.size ≤ places) : after.slots.size ≤ places := by
  induction h with
  | refl => exact hsize
  | modify _ hid change ih =>
    rw [size_modify]
    exact Nat.max_le.2 ⟨ih, hids _ hid⟩

theorem foldl_forget {nodes : List Expr} (h : ∀ node ∈ nodes, node.id ∈ ids) (memo : Memo) :
    memo.WrittenAt ids (nodes.foldl (fun memo node => memo.forget node.id) memo) := by
  induction nodes generalizing memo with
  | nil => exact .refl
  | cons node nodes ih =>
    obtain ⟨hnode, hnodes⟩ := List.forall_mem_cons.1 h
    exact (refl.modify hnode _).trans (ih hnodes _)

end Memo.WrittenAt

/-! ## Where steps write -/

/-- A step writes under some numbers only. -/
def EvalM.WritesAt (ids : List Nat) : StepProperty := fun _ _ step =>
  ∀ (s : Setting) (memo : Memo), memo.WrittenAt ids (step s memo).memo

namespace EvalM.WritesAt

variable {ids : List Nat} {α β : Type} {arguments : List LeafNode}

theorem bind {step : EvalM α} {next : α → EvalM β} (hstep : WritesAt ids α arguments step)
    (hnext : ∀ a, WritesAt ids β arguments (next a)) :
    WritesAt ids β arguments (step >>= next) := by
  intro s memo
  rcases hrun : step s memo with ⟨outcome | a, after, events⟩
  all_goals have hafter : memo.WrittenAt ids after := by simpa only [hrun] using hstep s memo
  · rw [bind_of_error hrun]
    exact hafter
  · rw [bind_of_ok hrun]
    exact hafter.trans (hnext a s after)

theorem setting_bind {next : Setting → EvalM α} (h : ∀ s, WritesAt ids α arguments (next s)) :
    WritesAt ids α arguments (setting >>= next) := bind (fun _ _ => .refl) h

theorem keep {id : Nat} (hid : id ∈ ids) (change : NodeMemo → NodeMemo) :
    WritesAt ids Unit arguments (keep id change) := fun _ _ => .modify .refl hid change

theorem compositional (ids : List Nat) : Compositional (WritesAt ids) where
  weaken h := h
  pure _ _ _ := .refl
  fail _ _ _ := .refl
  bind hstep hnext := bind hstep hnext
  source hnext _ := setting_bind hnext
  note _ _ _ := .refl

theorem expanded {node : LeafNode} (hid : node.mark.id ∈ ids) :
    WritesAt ids String arguments node.expanded := by
  unfold LeafNode.expanded
  split
  · refine bind (fun _ _ => .refl) fun known => ?_
    split
    · exact fun _ _ => .refl
    · refine setting_bind fun s => bind (fun _ _ => .refl) fun _ => ?_
      split
      · exact fun _ _ => .refl
      · exact bind (keep hid _) fun _ _ _ => .refl
  · exact fun _ _ => .refl

theorem leaf_follows {node : LeafNode} (hid : node.mark.id ∈ ids) :
    node.Follows (WritesAt ids) :=
  (compositional ids).leaf_follows (expanded hid) (fun _ _ => .refl) (fun _ => keep hid _)
    fun _ => keep hid _

theorem record {pattern literal : Expr} (h : literal.Follows (WritesAt ids)) :
    WritesAt ids Unit [] (Expr.recordCompared.record pattern literal) :=
  setting_bind fun _ => bind ((compositional ids).expanded h) fun _ _ _ => .refl

theorem recordCompared {left right : Expr} (hleft : left.Follows (WritesAt ids))
    (hright : right.Follows (WritesAt ids)) :
    WritesAt ids Unit [] (Expr.recordCompared left right) := by
  refine setting_bind fun s => ?_
  split
  · split
    · exact record hright
    · split
      · exact record hleft
      · exact fun _ _ => .refl
  · exact fun _ _ => .refl

/-- All that an evaluation is put together from writes under the numbers of leaves. -/
theorem follows {e : Expr} (h : ∀ node ∈ e.leaves, node.mark.id ∈ ids) :
    e.Follows (WritesAt ids) := by
  induction e with
  | leaf node => exact leaf_follows (h node (List.mem_singleton_self node))
  | call mark name arguments =>
    refine (compositional ids).call_of_expanded name (fun argument hargument => ?_) fun path => ?_
    · exact expanded (h argument hargument)
    · exact (compositional ids).askPath (fun _ _ => .refl) (setting_bind fun _ _ _ => .refl)
  | not mark operand ih => exact ih h
  | logical mark op left right ihl ihr =>
    obtain ⟨hleft, hright⟩ := List.forall_mem_append.1 h
    exact ⟨ihl hleft, ihr hright⟩
  | comparison mark op left right ihl ihr =>
    obtain ⟨hleft, hright⟩ := List.forall_mem_append.1 h
    exact ⟨ihl hleft, ihr hright, fun _ => recordCompared (ihl hleft) (ihr hright)⟩

end EvalM.WritesAt

/-- Whatever is asked about a tree, it is written under the numbers of the tree only. -/
theorem Inquiry.writesAt_ask (inquiry : Inquiry) (e : Expr) :
    EvalM.WritesAt e.ids _ [] (inquiry.ask e) := by
  have hP := EvalM.WritesAt.compositional e.ids
  have h : e.Follows (EvalM.WritesAt e.ids) := EvalM.WritesAt.follows fun node hnode =>
    e.leaves_sublist_ids.subset (List.mem_map_of_mem hnode)
  cases inquiry with
  | evaluate => exact hP.evaluate h
  | canBoolean => exact hP.canBoolean h
  | canNumber => exact hP.bind_right (hP.number? h) fun _ => hP.pure _
  | canVersion => exact hP.bind_right (hP.version? h) fun _ => hP.pure _
  | boolean => exact hP.boolean h
  | number => exact hP.number h
  | version => exact hP.version h
  | expanded => exact hP.expanded h
  | unexpanded => exact .setting_bind fun _ => hP.pure _
  | isEmpty => exact hP.isEmpty h

/-! ## Places of nodes -/

theorem Expr.ids_subset_of_mem {e n : Expr} (h : n ∈ e.nodes) : n.ids ⊆ e.ids := by
  intro id hid
  rw [← n.ids_perm_nodes.mem_iff] at hid
  rw [← e.ids_perm_nodes.mem_iff]
  exact List.map_subset _ (nodes_subset_of_mem h) hid

namespace Context

/-- The nodes that a move names are those of a tree. -/
def Move.Within (root : Expr) : Move → Prop
  | act action => action.Within root
  | exchange _ => True

variable {root : Expr} {places : Nat}

/-- Whatever is done with a tree, a context gets no more places than the numbers of the tree
need. -/
theorem size_act_le (hids : ∀ id ∈ root.ids, id < places) (env : Environment) {context : Context}
    (hsize : context.memo.slots.size ≤ places) {action : Action} (hwithin : action.Within root) :
    (context.act env action).2.memo.slots.size ≤ places := by
  cases action with
  | ask inquiry node =>
    refine (inquiry.writesAt_ask node _ context.memo).size_le (fun id hid => ?_) hsize
    exact hids id (Expr.ids_subset_of_mem hwithin hid)
  | reset => exact Nat.zero_le _
  | forget node =>
    refine (Memo.WrittenAt.foldl_forget (fun below hbelow => ?_) context.memo).size_le hids hsize
    exact root.ids_perm_nodes.subset
      (List.mem_map_of_mem (Expr.nodes_subset_of_mem hwithin hbelow))

theorem Session.size_after_le (hids : ∀ id ∈ root.ids, id < places) {session : Session}
    (hsize : session.context.memo.slots.size ≤ places) {moves : List Move}
    (hwithin : ∀ move ∈ moves, move.Within root) :
    (session.after moves).context.memo.slots.size ≤ places := by
  induction moves generalizing session with
  | nil => exact hsize
  | cons move moves ih =>
    obtain ⟨hmove, hmoves⟩ := List.forall_mem_cons.1 hwithin
    have hstep : (session.step move).context.memo.slots.size ≤ places := by
      cases move with
      | act action => exact size_act_le hids session.environment hsize hmove
      | exchange env => exact hsize
    exact ih hstep hmoves

end Context

/-- Each node of a condition has a place of its own, one of as many as the condition has nodes:
what is kept about a node shows at this node only, asking about a tree and forgetting it change
nothing about nodes that are not of the tree, and no context of the condition ever has more
places. -/
structure Condition.OwnPlaces (condition : Condition) : Prop where
  modify : ∀ m ∈ condition.root.nodes, ∀ n ∈ condition.root.nodes,
    ∀ (memo : Memo) (change : NodeMemo → NodeMemo),
      (memo.modify m.id change).get n.id = if m = n then change (memo.get n.id) else memo.get n.id
  frame : ∀ m ∈ condition.root.nodes, ∀ n ∈ condition.root.nodes, n ∉ m.nodes →
    ∀ (env : Environment) (context : Context),
      (∀ inquiry : Inquiry,
        (context.run env (inquiry.ask m)).2.memo.get n.id = context.memo.get n.id) ∧
      (context.forget m).memo.get n.id = context.memo.get n.id
  room : ∀ (env : Environment) (context : Context), context.Fresh condition env →
    ∀ moves : List Context.Move, (∀ move ∈ moves, move.Within condition.root) →
      ((Context.Session.mk env context).after moves).context.memo.slots.size ≤
        condition.nodeCount

theorem Condition.ownPlaces {condition : Condition} (hids : condition.root.ids.Nodup)
    (hcount : ∀ id ∈ condition.root.ids, id < condition.nodeCount) : condition.OwnPlaces where
  modify m hm n hn memo change := by
    have hsame : m.id = n.id ↔ m = n := ⟨Expr.eq_of_id_eq hids hm hn, congrArg Expr.id⟩
    rw [Memo.get_modify]
    exact if_congr hsame rfl rfl
  frame m hm n hn hnot env context := by
    have hid : n.id ∉ m.ids := Expr.id_not_mem_ids hids hm hn hnot
    refine ⟨fun inquiry => (inquiry.writesAt_ask m _ context.memo).get_eq hid, ?_⟩
    rw [Context.memo_forget, if_neg hid]
  room env context hfresh moves hwithin := by
    refine Context.Session.size_after_le hcount ?_ hwithin
    rw [hfresh.memo_eq]
    exact Nat.zero_le _

/-- An expression is numbered in postorder from the next number on. -/
theorem Parser.ids_of_expression {p q : Parser} {e : Expr} (h : expression p = .ok e q) :
    e.ids = List.range' p.nextId e.postorder.length ∧
      q.nextId = p.nextId + e.postorder.length ∧ q.depth = p.depth := by
  obtain ⟨d, -, rfl, htakes⟩ := Category.soundAt .expression (maxNesting - p.depth) () p e q h
  have hids : (d.tree () p.nextId).ids = List.range' p.nextId d.size := d.ids_tree () p.nextId
  have hlength : (d.tree () p.nextId).postorder.length = d.size := by
    have hlengths := congrArg List.length hids
    rwa [Expr.ids, List.length_map, List.length_range'] at hlengths
  rw [hlength]
  exact ⟨hids, htakes.nextId_eq, by rw [htakes.eq]⟩

/-- Whatever a parser has read before, it numbers the nodes of an expression in postorder from the
next number on, and comes back to its level.  So the numbers of an accepted condition are those
below the number of its nodes, each of them once, and every node has a place of its own. -/
theorem Parser.numbers_in_postorder :
    (∀ (p : Parser) (e : Expr) (q : Parser), expression p = .ok e q →
      e.ids = List.range' p.nextId e.postorder.length ∧
        q.nextId = p.nextId + e.postorder.length ∧ q.depth = p.depth) ∧
    ∀ (text : String) (policy : Policy) (condition : Condition),
      Condition.parse text policy = .ok condition →
        condition.root.ids.Nodup ∧
          (∀ id, id ∈ condition.root.ids ↔ id < condition.nodeCount) ∧ condition.OwnPlaces := by
  refine ⟨fun p e q h => ids_of_expression h, fun text policy condition hparse => ?_⟩
  have hmem (id : Nat) : id ∈ condition.root.ids ↔ id < condition.nodeCount := by
    rw [Condition.ids_root hparse, List.mem_range]
  have hids := Condition.nodup_ids hparse
  exact ⟨hids, hmem, Condition.ownPlaces hids fun id hid => (hmem id).1 hid⟩

/-- A parser that has given out seven numbers and is three levels deep reads a call behind `!`, and
one that starts reads the same as a condition. -/
theorem Parser.numbers_in_postorder_call :
    let p : Parser :=
      ⟨"!F('a',b)or c", .everything, ⟨1, "F('a',b)or c".toList⟩, ⟨.symbol .not, ⟨0, 1⟩⟩, 7, 3⟩
    (∃ e q, expression p = .ok e q ∧ e.ids = [7, 8, 9, 10, 11, 12] ∧ q.nextId = 13 ∧
      q.depth = 3) ∧
    ∃ condition, Condition.parse "!F('a',b)or c" .everything = .ok condition ∧
      (∀ id, id ∈ condition.root.ids ↔ id < 6) ∧ condition.OwnPlaces := by
  intro p
  refine ⟨?_, ?_⟩
  · have hsize : (expression.run' p).map (·.postorder.length) = some 6 := by decide +kernel
    delta EStateM.run' EStateM.run at hsize
    cases hrun : expression p with
    | error e q =>
      rw [hrun] at hsize
      cases hsize
    | ok e q =>
      rw [hrun] at hsize
      have hsize : e.postorder.length = 6 := Option.some.inj hsize
      obtain ⟨hids, hnext, hdepth⟩ := numbers_in_postorder.1 p e q hrun
      rw [hsize] at hids hnext
      exact ⟨e, q, rfl, hids, hnext, hdepth⟩
  · have hcount : (Condition.parse "!F('a',b)or c" .everything).toOption.map (·.nodeCount) =
        some 6 := by decide +kernel
    obtain ⟨condition, hparse, hcount⟩ := Condition.exists_of_map_parse_eq_some hcount
    obtain ⟨-, hmem, hown⟩ := numbers_in_postorder.2 _ _ condition hparse
    rw [hcount] at hmem
    exact ⟨condition, hparse, hmem, hown⟩

end CondLang
