import CondLang.Evaluation.Context
import CondLang.Proofs.Evaluation.Answers
import CondLang.Proofs.Numbering

/-!
# The memo cannot be seen

Over one context any number of questions may be asked about the nodes of an accepted condition, and
the context may forget all or part of what it knows in between.  Whatever was asked before, each
question has the answer that it has on the context as it was made, which is that of an evaluation
without a memory.

The memo stays faithful to the labelling that gives each node number of the condition its leaf;
there is such a labelling because no two nodes have the same number.
-/

namespace CondLang

/-! ## The labels of a tree -/

namespace Expr

/-- The leaf with a given number. -/
def labels (e : Expr) : Labels := fun id =>
  (e.leaves.find? (·.mark.id == id)).map (·.leaf)

theorem leaves_sublist_ids (e : Expr) : (e.leaves.map (·.mark.id)).Sublist e.ids := by
  induction e with
  | leaf node => exact List.Sublist.refl _
  | call mark name arguments =>
    rw [ids_call]
    exact List.sublist_append_left _ _
  | not mark operand ih =>
    rw [ids_not]
    exact ih.trans (List.sublist_append_left _ _)
  | logical mark op left right ihl ihr =>
    rw [ids_logical, leaves, List.map_append]
    exact ihl.append (ihr.trans (List.sublist_append_left _ _))
  | comparison mark op left right ihl ihr =>
    rw [ids_comparison, leaves, List.map_append]
    exact ihl.append (ihr.trans (List.sublist_append_left _ _))

/-- Where no two keys are the same, an element is found by its key. -/
theorem find?_key_of_nodup {nodes : List LeafNode} (hnodup : (nodes.map (·.mark.id)).Nodup)
    {node : LeafNode} (hnode : node ∈ nodes) :
    nodes.find? (·.mark.id == node.mark.id) = some node := by
  induction nodes with
  | nil => cases hnode
  | cons first others ih =>
    rw [List.map_cons, List.nodup_cons] at hnodup
    rcases List.mem_cons.1 hnode with rfl | hothers
    · exact List.find?_cons_of_pos (beq_self_eq_true _)
    · have hne : first.mark.id ≠ node.mark.id := by
        intro hsame
        exact hnodup.1 (List.mem_map.2 ⟨node, hothers, hsame.symm⟩)
      rw [List.find?_cons_of_neg (by simpa using hne)]
      exact ih hnodup.2 hothers

/-- If no two nodes have the same number, each leaf bears its label. -/
theorem labels_eq_of_mem {e : Expr} (hids : e.ids.Nodup) {node : LeafNode}
    (hnode : node ∈ e.leaves) : e.labels node.mark.id = some node.leaf := by
  rw [labels, find?_key_of_nodup (hids.sublist e.leaves_sublist_ids) hnode, Option.map_some]

end Expr

/-- In an accepted condition every node fits the labels of the whole. -/
theorem Condition.fits_labels {text : String} {policy : Policy} {condition : Condition}
    (hparse : parse text policy = .ok condition) {n : Expr} (hn : n ∈ condition.root.nodes)
    (promised : Prop) : n.Fits condition.root.labels promised := by
  intro node hnode
  have hmem := Expr.leaves_subset_of_mem_nodes hn hnode
  exact .inl (Expr.labels_eq_of_mem (nodup_ids hparse) hmem)

/-! ## Questions about a node -/

/-- What may be asked about a node of a condition. -/
inductive Inquiry where
  | evaluate
  | canBoolean
  | canNumber
  | canVersion
  | boolean
  | number
  | version
  | expanded
  | unexpanded
  | isEmpty
  deriving DecidableEq, Repr

namespace Inquiry

/-- What an answer is, if there is one. -/
abbrev Answer : Inquiry → Type
  | number => Decimal
  | version => Version
  | expanded | unexpanded => String
  | evaluate | canBoolean | canNumber | canVersion | boolean | isEmpty => Bool

/-- Asks about a node. -/
def ask (e : Expr) : (inquiry : Inquiry) → EvalM inquiry.Answer
  | evaluate => e.evaluate
  | canBoolean => e.canBoolean
  | canNumber => return (← e.number?).isSome
  | canVersion => return (← e.version?).isSome
  | boolean => e.boolean
  | number => e.number
  | version => e.version
  | expanded => e.expanded
  | unexpanded => return e.unexpanded (← EvalM.setting).source
  | isEmpty => e.isEmpty

/-- The answer without a memory. -/
def askIn (s : Setting) (e : Expr) : (inquiry : Inquiry) → Except EvalError inquiry.Answer
  | evaluate => e.evaluateIn s
  | canBoolean => e.canBooleanIn s
  | canNumber => return (← e.numberIn? s).isSome
  | canVersion => return (← e.versionIn? s).isSome
  | boolean => e.booleanIn s
  | number => e.numberIn s
  | version => e.versionIn s
  | expanded => e.expandedIn s
  | unexpanded => .ok (e.unexpanded s.source)
  | isEmpty => e.isEmptyIn s

theorem answers {s : Setting} {labels : Labels} {promised : Prop} {e : Expr}
    (h : e.Fits labels promised) (inquiry : Inquiry) :
    EvalM.Answers s labels promised (inquiry.ask e) (inquiry.askIn s e) := by
  cases inquiry with
  | evaluate => exact h.evaluate
  | canBoolean => exact h.canBoolean
  | canNumber => exact h.number?.bind fun _ _ => .pure _
  | canVersion => exact h.version?.bind fun _ _ => .pure _
  | boolean => exact h.boolean
  | number => exact h.number
  | version => exact h.version
  | expanded => exact h.expanded
  | unexpanded => exact .setting_bind fun _ => .pure _
  | isEmpty => exact h.isEmpty

end Inquiry

/-- An answer or an error, with the inquiry that it replies to. -/
abbrev Reply := (inquiry : Inquiry) × Except EvalError inquiry.Answer

/-- What may be done with a context: asking about a node, and forgetting everything or what is known
of a part of the tree. -/
inductive Action where
  | ask (inquiry : Inquiry) (node : Expr)
  | reset
  | forget (node : Expr)

namespace Action

/-- The nodes that an action names are those of a tree. -/
def Within (root : Expr) : Action → Prop
  | ask _ node => node ∈ root.nodes
  | reset => True
  | forget node => node ∈ root.nodes

/-- The nodes that an action asks about bear their labels. -/
def Fits (labels : Labels) : Action → Prop
  | ask _ node => node.Fits labels True
  | reset | forget _ => True

theorem fits_of_within {labels : Labels} {root : Expr} {action : Action}
    (hfits : ∀ n ∈ root.nodes, n.Fits labels True) (hwithin : action.Within root) :
    action.Fits labels := by
  cases action with
  | ask _ node => exact hfits node hwithin
  | reset | forget _ => trivial

/-- The reply without a memory. -/
def replyIn (s : Setting) : Action → Option Reply
  | ask inquiry node => some ⟨inquiry, inquiry.askIn s node⟩
  | reset | forget _ => none

end Action

namespace Context

/-- Does something with a context: the reply, if there is one, and the context after it. -/
def act (env : Environment) (context : Context) : Action → Option Reply × Context
  | .ask inquiry node =>
      let (run, context) := context.run env (inquiry.ask node)
      (some ⟨inquiry, run.outcome⟩, context)
  | .reset => (none, context.reset)
  | .forget node => (none, context.forget node)

/-- The replies to any number of actions, one after the other. -/
def replies (env : Environment) : Context → List Action → List (Option Reply)
  | _, [] => []
  | context, action :: actions =>
      let (reply, context) := context.act env action
      reply :: context.replies env actions

/-- A context as it is made for a condition: it is given the text of the condition, or takes it from
an environment that names this condition, and may have a register. -/
inductive Fresh (condition : Condition) (env : Environment) : Context → Prop
  | ofCondition : Fresh condition env (.ofCondition condition)
  | ofEnvironment (h : env.condition = condition.text) : Fresh condition env (.ofEnvironment env)
  | recording {context : Context} (h : Fresh condition env context) :
      Fresh condition env context.recording

/-- A context of a condition that knows nothing but the truth about the labelled nodes. -/
structure Sound (condition : Condition) (labels : Labels) (env : Environment) (context : Context) :
    Prop where
  source : context.source = condition.text
  faithful : context.memo.Faithful ⟨env, condition.text, false⟩ labels

namespace Sound

variable {condition : Condition} {labels : Labels} {env : Environment} {context : Context}

theorem of_fresh (h : context.Fresh condition env) : context.Sound condition labels env := by
  induction h with
  | ofCondition => exact ⟨rfl, .empty⟩
  | ofEnvironment h => exact ⟨h, .empty⟩
  | recording _ ih => exact ⟨ih.source, ih.faithful⟩

theorem reset (h : context.Sound condition labels env) :
    context.reset.Sound condition labels env := ⟨h.source, .empty⟩

theorem forget (h : context.Sound condition labels env) (e : Expr) :
    (context.forget e).Sound condition labels env := by
  refine ⟨h.source, ?_⟩
  show Memo.Faithful _ _ (e.nodes.foldl _ context.memo)
  have hfaithful := h.faithful
  generalize context.memo = memo at hfaithful ⊢
  induction e.nodes generalizing memo with
  | nil => exact hfaithful
  | cons node nodes ih => exact ih _ (hfaithful.forget node.id)

theorem ask (h : context.Sound condition labels env) {e : Expr} {promised : Prop}
    (hfits : e.Fits labels promised) (inquiry : Inquiry) :
    (promised → (context.run env (inquiry.ask e)).1.outcome =
        inquiry.askIn ⟨env, condition.text, false⟩ e) ∧
      (context.run env (inquiry.ask e)).2.Sound condition labels env := by
  obtain ⟨source, memo, conditioned⟩ := context
  obtain ⟨hsource, hfaithful⟩ := h
  cases hsource
  have hanswers := inquiry.answers (s := ⟨env, condition.text, false⟩) hfits
  obtain ⟨hafter, houtcome⟩ := hanswers conditioned.isSome memo hfaithful
  exact ⟨houtcome, rfl, hafter⟩

/-- What is asked about labelled nodes is replied to as without a memory. -/
theorem reply (h : context.Sound condition labels env) {action : Action}
    (hfits : action.Fits labels) :
    (context.act env action).1 = action.replyIn ⟨env, condition.text, false⟩ := by
  cases action with
  | ask inquiry node =>
    obtain ⟨houtcome, -⟩ := h.ask hfits inquiry
    rw [Action.replyIn, ← houtcome trivial]
    rfl
  | reset | forget _ => rfl

/-- Whatever is asked about nodes that bear their labels or none, the context stays sound. -/
theorem after_act (h : context.Sound condition labels env) {promised : Expr → Prop}
    (hfits : ∀ n ∈ condition.root.nodes, n.Fits labels (promised n)) {action : Action}
    (hwithin : action.Within condition.root) :
    (context.act env action).2.Sound condition labels env := by
  cases action with
  | ask inquiry node => exact (h.ask (hfits node hwithin) inquiry).2
  | reset => exact h.reset
  | forget node => exact h.forget node

/-- One action: it is replied to as without a memory, and the context stays sound. -/
theorem act (h : context.Sound condition labels env) {action : Action}
    (hfits : ∀ n ∈ condition.root.nodes, n.Fits labels True)
    (hwithin : action.Within condition.root) :
    (context.act env action).1 = action.replyIn ⟨env, condition.text, false⟩ ∧
      (context.act env action).2.Sound condition labels env :=
  ⟨h.reply (Action.fits_of_within hfits hwithin), h.after_act hfits hwithin⟩

/-- Any number of actions: each is replied to as without a memory. -/
theorem replies (h : context.Sound condition labels env) {actions : List Action}
    (hfits : ∀ n ∈ condition.root.nodes, n.Fits labels True)
    (hwithin : ∀ action ∈ actions, action.Within condition.root) :
    context.replies env actions =
      actions.map (Action.replyIn ⟨env, condition.text, false⟩) := by
  induction actions generalizing context with
  | nil => rfl
  | cons action actions ih =>
    obtain ⟨haction, hactions⟩ := List.forall_mem_cons.1 hwithin
    obtain ⟨hreply, hafter⟩ := h.act hfits haction
    rw [List.map_cons, ← hreply, ← ih hafter hactions]
    rfl

end Sound

end Context

/-- Whatever is done with a context of an accepted condition, each inquiry has the reply that it has
on the context as it was made, and on any other such context, and the reply of an evaluation without
a memory. -/
theorem Condition.replies_eq_of_fresh {text : String} {policy : Policy} {condition : Condition}
    (hparse : parse text policy = .ok condition) {env : Environment} {context : Context}
    (hfresh : context.Fresh condition env) {actions : List Action}
    (hwithin : ∀ action ∈ actions, action.Within condition.root) :
    (∀ other : Context, other.Fresh condition env →
      context.replies env actions = actions.map fun action => (other.act env action).1) ∧
    context.replies env actions =
      actions.map (Action.replyIn ⟨env, condition.text, false⟩) := by
  have hfits : ∀ n ∈ condition.root.nodes, n.Fits condition.root.labels True :=
    fun n hn => fits_labels hparse hn True
  have hreplies := (Context.Sound.of_fresh hfresh).replies hfits hwithin
  refine ⟨fun other hother => ?_, hreplies⟩
  rw [hreplies]
  refine List.map_congr_left fun action haction => ?_
  exact ((Context.Sound.of_fresh hother).act hfits (hwithin action haction)).1.symm

/-- An environment of a comparison in which every property is a number. -/
def Environment.ofOne : Environment := { constant "1" with condition := "'$(A)' == '1.0'" }

/-- Asking the same again, with and without forgetting in between. -/
def Action.again (root : Expr) : List Action :=
  [.ask .evaluate root, .ask .evaluate root, .forget root, .ask .expanded root, .reset,
    .ask .number root]

theorem Condition.replies_eq_of_fresh_again : ∃ condition,
    parse "'$(A)' == '1.0'" .everything = .ok condition ∧
      (Context.ofEnvironment .ofOne).recording.replies .ofOne (Action.again condition.root) =
        (Action.again condition.root).map
          (Action.replyIn ⟨.ofOne, "'$(A)' == '1.0'", false⟩) := by
  have hparses : (parse "'$(A)' == '1.0'" .everything).toBool = true := by decide +kernel
  cases hparse : parse "'$(A)' == '1.0'" .everything with
  | error e =>
    rw [hparse] at hparses
    cases hparses
  | ok condition =>
    have htext : condition.text = "'$(A)' == '1.0'" := by
      obtain ⟨d, stop, -, -, -, -, rfl⟩ := exists_derivation_of_parse hparse
      rfl
    refine ⟨condition, rfl, ?_⟩
    have hfresh : (Context.ofEnvironment .ofOne).recording.Fresh condition .ofOne :=
      .recording (.ofEnvironment htext.symm)
    rw [(replies_eq_of_fresh hparse hfresh ?_).2, htext]
    simp [Action.again, Action.Within]

end CondLang
