import CondLang.Proofs.Evaluation.Simulation
import CondLang.Proofs.Subtrees
import Mathlib.Control.Monad.Basic

/-!
# Contexts that forget

What a context knows may be out of date once the environment is exchanged.  A context that forgets
everything answers again like one that was just made; one that forgets a tree answers so about that
tree, and for the rest knows what it knew (`Condition.reset_renews`).

What a context shows is compared in two ways.  As long as nothing is done outside a tree, two
contexts that know the same of its leaves show the same replies through the same questions.  And
whatever is done outside, the context stays faithful to the labels of the tree, so the replies about
it are those of an evaluation without a memory.
-/

namespace CondLang

/-! ## Subtrees and their labels -/

namespace Expr

variable {e m n : Expr} {labels : Labels}

/-- Each node of a tree bears the labels of the tree. -/
theorem fits_labels (hids : n.ids.Nodup) (hm : m ∈ n.nodes) (promised : Prop) :
    m.Fits n.labels promised :=
  fun _ hnode => .inl (labels_eq_of_mem hids (leaves_subset_of_mem_nodes hm hnode))

theorem mem_ids_of_labels {id : Nat} {leaf : Leaf} (h : n.labels id = some leaf) : id ∈ n.ids := by
  obtain ⟨node, hnode, -⟩ := Option.map_eq_some_iff.1 h
  have hid := List.find?_some hnode
  obtain rfl : node.mark.id = id := beq_iff_eq.1 hid
  exact n.leaves_sublist_ids.subset (List.mem_map_of_mem (List.mem_of_find?_eq_some hnode))

/-- A node outside a tree bears none of its labels. -/
theorem labels_eq_none (hids : e.ids.Nodup) (hn : n ∈ e.nodes) {node : LeafNode}
    (hnode : node ∈ e.leaves) (hnot : node ∉ n.leaves) : n.labels node.mark.id = none := by
  refine Option.map_eq_none_iff.2 (List.find?_eq_none.2 fun other hother hsame => hnot ?_)
  have hid : (leaf node).id = (leaf other).id := (beq_iff_eq.1 hsame).symm
  have hmem := leaves_subset_of_mem_nodes hn hother
  obtain rfl := leaf.inj
    (eq_of_id_eq hids (leaf_mem_nodes_iff.2 hnode) (leaf_mem_nodes_iff.2 hmem) hid)
  exact hother

/-- Nodes of the same condition fit the labels of a tree, if no promise is made of those outside. -/
theorem fits_labels_of_promised (hids : e.ids.Nodup) (hn : n ∈ e.nodes) (hm : m ∈ e.nodes) :
    m.Fits n.labels (m ∈ n.nodes) := by
  intro node hnode
  by_cases hmem : node ∈ n.leaves
  · exact .inl (labels_eq_of_mem (nodup_ids_of_mem hids hn) hmem)
  · refine .inr ⟨labels_eq_none hids hn (leaves_subset_of_mem_nodes hm hnode) hmem, fun h => ?_⟩
    exact hmem (leaves_subset_of_mem_nodes h hnode)

/-- The labels of a condition outside a tree. -/
def labelsOutside (e n : Expr) : Labels := fun id => if id ∈ n.ids then none else e.labels id

theorem id_not_mem_ids (hids : e.ids.Nodup) (hn : n ∈ e.nodes) (hm : m ∈ e.nodes)
    (hnot : m ∉ n.nodes) : m.id ∉ n.ids := by
  intro hid
  obtain ⟨k, hk, hsame⟩ := List.mem_map.1 (n.ids_perm_nodes.mem_iff.2 hid)
  obtain rfl := eq_of_id_eq hids (nodes_subset_of_mem hn hk) hm hsame
  exact hnot hk

/-- A tree that lies neither within nor around another one bears the labels outside it. -/
theorem fits_labelsOutside (hids : e.ids.Nodup) (hn : n ∈ e.nodes) (hm : m ∈ e.nodes)
    (hwithin : m ∉ n.nodes) (haround : n ∉ m.nodes) : m.Fits (e.labelsOutside n) True := by
  have hapart := ((nested_or_apart hids hm hn).resolve_left hwithin).resolve_left haround
  intro node hnode
  have hleaf : leaf node ∈ m.nodes := leaf_mem_nodes_iff.2 hnode
  have hnot : node.mark.id ∉ n.ids :=
    id_not_mem_ids hids hn (nodes_subset_of_mem hm hleaf) (hapart hleaf)
  left
  rw [labelsOutside, if_neg hnot]
  exact labels_eq_of_mem hids (leaves_subset_of_mem_nodes hm hnode)

end Expr

theorem Memo.get_foldl_forget (nodes : List Expr) (memo : Memo) (id : Nat) :
    (nodes.foldl (fun memo node => memo.forget node.id) memo).get id =
      if id ∈ nodes.map (·.id) then .unknown else memo.get id := by
  induction nodes generalizing memo with
  | nil => rfl
  | cons node nodes ih =>
    rw [List.foldl_cons, ih, Memo.get_forget, List.map_cons]
    by_cases hnode : node.id = id
    · subst hnode
      simp
    · simp [hnode, Ne.symm hnode]

/-! ## What a context shows -/

/-- What an action shows: the reply, if there is one, and the questions that were asked. -/
structure Response where
  reply : Option Reply
  questions : List Question

namespace Action

/-- The nodes that an action names are those of a tree, but lie neither within nor around another
one. -/
def Apart (root n : Expr) : Action → Prop
  | ask _ m | forget m => m ∈ root.nodes ∧ m ∉ n.nodes ∧ n ∉ m.nodes
  | reset => True

end Action

namespace Context

/-- What an action shows of a context. -/
def respond (env : Environment) (context : Context) : Action → Response
  | .ask inquiry node =>
      let (run, _) := context.run env (inquiry.ask node)
      ⟨some ⟨inquiry, run.outcome⟩, Event.questions run.events⟩
  | .reset | .forget _ => ⟨none, []⟩

/-- What any number of actions show, one after the other. -/
def responses (env : Environment) : Context → List Action → List Response
  | _, [] => []
  | context, action :: actions =>
      context.respond env action :: (context.act env action).2.responses env actions

/-- The context after any number of actions. -/
def after (env : Environment) (context : Context) (actions : List Action) : Context :=
  actions.foldl (fun context action => (context.act env action).2) context

theorem source_act (env : Environment) (context : Context) (action : Action) :
    (context.act env action).2.source = context.source := by
  cases action <;> rfl

/-- Forgetting a tree shows at its nodes and nowhere else. -/
theorem memo_forget (context : Context) (e : Expr) (id : Nat) :
    (context.forget e).memo.get id = if id ∈ e.ids then .unknown else context.memo.get id := by
  refine (Memo.get_foldl_forget e.nodes context.memo id).trans ?_
  simp only [e.ids_perm_nodes.mem_iff]

/-! ### Contexts side by side -/

/-- Two contexts of the same text know as good as the same of the labelled nodes. -/
structure Similar (labels : Labels) (context context' : Context) : Prop where
  source : context.source = context'.source
  memo : context.memo.Similar labels context'.memo

namespace Similar

variable {labels : Labels} {context context' : Context} {env : Environment}

/-- One action shows the same, and the contexts stay similar. -/
theorem act (h : context.Similar labels context') {action : Action} (hfits : action.Fits labels) :
    context.respond env action = context'.respond env action ∧
      (context.act env action).2.Similar labels (context'.act env action).2 := by
  obtain ⟨source, memo, conditioned⟩ := context
  obtain ⟨source', memo', conditioned'⟩ := context'
  obtain ⟨hsource, hmemo⟩ := h
  cases (hsource : source = source')
  cases action with
  | reset => exact ⟨rfl, rfl, .refl _⟩
  | forget node =>
    refine ⟨rfl, rfl, fun id leaf hleaf => ?_⟩
    show NodeMemo.Similar leaf ((forget _ node).memo.get id) ((forget _ node).memo.get id)
    rw [memo_forget, memo_forget]
    split
    · exact ⟨.inl rfl, rfl, rfl⟩
    · exact hmemo id leaf hleaf
  | ask inquiry node =>
    obtain ⟨houtcome, hquestions, hafter⟩ := inquiry.ask_simulates env conditioned.isSome
      conditioned'.isSome hfits source memo memo' hmemo
    refine ⟨?_, rfl, hafter⟩
    exact congrArg₂ Response.mk (congrArg (some ∘ Sigma.mk inquiry) houtcome) hquestions

/-- Any number of actions show the same. -/
theorem responses (h : context.Similar labels context') {actions : List Action}
    (hfits : ∀ action ∈ actions, action.Fits labels) :
    context.responses env actions = context'.responses env actions := by
  induction actions generalizing context context' with
  | nil => rfl
  | cons action actions ih =>
    obtain ⟨haction, hactions⟩ := List.forall_mem_cons.1 hfits
    obtain ⟨hresponse, hafter⟩ := h.act haction
    exact congrArg₂ List.cons hresponse (ih hafter hactions)

end Similar

end Context

/-! ## Answers that are held -/

/-- The answer to an inquiry about a leaf that a memo holds. -/
def Memo.answer? (memo : Memo) (node : LeafNode) : (inquiry : Inquiry) → Option inquiry.Answer
  | .expanded => if node.leaf.expandable then (memo.get node.mark.id).expanded else none
  | .canNumber => (memo.get node.mark.id).number.map Option.isSome
  | .canVersion => (memo.get node.mark.id).version.map Option.isSome
  | .number => (memo.get node.mark.id).number.join
  | .version => (memo.get node.mark.id).version.join
  | .evaluate | .canBoolean | .boolean | .unexpanded | .isEmpty => none

theorem Memo.answer?_congr {memo memo' : Memo} {node : LeafNode}
    (h : memo.get node.mark.id = memo'.get node.mark.id) (inquiry : Inquiry) :
    memo.answer? node inquiry = memo'.answer? node inquiry := by
  cases inquiry <;> simp only [answer?, h]

namespace LeafNode

variable {s : Setting} {memo : Memo} {node : LeafNode}

theorem number?_of_known {number : Option Decimal}
    (h : (memo.get node.mark.id).number = some number) :
    node.number? s memo = ⟨.ok number, memo, []⟩ := by
  rw [number?, EvalM.known_bind_apply, h]
  rfl

theorem version?_of_known {version : Option Version}
    (h : (memo.get node.mark.id).version = some version) :
    node.version? s memo = ⟨.ok version, memo, []⟩ := by
  rw [version?, EvalM.known_bind_apply, h]
  rfl

/-- An answer that is held is given without a question. -/
theorem ask_of_held {inquiry : Inquiry} {answer : inquiry.Answer}
    (h : memo.answer? node inquiry = some answer) :
    inquiry.ask (.leaf node) s memo = ⟨.ok answer, memo, []⟩ := by
  cases inquiry with
  | expanded =>
    obtain ⟨hexpandable, hknown⟩ := Option.ite_none_right_eq_some.1 h
    show node.expanded s memo = _
    rw [LeafNode.expanded, if_pos hexpandable, EvalM.known_bind_apply, hknown]
    rfl
  | canNumber =>
    obtain ⟨number, hknown, rfl⟩ := Option.map_eq_some_iff.1 h
    exact EvalM.bind_of_ok (number?_of_known hknown)
  | canVersion =>
    obtain ⟨version, hknown, rfl⟩ := Option.map_eq_some_iff.1 h
    exact EvalM.bind_of_ok (version?_of_known hknown)
  | number => exact EvalM.bind_of_ok (number?_of_known (Option.join_eq_some_iff.1 h))
  | version => exact EvalM.bind_of_ok (version?_of_known (Option.join_eq_some_iff.1 h))
  | evaluate | canBoolean | boolean | unexpanded | isEmpty => cases h

end LeafNode

/-! ## Contexts that answer like new ones -/

namespace Context

/-- A context answers about a tree like one that was just made: as long as only nodes of the tree
are named, it shows what the new one shows, and whatever is done in between, it replies as the new
one does. -/
structure Renewed (condition : Condition) (env : Environment) (n : Expr) (context : Context) :
    Prop where
  responses : ∀ new : Context, new.Fresh condition env →
    ∀ actions : List Action, (∀ action ∈ actions, action.Within n) →
      context.responses env actions = new.responses env actions
  reply : ∀ new : Context, new.Fresh condition env →
    ∀ actions : List Action, (∀ action ∈ actions, action.Within condition.root) →
      ∀ action : Action, action.Within n →
        ((context.after env actions).act env action).1 = (new.act env action).1

/-- By forgetting a tree a context answers about it like one that was just made, and of all nodes
outside it knows what it knew.  So trees apart from it cannot tell the difference, and answers that
are held about other leaves are still given without a question. -/
structure Forgets (condition : Condition) (env : Environment) (n : Expr) (context : Context) :
    Prop where
  renewed : (context.forget n).Renewed condition env n
  kept : ∀ m ∈ condition.root.nodes, m ∉ n.nodes →
    (context.forget n).memo.get m.id = context.memo.get m.id
  apart : ∀ actions : List Action, (∀ action ∈ actions, action.Apart condition.root n) →
    (context.forget n).responses env actions = context.responses env actions
  held : ∀ node ∈ condition.root.leaves, node ∉ n.leaves →
    ∀ (inquiry : Inquiry) (answer : inquiry.Answer),
      context.memo.answer? node inquiry = some answer →
        (context.forget n).respond env (.ask inquiry (.leaf node)) =
          ⟨some ⟨inquiry, .ok answer⟩, []⟩

variable {condition : Condition} {env : Environment} {n : Expr} {context : Context}

theorem Fresh.memo_eq (h : context.Fresh condition env) : context.memo = .empty := by
  induction h with
  | ofCondition | ofEnvironment _ => rfl
  | recording _ ih => exact ih

theorem Sound.after {labels : Labels} (h : context.Sound condition labels env)
    {promised : Expr → Prop}
    (hfits : ∀ n ∈ condition.root.nodes, n.Fits labels (promised n)) {actions : List Action}
    (hwithin : ∀ action ∈ actions, action.Within condition.root) :
    (context.after env actions).Sound condition labels env := by
  induction actions generalizing context with
  | nil => exact h
  | cons action actions ih =>
    obtain ⟨haction, hactions⟩ := List.forall_mem_cons.1 hwithin
    exact ih (h.after_act hfits haction) hactions

/-- It suffices that nothing is known of the tree. -/
theorem renewed_of_unknown (hids : condition.root.ids.Nodup) (hn : n ∈ condition.root.nodes)
    (hsource : context.source = condition.text)
    (hunknown : ∀ id ∈ n.ids, context.memo.get id = .unknown) :
    context.Renewed condition env n := by
  have hnids : n.ids.Nodup := Expr.nodup_ids_of_mem hids hn
  have hlabelled : ∀ id leaf, n.labels id = some leaf → context.memo.get id = .unknown :=
    fun id leaf hleaf => hunknown id (Expr.mem_ids_of_labels hleaf)
  have hfits : ∀ action : Action, action.Within n → action.Fits n.labels := fun action =>
    Action.fits_of_within fun m hm => Expr.fits_labels hnids hm True
  constructor
  · intro new hnew actions hwithin
    have hsound : new.Sound condition n.labels env := .of_fresh hnew
    have hsimilar : context.Similar n.labels new := by
      refine ⟨hsource.trans hsound.source.symm, ?_⟩
      refine .of_eq fun id leaf hleaf => ?_
      rw [hlabelled id leaf hleaf, hnew.memo_eq, Memo.get_empty]
    exact hsimilar.responses fun action haction => hfits action (hwithin action haction)
  · intro new hnew actions hwithin action haction
    have hsound : context.Sound condition n.labels env := by
      refine ⟨hsource, fun id leaf hleaf => ?_⟩
      rw [hlabelled id leaf hleaf]
      exact NodeMemo.fits_unknown _ _
    have hafter := hsound.after (fun m hm => Expr.fits_labels_of_promised hids hn hm) hwithin
    rw [hafter.reply (hfits action haction), (Sound.of_fresh hnew).reply (hfits action haction)]

theorem forgets (hids : condition.root.ids.Nodup) (hn : n ∈ condition.root.nodes)
    (hsource : context.source = condition.text) : context.Forgets condition env n where
  renewed := renewed_of_unknown hids hn hsource fun id hid => by rw [memo_forget, if_pos hid]
  kept m hm hnot := by
    rw [memo_forget, if_neg (Expr.id_not_mem_ids hids hn hm hnot)]
  apart actions hapart := by
    have hsimilar : (context.forget n).Similar (condition.root.labelsOutside n) context := by
      refine ⟨rfl, .of_eq fun id leaf hleaf => ?_⟩
      have hnot : id ∉ n.ids := fun hid => by
        rw [Expr.labelsOutside, if_pos hid] at hleaf
        cases hleaf
      rw [memo_forget, if_neg hnot]
    refine hsimilar.responses fun action haction => ?_
    cases action with
    | ask inquiry m =>
      obtain ⟨hm, hwithin, haround⟩ := hapart _ haction
      exact Expr.fits_labelsOutside hids hn hm hwithin haround
    | reset | forget _ => trivial
  held node hnode hnot inquiry answer hheld := by
    have hleaf : Expr.leaf node ∉ n.nodes := fun h => hnot (Expr.leaf_mem_nodes_iff.1 h)
    have hid : node.mark.id ∉ n.ids :=
      Expr.id_not_mem_ids hids hn (Expr.leaf_mem_nodes_iff.2 hnode) hleaf
    have hkept : (context.forget n).memo.get node.mark.id = context.memo.get node.mark.id := by
      rw [memo_forget, if_neg hid]
    rw [← Memo.answer?_congr hkept] at hheld
    simp only [respond, run, LeafNode.ask_of_held hheld]
    rfl

/-! ## Histories -/

/-- What may happen to a context: something is done with it, or the environment is exchanged. -/
inductive Move where
  | act (action : Action)
  | exchange (env : Environment)

/-- A context and the environment that it is used in. -/
structure Session where
  environment : Environment
  context : Context

namespace Session

/-- The session after one move. -/
def step (session : Session) : Move → Session
  | .act action =>
      { session with context := (session.context.act session.environment action).2 }
  | .exchange env => { session with environment := env }

/-- The session after any number of moves. -/
def after (session : Session) (moves : List Move) : Session := moves.foldl step session

theorem source_step (session : Session) (move : Move) :
    (session.step move).context.source = session.context.source := by
  cases move with
  | act action => exact source_act ..
  | exchange env => rfl

/-- A context keeps the text that it was made for. -/
theorem source_after (session : Session) (moves : List Move) :
    (session.after moves).context.source = session.context.source := by
  induction moves generalizing session with
  | nil => rfl
  | cons move moves ih => exact (ih (session.step move)).trans (session.source_step move)

end Session

end Context

/-- Whatever was done with a context of an accepted condition, and however often the environment was
exchanged: once everything is forgotten, the context answers like one that was just made, and once
a tree is forgotten, it does so about this tree and knows of the others what it knew. -/
theorem Condition.reset_renews {text : String} {policy : Policy} {condition : Condition}
    (hparse : parse text policy = .ok condition) {env : Environment} {context : Context}
    (hfresh : context.Fresh condition env) (moves : List Context.Move) :
    let session := (Context.Session.mk env context).after moves
    session.context.reset.Renewed condition session.environment condition.root ∧
      ∀ n ∈ condition.root.nodes,
        session.context.Forgets condition session.environment n := by
  intro session
  have hids := nodup_ids hparse
  have hsound : context.Sound condition condition.root.labels env := .of_fresh hfresh
  have hsource : session.context.source = condition.text :=
    (Context.Session.source_after _ moves).trans hsound.source
  refine ⟨?_, fun n hn => Context.forgets hids hn hsource⟩
  exact Context.renewed_of_unknown hids (Expr.self_mem_nodes _) hsource fun id _ =>
    Memo.get_empty id

/-- A comparison of a property with a letter. -/
def Expr.lettered (id start : Nat) (name letter : String) : Expr :=
  .comparison ⟨id + 2, ⟨start, start + 11⟩, false⟩ .equal
    (.leaf ⟨⟨id, ⟨start, start + 6⟩, false⟩, .string ("$(" ++ name ++ ")") true⟩)
    (.leaf ⟨⟨id + 1, ⟨start + 8, start + 11⟩, false⟩, .string letter false⟩)

/-- Two comparisons with letters. -/
def Condition.both : Condition where
  text := "'$(A)'=='x'and'$(B)'=='y'"
  root := .logical ⟨6, ⟨0, 25⟩, false⟩ .and (.lettered 0 0 "A" "x") (.lettered 3 14 "B" "y")
  nodeCount := 7

/-- An environment with two properties. -/
def Environment.ofLetters (a b : String) : Environment :=
  { constant b with property := fun name => .ok (if name = "A" then a else b) }

/-- The comparison that is forgotten sees the new environment, and the other one is still answered
from what is known. -/
theorem Condition.reset_renews_both :
    let env := Environment.ofLetters "z" "w"
    let session := (Context.Session.mk (.ofLetters "x" "y") (.ofCondition both)).after
      [.act (.ask .evaluate both.root), .exchange env]
    let left := Expr.lettered 0 0 "A" "x"
    let right := Expr.lettered 3 14 "B" "y"
    parse both.text .everything = .ok both ∧
      session.context.reset.Renewed both env both.root ∧
      session.context.Forgets both env left ∧
      (session.context.run env left.evaluate).1.outcome = .ok true ∧
      ((session.context.forget left).run env left.evaluate).1.outcome = .ok false ∧
      ((session.context.forget left).run env right.evaluate).1.outcome = .ok true ∧
      Event.questions ((session.context.forget left).run env right.evaluate).1.events = [] := by
  intro env session left right
  have hparse : parse both.text .everything = .ok both := by decide +kernel
  have hleft : left ∈ both.root.nodes := by decide +kernel
  have hfresh : (Context.ofCondition both).Fresh both (.ofLetters "x" "y") := .ofCondition
  obtain ⟨hreset, hforgets⟩ :=
    reset_renews hparse hfresh [.act (.ask .evaluate both.root), .exchange env]
  exact ⟨hparse, hreset, hforgets left hleft, by decide +kernel, by decide +kernel,
    by decide +kernel, by decide +kernel⟩

end CondLang
