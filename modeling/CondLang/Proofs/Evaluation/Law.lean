import CondLang.Evaluation
import CondLang.Proofs.Evaluation.Leaves

/-!
# Laws of evaluation

An evaluation is put together from what is found out about its leaves, from calls of functions and
from what is recorded of its comparisons.  A property that passes to steps in sequence, and that
holds of these, holds of the evaluation (`EvalM.Compositional.evaluate`).

A law is such a property which the primitive steps have, too.  Then it suffices that it holds of the
expansion of leaves and of calls of functions (`EvalM.Law.follows`).

A leaf may be expanded any number of times on the way, but each call of a tree is made once at most.
Properties can tell the difference: they are told what arguments of calls a step may use up, and
steps in sequence share them out.
-/

namespace CondLang

/-- A property of steps, given the arguments of calls that a step may use up. -/
abbrev StepProperty : Type 1 := (α : Type) → List LeafNode → EvalM α → Prop

namespace EvalM

/-- A property of steps that passes to steps in sequence, and which messages and notes have. -/
structure Compositional (P : StepProperty) : Prop where
  weaken {α : Type} {arguments : List LeafNode} {step : EvalM α} (h : P α [] step) :
    P α arguments step
  pure {α : Type} (a : α) : P α [] (pure a)
  fail {α : Type} (kind : EvalErrorKind) : P α [] (fail kind)
  bind {α β : Type} {front back : List LeafNode} {step : EvalM α} {next : α → EvalM β}
    (hstep : P α front step) (hnext : ∀ a, P β back (next a)) :
    P β (front ++ back) (step >>= next)
  source {α : Type} {next : Setting → EvalM α} (hnext : ∀ s, P α [] (next s))
    (hsame : ∀ s s', s.source = s'.source → next s = next s') : P α [] (setting >>= next)
  note (n : Note) : P Unit [] (note n)

/-- A property of steps that passes from the primitive steps to all steps. -/
structure Law (P : StepProperty) : Prop extends Compositional P where
  setting {α : Type} {next : Setting → EvalM α} (hnext : ∀ s, P α [] (next s))
    (hsame : ∀ s s', s.source = s'.source → s.recording = s'.recording → next s = next s') :
    P α [] (setting >>= next)
  source hnext hsame := setting hnext fun s s' hsource _ => hsame s s' hsource
  known (id : Nat) : P NodeMemo [] (known id)
  keepNumber (id : Nat) (number : Option Decimal) :
    P Unit [] (keep id fun memo => { memo with number := some number })
  keepVersion (id : Nat) (version : Option Version) :
    P Unit [] (keep id fun memo => { memo with version := some version })
  recorded (records : List (String × String)) :
    P Unit [] (emit (records.map fun (name, value) => .recorded name value))

end EvalM

/-- A property holds of what is found out about a leaf. -/
structure LeafNode.Follows (P : StepProperty) (node : LeafNode) : Prop where
  expanded : P _ [] node.expanded
  number? : P _ [] node.number?
  version? : P _ [] node.version?

namespace Expr

/-- A property holds of what is found out about each operand of a tree, of each call, which uses up
its arguments, and of what is recorded of each comparison by `==` or `!=`. -/
def Follows (P : StepProperty) : Expr → Prop
  | leaf node => node.Follows P
  | call _ name arguments => P Bool arguments (callFunction name arguments)
  | not _ operand => operand.Follows P
  | logical _ _ left right => left.Follows P ∧ right.Follows P
  | comparison _ op left right =>
      left.Follows P ∧ right.Follows P ∧
        (op.isEquality = true → P Unit [] (recordCompared left right))

/-- A property holds of the expansion of each operand of a tree, and of each call, which uses up its
arguments. -/
def Obeys (P : StepProperty) : Expr → Prop
  | leaf node => P String [] node.expanded
  | call _ name arguments => P Bool arguments (callFunction name arguments)
  | not _ operand => operand.Obeys P
  | logical _ _ left right => left.Obeys P ∧ right.Obeys P
  | comparison _ _ left right => left.Obeys P ∧ right.Obeys P

theorem obeys_of {P : StepProperty} {e : Expr}
    (hoperands : ∀ node ∈ e.operands, P String [] node.expanded)
    (hcalls : ∀ mark name arguments, call mark name arguments ∈ e.nodes →
      P Bool arguments (callFunction name arguments)) : e.Obeys P := by
  induction e with
  | leaf node => exact hoperands node (List.mem_singleton_self node)
  | call mark name arguments => exact hcalls mark name arguments (self_mem_nodes _)
  | not mark operand ih =>
    exact ih hoperands fun mark name arguments hcall =>
      hcalls mark name arguments (List.mem_cons_of_mem _ hcall)
  | logical mark op left right ihl ihr | comparison mark op left right ihl ihr =>
    refine ⟨ihl (fun node hnode => hoperands node (List.mem_append_left _ hnode)) ?_,
      ihr (fun node hnode => hoperands node (List.mem_append_right _ hnode)) ?_⟩
    · exact fun mark name arguments hcall => hcalls mark name arguments
        (List.mem_cons_of_mem _ (List.mem_append_left _ hcall))
    · exact fun mark name arguments hcall => hcalls mark name arguments
        (List.mem_cons_of_mem _ (List.mem_append_right _ hcall))

end Expr

namespace EvalM.Compositional

variable {P : StepProperty} {α β : Type} {arguments : List LeafNode} {e left right : Expr}

/-- A step that uses up arguments may be followed by one that does not. -/
theorem bind_left (hP : Compositional P) {step : EvalM α} {next : α → EvalM β}
    (h : P α arguments step) (hnext : ∀ a, P β [] (next a)) : P β arguments (step >>= next) := by
  have hbind := hP.bind h hnext
  rwa [List.append_nil] at hbind

/-- A step that uses up no arguments leaves them all to the next one. -/
theorem bind_right (hP : Compositional P) {step : EvalM α} {next : α → EvalM β}
    (h : P α [] step) (hnext : ∀ a, P β arguments (next a)) : P β arguments (step >>= next) :=
  hP.bind h hnext

theorem when_bind (hP : Compositional P) {condition : Prop} [Decidable condition]
    {step : EvalM Unit} {next : Unit → EvalM α} (hstep : condition → P Unit [] step)
    (hnext : P α arguments (next ())) :
    P α arguments (if condition then step >>= next else next ()) := by
  split
  · next h => exact hP.bind_right (hstep h) fun _ => hnext
  · exact hnext

/-- A call fails unless it gives one argument to a function that there is. -/
theorem call (hP : Compositional P) {name : String}
    (h : ∀ function argument, Expr.builtin? name = some function → arguments = [argument] →
      P Bool arguments (Expr.callFunction name arguments)) :
    P Bool arguments (Expr.callFunction name arguments) := by
  cases hfunction : Expr.builtin? name with
  | none =>
    unfold Expr.callFunction
    rw [hfunction]
    exact hP.weaken (hP.fail _)
  | some function =>
    rcases arguments with _ | ⟨argument, _ | ⟨second, others⟩⟩
    · unfold Expr.callFunction
      rw [hfunction]
      exact hP.weaken (hP.fail _)
    · exact h function argument hfunction rfl
    · unfold Expr.callFunction
      rw [hfunction]
      exact hP.weaken (hP.fail _)

/-- A path is looked up by asking for it and reading what the environment answers. -/
theorem askPath (hP : Compositional P) {path : String}
    (hasked : P _ [] (emit [.asked (.pathExists path)]))
    (hanswer : P _ [] (setting >>= fun s => Pure.pure (s.environment.pathExists path))) :
    P _ [] (Expr.askPath path) := by
  unfold Expr.askPath
  split
  · exact hP.pure _
  · exact hP.bind_right hasked fun _ => hanswer

/-- A call is put together from the expansion of its argument and from looking up a path. -/
theorem call_of_expanded (hP : Compositional P) (name : String)
    (hexpanded : ∀ argument ∈ arguments, P _ [] argument.expanded)
    (hpath : ∀ path, P _ [] (Expr.askPath path)) :
    P Bool arguments (Expr.callFunction name arguments) := by
  refine hP.call fun function argument hfunction harguments => ?_
  subst harguments
  have happly : ∀ text, P Bool [] (function.apply text) := by
    intro text
    cases function with
    | pathExists => exact hpath _
    | hasTrailingSlash => exact hP.pure _
  unfold Expr.callFunction
  rw [hfunction]
  refine hP.weaken (hP.bind_right (hexpanded argument (List.mem_singleton_self _)) fun text => ?_)
  refine hP.bind_right (happly text) fun result => ?_
  exact hP.bind_right (hP.note _) fun _ => hP.pure _

/-! ## Leaves -/

section

variable {node : LeafNode}

theorem leaf_isEmpty (hP : Compositional P) (h : P _ [] node.expanded) : P _ [] node.isEmpty := by
  have hexpanded : P _ [] (do return (← node.expanded).isEmpty : EvalM Bool) :=
    hP.bind_right h fun _ => hP.pure _
  unfold LeafNode.isEmpty
  rcases node with ⟨mark, ⟨text, _ | _⟩ | text | ⟨kind, text⟩⟩
  · exact hP.pure _
  · exact hexpanded
  · exact hP.pure _
  · exact hexpanded

theorem readAs (hP : Compositional P) (h : P _ [] node.expanded) (read : String → Option α) :
    P _ [] (node.readAs read) := by
  refine hP.bind_right (hP.leaf_isEmpty h) fun empty => ?_
  split
  · exact hP.pure _
  · exact hP.bind_right h fun _ => hP.pure _

/-- Of a leaf it suffices that a property holds of its expansion and of what touches its number. -/
theorem leaf_follows (hP : Compositional P) (h : P _ [] node.expanded)
    (hknown : P _ [] (known node.mark.id))
    (hnumber : ∀ number, P _ [] (keep node.mark.id fun memo => { memo with number := some number }))
    (hversion : ∀ version,
      P _ [] (keep node.mark.id fun memo => { memo with version := some version })) :
    node.Follows P where
  expanded := h
  number? := by
    refine hP.bind_right hknown fun slot => ?_
    split
    · exact hP.pure _
    · refine hP.bind_right (hP.readAs h _) fun number => ?_
      exact hP.bind_right (hnumber _) fun _ => hP.pure _
  version? := by
    refine hP.bind_right hknown fun slot => ?_
    split
    · exact hP.pure _
    · refine hP.bind_right (hP.readAs h _) fun version => ?_
      exact hP.bind_right (hversion _) fun _ => hP.pure _

theorem leaf_canBoolean (hP : Compositional P) (h : P _ [] node.expanded) :
    P _ [] node.canBoolean := by
  have hexpanded : P _ [] (do return (Value.boolean? (← node.expanded)).isSome : EvalM Bool) :=
    hP.bind_right h fun _ => hP.pure _
  unfold LeafNode.canBoolean
  rcases node with ⟨mark, ⟨text, expandable⟩ | text | ⟨kind, text⟩⟩
  · exact hexpanded
  · exact hP.pure _
  · exact hexpanded

theorem leaf_boolean (hP : Compositional P) (h : P _ [] node.expanded) : P _ [] node.boolean := by
  refine hP.bind_right h fun text => ?_
  split
  · exact hP.pure _
  · exact hP.fail _

end

/-! ## Texts, numbers and versions -/

theorem expanded (hP : Compositional P) (h : e.Follows P) : P _ [] e.expanded := by
  induction e with
  | leaf node => exact h.expanded
  | not mark operand ih => exact hP.bind_right (ih h) fun _ => hP.pure _
  | call | logical | comparison =>
    refine hP.source (fun _ => hP.pure _) fun s s' hsource => ?_
    rw [hsource]

theorem number? (hP : Compositional P) (h : e.Follows P) : P _ [] e.number? := by
  cases e with
  | leaf node => exact h.number?
  | _ => exact hP.pure _

theorem version? (hP : Compositional P) (h : e.Follows P) : P _ [] e.version? := by
  cases e with
  | leaf node => exact h.version?
  | _ => exact hP.pure _

theorem isEmpty (hP : Compositional P) (h : e.Follows P) : P _ [] e.isEmpty := by
  cases e with
  | leaf node => exact hP.leaf_isEmpty h.expanded
  | _ => exact hP.pure _

theorem canBoolean (hP : Compositional P) (h : e.Follows P) : P _ [] e.canBoolean := by
  induction e with
  | leaf node => exact hP.leaf_canBoolean h.expanded
  | not mark operand ih => exact ih h
  | call | logical | comparison => exact hP.pure _

theorem failCoercion (hP : Compositional P) (h : e.Follows P) (domain : Domain) :
    P α [] (e.failCoercion domain) := hP.bind_right (hP.expanded h) fun _ => hP.fail _

theorem number (hP : Compositional P) (h : e.Follows P) : P _ [] e.number := by
  refine hP.bind_right (hP.number? h) fun number => ?_
  split
  · exact hP.pure _
  · exact hP.failCoercion h .number

theorem version (hP : Compositional P) (h : e.Follows P) : P _ [] e.version := by
  refine hP.bind_right (hP.version? h) fun version => ?_
  split
  · exact hP.pure _
  · exact hP.failCoercion h .version

/-! ## Comparing -/

theorem isOrdered (hP : Compositional P) (h : e.Follows P) : P _ [] e.isOrdered := by
  refine hP.bind_right (hP.number? h) fun number => ?_
  split
  · exact hP.pure _
  · exact hP.bind_right (hP.version? h) fun _ => hP.pure _

theorem culprit (hP : Compositional P) (h : e.Follows P) : P _ [] (Expr.culprit e) :=
  hP.bind_right (hP.isOrdered h) fun _ => hP.pure _

theorem compareTexts (hP : Compositional P) (op : Relation) (hleft : left.Follows P)
    (hright : right.Follows P) : P _ [] (Expr.compareTexts op left right) := by
  refine hP.bind_right (hP.expanded hleft) fun l => ?_
  refine hP.bind_right (hP.expanded hright) fun r => ?_
  split
  · exact hP.bind_right (hP.culprit hleft) fun _ => hP.fail _
  · exact hP.bind_right (hP.note _) fun _ => hP.pure _

theorem compareVersions (hP : Compositional P) (op : Relation) (hleft : left.Follows P)
    (hright : right.Follows P) : P _ [] (Expr.compareVersions op left right) := by
  refine hP.bind_right (hP.version? hleft) fun l => ?_
  refine hP.bind_right (hP.version? hright) fun r => ?_
  split
  · exact hP.bind_right (hP.note _) fun _ => hP.pure _
  · exact hP.compareTexts op hleft hright

theorem compareLeaves (hP : Compositional P) (op : Relation) (hleft : left.Follows P)
    (hright : right.Follows P) : P _ [] (Expr.compareLeaves op left right) := by
  refine hP.bind_right (hP.number? hleft) fun l => ?_
  refine hP.bind_right (hP.number? hright) fun r => ?_
  split
  · exact hP.bind_right (hP.note _) fun _ => hP.pure _
  · exact hP.compareVersions op hleft hright

theorem requireBoolean (hP : Compositional P) (h : e.Follows P) : P _ [] e.requireBoolean := by
  refine hP.bind_right (hP.canBoolean h) fun able => ?_
  split
  · exact hP.pure _
  · exact hP.failCoercion h .boolean

/-! ## Truth values -/

theorem operand (hP : Compositional P) (op : Connective) (side : Side) (h : e.Follows P)
    {boolean : EvalM Bool} (hboolean : P _ arguments boolean) :
    P _ arguments (Expr.operand op side e boolean) := by
  refine hP.bind_right (hP.canBoolean h) fun able => ?_
  split
  · exact hboolean
  · refine hP.weaken (hP.source (fun s => ?_) fun s s' hsource => ?_)
    · exact hP.bind_right (hP.expanded h) fun _ => hP.fail _
    · rw [hsource]

theorem boolean (hP : Compositional P) (h : e.Follows P) : P _ e.arguments e.boolean := by
  induction e with
  | leaf node => exact hP.leaf_boolean h.expanded
  | call mark name arguments => exact h
  | not mark inner ih => exact hP.bind_left (ih h) fun _ => hP.pure _
  | logical mark op left right ihl ihr =>
    obtain ⟨hleft, hright⟩ := h
    refine hP.bind (hP.operand op .left hleft (ihl hleft)) fun l => ?_
    split
    · exact hP.weaken (hP.bind_right (hP.note _) fun _ => hP.pure _)
    · exact hP.operand op .right hright (ihr hright)
  | comparison mark op left right ihl ihr =>
    obtain ⟨hleft, hright, hrecord⟩ := h
    rw [Expr.boolean]
    refine hP.when_bind hrecord ?_
    split
    · exact hP.weaken (hP.compareLeaves op hleft hright)
    · split
      · refine hP.weaken (hP.bind_right (hP.culprit hleft) fun side => ?_)
        refine hP.source (fun _ => hP.fail _) fun s s' hsource => ?_
        rw [hsource]
      · refine hP.bind_right (hP.requireBoolean hleft) fun _ => ?_
        refine hP.bind_right (hP.requireBoolean hright) fun _ => ?_
        refine hP.bind (ihl hleft) fun l => hP.bind_left (ihr hright) fun r => ?_
        exact hP.bind_right (hP.note _) fun _ => hP.pure _

theorem evaluate (hP : Compositional P) (h : e.Follows P) : P _ e.arguments e.evaluate := by
  refine hP.bind_right (hP.canBoolean h) fun able => ?_
  split
  · exact hP.boolean h
  · exact hP.weaken (hP.bind_right (hP.expanded h) fun _ => hP.fail _)

end EvalM.Compositional

/-! ## Laws -/

namespace EvalM.Law

variable {P : StepProperty}

theorem leaf (hP : Law P) {node : LeafNode} (h : P _ [] node.expanded) : node.Follows P :=
  hP.leaf_follows h (hP.known _) (hP.keepNumber _) (hP.keepVersion _)

theorem record (hP : Law P) {pattern literal : Expr} (h : literal.Follows P) :
    P _ [] (Expr.recordCompared.record pattern literal) := by
  refine hP.source (fun s => ?_) fun s s' hsource => ?_
  · exact hP.bind_right (hP.expanded h) fun _ => hP.recorded _
  · rw [hsource]

theorem recordCompared (hP : Law P) {left right : Expr} (hleft : left.Follows P)
    (hright : right.Follows P) : P _ [] (Expr.recordCompared left right) := by
  refine hP.setting (fun s => ?_) fun s s' _ hrecording => ?_
  · split
    · split
      · exact hP.record hright
      · split
        · exact hP.record hleft
        · exact hP.pure ()
    · exact hP.pure ()
  · rw [hrecording]

/-- A law that holds of the expansion of leaves and of calls holds of all that an evaluation is put
together from. -/
theorem follows (hP : Law P) {e : Expr} (h : e.Obeys P) : e.Follows P := by
  induction e with
  | leaf node => exact hP.leaf h
  | call mark name arguments => exact h
  | not mark operand ih => exact ih h
  | logical mark op left right ihl ihr => exact ⟨ihl h.1, ihr h.2⟩
  | comparison mark op left right ihl ihr =>
    exact ⟨ihl h.1, ihr h.2, fun _ => hP.recordCompared (ihl h.1) (ihr h.2)⟩

end EvalM.Law

end CondLang
