import CondLang.Proofs.Evaluation.Faithful
import CondLang.Proofs.Evaluation.Leaves
import CondLang.Proofs.Expansion

/-!
# The answers of evaluations with a memo

From a faithful memo each function of the evaluation answers what it answers without a memory, and
the memo after it is faithful.  There is one lemma for each function, which goes through its steps
in order.
-/

namespace CondLang

open EvalM (Answers)

variable {s : Setting} {labels : Labels} {promised : Prop}

/-! ## Leaves -/

namespace LeafNode.Fits

variable {node : LeafNode}

theorem expanded (h : node.Fits labels promised) :
    Answers s labels promised node.expanded (node.leaf.expandedIn s) := by
  unfold LeafNode.expanded
  split
  · next hexpandable =>
    have hexpanded : node.leaf.expandedIn s = (expand s.environment node.leaf.text).mapError
        fun cause => s.failure (.expansion node.leaf.text cause) := if_pos hexpandable
    refine .known_bind fun slot hslot => ?_
    split
    · next text htext =>
      exact .pure_of_eq fun hpromised => (hslot _ (h.labelled hpromised)).expanded text htext
    · refine .setting_bind fun _ => .then_bind (.emit _) ?_
      rw [expand] at hexpanded
      split
      · next cause hcause =>
        rw [hcause] at hexpanded
        rw [hexpanded]
        exact .fail _
      · next text htext =>
        rw [htext] at hexpanded
        rw [hexpanded]
        refine .then_bind (.keep fun leaf hleaf slot hslot => ?_) (.pure text)
        obtain rfl := h.leaf_eq hleaf
        refine ⟨fun text' htext' => ?_, hslot.number, hslot.version⟩
        cases htext'
        exact hexpanded
  · next hplain =>
    have hexpanded : node.leaf.expandedIn s = .ok node.leaf.text := if_neg hplain
    rw [hexpanded]
    exact .pure _

theorem isEmpty (h : node.Fits labels promised) :
    Answers s labels promised node.isEmpty (node.leaf.isEmptyIn s) := by
  have hexpanded : Answers s labels promised (return (← node.expanded).isEmpty)
      (return (← node.leaf.expandedIn s).isEmpty) := h.expanded.bind fun _ _ => .pure _
  unfold LeafNode.isEmpty
  rcases node with ⟨mark, ⟨text, _ | _⟩ | text | ⟨kind, text⟩⟩
  · exact .pure _
  · exact hexpanded
  · exact .pure _
  · exact hexpanded

theorem readAs {α : Type} (h : node.Fits labels promised) (read : String → Option α) :
    Answers s labels promised (node.readAs read) (node.leaf.readIn s read) := by
  refine h.isEmpty.bind fun empty _ => ?_
  split
  · exact .pure _
  · exact h.expanded.bind fun text _ => .pure _

theorem number? (h : node.Fits labels promised) :
    Answers s labels promised node.number? (node.leaf.numberIn s) := by
  refine Answers.mono ?_ h.labelled
  refine .known_bind fun slot hslot => ?_
  split
  · next number hnumber => exact .pure_of_eq fun hlabel => (hslot _ hlabel).number number hnumber
  · refine (h.alone.readAs Decimal.parse?).bind_answer fun number hnumber => ?_
    refine .then_bind (.keep fun leaf hleaf slot hslot => ?_) (.pure _)
    obtain rfl := h.leaf_eq hleaf
    refine ⟨hslot.expanded, fun number' hnumber' => ?_, hslot.version⟩
    cases hnumber'
    exact hnumber hleaf

theorem version? (h : node.Fits labels promised) :
    Answers s labels promised node.version? (node.leaf.versionIn s) := by
  refine Answers.mono ?_ h.labelled
  refine .known_bind fun slot hslot => ?_
  split
  · next version hversion =>
    exact .pure_of_eq fun hlabel => (hslot _ hlabel).version version hversion
  · refine (h.alone.readAs Version.parse?).bind_answer fun version hversion => ?_
    refine .then_bind (.keep fun leaf hleaf slot hslot => ?_) (.pure _)
    obtain rfl := h.leaf_eq hleaf
    refine ⟨hslot.expanded, hslot.number, fun version' hversion' => ?_⟩
    cases hversion'
    exact hversion hleaf

theorem canBoolean (h : node.Fits labels promised) :
    Answers s labels promised node.canBoolean (node.leaf.canBooleanIn s) := by
  have hexpanded : Answers s labels promised (return (Value.boolean? (← node.expanded)).isSome)
      (return (Value.boolean? (← node.leaf.expandedIn s)).isSome) :=
    h.expanded.bind fun _ _ => .pure _
  unfold LeafNode.canBoolean
  rcases node with ⟨mark, ⟨text, expandable⟩ | text | ⟨kind, text⟩⟩
  · exact hexpanded
  · exact .pure _
  · exact hexpanded

theorem boolean (h : node.Fits labels promised) :
    Answers s labels promised node.boolean (node.leaf.booleanIn s) := by
  refine h.expanded.bind fun text _ => ?_
  cases Value.boolean? text with
  | some value => exact .pure value
  | none => exact .fail _

end LeafNode.Fits

/-! ## Trees -/

namespace Expr

/-- Each leaf bears its label, or some bear none and nothing is promised. -/
def Fits (labels : Labels) (promised : Prop) (e : Expr) : Prop :=
  ∀ node ∈ e.leaves, node.Fits labels promised

namespace Fits

variable {e left right : Expr}

theorem leaf_node {node : LeafNode} (h : (leaf node).Fits labels promised) :
    node.Fits labels promised := h node (List.mem_singleton_self node)

theorem logical_left {mark : Mark} {op : Connective}
    (h : (logical mark op left right).Fits labels promised) : left.Fits labels promised :=
  fun node hnode => h node (List.mem_append_left _ hnode)

theorem logical_right {mark : Mark} {op : Connective}
    (h : (logical mark op left right).Fits labels promised) : right.Fits labels promised :=
  fun node hnode => h node (List.mem_append_right _ hnode)

theorem comparison_left {mark : Mark} {op : Relation}
    (h : (comparison mark op left right).Fits labels promised) : left.Fits labels promised :=
  fun node hnode => h node (List.mem_append_left _ hnode)

theorem comparison_right {mark : Mark} {op : Relation}
    (h : (comparison mark op left right).Fits labels promised) : right.Fits labels promised :=
  fun node hnode => h node (List.mem_append_right _ hnode)

/-! ### Texts, numbers and versions -/

theorem expanded (h : e.Fits labels promised) :
    Answers s labels promised e.expanded (e.expandedIn s) := by
  induction e with
  | leaf node => exact h.leaf_node.expanded
  | call => exact .setting_bind fun _ => .pure _
  | not mark operand ih => exact (ih h).bind fun _ _ => .pure _
  | logical => exact .setting_bind fun _ => .pure _
  | comparison => exact .setting_bind fun _ => .pure _

theorem isEmpty (h : e.Fits labels promised) :
    Answers s labels promised e.isEmpty (e.isEmptyIn s) := by
  cases e with
  | leaf node => exact h.leaf_node.isEmpty
  | _ => exact .pure _

theorem number? (h : e.Fits labels promised) :
    Answers s labels promised e.number? (e.numberIn? s) := by
  cases e with
  | leaf node => exact h.leaf_node.number?
  | _ => exact .pure _

theorem version? (h : e.Fits labels promised) :
    Answers s labels promised e.version? (e.versionIn? s) := by
  cases e with
  | leaf node => exact h.leaf_node.version?
  | _ => exact .pure _

theorem failCoercion {α : Type} (h : e.Fits labels promised) (domain : Domain) :
    Answers s labels promised (e.failCoercion domain : EvalM α) (e.coercionErrorIn s domain) :=
  h.expanded.bind fun _ _ => .fail _

theorem number (h : e.Fits labels promised) :
    Answers s labels promised e.number (e.numberIn s) := by
  refine h.number?.bind fun number _ => ?_
  cases number with
  | some number => exact .pure number
  | none => exact h.failCoercion .number

theorem version (h : e.Fits labels promised) :
    Answers s labels promised e.version (e.versionIn s) := by
  refine h.version?.bind fun version _ => ?_
  cases version with
  | some version => exact .pure version
  | none => exact h.failCoercion .version

theorem canBoolean (h : e.Fits labels promised) :
    Answers s labels promised e.canBoolean (e.canBooleanIn s) := by
  induction e with
  | leaf node => exact h.leaf_node.canBoolean
  | not mark operand ih => exact ih h
  | call | logical | comparison => exact .pure _

/-! ### Comparing -/

theorem isOrdered (h : e.Fits labels promised) :
    Answers s labels promised e.isOrdered (e.isOrderedIn s) := by
  refine h.number?.bind fun number _ => ?_
  split
  · exact .pure _
  · exact h.version?.bind fun _ _ => .pure _

theorem culprit (h : e.Fits labels promised) :
    Answers s labels promised (Expr.culprit e) (culpritIn s e) :=
  h.isOrdered.bind fun _ _ => .pure _

theorem compareTexts (op : Relation) (hleft : left.Fits labels promised)
    (hright : right.Fits labels promised) :
    Answers s labels promised (Expr.compareTexts op left right)
      (compareTextsIn s op left right) := by
  refine hleft.expanded.bind fun l _ => hright.expanded.bind fun r _ => ?_
  split
  · exact hleft.culprit.bind fun _ _ => .fail _
  · exact .then_bind (.note _) (.pure _)

theorem compareVersions (op : Relation) (hleft : left.Fits labels promised)
    (hright : right.Fits labels promised) :
    Answers s labels promised (Expr.compareVersions op left right)
      (compareVersionsIn s op left right) := by
  refine hleft.version?.bind fun l _ => hright.version?.bind fun r _ => ?_
  cases l with
  | none => exact compareTexts op hleft hright
  | some l =>
    cases r with
    | none => exact compareTexts op hleft hright
    | some r => exact .then_bind (.note _) (.pure _)

theorem compareLeaves (op : Relation) (hleft : left.Fits labels promised)
    (hright : right.Fits labels promised) :
    Answers s labels promised (Expr.compareLeaves op left right)
      (compareLeavesIn s op left right) := by
  refine hleft.number?.bind fun l _ => hright.number?.bind fun r _ => ?_
  cases l with
  | none => exact compareVersions op hleft hright
  | some l =>
    cases r with
    | none => exact compareVersions op hleft hright
    | some r => exact .then_bind (.note _) (.pure _)

theorem requireBoolean (h : e.Fits labels promised) :
    Answers s labels promised e.requireBoolean (e.requireBooleanIn s) := by
  refine h.canBoolean.bind fun able _ => ?_
  split
  · exact .pure _
  · exact h.failCoercion .boolean

end Fits

/-! ### Recording -/

/-- A leaf without references can always be expanded. -/
theorem expandedIn_of_isLiteral {e : Expr} (h : e.isLiteral = true) :
    ∃ text, e.expandedIn s = .ok text := by
  cases e with
  | leaf node =>
    have hplain : holdsReference node.leaf.text = false := by
      simpa [isLiteral] using h
    rw [expandedIn, Leaf.expandedIn, expand_of_not_holdsReference _ hplain]
    split
    · exact ⟨_, rfl⟩
    · exact ⟨_, rfl⟩
  | _ => cases h

namespace Fits

variable {e left right : Expr}

theorem record {pattern literal : Expr} (hliteral : literal.isLiteral = true)
    (h : literal.Fits labels promised) :
    Answers s labels promised (recordCompared.record pattern literal) (.ok ()) := by
  obtain ⟨text, htext⟩ := expandedIn_of_isLiteral (s := s) hliteral
  have hexpanded := h.expanded (s := s)
  rw [htext] at hexpanded
  exact .setting_bind fun _ => hexpanded.bind fun _ _ => .emit _

/-- What is recorded has no part in the answer. -/
theorem recordCompared (hleft : left.Fits labels promised) (hright : right.Fits labels promised) :
    Answers s labels promised (Expr.recordCompared left right) (.ok ()) := by
  refine .setting_bind fun recording => ?_
  split
  · split
    · next h => exact record (Bool.and_eq_true_iff.1 h).2 hright
    · split
      · next h => exact record (Bool.and_eq_true_iff.1 h).2 hleft
      · exact .pure ()
  · exact .pure ()

/-! ### Calls -/

theorem apply (function : Builtin) (argument : String) :
    Answers s labels promised (function.apply argument) (.ok (function.applyIn s argument)) := by
  cases function with
  | hasTrailingSlash => exact .pure _
  | pathExists =>
    show Answers s labels promised (askPath (Text.trim argument)) _
    rw [askPath]
    split
    · next hempty =>
      rw [Builtin.applyIn, hempty]
      exact .pure _
    · next hpath =>
      rw [Bool.not_eq_true] at hpath
      rw [Builtin.applyIn, hpath]
      exact .then_bind (.emit _) (.setting_bind fun _ => .pure _)

theorem call {mark : Mark} {name : String} {arguments : List LeafNode}
    (h : (Expr.call mark name arguments).Fits labels promised) :
    Answers s labels promised (callFunction name arguments) (callIn s name arguments) := by
  unfold callFunction callIn
  cases builtin? name with
  | none => exact .fail _
  | some function =>
    rcases arguments with _ | ⟨argument, _ | ⟨second, others⟩⟩
    · exact .fail _
    · have hargument := (h argument (List.mem_singleton_self argument)).expanded (s := s)
      refine hargument.bind fun text _ => ?_
      exact (apply function text).bind fun result _ => .then_bind (.note _) (.pure _)
    · exact .fail _

/-! ### Truth values -/

theorem operand (op : Connective) (side : Side) {boolean : EvalM Bool}
    {answer : Except EvalError Bool} (h : e.Fits labels promised)
    (hboolean : Answers s labels promised boolean answer) :
    Answers s labels promised (Expr.operand op side e boolean) (operandIn s op side e answer) := by
  refine h.canBoolean.bind fun able _ => ?_
  split
  · exact hboolean
  · exact .setting_bind fun _ => h.expanded.bind fun _ _ => .fail _

theorem boolean (h : e.Fits labels promised) :
    Answers s labels promised e.boolean (e.booleanIn s) := by
  induction e with
  | leaf node => exact h.leaf_node.boolean
  | call mark name arguments => exact h.call
  | not mark inner ih => exact (ih h).bind fun _ _ => .pure _
  | logical mark op left right ihl ihr =>
    have hleft := h.logical_left
    have hright := h.logical_right
    refine (operand op .left hleft (ihl hleft)).bind fun l _ => ?_
    split
    · exact .then_bind (.note _) (.pure _)
    · exact operand op .right hright (ihr hright)
  | comparison mark op left right ihl ihr =>
    have hleft := h.comparison_left
    have hright := h.comparison_right
    rw [Expr.boolean, booleanIn]
    refine .when_bind (hleft.recordCompared hright) ?_
    split
    · exact compareLeaves op hleft hright
    · split
      · exact hleft.culprit.bind fun side _ => .setting_bind fun _ => .fail _
      · refine hleft.requireBoolean.bind fun _ _ => hright.requireBoolean.bind fun _ _ => ?_
        refine (ihl hleft).bind fun l _ => (ihr hright).bind fun r _ => ?_
        exact .then_bind (.note _) (.pure _)

theorem evaluate (h : e.Fits labels promised) :
    Answers s labels promised e.evaluate (e.evaluateIn s) := by
  refine h.canBoolean.bind fun able _ => ?_
  split
  · exact h.boolean
  · exact h.expanded.bind fun _ _ => .fail _

end Fits

end Expr

end CondLang
