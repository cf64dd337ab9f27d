import CondLang.Proofs.Evaluation.Equality
import CondLang.Proofs.Evaluation.Reset
import CondLang.Proofs.Parser.Leaves
import CondLang.Proofs.Value.Boolean

/-!
# What errors accuse

An error of an evaluation names a node of the condition that fails with this error by itself, and
what it says of the operands of that node is true (`Condition.justified_of_error`).  In particular
no text is said to be no truth value that is one.

An evaluation fails in several ways: where it asks whether a tree has a truth value, where it asks
for that value, and where it compares truth values.  `Fails` says of an answer that it can only be
an error of some sort.  Each function of the evaluation has one lemma of this form, which follows
its definition.
-/

namespace CondLang

/-! ## What is asked of a node by itself -/

/-- What a step ends with if nothing is known before. -/
def EvalM.afresh {α : Type} (step : EvalM α) (s : Setting) : Except EvalError α :=
  (step s .empty).outcome

theorem EvalM.Answers.afresh_eq {α : Type} {s : Setting} {labels : Labels} {step : EvalM α}
    {answer : Except EvalError α} (h : Answers s labels True step answer) :
    step.afresh s = answer :=
  (h s.recording .empty .empty).2 trivial

/-- The operand on a side. -/
def Side.operand {α : Type} (left right : α) : Side → α
  | .left => left
  | .right => right

namespace Expr

/-- A node of a tree fails with an error if it is evaluated by itself. -/
def Raises (s : Setting) (root node : Expr) (kind : EvalErrorKind) : Prop :=
  node ∈ root.nodes ∧ node.evaluate.afresh s = .error (s.failure kind)

/-- A tree is expanded to a text that has no truth value. -/
def LacksTruth (s : Setting) (e : Expr) (text : String) : Prop :=
  e.expanded.afresh s = .ok text ∧ Value.boolean? text = none

/-- A tree is a number. -/
def IsNumber (s : Setting) (e : Expr) : Prop := ∃ number, e.number?.afresh s = .ok (some number)

/-- A tree is a version. -/
def IsVersion (s : Setting) (e : Expr) : Prop :=
  ∃ version, e.version?.afresh s = .ok (some version)

/-- The texts by which an error shows two operands that it compares: leaves are expanded, and if one
operand is none, both are shown as they are written. -/
def Shows (s : Setting) (left right : Expr) (l r : String) : Prop :=
  if left.isLeaf && right.isLeaf then
    left.expanded.afresh s = .ok l ∧ right.expanded.afresh s = .ok r
  else l = left.unexpanded s.source ∧ r = right.unexpanded s.source

end Expr

/-- What an error says of a tree is true.  The whole or an operand that is said to be no truth value
is none, and if it is a right operand, the left one did not decide.  Values that are said to have no
common order are compared by one, are not both numbers and not both versions, and the left one is
accused just if it is neither.  A value that is not of the kind asked for is a truth value that is
missing where truth values are compared.  A function that is said to be unknown is, and one that is
said to be called with the wrong number of arguments is not called with one.  A text that is said
not to expand is that of a leaf. -/
def EvalErrorKind.Justified (s : Setting) (root : Expr) (kind : EvalErrorKind) : Prop :=
  match kind with
  | notBoolean expanded => root.LacksTruth s expanded
  | operandNotBoolean op side unexpanded expanded =>
      ∃ mark left right, root.Raises s (.logical mark op left right) kind ∧
        (side.operand left right).unexpanded s.source = unexpanded ∧
        (side.operand left right).LacksTruth s expanded ∧
        (side = .right → left.evaluate.afresh s = .ok (!op.decisive))
  | notComparable op side l r =>
      op.isOrdering = true ∧
        ∃ mark left right, root.Raises s (.comparison mark op left right) kind ∧
          ¬ (left.IsNumber s ∧ right.IsNumber s) ∧ ¬ (left.IsVersion s ∧ right.IsVersion s) ∧
          (side = .left ↔ ¬ left.IsNumber s ∧ ¬ left.IsVersion s) ∧ left.Shows s right l r
  | notCoercible domain expanded =>
      domain = .boolean ∧
        ∃ mark op left right, root.Raises s (.comparison mark op left right) kind ∧
          op.isEquality = true ∧ (left.isLeaf && right.isLeaf) = false ∧
          ∃ side : Side, (side.operand left right).LacksTruth s expanded
  | undefinedFunction name =>
      ∃ mark arguments, root.Raises s (.call mark name arguments) kind ∧
        Expr.builtin? name = none
  | incorrectArgumentCount name expected found =>
      ∃ mark arguments, root.Raises s (.call mark name arguments) kind ∧
        expected = 1 ∧ found = arguments.length ∧ found ≠ 1
  | expansion text cause =>
      ∃ node ∈ root.leaves, node.leaf.expandable = true ∧ node.leaf.text = text ∧
        expand s.environment text = .error cause

/-- An error of an evaluation in a setting is justified. -/
def EvalError.Justified (s : Setting) (root : Expr) (e : EvalError) : Prop :=
  ∃ kind, e = s.failure kind ∧ kind.Justified s root

/-! ## Answers that may be errors -/

/-- If an answer is an error, the error has a property. -/
def Fails {α : Type} (P : EvalError → Prop) (answer : Except EvalError α) : Prop :=
  ∀ e, answer = .error e → P e

namespace Fails

variable {α β : Type} {P : EvalError → Prop}

theorem ok (a : α) : Fails P (.ok a) := nofun

theorem error {e : EvalError} (h : P e) : Fails P (.error e : Except EvalError α) := by
  rintro _ ⟨⟩
  exact h

/-- Answers in sequence fail as the first one does, or as one behind what that is. -/
theorem bind {answer : Except EvalError α} {next : α → Except EvalError β}
    (hanswer : Fails P answer) (hnext : ∀ a, answer = .ok a → Fails P (next a)) :
    Fails P (answer >>= next) := by
  cases answer with
  | error e => exact .error (hanswer e rfl)
  | ok a => exact hnext a rfl

theorem bind_ok {answer : Except EvalError α} {next : α → β} (hanswer : Fails P answer) :
    Fails P (answer >>= fun a => .ok (next a)) := hanswer.bind fun _ _ => .ok _

/-- Of the error of a whole answer it may be assumed that the answer is this error. -/
theorem of_self {answer steps : Except EvalError α} (hsteps : answer = steps)
    (h : Fails (fun e => answer = .error e → P e) steps) : Fails P answer :=
  fun e he => h e (hsteps ▸ he) he

theorem weaken {Q : EvalError → Prop} {answer : Except EvalError α} (h : Fails P answer) :
    Fails (fun e => Q e → P e) answer := fun e he _ => h e he

end Fails

/-! ## Nodes of a tree -/

/-- A leaf that is said to have a truth value or not is a number, which has none, or is expanded and
has the one of its text. -/
theorem Leaf.canBooleanIn_eq_ok {s : Setting} {leaf : Leaf} {able : Bool}
    (h : leaf.canBooleanIn s = .ok able) :
    (∃ content, leaf = .number content ∧ able = false) ∨
      ∃ text, leaf.expandedIn s = .ok text ∧ (Value.boolean? text).isSome = able := by
  have hexpanded : (do return (Value.boolean? (← leaf.expandedIn s)).isSome :
      Except EvalError Bool) = .ok able →
      ∃ text, leaf.expandedIn s = .ok text ∧ (Value.boolean? text).isSome = able := by
    intro h
    rcases htext : leaf.expandedIn s with e | text <;> rw [htext] at h
    · cases h
    · exact ⟨text, rfl, Except.ok.inj h⟩
  rcases leaf with ⟨content, expandable⟩ | content | ⟨kind, content⟩
  · exact .inr (hexpanded h)
  · exact .inl ⟨content, rfl, (Except.ok.inj h).symm⟩
  · exact .inr (hexpanded h)

namespace Expr

variable {s : Setting} {root n left right : Expr} {mark : Mark}

theorem logical_left_mem {op : Connective} (hn : logical mark op left right ∈ root.nodes) :
    left ∈ root.nodes :=
  nodes_subset_of_mem hn (List.mem_cons_of_mem _ (List.mem_append_left _ (self_mem_nodes _)))

theorem logical_right_mem {op : Connective} (hn : logical mark op left right ∈ root.nodes) :
    right ∈ root.nodes :=
  nodes_subset_of_mem hn (List.mem_cons_of_mem _ (List.mem_append_right _ (self_mem_nodes _)))

theorem comparison_left_mem {op : Relation} (hn : comparison mark op left right ∈ root.nodes) :
    left ∈ root.nodes :=
  nodes_subset_of_mem hn (List.mem_cons_of_mem _ (List.mem_append_left _ (self_mem_nodes _)))

theorem comparison_right_mem {op : Relation} (hn : comparison mark op left right ∈ root.nodes) :
    right ∈ root.nodes :=
  nodes_subset_of_mem hn (List.mem_cons_of_mem _ (List.mem_append_right _ (self_mem_nodes _)))

theorem not_operand_mem (hn : not mark n ∈ root.nodes) : n ∈ root.nodes :=
  nodes_subset_of_mem hn (List.mem_cons_of_mem _ (self_mem_nodes _))

/-! ### Texts, numbers and versions -/

theorem fails_leaf {node : LeafNode} (hnode : leaf node ∈ root.nodes) :
    Fails (EvalError.Justified s root) (node.leaf.expandedIn s) := by
  unfold Leaf.expandedIn
  split
  · next hexpandable =>
    cases hexpand : expand s.environment node.leaf.text with
    | error cause =>
      exact .error ⟨_, rfl, node, leaf_mem_nodes_iff.1 hnode, hexpandable, rfl, hexpand⟩
    | ok text => exact .ok text
  · exact .ok _

theorem fails_readIn {node : LeafNode} (hnode : leaf node ∈ root.nodes) {α : Type}
    (read : String → Option α) :
    Fails (EvalError.Justified s root) (node.leaf.readIn s read) := by
  have hexpanded := fails_leaf (s := s) hnode
  have hempty : Fails (EvalError.Justified s root) (node.leaf.isEmptyIn s) := by
    rcases node with ⟨mark, ⟨content, expandable⟩ | content | ⟨kind, content⟩⟩
    · exact hexpanded.bind_ok
    · exact .ok _
    · exact hexpanded.bind_ok
  refine hempty.bind fun empty _ => ?_
  split
  · exact .ok _
  · exact hexpanded.bind_ok

theorem fails_expandedIn (hn : n ∈ root.nodes) :
    Fails (EvalError.Justified s root) (n.expandedIn s) := by
  induction n with
  | leaf node => exact fails_leaf hn
  | not mark operand ih => exact (ih (not_operand_mem hn)).bind_ok
  | call | logical | comparison => exact .ok _

theorem fails_numberIn? (hn : n ∈ root.nodes) :
    Fails (EvalError.Justified s root) (n.numberIn? s) := by
  cases n with
  | leaf node => exact fails_readIn hn _
  | _ => exact .ok _

theorem fails_versionIn? (hn : n ∈ root.nodes) :
    Fails (EvalError.Justified s root) (n.versionIn? s) := by
  cases n with
  | leaf node => exact fails_readIn hn _
  | _ => exact .ok _

theorem fails_canBooleanIn (hn : n ∈ root.nodes) :
    Fails (EvalError.Justified s root) (n.canBooleanIn s) := by
  induction n with
  | leaf node =>
    have hexpanded := fails_leaf (s := s) hn
    rcases node with ⟨mark, ⟨content, expandable⟩ | content | ⟨kind, content⟩⟩
    · exact hexpanded.bind_ok
    · exact .ok _
    · exact hexpanded.bind_ok
  | not mark operand ih => exact ih (not_operand_mem hn)
  | call | logical | comparison => exact .ok _

theorem fails_isOrderedIn (hn : n ∈ root.nodes) :
    Fails (EvalError.Justified s root) (n.isOrderedIn s) := by
  refine (fails_numberIn? hn).bind fun number _ => ?_
  split
  · exact .ok _
  · exact (fails_versionIn? hn).bind_ok

/-- Only leaves are numbers. -/
theorem isLeaf_of_isNumber (h : n.IsNumber s) : n.isLeaf = true := by
  obtain ⟨number, hnumber⟩ := h
  cases n with
  | leaf node => rfl
  | _ => cases hnumber

/-- Only leaves are versions. -/
theorem isLeaf_of_isVersion (h : n.IsVersion s) : n.isLeaf = true := by
  obtain ⟨version, hversion⟩ := h
  cases n with
  | leaf node => rfl
  | _ => cases hversion

theorem canBooleanIn_of_requireBooleanIn (hrequired : requireBooleanIn s n = .ok ()) :
    n.canBooleanIn s = .ok true := by
  unfold requireBooleanIn at hrequired
  rcases hcan : n.canBooleanIn s with e | _ | _ <;> rw [hcan] at hrequired
  · cases hrequired
  · unfold coercionErrorIn at hrequired
    rcases htext : n.expandedIn s with e | text <;> rw [htext] at hrequired <;> cases hrequired

/-- What is known of the trees of conditions: no two nodes have the same number, and no number has a
text with a truth value. -/
structure Parsed (root : Expr) : Prop where
  nodup : root.ids.Nodup
  number : ∀ node ∈ root.leaves, ∀ text, node.leaf = .number text → Value.boolean? text = none

namespace Parsed

variable (h : root.Parsed)
include h

/-! ### What a node is by itself -/

theorem afresh_expanded (hn : n ∈ root.nodes) : n.expanded.afresh s = n.expandedIn s :=
  (fits_labels h.nodup hn True).expanded.afresh_eq

theorem afresh_evaluate (hn : n ∈ root.nodes) : n.evaluate.afresh s = n.evaluateIn s :=
  (fits_labels h.nodup hn True).evaluate.afresh_eq

theorem isNumber_iff (hn : n ∈ root.nodes) :
    n.IsNumber s ↔ ∃ number, n.numberIn? s = .ok (some number) := by
  rw [IsNumber, (fits_labels h.nodup hn True).number?.afresh_eq]

theorem isVersion_iff (hn : n ∈ root.nodes) :
    n.IsVersion s ↔ ∃ version, n.versionIn? s = .ok (some version) := by
  rw [IsVersion, (fits_labels h.nodup hn True).version?.afresh_eq]

theorem raises {kind : EvalErrorKind} (hn : n ∈ root.nodes) (hcan : n.canBooleanIn s = .ok true)
    (herror : n.booleanIn s = .error (s.failure kind)) : root.Raises s n kind := by
  refine ⟨hn, ?_⟩
  rw [h.afresh_evaluate hn, evaluateIn, hcan]
  exact herror

/-- What has no truth value is expanded to a text that has none. -/
theorem lacksTruth {text : String} (hn : n ∈ root.nodes) (hcan : n.canBooleanIn s = .ok false)
    (htext : n.expandedIn s = .ok text) : n.LacksTruth s text := by
  refine ⟨(h.afresh_expanded hn).trans htext, ?_⟩
  cases n with
  | leaf node =>
    rcases Leaf.canBooleanIn_eq_ok hcan with ⟨content, hleaf, -⟩ | ⟨content, hcontent, hnone⟩
    · rw [expandedIn, hleaf] at htext
      obtain rfl : content = text := Except.ok.inj htext
      exact h.number node (leaf_mem_nodes_iff.1 hn) content hleaf
    · obtain rfl : content = text := Except.ok.inj (hcontent.symm.trans htext)
      exact Option.not_isSome_iff_eq_none.1 (Bool.eq_false_iff.1 hnone)
  | not mark operand =>
    rw [expandedIn] at htext
    cases hoperand : operand.expandedIn s with
    | error e =>
      rw [hoperand] at htext
      cases htext
    | ok content =>
      rw [hoperand] at htext
      obtain rfl := Except.ok.inj htext
      exact Value.boolean?_negated content
  | call | logical | comparison => cases hcan

/-! ### Comparing -/

variable {op : Relation}

/-- The side that is accused is the left one just if what stands there is neither a number nor a
version. -/
theorem culprit_iff {side : Side} (hleft : left ∈ root.nodes)
    (hside : culpritIn s left = .ok side) :
    side = .left ↔ ¬ left.IsNumber s ∧ ¬ left.IsVersion s := by
  rw [h.isNumber_iff hleft, h.isVersion_iff hleft]
  unfold culpritIn isOrderedIn at hside
  rcases hnumber : left.numberIn? s with e | _ | number <;> rw [hnumber] at hside
  · cases hside
  · rcases hversion : left.versionIn? s with e | _ | version <;> rw [hversion] at hside
    · cases hside
    · obtain rfl : Side.left = side := Except.ok.inj hside
      exact iff_of_true rfl ⟨nofun, nofun⟩
    · obtain rfl : Side.right = side := Except.ok.inj hside
      exact iff_of_false nofun fun hneither => hneither.2 ⟨version, rfl⟩
  · obtain rfl : Side.right = side := Except.ok.inj hside
    exact iff_of_false nofun fun hneither => hneither.1 ⟨number, rfl⟩

/-- Comparing leaves that are not both numbers and not both versions. -/
theorem fails_compareTextsIn (hn : comparison mark op left right ∈ root.nodes)
    (hleaves : (left.isLeaf && right.isLeaf) = true)
    (hnumbers : ¬ (left.IsNumber s ∧ right.IsNumber s))
    (hversions : ¬ (left.IsVersion s ∧ right.IsVersion s)) :
    Fails (fun e => (comparison mark op left right).booleanIn s = .error e → e.Justified s root)
      (compareTextsIn s op left right) := by
  have hleft := comparison_left_mem hn
  have hright := comparison_right_mem hn
  refine (fails_expandedIn hleft).weaken.bind fun l hl => ?_
  refine (fails_expandedIn hright).weaken.bind fun r hr => ?_
  split
  · next hop =>
    refine (fails_isOrderedIn hleft).bind_ok.weaken.bind fun side hside => ?_
    refine .error fun herror => ⟨_, rfl, hop, mark, left, right, h.raises hn rfl herror, hnumbers,
      hversions, h.culprit_iff hleft hside, ?_⟩
    rw [Shows, if_pos hleaves, h.afresh_expanded hleft, h.afresh_expanded hright]
    exact ⟨hl, hr⟩
  · exact .ok _

theorem fails_compareVersionsIn (hn : comparison mark op left right ∈ root.nodes)
    (hleaves : (left.isLeaf && right.isLeaf) = true)
    (hnumbers : ¬ (left.IsNumber s ∧ right.IsNumber s)) :
    Fails (fun e => (comparison mark op left right).booleanIn s = .error e → e.Justified s root)
      (compareVersionsIn s op left right) := by
  have hleft := comparison_left_mem hn
  have hright := comparison_right_mem hn
  refine (fails_versionIn? hleft).weaken.bind fun l hl => ?_
  refine (fails_versionIn? hright).weaken.bind fun r hr => ?_
  split
  · exact .ok _
  · next hnot =>
    refine h.fails_compareTextsIn hn hleaves hnumbers ?_
    rw [h.isVersion_iff hleft, h.isVersion_iff hright, hl, hr]
    rintro ⟨⟨v, hv⟩, w, hw⟩
    exact hnot v w (Except.ok.inj hv) (Except.ok.inj hw)

theorem fails_compareLeavesIn (hn : comparison mark op left right ∈ root.nodes)
    (hleaves : (left.isLeaf && right.isLeaf) = true) :
    Fails (fun e => (comparison mark op left right).booleanIn s = .error e → e.Justified s root)
      (compareLeavesIn s op left right) := by
  have hleft := comparison_left_mem hn
  have hright := comparison_right_mem hn
  refine (fails_numberIn? hleft).weaken.bind fun l hl => ?_
  refine (fails_numberIn? hright).weaken.bind fun r hr => ?_
  split
  · exact .ok _
  · next hnot =>
    refine h.fails_compareVersionsIn hn hleaves ?_
    rw [h.isNumber_iff hleft, h.isNumber_iff hright, hl, hr]
    rintro ⟨⟨x, hx⟩, y, hy⟩
    exact hnot x y (Except.ok.inj hx) (Except.ok.inj hy)

/-- Asking for the truth value of an operand of a comparison. -/
theorem fails_requireBooleanIn (hn : comparison mark op left right ∈ root.nodes)
    (hop : op.isEquality = true) (hleaves : (left.isLeaf && right.isLeaf) = false) (side : Side)
    (hside : side.operand left right ∈ root.nodes) :
    Fails (fun e => (comparison mark op left right).booleanIn s = .error e → e.Justified s root)
      (requireBooleanIn s (side.operand left right)) := by
  refine (fails_canBooleanIn hside).weaken.bind fun able hable => ?_
  split
  · exact .ok _
  · next hunable =>
    refine (fails_expandedIn hside).weaken.bind fun text htext => ?_
    obtain rfl := Bool.not_eq_true _ ▸ hunable
    exact .error fun herror => ⟨_, rfl, rfl, mark, op, left, right, h.raises hn rfl herror, hop,
      hleaves, side, h.lacksTruth hside hable htext⟩

theorem fails_comparison (hn : comparison mark op left right ∈ root.nodes)
    (hbooleanLeft : left.canBooleanIn s = .ok true →
      Fails (EvalError.Justified s root) (left.booleanIn s))
    (hbooleanRight : right.canBooleanIn s = .ok true →
      Fails (EvalError.Justified s root) (right.booleanIn s)) :
    Fails (EvalError.Justified s root) ((comparison mark op left right).booleanIn s) := by
  have hleft := comparison_left_mem hn
  have hright := comparison_right_mem hn
  refine .of_self (by rw [booleanIn]) ?_
  split
  · next hleaves => exact h.fails_compareLeavesIn hn hleaves
  · next hleaves =>
    rw [Bool.not_eq_true] at hleaves
    split
    · next hop =>
      refine (fails_isOrderedIn hleft).bind_ok.weaken.bind fun side hside => ?_
      refine .error fun herror => ⟨_, rfl, hop, mark, left, right, h.raises hn rfl herror, ?_, ?_,
        h.culprit_iff hleft hside, ?_⟩
      · rintro ⟨hl, hr⟩
        rw [isLeaf_of_isNumber hl, isLeaf_of_isNumber hr] at hleaves
        cases hleaves
      · rintro ⟨hl, hr⟩
        rw [isLeaf_of_isVersion hl, isLeaf_of_isVersion hr] at hleaves
        cases hleaves
      · rw [Shows, hleaves]
        exact ⟨rfl, rfl⟩
    · next hop =>
      have hequality : op.isEquality = true := by simpa [Relation.isOrdering] using hop
      refine (h.fails_requireBooleanIn hn hequality hleaves .left hleft).bind fun _ hableLeft => ?_
      refine (h.fails_requireBooleanIn hn hequality hleaves .right hright).bind
        fun _ hableRight => ?_
      have hcanLeft := canBooleanIn_of_requireBooleanIn hableLeft
      have hcanRight := canBooleanIn_of_requireBooleanIn hableRight
      exact (hbooleanLeft hcanLeft).weaken.bind fun l _ => (hbooleanRight hcanRight).weaken.bind_ok

/-! ### Calls -/

theorem fails_call {name : String} {arguments : List LeafNode}
    (hn : call mark name arguments ∈ root.nodes) :
    Fails (EvalError.Justified s root) ((call mark name arguments).booleanIn s) := by
  refine .of_self (by rw [booleanIn, callIn]) ?_
  split
  · next hunknown =>
    exact .error fun herror => ⟨_, rfl, mark, arguments, h.raises hn rfl herror, hunknown⟩
  · split
    · next _ argument =>
      have hargument : leaf argument ∈ root.nodes :=
        nodes_subset_of_mem hn (List.mem_cons_of_mem _ (List.mem_singleton_self _))
      exact (fails_leaf hargument).weaken.bind_ok
    · next harguments =>
      refine .error fun herror => ⟨_, rfl, mark, arguments, h.raises hn rfl herror, rfl, rfl, ?_⟩
      intro hlength
      obtain ⟨argument, rfl⟩ := List.length_eq_one_iff.1 hlength
      exact harguments argument rfl

/-! ### Truth values -/

omit h in
theorem operandIn_eq_ok {op : Connective} {side : Side} {answer : Except EvalError Bool}
    {value : Bool} (hvalue : operandIn s op side n answer = .ok value) :
    n.canBooleanIn s = .ok true ∧ answer = .ok value := by
  unfold operandIn at hvalue
  rcases hcan : n.canBooleanIn s with e | _ | _ <;> rw [hcan] at hvalue
  · cases hvalue
  · rcases htext : n.expandedIn s with e | text <;> rw [htext] at hvalue <;> cases hvalue
  · exact ⟨rfl, hvalue⟩

/-- An operand of a connective; if it is the right one, the left one has not decided. -/
theorem fails_operandIn {op : Connective} (hn : logical mark op left right ∈ root.nodes)
    (side : Side) (hside : side.operand left right ∈ root.nodes)
    (hleft : side = .right → left.evaluateIn s = .ok (!op.decisive))
    (hboolean : (side.operand left right).canBooleanIn s = .ok true →
      Fails (EvalError.Justified s root) ((side.operand left right).booleanIn s)) :
    Fails (fun e => (logical mark op left right).booleanIn s = .error e → e.Justified s root)
      (operandIn s op side (side.operand left right)
        ((side.operand left right).booleanIn s)) := by
  refine (fails_canBooleanIn hside).weaken.bind fun able hable => ?_
  split
  · next htrue => exact (hboolean (htrue ▸ hable)).weaken
  · next hunable =>
    rw [Bool.not_eq_true] at hunable
    rw [hunable] at hable
    refine (fails_expandedIn hside).weaken.bind fun text htext => ?_
    refine .error fun herror => ⟨_, rfl, mark, left, right, h.raises hn rfl herror, rfl,
      h.lacksTruth hside hable htext, fun hright => ?_⟩
    rw [h.afresh_evaluate (logical_left_mem hn)]
    exact hleft hright

/-- The truth value of a node is missing only for a reason. -/
theorem fails_booleanIn (hn : n ∈ root.nodes) (hcan : n.canBooleanIn s = .ok true) :
    Fails (EvalError.Justified s root) (n.booleanIn s) := by
  induction n with
  | leaf node =>
    rcases Leaf.canBooleanIn_eq_ok hcan with ⟨content, -, hfalse⟩ | ⟨text, htext, hsome⟩
    · cases hfalse
    · obtain ⟨value, hvalue⟩ := Option.isSome_iff_exists.1 hsome
      have hanswer : node.leaf.booleanIn s = .ok value := by
        rw [Leaf.booleanIn, htext]
        simp only [bind, Except.bind, hvalue]
        rfl
      rw [booleanIn, hanswer]
      exact .ok value
  | call mark name arguments => exact h.fails_call hn
  | not mark operand ih => exact (ih (not_operand_mem hn) hcan).bind_ok
  | logical mark op left right ihl ihr =>
    have hleft := logical_left_mem hn
    have hright := logical_right_mem hn
    refine .of_self (by rw [booleanIn]) ?_
    refine (h.fails_operandIn hn .left hleft Side.noConfusion (ihl hleft)).bind fun l hl => ?_
    split
    · exact .ok l
    · next hopen =>
      obtain ⟨hcanLeft, hvalue⟩ : left.canBooleanIn s = .ok true ∧ left.booleanIn s = .ok l :=
        operandIn_eq_ok hl
      refine h.fails_operandIn hn .right hright (fun _ => ?_) (ihr hright)
      rw [evaluateIn, hcanLeft]
      refine hvalue.trans (congrArg Except.ok ?_)
      exact Bool.eq_not.2 hopen
  | comparison mark op left right ihl ihr =>
    exact h.fails_comparison hn (ihl (comparison_left_mem hn)) (ihr (comparison_right_mem hn))

theorem fails_evaluateIn : Fails (EvalError.Justified s root) (root.evaluateIn s) := by
  have hroot := self_mem_nodes root
  refine (fails_canBooleanIn hroot).bind fun able hable => ?_
  split
  · next htrue => exact h.fails_booleanIn hroot (htrue ▸ hable)
  · next hunable =>
    rw [Bool.not_eq_true] at hunable
    rw [hunable] at hable
    refine (fails_expandedIn hroot).bind fun text htext => ?_
    exact .error ⟨_, rfl, h.lacksTruth hroot hable htext⟩

end Parsed

end Expr

/-! ## Errors of conditions -/

namespace Condition

variable {text : String} {policy : Policy} {condition : Condition}

theorem parsed_root (h : parse text policy = .ok condition) : condition.root.Parsed := by
  refine ⟨nodup_ids h, fun node hnode content hleaf => ?_⟩
  obtain ⟨front, lexeme, rest, hspells, -, hdenotes, -⟩ := exists_spells_of_mem_leaves h hnode
  rw [hleaf] at hdenotes
  cases hdenotes
  obtain ⟨c, tail, hcontent, hc⟩ := hspells.exists_start_of_number
  exact Value.boolean?_eq_none_of_isNumberStart hcontent hc

/-- Whenever the evaluation of a condition fails, the error bears the text of the condition and its
location, and what it says is true. -/
theorem justified_of_error {env : Environment} {error : EvalError}
    (hparse : parse text policy = .ok condition)
    (herror : (condition.evaluate env).outcome = .error error) :
    ∃ kind, error = .failure kind condition.text env.location ∧
      kind.Justified ⟨env, condition.text, false⟩ condition.root := by
  have hroot := parsed_root hparse
  have hevaluate := Expr.outcome_evaluate hroot.nodup ⟨env, condition.text, false⟩
  exact hroot.fails_evaluateIn error (hevaluate.symm.trans herror)

/-- A negation that is no truth value is accused as the right operand that it is, behind a left one
that does not decide, with its text as written and as expanded. -/
theorem justified_of_error_negated :
    let env := Environment.constant "maybe"
    let text := "'$(A)' == 'yes' or !('$(B)')"
    let kind := EvalErrorKind.operandNotBoolean .or .right "!$(B)" "!maybe"
    ∃ condition, parse text .everything = .ok condition ∧
      (condition.evaluate env).outcome = .error (.failure kind text .unknown) ∧
      kind.Justified ⟨env, text, false⟩ condition.root := by
  intro env text kind
  have hrun : (parse text .everything).toOption.map (fun condition =>
      ((condition.evaluate env).outcome, condition.text)) =
        some (.error (.failure kind text .unknown), text) := by decide +kernel
  obtain ⟨condition, hparse, hcondition⟩ := exists_of_map_parse_eq_some hrun
  obtain ⟨herror, htext⟩ := Prod.mk.inj hcondition
  obtain ⟨kind', hkind, hjustified⟩ := justified_of_error hparse herror
  obtain ⟨rfl, -⟩ := EvalError.failure.inj hkind
  rw [htext] at hjustified
  exact ⟨condition, hparse, herror, hjustified⟩

end Condition

end CondLang
