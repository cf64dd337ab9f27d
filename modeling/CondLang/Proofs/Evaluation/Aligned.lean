import CondLang.Proofs.Evaluation.Alike
import CondLang.Proofs.Evaluation.ShortCircuit
import CondLang.Proofs.Twins
import Mathlib.Data.PEquiv

/-!
# Trees that evaluate alike

If the numbers of twins correspond one to one and the evaluations know the same of numbers that
correspond, the evaluations cannot be told apart: they end with the same value or with the same kind
of error, ask the same questions and record the same values (`Expr.Twins.evaluate`).  Only what is
quoted from a condition in messages may differ.

A slice of a condition gets into a message only, never into a value.  It stands for a tree that is
no leaf, and such a tree has a truth value.  So the text of a tree is looked at only if the tree is
a leaf or a negation of one, and then twins have the same text (`Expr.isTextual`).
-/

namespace CondLang

/-- The numbers of two nodes correspond. -/
def Mark.Corresponds (numbering : ℕ ≃. ℕ) (mark mark' : Mark) : Prop :=
  mark'.id ∈ numbering mark.id

/-- A number corresponds to itself. -/
theorem Mark.corresponds_refl {mark mark' : Mark} (h : mark'.id = mark.id) :
    Mark.Corresponds (.refl ℕ) mark mark' := by
  rw [Mark.Corresponds, PEquiv.refl_apply, h]
  exact rfl

namespace Expr

/-- Whether a tree is a leaf or a negation of one, so that its text is that of the leaf. -/
def isTextual : Expr → Bool
  | leaf _ => true
  | not _ operand => operand.isTextual
  | _ => false

theorem compound_of_not_textual {e : Expr} (h : e.isTextual = false) : e.Compound := by
  induction e with
  | leaf node => cases h
  | not mark operand ih => exact ⟨rfl, (ih h).canBoolean⟩
  | call | logical | comparison => exact ⟨rfl, rfl⟩

namespace Twins

variable {marks : Mark → Mark → Prop} {e e' : Expr}

theorem isTextual (h : e.Twins marks e') : e.isTextual = e'.isTextual := by
  induction h with
  | not _ _ ih => exact ih
  | leaf | call | logical | comparison => rfl

theorem isLeaf (h : e.Twins marks e') : e.isLeaf = e'.isLeaf := by cases h <;> rfl

/-- What a leaf or a negation of one is written as does not depend on where it stands. -/
theorem unexpanded (h : e.Twins marks e') (htextual : e.isTextual = true)
    (source source' : String) : e.unexpanded source = e'.unexpanded source' := by
  induction h with
  | leaf h => exact h.leaf.text
  | not _ _ ih => exact congrArg ("!" ++ ·) (ih htextual)
  | call | logical | comparison => cases htextual

theorem refersToProperty (h : e.Twins marks e') : e.refersToProperty = e'.refersToProperty := by
  cases h with
  | leaf h =>
    show (_ && Policy.opens _ (String.toList _)) = (_ && Policy.opens _ (String.toList _))
    rw [h.leaf.expandable, h.leaf.text]
  | _ => rfl

theorem isLiteral (h : e.Twins marks e') : e.isLiteral = e'.isLiteral := by
  cases h with
  | leaf h => rw [Expr.isLiteral, Expr.isLiteral, h.leaf.text]
  | _ => rfl

end Twins

end Expr

/-! ## Runs that cannot be told apart -/

/-- Two errors have the same cause, but for what they quote of operands that cannot be compared. -/
inductive EvalErrorKind.Alike : EvalErrorKind → EvalErrorKind → Prop
  | same (kind : EvalErrorKind) : Alike kind kind
  | notComparable (op : Relation) (side : Side) (left right left' right' : String) :
      Alike (.notComparable op side left right) (.notComparable op side left' right')

/-- Two evaluations ended with the same answer, or with the same kind of error in the same place. -/
inductive EndsAlike {α : Type} : Except EvalError α → Except EvalError α → Prop
  | ok (a : α) : EndsAlike (.ok a) (.ok a)
  | error {kind kind' : EvalErrorKind} (h : kind.Alike kind') (source source' : String)
      (location : Location) :
      EndsAlike (.error (.failure kind source location)) (.error (.failure kind' source' location))

theorem EndsAlike.toOption {α : Type} {outcome outcome' : Except EvalError α}
    (h : EndsAlike outcome outcome') : outcome.toOption = outcome'.toOption := by
  cases h <;> rfl

/-- The same is known of numbers that correspond. -/
def Memo.Aligned (numbering : ℕ ≃. ℕ) (memo memo' : Memo) : Prop :=
  ∀ id id', id' ∈ numbering id → memo.get id = memo'.get id'

/-- Two runs cannot be told apart but for their notes and what is quoted of a condition. -/
structure Run.Aligned (numbering : ℕ ≃. ℕ) {α : Type} (run run' : Run α) : Prop where
  outcome : EndsAlike run.outcome run'.outcome
  questions : Event.questions run.events = Event.questions run'.events
  records : Event.records run.events = Event.records run'.events
  memo : run.memo.Aligned numbering run'.memo

theorem Memo.Aligned.modify {numbering : ℕ ≃. ℕ} {memo memo' : Memo}
    (h : memo.Aligned numbering memo') {id id' : Nat} (hid : id' ∈ numbering id)
    (change : NodeMemo → NodeMemo) :
    (memo.modify id change).Aligned numbering (memo'.modify id' change) := by
  intro other other' hother
  have hsame : id = other ↔ id' = other' := by
    constructor
    · intro heq
      subst heq
      exact Option.mem_unique hid hother
    · intro heq
      subst heq
      exact numbering.inj hid hother
  rw [Memo.get_modify, Memo.get_modify, h other other' hother, if_congr hsame rfl rfl]

namespace EvalM

/-- Two steps in the same environment, each in its own condition, have runs that cannot be told
apart. -/
def Aligned (env : Environment) (recording : Bool) (numbering : ℕ ≃. ℕ) {α : Type}
    (step step' : EvalM α) : Prop :=
  ∀ source source' memo memo', memo.Aligned numbering memo' →
    (step ⟨env, source, recording⟩ memo).Aligned numbering
      (step' ⟨env, source', recording⟩ memo')

namespace Aligned

variable {env : Environment} {recording : Bool} {numbering : ℕ ≃. ℕ} {α β : Type}

theorem pure (a : α) : Aligned env recording numbering (pure a) (Pure.pure a) :=
  fun _ _ _ _ hmemo => ⟨.ok a, rfl, rfl, hmemo⟩

theorem fail {kind kind' : EvalErrorKind} (h : kind.Alike kind') :
    Aligned env recording numbering (fail kind : EvalM α) (EvalM.fail kind') :=
  fun source source' _ _ hmemo => ⟨.error h source source' env.location, rfl, rfl, hmemo⟩

theorem emit (events : List Event) :
    Aligned env recording numbering (emit events) (EvalM.emit events) :=
  fun _ _ _ _ hmemo => ⟨.ok (), rfl, rfl, hmemo⟩

theorem note (n : Note) : Aligned env recording numbering (note n) (EvalM.note n) := emit [.noted n]

theorem keep {id id' : Nat} (hid : id' ∈ numbering id) (change : NodeMemo → NodeMemo) :
    Aligned env recording numbering (keep id change) (EvalM.keep id' change) :=
  fun _ _ _ _ hmemo => ⟨.ok (), rfl, rfl, hmemo.modify hid change⟩

theorem bind {step step' : EvalM α} {next next' : α → EvalM β}
    (h : Aligned env recording numbering step step')
    (hnext : ∀ a, Aligned env recording numbering (next a) (next' a)) :
    Aligned env recording numbering (step >>= next) (step' >>= next') := by
  intro source source' memo memo' hmemo
  have hfirst := h source source' memo memo' hmemo
  cases hrun : step ⟨env, source, recording⟩ memo with
  | mk outcome after events =>
    cases hrun' : step' ⟨env, source', recording⟩ memo' with
    | mk outcome' after' events' =>
      rw [hrun, hrun'] at hfirst
      obtain ⟨houtcome, hquestions, hrecords, hafter⟩ := hfirst
      dsimp only at houtcome hquestions hrecords hafter
      cases houtcome with
      | error hkind =>
        rw [bind_of_error hrun, bind_of_error hrun']
        exact ⟨.error hkind _ _ _, hquestions, hrecords, hafter⟩
      | ok a =>
        have hlast := hnext a source source' after after' hafter
        rw [bind_of_ok hrun, bind_of_ok hrun']
        refine ⟨hlast.outcome, ?_, ?_, hlast.memo⟩
        · rw [Event.questions_append, Event.questions_append, hquestions, hlast.questions]
        · rw [Event.records_append, Event.records_append, hrecords, hlast.records]

/-- The same is known of nodes whose numbers correspond. -/
theorem known_bind {id id' : Nat} (hid : id' ∈ numbering id) {next next' : NodeMemo → EvalM α}
    (hnext : ∀ slot, Aligned env recording numbering (next slot) (next' slot)) :
    Aligned env recording numbering (known id >>= next) (known id' >>= next') := by
  intro source source' memo memo' hmemo
  show (next (memo.get id) ⟨env, source, recording⟩ memo).Aligned numbering
    (next' (memo'.get id') ⟨env, source', recording⟩ memo')
  rw [hmemo id id' hid]
  exact hnext _ source source' memo memo' hmemo

/-- The settings of the two steps differ in the text of the condition only. -/
theorem setting_bind {next next' : Setting → EvalM α}
    (hnext : ∀ source source', Aligned env recording numbering
      (next ⟨env, source, recording⟩) (next' ⟨env, source', recording⟩)) :
    Aligned env recording numbering (setting >>= next) (setting >>= next') :=
  fun source source' memo memo' hmemo =>
    hnext source source' source source' memo memo' hmemo

/-- A step that is left out of both, or of none. -/
theorem when_bind {condition : Prop} [Decidable condition] {step step' : EvalM Unit}
    {next next' : Unit → EvalM α} (hstep : Aligned env recording numbering step step')
    (hnext : Aligned env recording numbering (next ()) (next' ())) :
    Aligned env recording numbering (if condition then step >>= next else next ())
      (if condition then step' >>= next' else next' ()) := by
  split
  · exact hstep.bind fun _ => hnext
  · exact hnext

end Aligned

end EvalM

/-! ## Leaves side by side -/

variable {env : Environment} {recording : Bool} {numbering : ℕ ≃. ℕ}

open EvalM (Aligned)

namespace LeafNode.Twins

variable {node node' : LeafNode}

theorem expanded (h : node.Twins (Mark.Corresponds numbering) node') :
    Aligned env recording numbering node.expanded node'.expanded := by
  unfold LeafNode.expanded
  rw [h.leaf.expandable, h.leaf.text]
  split
  · refine .known_bind h.mark fun slot => ?_
    split
    · exact .pure _
    · refine .setting_bind fun source source' => .bind (.emit _) fun _ => ?_
      dsimp only
      split
      · exact .fail (.same _)
      · exact .bind (.keep h.mark _) fun _ => .pure _
  · exact .pure _

theorem isEmpty (h : node.Twins (Mark.Corresponds numbering) node') :
    Aligned env recording numbering node.isEmpty node'.isEmpty := by
  have hexpanded : Aligned env recording numbering (return (← node.expanded).isEmpty)
      (return (← node'.expanded).isEmpty) := h.expanded.bind fun _ => .pure _
  obtain ⟨mark, leaf⟩ := node
  obtain ⟨mark', leaf'⟩ := node'
  obtain ⟨hmark, hleaf⟩ := h
  cases hleaf with
  | same =>
    rcases leaf with ⟨text, _ | _⟩ | text | ⟨kind, text⟩
    · exact .pure _
    · exact hexpanded
    · exact .pure _
    · exact hexpanded
  | quoted kind text => exact hexpanded

theorem readAs {α : Type} (h : node.Twins (Mark.Corresponds numbering) node')
    (read : String → Option α) :
    Aligned env recording numbering (node.readAs read) (node'.readAs read) := by
  refine h.isEmpty.bind fun empty => ?_
  split
  · exact .pure _
  · exact h.expanded.bind fun _ => .pure _

theorem number? (h : node.Twins (Mark.Corresponds numbering) node') :
    Aligned env recording numbering node.number? node'.number? := by
  refine .known_bind h.mark fun slot => ?_
  split
  · exact .pure _
  · exact (h.readAs _).bind fun number => .bind (.keep h.mark _) fun _ => .pure _

theorem version? (h : node.Twins (Mark.Corresponds numbering) node') :
    Aligned env recording numbering node.version? node'.version? := by
  refine .known_bind h.mark fun slot => ?_
  split
  · exact .pure _
  · exact (h.readAs _).bind fun version => .bind (.keep h.mark _) fun _ => .pure _

theorem canBoolean (h : node.Twins (Mark.Corresponds numbering) node') :
    Aligned env recording numbering node.canBoolean node'.canBoolean := by
  have hexpanded : Aligned env recording numbering
      (return (Value.boolean? (← node.expanded)).isSome)
      (return (Value.boolean? (← node'.expanded)).isSome) := h.expanded.bind fun _ => .pure _
  obtain ⟨mark, leaf⟩ := node
  obtain ⟨mark', leaf'⟩ := node'
  obtain ⟨hmark, hleaf⟩ := h
  cases hleaf with
  | same =>
    rcases leaf with ⟨text, expandable⟩ | text | ⟨kind, text⟩
    · exact hexpanded
    · exact .pure _
    · exact hexpanded
  | quoted kind text => exact hexpanded

theorem boolean (h : node.Twins (Mark.Corresponds numbering) node') :
    Aligned env recording numbering node.boolean node'.boolean := by
  refine h.expanded.bind fun text => ?_
  split
  · exact .pure _
  · exact .fail (.same _)

end LeafNode.Twins

/-! ## Trees side by side -/

namespace Expr

theorem apply_aligned (function : Builtin) (argument : String) :
    Aligned env recording numbering (function.apply argument) (function.apply argument) := by
  cases function with
  | hasTrailingSlash => exact .pure _
  | pathExists =>
    show Aligned env recording numbering (askPath (Text.trim argument)) (askPath _)
    rw [askPath]
    split
    · exact .pure _
    · exact .bind (.emit _) fun _ => .setting_bind fun _ _ => .pure _

/-- Calls with arguments that are alike. -/
theorem callFunction_aligned (name : String) {arguments arguments' : List LeafNode}
    (h : List.Forall₂ (LeafNode.Twins (Mark.Corresponds numbering)) arguments arguments') :
    Aligned env recording numbering (callFunction name arguments)
      (callFunction name arguments') := by
  unfold callFunction
  split
  · exact .fail (.same _)
  · next function _ =>
    cases h with
    | nil => exact .fail (.same _)
    | cons hargument hothers =>
      cases hothers with
      | nil =>
        refine hargument.expanded.bind fun text => ?_
        refine (apply_aligned function text).bind fun result => ?_
        exact .bind (.note _) fun _ => .pure _
      | cons hsecond hmore =>
        show Aligned env recording numbering (EvalM.fail _) (EvalM.fail _)
        rw [List.length_cons, List.length_cons, List.length_cons, List.length_cons,
          hmore.length_eq]
        exact .fail (.same _)

theorem culprit_aligned {node node' : LeafNode}
    (h : node.Twins (Mark.Corresponds numbering) node') :
    Aligned env recording numbering (culprit (leaf node)) (culprit (leaf node')) := by
  refine .bind ?_ fun _ => .pure _
  refine h.number?.bind fun number => ?_
  split
  · exact .pure _
  · exact h.version?.bind fun _ => .pure _

/-- Comparisons of leaves that are alike. -/
theorem compareLeaves_aligned (op : Relation) {left left' right right' : LeafNode}
    (hleft : left.Twins (Mark.Corresponds numbering) left')
    (hright : right.Twins (Mark.Corresponds numbering) right') :
    Aligned env recording numbering (compareLeaves op (leaf left) (leaf right))
      (compareLeaves op (leaf left') (leaf right')) := by
  have htexts : Aligned env recording numbering (compareTexts op (leaf left) (leaf right))
      (compareTexts op (leaf left') (leaf right')) := by
    refine hleft.expanded.bind fun l => hright.expanded.bind fun r => ?_
    split
    · exact (culprit_aligned hleft).bind fun side => .fail (.same _)
    · exact .bind (.note _) fun _ => .pure _
  have hversions : Aligned env recording numbering (compareVersions op (leaf left) (leaf right))
      (compareVersions op (leaf left') (leaf right')) := by
    refine hleft.version?.bind fun l => hright.version?.bind fun r => ?_
    split
    · exact .bind (.note _) fun _ => .pure _
    · exact htexts
  refine hleft.number?.bind fun l => hright.number?.bind fun r => ?_
  split
  · exact .bind (.note _) fun _ => .pure _
  · exact hversions

namespace Twins

variable {e e' left left' right right' : Expr}

theorem expanded (h : e.Twins (Mark.Corresponds numbering) e') (htextual : e.isTextual = true) :
    Aligned env recording numbering e.expanded e'.expanded := by
  induction h with
  | leaf h => exact h.expanded
  | not _ _ ih => exact (ih htextual).bind fun _ => .pure _
  | call | logical | comparison => cases htextual

theorem canBoolean (h : e.Twins (Mark.Corresponds numbering) e') :
    Aligned env recording numbering e.canBoolean e'.canBoolean := by
  induction h with
  | leaf h => exact h.canBoolean
  | not _ _ ih => exact ih
  | call | logical | comparison => exact .pure _

/-- If it depends on the truth value of a tree what is done next, nothing has to be said of what is
done without one unless the tree is a leaf or a negation of one. -/
theorem canBoolean_bind {α : Type} (h : e.Twins (Mark.Corresponds numbering) e')
    {able able' unable unable' : EvalM α} (hable : Aligned env recording numbering able able')
    (hunable : e.isTextual = true → Aligned env recording numbering unable unable') :
    Aligned env recording numbering (do if ← e.canBoolean then able else unable)
      (do if ← e'.canBoolean then able' else unable') := by
  cases htextual : e.isTextual with
  | true =>
    refine h.canBoolean.bind fun answer => ?_
    split
    · exact hable
    · exact hunable htextual
  | false =>
    have htextual' : e'.isTextual = false := by rw [← h.isTextual, htextual]
    rw [(compound_of_not_textual htextual).canBoolean,
      (compound_of_not_textual htextual').canBoolean]
    exact hable

theorem requireBoolean (h : e.Twins (Mark.Corresponds numbering) e') :
    Aligned env recording numbering e.requireBoolean e'.requireBoolean :=
  h.canBoolean_bind (.pure ()) fun htextual =>
    (h.expanded htextual).bind fun _ => .fail (.same _)

theorem operand (op : Connective) (side : Side) (h : e.Twins (Mark.Corresponds numbering) e')
    {boolean boolean' : EvalM Bool} (hboolean : Aligned env recording numbering boolean boolean') :
    Aligned env recording numbering (Expr.operand op side e boolean)
      (Expr.operand op side e' boolean') := by
  refine h.canBoolean_bind hboolean fun htextual => .setting_bind fun source source' => ?_
  dsimp only
  rw [h.unexpanded htextual source source']
  exact (h.expanded htextual).bind fun _ => .fail (.same _)

theorem culprit (h : e.Twins (Mark.Corresponds numbering) e') :
    Aligned env recording numbering (Expr.culprit e) (Expr.culprit e') := by
  cases h with
  | leaf h => exact culprit_aligned h
  | call | not | logical | comparison => exact .pure Side.left

theorem record {pattern pattern' literal literal' : Expr}
    (hpattern : pattern.Twins (Mark.Corresponds numbering) pattern')
    (hliteral : literal.Twins (Mark.Corresponds numbering) literal')
    (hproperty : pattern.refersToProperty = true) (hliterally : literal.isLiteral = true) :
    Aligned env recording numbering (recordCompared.record pattern literal)
      (recordCompared.record pattern' literal') := by
  have htextual : literal.isTextual = true := by
    cases literal with
    | leaf node => rfl
    | _ => cases hliterally
  have htextual' : pattern.isTextual = true := by
    cases pattern with
    | leaf node => rfl
    | _ => cases hproperty
  refine .setting_bind fun source source' => (hliteral.expanded htextual).bind fun value => ?_
  rw [hpattern.unexpanded htextual' source source']
  exact .emit _

theorem recordCompared (hleft : left.Twins (Mark.Corresponds numbering) left')
    (hright : right.Twins (Mark.Corresponds numbering) right') :
    Aligned env recording numbering (Expr.recordCompared left right)
      (Expr.recordCompared left' right') := by
  refine .setting_bind fun source source' => ?_
  rw [hleft.refersToProperty, hleft.isLiteral, hright.refersToProperty, hright.isLiteral]
  split
  · split
    · next h =>
      rw [← hleft.refersToProperty, ← hright.isLiteral, Bool.and_eq_true] at h
      exact hleft.record hright h.1 h.2
    · split
      · next h =>
        rw [← hright.refersToProperty, ← hleft.isLiteral, Bool.and_eq_true] at h
        exact hright.record hleft h.1 h.2
      · exact .pure ()
  · exact .pure ()

theorem boolean (h : e.Twins (Mark.Corresponds numbering) e') :
    Aligned env recording numbering e.boolean e'.boolean := by
  induction h with
  | leaf h => exact h.boolean
  | call _ name harguments => exact callFunction_aligned name harguments
  | not _ _ ih => exact ih.bind fun _ => .pure _
  | logical _ op hleft hright ihl ihr =>
    refine (hleft.operand op .left ihl).bind fun l => ?_
    split
    · exact .bind (.note _) fun _ => .pure _
    · exact hright.operand op .right ihr
  | @comparison _ _ _ op left left' right right' hleft hright ihl ihr =>
    rw [Expr.boolean, Expr.boolean]
    refine .when_bind (hleft.recordCompared hright) ?_
    split
    · next hleaves =>
      rw [Bool.and_eq_true] at hleaves
      cases hleft with
      | leaf hl =>
        cases hright with
        | leaf hr => exact compareLeaves_aligned op hl hr
        | _ => cases hleaves.2
      | _ => cases hleaves.1
    · next hleaves =>
      rw [hleft.isLeaf, hright.isLeaf] at hleaves
      rw [if_neg hleaves]
      split
      · exact hleft.culprit.bind fun side => .setting_bind fun _ _ =>
          .fail (.notComparable op side _ _ _ _)
      · refine hleft.requireBoolean.bind fun _ => hright.requireBoolean.bind fun _ => ?_
        exact ihl.bind fun l => ihr.bind fun r => .bind (.note _) fun _ => .pure _

/-- Evaluations of twins cannot be told apart. -/
theorem evaluate (h : e.Twins (Mark.Corresponds numbering) e') :
    Aligned env recording numbering e.evaluate e'.evaluate :=
  h.canBoolean_bind h.boolean fun htextual => (h.expanded htextual).bind fun _ => .fail (.same _)

end Twins

end Expr

/-! ## Whole conditions side by side -/

/-- Two evaluations of conditions cannot be told apart but for their notes and what is quoted of a
condition. -/
structure Evaluated.Aligned (evaluated evaluated' : Evaluated) : Prop where
  outcome : EndsAlike evaluated.outcome evaluated'.outcome
  questions : Event.questions evaluated.events = Event.questions evaluated'.events
  records : Event.records evaluated.events = Event.records evaluated'.events

/-- An evaluator that keeps a register merges into it what the evaluation recorded. -/
theorem Evaluator.evaluate_snd (evaluator : Evaluator) (condition : Condition)
    (env : Environment) :
    (evaluator.evaluate condition env).2 =
      ⟨evaluator.conditioned.map fun register => register.merge
        ((Event.records (evaluator.evaluate condition env).1.events).foldl
          (fun register (name, value) => register.record name value) .empty)⟩ := by
  obtain ⟨_ | register⟩ := evaluator <;> rfl

/-- Conditions that are twins evaluate alike, and leave the evaluator behind that the other one
leaves. -/
theorem Evaluator.evaluate_twins {condition condition' : Condition}
    (h : condition.root.Twins (Mark.Corresponds numbering) condition'.root) (evaluator : Evaluator)
    (env : Environment) :
    (evaluator.evaluate condition env).1.Aligned (evaluator.evaluate condition' env).1 ∧
      (evaluator.evaluate condition env).2 = (evaluator.evaluate condition' env).2 := by
  have hempty : Memo.empty.Aligned numbering .empty := fun _ _ _ => by
    rw [Memo.get_empty, Memo.get_empty]
  have haligned : (evaluator.evaluate condition env).1.Aligned
      (evaluator.evaluate condition' env).1 := by
    have hsteps : EvalM.Aligned env evaluator.conditioned.isSome numbering condition.root.evaluate
        condition'.root.evaluate := h.evaluate
    obtain ⟨houtcome, hquestions, hrecords, -⟩ :=
      hsteps condition.text condition'.text _ _ hempty
    rw [evaluate_fst, evaluate_fst]
    exact ⟨houtcome, hquestions, hrecords⟩
  refine ⟨haligned, ?_⟩
  rw [evaluate_snd, evaluate_snd, haligned.records]

end CondLang
