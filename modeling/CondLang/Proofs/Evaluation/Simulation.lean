import CondLang.Proofs.Evaluation.Law
import CondLang.Proofs.Evaluation.Transparent

/-!
# Evaluations side by side

If two evaluations of a tree in the same environment know as good as the same of its leaves, they
have the same outcome through the same questions, and know as good as the same afterwards
(`Expr.evaluate_simulates`).  It is no matter what they know of other nodes, or whether they record
what properties are compared with.

Recording expands a literal before the comparison does, so one evaluation may know the text of a
leaf that another one does not know yet.  This cannot be seen of a leaf without references, which is
expanded at any time to the same text and without a question.
-/

namespace CondLang

/-! ## Knowing as good as the same -/

/-- Of a leaf without references nothing is known but its text as it is written. -/
def Leaf.Foregone (leaf : Leaf) (known : Option String) : Prop :=
  holdsReference leaf.text = false ∧ (known = none ∨ known = some (Text.unescape leaf.text))

/-- As good as the same is known of a leaf. -/
structure NodeMemo.Similar (leaf : Leaf) (slot slot' : NodeMemo) : Prop where
  expanded : slot.expanded = slot'.expanded ∨
    leaf.Foregone slot.expanded ∧ leaf.Foregone slot'.expanded
  number : slot.number = slot'.number
  version : slot.version = slot'.version

/-- As good as the same is known of the labelled nodes. -/
def Memo.Similar (labels : Labels) (memo memo' : Memo) : Prop :=
  ∀ id leaf, labels id = some leaf → (memo.get id).Similar leaf (memo'.get id)

namespace Memo.Similar

variable {labels : Labels} {memo memo' : Memo}

theorem of_eq (h : ∀ id leaf, labels id = some leaf → memo.get id = memo'.get id) :
    memo.Similar labels memo' :=
  fun id leaf hleaf => by
    rw [h id leaf hleaf]
    exact ⟨.inl rfl, rfl, rfl⟩

theorem refl (memo : Memo) : memo.Similar labels memo := of_eq fun _ _ _ => rfl

theorem symm (h : memo.Similar labels memo') : memo'.Similar labels memo := by
  intro id leaf hleaf
  obtain ⟨hexpanded, hnumber, hversion⟩ := h id leaf hleaf
  exact ⟨hexpanded.imp Eq.symm And.symm, hnumber.symm, hversion.symm⟩

/-- The same change on both sides. -/
theorem modify (h : memo.Similar labels memo') {id : Nat} {change : NodeMemo → NodeMemo}
    (hchange : ∀ leaf slot slot', NodeMemo.Similar leaf slot slot' →
      (change slot).Similar leaf (change slot')) :
    (memo.modify id change).Similar labels (memo'.modify id change) := by
  intro other leaf hleaf
  rw [Memo.get_modify, Memo.get_modify]
  split
  · exact hchange leaf _ _ (h other leaf hleaf)
  · exact h other leaf hleaf

/-- The text of a leaf without references may be known on one side only. -/
theorem keep_foregone (h : memo.Similar labels memo') {node : LeafNode}
    (hlabel : labels node.mark.id = some node.leaf)
    (hplain : holdsReference node.leaf.text = false)
    (hnone : (memo.get node.mark.id).expanded = none) :
    (memo.modify node.mark.id fun slot =>
      { slot with expanded := some (Text.unescape node.leaf.text) }).Similar labels memo' := by
  intro id leaf hleaf
  rw [Memo.get_modify]
  split
  · next hsame =>
    subst hsame
    obtain rfl := Option.some.inj (hlabel.symm.trans hleaf)
    obtain ⟨hexpanded, hnumber, hversion⟩ := h _ _ hleaf
    refine ⟨.inr ⟨⟨hplain, .inr rfl⟩, hplain, ?_⟩, hnumber, hversion⟩
    rcases hexpanded with hexpanded | ⟨-, -, hforegone⟩
    · exact .inl (hexpanded.symm.trans hnone)
    · exact hforegone
  · exact h id leaf hleaf

end Memo.Similar

namespace EvalM

variable {labels : Labels} {α β : Type}

theorem known_bind_apply (id : Nat) (next : NodeMemo → EvalM α) (s : Setting) (memo : Memo) :
    (known id >>= next) s memo = next (memo.get id) s memo := rfl

/-! ## Steps that cannot be seen -/

/-- A step asks nothing, and what is known after it is as good as what was known before. -/
def Unseen (labels : Labels) (step : EvalM α) : Prop :=
  ∀ s memo, ∃ a after events, step s memo = ⟨.ok a, after, events⟩ ∧
    Event.questions events = [] ∧ ∀ other, memo.Similar labels other → after.Similar labels other

namespace Unseen

theorem pure (a : α) : Unseen labels (pure a) :=
  fun _ memo => ⟨a, memo, [], rfl, rfl, fun _ h => h⟩

theorem emit {events : List Event} (h : Event.questions events = []) :
    Unseen labels (emit events) :=
  fun _ memo => ⟨(), memo, events, rfl, h, fun _ h => h⟩

theorem bind {step : EvalM α} {next : α → EvalM β} (h : Unseen labels step)
    (hnext : ∀ a, Unseen labels (next a)) : Unseen labels (step >>= next) := by
  intro s memo
  obtain ⟨a, after, events, hrun, hquestions, hafter⟩ := h s memo
  obtain ⟨b, last, others, hrun', hquestions', hlast⟩ := hnext a s after
  refine ⟨b, last, events ++ others, ?_, ?_, fun other hother => hlast other (hafter other hother)⟩
  · rw [bind_of_ok hrun, hrun']
  · rw [Event.questions_append, hquestions, hquestions', List.append_nil]

theorem setting_bind {next : Setting → EvalM α} (hnext : ∀ s, Unseen labels (next s)) :
    Unseen labels (setting >>= next) := fun s memo => hnext s s memo

end Unseen

end EvalM

/-! ## Steps side by side -/

/-- Two runs cannot be told apart, but for their records and notes. -/
structure Run.Similar (labels : Labels) {α : Type} (run run' : Run α) : Prop where
  outcome : run.outcome = run'.outcome
  questions : Event.questions run.events = Event.questions run'.events
  memo : run.memo.Similar labels run'.memo

namespace EvalM

/-- Two steps that start with as good as the same knowledge have similar runs, each with or without
recording. -/
def Simulates (env : Environment) (recording recording' : Bool) (labels : Labels) {α : Type}
    (step step' : EvalM α) : Prop :=
  ∀ source memo memo', memo.Similar labels memo' →
    (step ⟨env, source, recording⟩ memo).Similar labels (step' ⟨env, source, recording'⟩ memo')

variable {env : Environment} {recording recording' : Bool} {labels : Labels} {α β : Type}

namespace Simulates

theorem pure (a : α) : Simulates env recording recording' labels (pure a) (Pure.pure a) :=
  fun _ _ _ h => ⟨rfl, rfl, h⟩

theorem fail (kind : EvalErrorKind) :
    Simulates env recording recording' labels (fail kind : EvalM α) (EvalM.fail kind) :=
  fun _ _ _ h => ⟨rfl, rfl, h⟩

theorem emit (events : List Event) :
    Simulates env recording recording' labels (emit events) (EvalM.emit events) :=
  fun _ _ _ h => ⟨rfl, rfl, h⟩

theorem keep (id : Nat) {change : NodeMemo → NodeMemo}
    (hchange : ∀ leaf slot slot', NodeMemo.Similar leaf slot slot' →
      (change slot).Similar leaf (change slot')) :
    Simulates env recording recording' labels (keep id change) (EvalM.keep id change) :=
  fun _ _ _ h => ⟨rfl, rfl, h.modify hchange⟩

theorem bind {step step' : EvalM α} {next next' : α → EvalM β}
    (h : Simulates env recording recording' labels step step')
    (hnext : ∀ a, Simulates env recording recording' labels (next a) (next' a)) :
    Simulates env recording recording' labels (step >>= next) (step' >>= next') := by
  intro source memo memo' hmemo
  obtain ⟨houtcome, hquestions, hafter⟩ := h source memo memo' hmemo
  cases hrun : step ⟨env, source, recording⟩ memo with
  | mk outcome after events =>
    cases hrun' : step' ⟨env, source, recording'⟩ memo' with
    | mk outcome' after' events' =>
      rw [hrun, hrun'] at houtcome hquestions hafter
      cases (houtcome : outcome = outcome')
      cases outcome with
      | error e =>
        rw [bind_of_error hrun, bind_of_error hrun']
        exact ⟨rfl, hquestions, hafter⟩
      | ok a =>
        rw [bind_of_ok hrun, bind_of_ok hrun']
        obtain ⟨houtcome, hothers, hlast⟩ := hnext a source after after' hafter
        refine ⟨houtcome, ?_, hlast⟩
        rw [Event.questions_append, Event.questions_append, hothers]
        exact congrArg (· ++ _) hquestions

/-- What is known of a labelled node is as good as the same. -/
theorem known_bind {id : Nat} {leaf : Leaf} (hleaf : labels id = some leaf)
    {next next' : NodeMemo → EvalM α}
    (hnext : ∀ slot slot', NodeMemo.Similar leaf slot slot' →
      Simulates env recording recording' labels (next slot) (next' slot')) :
    Simulates env recording recording' labels (known id >>= next) (known id >>= next') :=
  fun source memo memo' hmemo =>
    hnext _ _ (hmemo id leaf hleaf) source memo memo' hmemo

/-- Recording may show in what a step reads of its setting. -/
theorem setting_bind {next next' : Setting → EvalM α}
    (hnext : ∀ source, Simulates env recording recording' labels
      (next ⟨env, source, recording⟩) (next' ⟨env, source, recording'⟩)) :
    Simulates env recording recording' labels (setting >>= next) (setting >>= next') :=
  fun source memo memo' hmemo => hnext source source memo memo' hmemo

/-- Steps that cannot be seen run side by side, whatever they do. -/
theorem of_unseen {step step' : EvalM Unit} (h : Unseen labels step) (h' : Unseen labels step') :
    Simulates env recording recording' labels step step' := by
  intro source memo memo' hmemo
  obtain ⟨a, after, events, hrun, hquestions, hafter⟩ := h ⟨env, source, recording⟩ memo
  obtain ⟨a', after', events', hrun', hquestions', hafter'⟩ := h' ⟨env, source, recording'⟩ memo'
  rw [hrun, hrun']
  exact ⟨rfl, hquestions.trans hquestions'.symm, (hafter' _ (hafter _ hmemo).symm).symm⟩

end Simulates

/-- A step simulates itself. -/
def Steady (env : Environment) (recording recording' : Bool) (labels : Labels) : StepProperty :=
  fun _ _ step => Simulates env recording recording' labels step step

theorem Steady.compositional : Compositional (Steady env recording recording' labels) where
  weaken h := h
  pure a := .pure a
  fail kind := .fail kind
  bind h hnext := h.bind hnext
  source hnext hsame := .setting_bind fun source => by
    rw [hsame ⟨env, source, recording'⟩ ⟨env, source, recording⟩ rfl]
    exact hnext _
  note n := .emit _

end EvalM

/-! ## Leaves -/

namespace LeafNode

variable {env : Environment} {recording recording' : Bool} {labels : Labels} {node : LeafNode}

/-- A leaf without references is expanded to its text as it is written, without a question. -/
theorem expanded_of_plain (hlabel : labels node.mark.id = some node.leaf)
    (hplain : holdsReference node.leaf.text = false) (hexpandable : node.leaf.expandable = true)
    (s : Setting) (memo : Memo) :
    ∃ text after, node.expanded s memo = ⟨.ok text, after, []⟩ ∧
      (node.leaf.Foregone (memo.get node.mark.id).expanded →
        text = Text.unescape node.leaf.text) ∧
      ∀ other, memo.Similar labels other → after.Similar labels other := by
  unfold expanded
  rw [if_pos hexpandable, EvalM.bind_of_ok rfl]
  cases hknown : (memo.get node.mark.id).expanded with
  | some text =>
    refine ⟨text, memo, rfl, fun hforegone => ?_, fun _ h => h⟩
    rcases hforegone with ⟨-, hnone | hsome⟩
    · cases hnone
    · exact Option.some.inj hsome
  | none =>
    refine ⟨Text.unescape node.leaf.text, _, ?_, fun _ => rfl,
      fun other hother => hother.keep_foregone hlabel hplain hknown⟩
    simp only
    rw [EvalM.bind_of_ok rfl, ofText_of_not_holdsReference _ hplain, Expansion.text, Except.map,
      String.ofList_toList]
    rfl

theorem unseen_expanded (hlabel : labels node.mark.id = some node.leaf)
    (hplain : holdsReference node.leaf.text = false) : EvalM.Unseen labels node.expanded := by
  intro s memo
  cases hexpandable : node.leaf.expandable with
  | false =>
    refine ⟨node.leaf.text, memo, [], ?_, rfl, fun _ h => h⟩
    rw [expanded, if_neg (by simp [hexpandable])]
    rfl
  | true =>
    obtain ⟨text, after, hrun, -, hafter⟩ := expanded_of_plain hlabel hplain hexpandable s memo
    exact ⟨text, after, [], hrun, rfl, hafter⟩

theorem expanded_simulates (hlabel : labels node.mark.id = some node.leaf) :
    EvalM.Simulates env recording recording' labels node.expanded node.expanded := by
  intro source memo memo' hmemo
  cases hexpandable : node.leaf.expandable with
  | false =>
    rw [expanded, if_neg (by simp [hexpandable])]
    exact ⟨rfl, rfl, hmemo⟩
  | true =>
    rcases (hmemo _ _ hlabel).expanded with hsame | ⟨hforegone, hforegone'⟩
    · rw [expanded, if_pos hexpandable, EvalM.known_bind_apply, EvalM.known_bind_apply, hsame]
      cases (memo'.get node.mark.id).expanded with
      | some text => exact ⟨rfl, rfl, hmemo⟩
      | none =>
        refine EvalM.Simulates.setting_bind (fun _ => ?_) source memo memo' hmemo
        refine .bind (.emit _) fun _ => ?_
        cases (Expansion.ofText env node.leaf.text).text with
        | error cause => exact .fail _
        | ok text =>
          exact .bind (.keep _ fun _ _ _ h => ⟨.inl rfl, h.number, h.version⟩) fun _ => .pure _
    · obtain ⟨text, after, hrun, htext, hafter⟩ :=
        expanded_of_plain hlabel hforegone.1 hexpandable ⟨env, source, recording⟩ memo
      obtain ⟨text', after', hrun', htext', hafter'⟩ :=
        expanded_of_plain hlabel hforegone.1 hexpandable ⟨env, source, recording'⟩ memo'
      rw [hrun, hrun', htext hforegone, htext' hforegone']
      exact ⟨rfl, rfl, (hafter' _ (hafter _ hmemo).symm).symm⟩

theorem readAs_simulates {α : Type} (hlabel : labels node.mark.id = some node.leaf)
    (read : String → Option α) :
    EvalM.Simulates env recording recording' labels (node.readAs read) (node.readAs read) :=
  EvalM.Steady.compositional.readAs (expanded_simulates hlabel) read

theorem follows_steady (hlabel : labels node.mark.id = some node.leaf) :
    node.Follows (EvalM.Steady env recording recording' labels) where
  expanded := expanded_simulates hlabel
  number? := by
    refine EvalM.Simulates.known_bind hlabel fun slot slot' hslot => ?_
    rw [hslot.number]
    cases slot'.number with
    | some number => exact .pure number
    | none =>
      refine (readAs_simulates hlabel Decimal.parse?).bind fun number => ?_
      refine .bind (.keep _ ?_) fun _ => .pure _
      exact fun _ _ _ h => ⟨h.expanded, rfl, h.version⟩
  version? := by
    refine EvalM.Simulates.known_bind hlabel fun slot slot' hslot => ?_
    rw [hslot.version]
    cases slot'.version with
    | some version => exact .pure version
    | none =>
      refine (readAs_simulates hlabel Version.parse?).bind fun version => ?_
      refine .bind (.keep _ ?_) fun _ => .pure _
      exact fun _ _ _ h => ⟨h.expanded, h.number, rfl⟩

end LeafNode

/-! ## Trees -/

namespace Expr

variable {env : Environment} {recording recording' : Bool} {labels : Labels} {promised : Prop}
  {e left right : Expr}

theorem unseen_record {pattern literal : Expr} (h : literal.Fits labels True)
    (hliteral : literal.isLiteral = true) :
    EvalM.Unseen labels (recordCompared.record pattern literal) := by
  refine .setting_bind fun s => ?_
  cases literal with
  | leaf node =>
    have hplain : holdsReference node.leaf.text = false := by simpa [isLiteral] using hliteral
    have hexpanded := LeafNode.unseen_expanded (h.leaf_node.labelled trivial) hplain
    refine hexpanded.bind fun value => .emit ?_
    rw [Event.questions, List.filterMap_map]
    exact List.filterMap_eq_nil_iff.2 fun _ _ => rfl
  | _ => cases hliteral

/-- What is recorded of a comparison cannot be seen: only a literal is expanded for it. -/
theorem unseen_recordCompared (hleft : left.Fits labels True) (hright : right.Fits labels True) :
    EvalM.Unseen labels (recordCompared left right) := by
  refine .setting_bind fun s => ?_
  split
  · split
    · next h => exact unseen_record hright (Bool.and_eq_true_iff.1 h).2
    · split
      · next h => exact unseen_record hleft (Bool.and_eq_true_iff.1 h).2
      · exact .pure ()
  · exact .pure ()

theorem askPath_simulates (path : String) :
    EvalM.Simulates env recording recording' labels (askPath path) (askPath path) :=
  EvalM.Steady.compositional.askPath (EvalM.Simulates.emit _)
    (EvalM.Simulates.setting_bind fun _ => .pure _)

theorem follows_steady (h : e.Fits labels True) :
    e.Follows (EvalM.Steady env recording recording' labels) := by
  induction e with
  | leaf node => exact LeafNode.follows_steady (h.leaf_node.labelled trivial)
  | call mark name arguments =>
    refine EvalM.Steady.compositional.call_of_expanded name (fun argument hargument => ?_)
      askPath_simulates
    exact LeafNode.expanded_simulates ((h argument hargument).labelled trivial)
  | not mark operand ih => exact ih h
  | logical mark op left right ihl ihr => exact ⟨ihl h.logical_left, ihr h.logical_right⟩
  | comparison mark op left right ihl ihr =>
    have hunseen := unseen_recordCompared h.comparison_left h.comparison_right
    exact ⟨ihl h.comparison_left, ihr h.comparison_right, fun _ => .of_unseen hunseen hunseen⟩

/-- Two evaluations that know as good as the same of the leaves of a tree cannot be told apart, but
for what they record and note. -/
theorem evaluate_simulates (env : Environment) (recording recording' : Bool)
    (h : e.Fits labels True) :
    EvalM.Simulates env recording recording' labels e.evaluate e.evaluate :=
  EvalM.Steady.compositional.evaluate (follows_steady h)

end Expr

/-! ## Questions about a node -/

theorem Inquiry.ask_simulates (env : Environment) (recording recording' : Bool) {labels : Labels}
    {e : Expr} (h : e.Fits labels True) (inquiry : Inquiry) :
    EvalM.Simulates env recording recording' labels (inquiry.ask e) (inquiry.ask e) := by
  have hsteady : EvalM.Compositional (EvalM.Steady env recording recording' labels) :=
    EvalM.Steady.compositional
  have hfollows : e.Follows (EvalM.Steady env recording recording' labels) :=
    Expr.follows_steady h
  cases inquiry with
  | evaluate => exact hsteady.evaluate hfollows
  | canBoolean => exact hsteady.canBoolean hfollows
  | canNumber => exact hsteady.bind_right (hsteady.number? hfollows) fun _ => hsteady.pure _
  | canVersion => exact hsteady.bind_right (hsteady.version? hfollows) fun _ => hsteady.pure _
  | boolean => exact hsteady.boolean hfollows
  | number => exact hsteady.number hfollows
  | version => exact hsteady.version hfollows
  | expanded => exact hsteady.expanded hfollows
  | unexpanded => exact .setting_bind fun _ => .pure _
  | isEmpty => exact hsteady.isEmpty hfollows

end CondLang
