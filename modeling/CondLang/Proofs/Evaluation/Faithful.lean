import CondLang.Proofs.Evaluation.Pure

/-!
# Memos that hold the truth

A memo is faithful to a labelling of node numbers with leaves if all that it holds of a labelled
node is what would be found out about its leaf.  `EvalM.Answers` says of a step that it leaves
faithful memos faithful and that from them it has the answer of an evaluation without a memory.
Steps in sequence answer in sequence (`Answers.bind`), so each function of the evaluation has one
lemma, which follows its definition.

The answer of a step may depend on a condition: one that uses leaves without a label promises no
answer, but still does not spoil what is held of the labelled ones.
-/

namespace CondLang

/-- What is held of a leaf is what is found out about it. -/
structure NodeMemo.Fits (s : Setting) (leaf : Leaf) (slot : NodeMemo) : Prop where
  expanded : ∀ text, slot.expanded = some text → leaf.expandedIn s = .ok text
  number : ∀ number, slot.number = some number → leaf.numberIn s = .ok number
  version : ∀ version, slot.version = some version → leaf.versionIn s = .ok version

/-- Whose number a number is, for some of the leaves. -/
abbrev Labels := Nat → Option Leaf

/-- All that is held of labelled nodes is what is found out about their leaves. -/
def Memo.Faithful (s : Setting) (labels : Labels) (memo : Memo) : Prop :=
  ∀ id leaf, labels id = some leaf → (memo.get id).Fits s leaf

/-- A leaf bears its label, or it bears none and nothing is promised. -/
def LeafNode.Fits (labels : Labels) (promised : Prop) (node : LeafNode) : Prop :=
  labels node.mark.id = some node.leaf ∨ labels node.mark.id = none ∧ ¬promised

namespace LeafNode.Fits

variable {labels : Labels} {promised : Prop} {node : LeafNode}

theorem leaf_eq (h : node.Fits labels promised) {leaf : Leaf}
    (hleaf : labels node.mark.id = some leaf) : leaf = node.leaf := by
  rcases h with hlabel | ⟨hnone, -⟩
  · exact Option.some.inj (hleaf.symm.trans hlabel)
  · rw [hnone] at hleaf
    cases hleaf

theorem labelled (h : node.Fits labels promised) (hpromised : promised) :
    labels node.mark.id = some node.leaf := by
  rcases h with hlabel | ⟨-, hnot⟩
  · exact hlabel
  · exact absurd hpromised hnot

/-- Of a leaf by itself an answer may be promised if it bears a label. -/
theorem alone (h : node.Fits labels promised) :
    node.Fits labels (labels node.mark.id = some node.leaf) := by
  rcases h with hlabel | ⟨hnone, -⟩
  · exact .inl hlabel
  · refine .inr ⟨hnone, ?_⟩
    rw [hnone]
    exact nofun

end LeafNode.Fits

theorem NodeMemo.fits_unknown (s : Setting) (leaf : Leaf) : NodeMemo.unknown.Fits s leaf :=
  ⟨nofun, nofun, nofun⟩

namespace Memo.Faithful

variable {s : Setting} {labels : Labels} {memo : Memo}

theorem empty : Memo.empty.Faithful s labels := by
  intro id leaf _
  rw [Memo.get_empty]
  exact NodeMemo.fits_unknown s leaf

/-- A change that keeps what is held of one leaf true keeps the memo faithful. -/
theorem modify {id : Nat} {change : NodeMemo → NodeMemo} (h : memo.Faithful s labels)
    (hchange : ∀ leaf, labels id = some leaf → ∀ slot : NodeMemo, slot.Fits s leaf →
      (change slot).Fits s leaf) :
    (memo.modify id change).Faithful s labels := by
  intro other leaf hleaf
  rw [Memo.get_modify]
  split
  · next hsame =>
    rw [← hsame] at hleaf ⊢
    exact hchange leaf hleaf _ (h id leaf hleaf)
  · exact h other leaf hleaf

theorem forget (h : memo.Faithful s labels) (id : Nat) : (memo.forget id).Faithful s labels :=
  h.modify fun leaf _ _ _ => NodeMemo.fits_unknown s leaf

end Memo.Faithful

namespace EvalM

variable {α β : Type} {s : Setting} {labels : Labels} {promised : Prop}

/-- A step leaves faithful memos faithful, and has a given answer from them if that is promised,
whether or not values are recorded. -/
def Answers (s : Setting) (labels : Labels) (promised : Prop) (step : EvalM α)
    (answer : Except EvalError α) : Prop :=
  ∀ (recording : Bool) (memo : Memo), memo.Faithful s labels →
    (step { s with recording } memo).memo.Faithful s labels ∧
      (promised → (step { s with recording } memo).outcome = answer)

namespace Answers

theorem mono {promised' : Prop} {step : EvalM α} {answer : Except EvalError α}
    (h : Answers s labels promised step answer) (hpromised : promised' → promised) :
    Answers s labels promised' step answer := by
  intro recording memo hmemo
  obtain ⟨hafter, hanswer⟩ := h recording memo hmemo
  exact ⟨hafter, fun h => hanswer (hpromised h)⟩

theorem pure (a : α) : Answers s labels promised (pure a) (.ok a) :=
  fun _ _ hmemo => ⟨hmemo, fun _ => rfl⟩

theorem pure_of_eq {a : α} {answer : Except EvalError α} (h : promised → answer = .ok a) :
    Answers s labels promised (Pure.pure a) answer :=
  fun _ _ hmemo => ⟨hmemo, fun hpromised => (h hpromised).symm⟩

theorem fail (kind : EvalErrorKind) :
    Answers s labels promised (fail kind : EvalM α) (.error (s.failure kind)) :=
  fun _ _ hmemo => ⟨hmemo, fun _ => rfl⟩

theorem emit (events : List Event) : Answers s labels promised (emit events) (.ok ()) :=
  fun _ _ hmemo => ⟨hmemo, fun _ => rfl⟩

theorem note (n : Note) : Answers s labels promised (note n) (.ok ()) := emit [.noted n]

theorem keep {id : Nat} {change : NodeMemo → NodeMemo}
    (hchange : ∀ leaf, labels id = some leaf → ∀ slot : NodeMemo, slot.Fits s leaf →
      (change slot).Fits s leaf) :
    Answers s labels promised (keep id change) (.ok ()) :=
  fun _ _ hmemo => ⟨hmemo.modify hchange, fun _ => rfl⟩

/-- Steps in sequence answer in sequence. -/
theorem bind {step : EvalM α} {next : α → EvalM β} {answer : Except EvalError α}
    {answers : α → Except EvalError β} (hstep : Answers s labels promised step answer)
    (hnext : ∀ a, (promised → answer = .ok a) →
      Answers s labels promised (next a) (answers a)) :
    Answers s labels promised (step >>= next) (answer >>= answers) := by
  intro recording memo hmemo
  obtain ⟨hafter, hanswer⟩ := hstep recording memo hmemo
  cases hrun : step { s with recording } memo with
  | mk outcome after events =>
    rw [hrun] at hafter hanswer
    cases outcome with
    | error e =>
      rw [bind_of_error hrun]
      refine ⟨hafter, fun hpromised => ?_⟩
      rw [← hanswer hpromised]
      rfl
    | ok a =>
      rw [bind_of_ok hrun]
      obtain ⟨hend, hlast⟩ :=
        hnext a (fun hpromised => (hanswer hpromised).symm) recording after hafter
      refine ⟨hend, fun hpromised => ?_⟩
      rw [← hanswer hpromised]
      exact hlast hpromised

/-- A step whose answer is the last one. -/
theorem bind_answer {step : EvalM α} {next : α → EvalM α} {answer : Except EvalError α}
    (hstep : Answers s labels promised step answer)
    (hnext : ∀ a, (promised → answer = .ok a) → Answers s labels promised (next a) (.ok a)) :
    Answers s labels promised (step >>= next) answer := by
  have hall := hstep.bind hnext
  rwa [show answer >>= Except.ok = answer from bind_pure answer] at hall

/-- What is held of a labelled node may be trusted. -/
theorem known_bind {id : Nat} {next : NodeMemo → EvalM α} {answer : Except EvalError α}
    (hnext : ∀ slot : NodeMemo, (∀ leaf, labels id = some leaf → slot.Fits s leaf) →
      Answers s labels promised (next slot) answer) :
    Answers s labels promised (known id >>= next) answer :=
  fun recording memo hmemo =>
    hnext (memo.get id) (fun leaf hleaf => hmemo id leaf hleaf) recording memo hmemo

theorem setting_bind {next : Setting → EvalM α} {answer : Except EvalError α}
    (hnext : ∀ recording, Answers s labels promised (next { s with recording }) answer) :
    Answers s labels promised (EvalM.setting >>= next) answer :=
  fun recording memo hmemo => hnext recording recording memo hmemo

/-- A step that only leaves something behind has no part in the answer. -/
theorem then_bind {step : EvalM Unit} {next : Unit → EvalM α} {answer : Except EvalError α}
    (hstep : Answers s labels promised step (.ok ()))
    (hnext : Answers s labels promised (next ()) answer) :
    Answers s labels promised (step >>= next) answer :=
  hstep.bind fun _ _ => hnext

theorem when_bind {condition : Prop} [Decidable condition] {step : EvalM Unit}
    {next : Unit → EvalM α} {answer : Except EvalError α}
    (hstep : Answers s labels promised step (.ok ()))
    (hnext : Answers s labels promised (next ()) answer) :
    Answers s labels promised (if condition then step >>= next else next ()) answer := by
  split
  · exact .then_bind hstep hnext
  · exact hnext

end Answers

end EvalM

end CondLang
