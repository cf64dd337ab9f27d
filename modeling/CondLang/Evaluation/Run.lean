import CondLang.Evaluation.Error
import CondLang.Evaluation.Event
import CondLang.Evaluation.Memo

/-!
# Steps of an evaluation

A step is given the setting of the evaluation and what is known so far.  It ends with an answer or
an error, what is known then, and the events on the way; an error keeps both.  Steps are put
together one after the other, and nothing happens after an error.
-/

namespace CondLang

/-- What an evaluation is about: the answers to its questions, the text of the condition for
messages and slices, and whether values that properties are compared with are recorded. -/
structure Setting where
  environment : Environment
  source : String
  recording : Bool

/-- How a step ended. -/
structure Run (α : Type) where
  outcome : Except EvalError α
  memo : Memo
  events : List Event

/-- A step of an evaluation. -/
def EvalM (α : Type) : Type := Setting → Memo → Run α

namespace EvalM

variable {α β : Type}

/-- The step that answers at once. -/
protected def pure (a : α) : EvalM α := fun _ memo => ⟨.ok a, memo, []⟩

/-- One step after another. -/
protected def bind (step : EvalM α) (next : α → EvalM β) : EvalM β := fun setting memo =>
  match step setting memo with
  | ⟨.error e, memo, events⟩ => ⟨.error e, memo, events⟩
  | ⟨.ok a, memo, events⟩ =>
      let run := next a setting memo
      { run with events := events ++ run.events }

instance : Monad EvalM where
  pure := EvalM.pure
  bind := EvalM.bind

/-- The step that fails with an error of the condition. -/
def fail (kind : EvalErrorKind) : EvalM α := fun setting memo =>
  ⟨.error (.failure kind setting.source setting.environment.location), memo, []⟩

/-- The setting of the evaluation. -/
def setting : EvalM Setting := fun setting memo => ⟨.ok setting, memo, []⟩

/-- What is known of a node. -/
def known (id : Nat) : EvalM NodeMemo := fun _ memo => ⟨.ok (memo.get id), memo, []⟩

/-- Keeps something about a node. -/
def keep (id : Nat) (change : NodeMemo → NodeMemo) : EvalM Unit := fun _ memo =>
  ⟨.ok (), memo.modify id change, []⟩

/-- Leaves events. -/
def emit (events : List Event) : EvalM Unit := fun _ memo => ⟨.ok (), memo, events⟩

/-- Leaves a note. -/
def note (n : Note) : EvalM Unit := emit [.noted n]

theorem pure_apply (a : α) (s : Setting) (memo : Memo) :
    (pure a : EvalM α) s memo = ⟨.ok a, memo, []⟩ := rfl

theorem bind_of_ok {step : EvalM α} {next : α → EvalM β} {s : Setting} {memo after : Memo}
    {a : α} {events : List Event} (hrun : step s memo = ⟨.ok a, after, events⟩) :
    (step >>= next) s memo =
      { next a s after with events := events ++ (next a s after).events } := by
  simp [bind, EvalM.bind, hrun]

theorem bind_of_error {step : EvalM α} {next : α → EvalM β} {s : Setting} {memo after : Memo}
    {e : EvalError} {events : List Event} (hrun : step s memo = ⟨.error e, after, events⟩) :
    (step >>= next) s memo = ⟨.error e, after, events⟩ := by
  simp [bind, EvalM.bind, hrun]

end EvalM

end CondLang
