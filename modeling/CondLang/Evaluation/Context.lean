import CondLang.Condition
import CondLang.Evaluation
import CondLang.Evaluation.Conditioned

/-!
# Contexts of evaluation

A context lasts for any number of steps on one tree: what one step found out about the leaves, the
next one need not ask again, until it is reset.  It also gathers the values that properties are
compared with, if it was made to.
-/

namespace CondLang

/-- What lasts from one step on a tree to the next. -/
structure Context where
  source : String
  memo : Memo
  conditioned : Option Conditioned
  deriving Repr

namespace Context

/-- A context for a tree of the condition that the environment names. -/
def ofEnvironment (env : Environment) : Context := ⟨env.condition, .empty, none⟩

/-- A context for the tree of a condition. -/
def ofCondition (condition : Condition) : Context := ⟨condition.text, .empty, none⟩

/-- The context with a register for the values that properties are compared with. -/
def recording (context : Context) : Context := { context with conditioned := some .empty }

/-- The setting of a step in this context. -/
def setting (context : Context) (env : Environment) : Setting :=
  ⟨env, context.source, context.conditioned.isSome⟩

/-- A register with all that events record. -/
def gather (register : Conditioned) (events : List Event) : Conditioned :=
  (events.filterMap Event.record?).foldl
    (fun register (name, value) => Conditioned.record register name value) register

/-- Takes a step: how it ended, and the context after it. -/
def run {α : Type} (context : Context) (env : Environment) (step : EvalM α) : Run α × Context :=
  let run := step (context.setting env) context.memo
  (run, { context with
    memo := run.memo
    conditioned := context.conditioned.map (gather · run.events) })

/-- The context that knows nothing of any node. -/
def reset (context : Context) : Context := { context with memo := .empty }

/-- The context that knows nothing of a tree. -/
def forget (context : Context) (e : Expr) : Context :=
  { context with memo := e.nodes.foldl (fun memo node => memo.forget node.id) context.memo }

/-- Empties the register, if there is one. -/
def takeConditioned (context : Context) : Option Conditioned × Context :=
  (context.conditioned, { context with conditioned := context.conditioned.map fun _ => .empty })

end Context

/-- The outcome of an evaluation and the events on the way. -/
structure Evaluated where
  outcome : Except EvalError Bool
  events : List Event

namespace Condition

/-- Evaluates a condition afresh. -/
def evaluate (condition : Condition) (env : Environment) : Evaluated :=
  let (run, _) := (Context.ofCondition condition).run env condition.root.evaluate
  ⟨run.outcome, run.events⟩

/-- The note that a condition was parsed. -/
def parsedNote (condition : Condition) : Note := .parsed condition.text condition.root.shown

end Condition

/-- Evaluates conditions and may keep what properties were compared with from one to the next. -/
structure Evaluator where
  conditioned : Option Conditioned
  deriving DecidableEq, Repr

namespace Evaluator

/-- An evaluator that keeps nothing. -/
def plain : Evaluator := ⟨none⟩

/-- An evaluator that keeps what properties are compared with. -/
def recording : Evaluator := ⟨some .empty⟩

/-- Evaluates a condition, and keeps what it recorded, even if it fails. -/
def evaluate (evaluator : Evaluator) (condition : Condition) (env : Environment) :
    Evaluated × Evaluator :=
  let context := Context.ofCondition condition
  let context := if evaluator.conditioned.isSome then context.recording else context
  let (run, context) := context.run env condition.root.evaluate
  (⟨run.outcome, run.events⟩,
    ⟨evaluator.conditioned.map fun register =>
      register.merge (context.conditioned.getD .empty)⟩)

/-- Empties the register; an evaluator that keeps nothing has nothing to give. -/
def takeConditioned (evaluator : Evaluator) : Conditioned × Evaluator :=
  (evaluator.conditioned.getD .empty, ⟨evaluator.conditioned.map fun _ => .empty⟩)

end Evaluator

/-- Parses and evaluates a condition; one of blanks only is true. -/
def evaluateCondition (text : String) (policy : Policy) (env : Environment) : Evaluated :=
  if Text.isBlankText text then ⟨.ok true, []⟩
  else
    match Condition.parse text policy with
    | .error e => ⟨.error (.parse e), []⟩
    | .ok condition =>
        let evaluated := condition.evaluate env
        { evaluated with events := .noted condition.parsedNote :: evaluated.events }

end CondLang
