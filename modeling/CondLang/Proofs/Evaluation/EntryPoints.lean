import CondLang.Command.Check
import CondLang.Proofs.ConditionCache
import CondLang.Proofs.Evaluation.Alike
import CondLang.Proofs.Evaluation.Simulation
import Mathlib.Control.Monad.Basic

/-!
# The ways to evaluate a text

A text may be evaluated at once, or parsed first and evaluated then; its condition may come from a
cache, and an evaluator may record what properties are compared with.  All ways have the same
outcome through the same questions, and so has a check against the project that it builds
(`evaluate_alike`).

Recording and not recording run side by side, as what is recorded cannot be seen.
-/

namespace CondLang

/-! ## Errors -/

/-- A step fails with errors of the condition only. -/
def EvalM.FailsWithin : StepProperty := fun _ _ step =>
  ∀ s memo e, (step s memo).outcome = .error e → ∃ kind, e = s.failure kind

namespace EvalM.FailsWithin

variable {α β : Type} {front back : List LeafNode}

theorem pure (a : α) : FailsWithin α [] (pure a) := fun _ _ _ h => nomatch h

theorem keep (id : Nat) (change : NodeMemo → NodeMemo) : FailsWithin Unit [] (keep id change) :=
  fun _ _ _ h => nomatch h

theorem emit (events : List Event) : FailsWithin Unit [] (emit events) := fun _ _ _ h => nomatch h

theorem setting_bind {next : Setting → EvalM α} (hnext : ∀ s, FailsWithin α back (next s)) :
    FailsWithin α back (setting >>= next) := fun s => hnext s s

theorem bind {step : EvalM α} {next : α → EvalM β} (hstep : FailsWithin α front step)
    (hnext : ∀ a, FailsWithin β back (next a)) :
    FailsWithin β (front ++ back) (step >>= next) := by
  intro s memo e
  cases hrun : step s memo with
  | mk outcome after events =>
    cases outcome with
    | error cause =>
      rw [bind_of_error hrun]
      rintro ⟨⟩
      exact hstep s memo e (by rw [hrun])
    | ok a =>
      rw [bind_of_ok hrun]
      exact hnext a s after e

theorem law : Law FailsWithin where
  weaken h := h
  pure := pure
  fail kind := fun _ _ _ h => by
    cases h
    exact ⟨kind, rfl⟩
  bind := bind
  setting hnext _ := setting_bind hnext
  known _ := fun _ _ _ h => nomatch h
  keepNumber _ _ := keep _ _
  keepVersion _ _ := keep _ _
  note _ := emit _
  recorded _ := emit _

theorem expanded (node : LeafNode) : FailsWithin String [] node.expanded := by
  unfold LeafNode.expanded
  split
  · refine law.bind_right (law.known _) fun slot => ?_
    split
    · exact pure _
    · refine setting_bind fun s => law.bind_right (emit _) fun _ => ?_
      split
      · exact law.fail _
      · exact law.bind_right (keep _ _) fun _ => pure _
  · exact pure _

theorem askPath (path : String) : FailsWithin Bool [] (Expr.askPath path) :=
  law.askPath (emit _) (setting_bind fun _ => pure _)

end EvalM.FailsWithin

/-- An error of an evaluation bears the text of the condition and its location. -/
theorem Expr.exists_failure_of_error {e : Expr} {s : Setting} {memo : Memo} {error : EvalError}
    (h : (e.evaluate s memo).outcome = .error error) : ∃ kind, error = s.failure kind := by
  have hobeys : e.Obeys EvalM.FailsWithin :=
    obeys_of (fun node _ => .expanded node) fun _ name _ _ =>
      EvalM.FailsWithin.law.call_of_expanded name (fun node _ => .expanded node) .askPath
  exact EvalM.FailsWithin.law.evaluate (EvalM.FailsWithin.law.follows hobeys) s memo error h

/-! ## Evaluations of one condition -/

/-- Two evaluations have the same outcome through the same questions. -/
structure Evaluated.Alike (evaluated other : Evaluated) : Prop where
  outcome : evaluated.outcome = other.outcome
  questions : Event.questions evaluated.events = Event.questions other.events

namespace Evaluated.Alike

variable {evaluated other last : Evaluated}

theorem refl (evaluated : Evaluated) : evaluated.Alike evaluated := ⟨rfl, rfl⟩

theorem symm (h : evaluated.Alike other) : other.Alike evaluated :=
  ⟨h.outcome.symm, h.questions.symm⟩

theorem trans (h : evaluated.Alike other) (h' : other.Alike last) : evaluated.Alike last :=
  ⟨h.outcome.trans h'.outcome, h.questions.trans h'.questions⟩

end Evaluated.Alike

namespace Condition

variable {text : String} {policy : Policy} {condition : Condition}

/-- Whatever an evaluator records or has recorded before, it evaluates a condition alike. -/
theorem evaluate_evaluator_alike (hparse : parse text policy = .ok condition) (env : Environment)
    (evaluator : Evaluator) :
    (evaluator.evaluate condition env).1.Alike (condition.evaluate env) := by
  have hfits := fits_labels hparse (Expr.self_mem_nodes condition.root) True
  obtain ⟨houtcome, hquestions, -⟩ := Expr.evaluate_simulates env evaluator.conditioned.isSome
    false hfits condition.text .empty .empty (.refl _)
  rw [evaluator.evaluate_fst]
  exact ⟨houtcome, hquestions⟩

end Condition

/-! ## The ways to evaluate a text -/

/-- How a text becomes a condition. -/
inductive Parsing where
  | direct
  | cached (cache : ConditionCache)

namespace Parsing

/-- The condition of a text. -/
def parse (text : String) (policy : Policy) : Parsing → Except ParseError Condition
  | direct => Condition.parse text policy
  | cached cache => (cache.getOrParse text).1.map (·.condition)

/-- A cache was made for the policy. -/
def Under (policy : Policy) : Parsing → Prop
  | direct => True
  | cached cache => cache.Reachable policy

theorem parse_eq {parsing : Parsing} {policy : Policy} (h : parsing.Under policy) (text : String) :
    parsing.parse text policy = Condition.parse text policy := by
  cases parsing with
  | direct => rfl
  | cached cache => exact ConditionCache.Reachable.getOrParse_fst h text

end Parsing

/-- How a text is evaluated: at once, or as a condition that it is parsed to before, afresh or by an
evaluator. -/
inductive Approach where
  | atOnce
  | afresh (parsing : Parsing)
  | evaluatedBy (parsing : Parsing) (evaluator : Evaluator)

namespace Approach

/-- Evaluates what a text was parsed to. -/
def evaluateParsed (evaluate : Condition → Evaluated) : Except ParseError Condition → Evaluated
  | .error e => ⟨.error (.parse e), []⟩
  | .ok condition => evaluate condition

/-- Evaluates a text. -/
def evaluate (text : String) (policy : Policy) (env : Environment) : Approach → Evaluated
  | .atOnce => evaluateCondition text policy env
  | .afresh parsing => evaluateParsed (·.evaluate env) (parsing.parse text policy)
  | .evaluatedBy parsing evaluator =>
      evaluateParsed (fun condition => (evaluator.evaluate condition env).1)
        (parsing.parse text policy)

/-- A cache was made for the policy. -/
def Under (policy : Policy) : Approach → Prop
  | .atOnce => True
  | .afresh parsing | .evaluatedBy parsing _ => parsing.Under policy

variable {text : String} {policy : Policy} {approach : Approach}

/-- Any way to evaluate a text is like parsing it and evaluating the condition afresh. -/
theorem evaluate_alike_direct (hblank : Text.isBlankText text = false)
    (h : approach.Under policy) (env : Environment) :
    (approach.evaluate text policy env).Alike
      ((afresh .direct).evaluate text policy env) := by
  cases approach with
  | atOnce =>
    show (evaluateCondition text policy env).Alike
      (evaluateParsed (·.evaluate env) (Condition.parse text policy))
    rw [evaluateCondition, if_neg (by simp [hblank])]
    cases Condition.parse text policy with
    | error e => exact .refl _
    | ok condition => exact ⟨rfl, rfl⟩
  | afresh parsing =>
    rw [evaluate, parsing.parse_eq h]
    exact .refl _
  | evaluatedBy parsing evaluator =>
    show (evaluateParsed _ (parsing.parse text policy)).Alike
      (evaluateParsed (·.evaluate env) (Condition.parse text policy))
    rw [parsing.parse_eq h]
    cases hparse : Condition.parse text policy with
    | error e => exact .refl _
    | ok condition => exact Condition.evaluate_evaluator_alike hparse env evaluator

end Approach

/-! ## Checks -/

namespace Command

/-- The error of a check for an error of an evaluation. -/
def errorOfEval : EvalError → CommandError
  | .parse e => .parse e
  | e => .eval e

/-- The truth value in what came of a check. -/
def CheckResult.value? : CheckResult → Option Bool
  | .syntaxValid => none
  | .report shown => some shown.result

/-- A check has the outcome of an evaluation. -/
def Checked.Shows (checked : Checked) (evaluated : Evaluated) : Prop :=
  checked.outcome.map CheckResult.value? = (evaluated.outcome.map some).mapError errorOfEval

namespace CheckRequest

variable {request : CheckRequest} {project : Project}

/-- A check that evaluates a condition has the outcome of this evaluation. -/
theorem evaluate_shows {condition : Condition}
    (hparse : Condition.parse request.condition request.policy = .ok condition)
    (project : Project) (onDisk : String → Bool) :
    (request.evaluate onDisk condition project).Shows
      (condition.evaluate (project.environment onDisk request.condition request.location)) := by
  have halike := Condition.evaluate_evaluator_alike hparse
    (project.environment onDisk request.condition request.location) .recording
  rw [Checked.Shows, ← halike.outcome, evaluate]
  cases houtcome : (Evaluator.recording.evaluate condition
      (project.environment onDisk request.condition request.location)).1.outcome with
  | ok result =>
    simp only [houtcome]
    rfl
  | error error =>
    obtain ⟨kind, rfl⟩ := Expr.exists_failure_of_error houtcome
    simp only [houtcome]
    rfl

/-- A check shows the outcome of evaluating the text at once, against the project that it builds. -/
theorem run_shows (hevaluates : request.syntaxOnly = false)
    (hproject : request.project = .ok project) (onDisk : String → Bool) :
    (request.run onDisk).Shows (evaluateCondition request.condition request.policy
      (project.environment onDisk request.condition request.location)) := by
  rw [run, parsed, evaluateCondition]
  cases hblank : Text.isBlankText request.condition with
  | true =>
    simp only [if_true, hevaluates, hproject]
    rfl
  | false =>
    rw [if_neg Bool.false_ne_true, if_neg Bool.false_ne_true]
    cases hparse : Condition.parse request.condition request.policy with
    | error e => rfl
    | ok condition =>
      simp only [hevaluates, hproject]
      exact evaluate_shows hparse project onDisk

end CheckRequest

end Command

/-! ## All ways agree -/

/-- All ways to evaluate a text have the same outcome through the same questions, unless there are
only blanks, which evaluated at once are true.  In either case a check shows the outcome of
evaluating the text at once. -/
theorem Approach.evaluate_alike (text : String) (policy : Policy) :
    (Text.isBlankText text = false → ∀ (env : Environment) (approach approach' : Approach),
      approach.Under policy → approach'.Under policy →
        (approach.evaluate text policy env).Alike (approach'.evaluate text policy env)) ∧
    (Text.isBlankText text = true → ∀ env : Environment,
      (evaluateCondition text policy env).outcome = .ok true) ∧
    ∀ (request : Command.CheckRequest) (project : Project), request.syntaxOnly = false →
      request.condition = text → request.policy = policy → request.project = .ok project →
        ∀ onDisk : String → Bool, (request.run onDisk).Shows
          (evaluateCondition text policy (project.environment onDisk text request.location)) := by
  refine ⟨fun hblank env approach approach' h h' => ?_, fun hblank env => ?_, ?_⟩
  · exact (evaluate_alike_direct hblank h env).trans (evaluate_alike_direct hblank h' env).symm
  · rw [evaluateCondition, if_pos hblank]
  · rintro request project hevaluates rfl rfl hproject onDisk
    exact request.run_shows hevaluates hproject onDisk

/-- A check of two comparisons, of which the second one refers to a property that is not defined. -/
def Command.CheckRequest.undefined : CheckRequest where
  condition := "'$(A)|'=='x%7c'and'$(B)'=='y'"
  document := none
  properties := ["A=x"]
  items := []
  strict := true
  policy := .everything
  location := .unknown
  syntaxOnly := false

/-- With and without a cache and a register, the check and the evaluation come to the same error. -/
theorem Approach.evaluate_alike_undefined :
    let request := Command.CheckRequest.undefined
    let text := request.condition
    let project : Project := { Project.empty.setProperty "A" "x" with strictness := .strict }
    let env := project.environment (fun _ => false) text .unknown
    let cache := ((ConditionCache.ofPolicy .everything).getOrParse text).2.2
    let approach := evaluatedBy (.cached cache) .recording
    Text.isBlankText text = false ∧ approach.Under .everything ∧
      (approach.evaluate text .everything env).Alike (atOnce.evaluate text .everything env) ∧
      request.project = .ok project ∧
      (request.run fun _ => false).Shows (evaluateCondition text .everything env) ∧
      (evaluateCondition text .everything env).outcome =
        .error (.failure (.expansion "$(B)" (.undefinedProperty "B")) text .unknown) ∧
      Event.questions (evaluateCondition text .everything env).events =
        [.query (.property "A"), .query (.property "B")] ∧
      Text.isBlankText " " = true ∧ (evaluateCondition " " .everything env).outcome = .ok true := by
  intro request text project env cache approach
  have hblank : Text.isBlankText text = false := by decide +kernel
  have hblanks : Text.isBlankText " " = true := by decide +kernel
  have hunder : approach.Under .everything := .getOrParse .ofPolicy text
  have hproject : request.project = .ok project := by decide +kernel
  obtain ⟨halike, -, hcheck⟩ := evaluate_alike text .everything
  obtain ⟨-, htrue, -⟩ := evaluate_alike " " .everything
  exact ⟨hblank, hunder, halike hblank env approach atOnce hunder trivial, hproject,
    hcheck request project rfl rfl rfl hproject fun _ => false, by decide +kernel,
    by decide +kernel, hblanks, htrue hblanks env⟩

end CondLang
