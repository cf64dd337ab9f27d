import CondLang.Command.StateDocument
import CondLang.Evaluation.Context
import CondLang.Json.Reader
import CondLang.Project.Answers

/-!
# Checking a condition

`check` parses a condition and, unless only its syntax matters, evaluates it against the project
that a state document and assignments describe: the assignments of properties override those of the
document, and those of items come behind its items.  The report holds the result, what properties
were compared with, and whether the condition mixes `and` and `or`.

A condition that does not parse is found out before anything is read from the document.
-/

namespace CondLang.Command

/-- What to check, and against what. -/
structure CheckRequest where
  condition : String
  document : Option String
  properties : List String
  items : List String
  strict : Bool
  policy : Policy
  location : Location
  syntaxOnly : Bool
  deriving Repr

/-- What came of evaluating a condition. -/
structure CheckReport where
  condition : String
  result : Bool
  conditioned : Conditioned
  mixesConnectives : Bool
  deriving DecidableEq, Repr

/-- The report as a JSON object. -/
def CheckReport.toJson (report : CheckReport) : Json :=
  .ofMembers [("condition", .string report.condition), ("result", .bool report.result),
    ("conditioned_properties", StateDocument.ofConditioned report.conditioned),
    ("and_or_conflict", .bool report.mixesConnectives)]

/-- What came of a check: only that the syntax is valid, or a report. -/
inductive CheckResult where
  | syntaxValid
  | report (report : CheckReport)
  deriving DecidableEq, Repr

/-- A check, and the resolved paths it asked about. -/
structure Checked where
  outcome : Except CommandError CheckResult
  paths : List String

namespace CheckRequest

/-- The project that a document describes; without one it is empty. -/
def documentProject : Option String → Except CommandError Project
  | none => .ok .empty
  | some text =>
      match Json.parse? text with
      | some document => StateDocument.project document
      | none => .error .json

/-- The project to check against. -/
def project (request : CheckRequest) : Except CommandError Project := do
  let documented ← documentProject request.document
  let assigned ← StateDocument.assignProperties documented request.properties
  let filled ← StateDocument.assignItems assigned request.items
  return if request.strict then { filled with strictness := .strict } else filled

/-- The condition, or `none` if there are only blanks. -/
def parsed (request : CheckRequest) : Except CommandError (Option Condition) :=
  if Text.isBlankText request.condition then .ok none
  else
    match Condition.parse request.condition request.policy with
    | .ok condition => .ok (some condition)
    | .error e => .error (.parse e)

/-- Evaluates a condition against a project, given which resolved paths exist. -/
def evaluate (request : CheckRequest) (onDisk : String → Bool) (condition : Condition)
    (project : Project) : Checked :=
  let env := project.environment onDisk request.condition request.location
  let (evaluated, evaluator) := Evaluator.recording.evaluate condition env
  let paths := (Event.questions evaluated.events).filterMap fun question =>
    match question with
    | .pathExists path => some (project.resolvePath path)
    | .query _ => none
  match evaluated.outcome with
  | .error e => ⟨.error (.eval e), paths⟩
  | .ok result =>
      ⟨.ok (.report ⟨request.condition, result, evaluator.takeConditioned.1,
        condition.mixesConnectives⟩), paths⟩

/-- Checks a condition, given which resolved paths exist. -/
def run (request : CheckRequest) (onDisk : String → Bool) : Checked :=
  match request.parsed with
  | .error e => ⟨.error e, []⟩
  | .ok condition =>
      if request.syntaxOnly then ⟨.ok .syntaxValid, []⟩
      else
        match request.project with
        | .error e => ⟨.error e, []⟩
        | .ok project =>
            match condition with
            | none => ⟨.ok (.report ⟨request.condition, true, .empty, false⟩), []⟩
            | some condition => request.evaluate onDisk condition project

end CheckRequest

end CondLang.Command
