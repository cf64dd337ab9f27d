import CondLang.Command.Arguments
import CondLang.Command.Check
import CondLang.Command.Help
import CondLang.Command.Tokens

/-!
# The command line

```text
bcond check CONDITION [--state FILE] [--property NAME=VALUE]… [--item TYPE=INCLUDE]… [--strict]
                      [--no-item-lists] [--no-metadata] [--file FILE] [--line N] [--column N]
                      [--pretty] [--syntax-only]
bcond tokens CONDITION [--pretty]
bcond --version
bcond help [COMMAND]
```

A command is read from the arguments, is given the state document if it asks for one, and answers
what to print and an exit code: 0 if it succeeded, 1 with a message if it failed, 2 if the arguments
are wrong.  The text of help and of usage errors is left out.  The document comes from the file
named or from standard input; one of blanks only on standard input is none.
-/

namespace CondLang.Command

/-- What to print, and how to exit. -/
structure Outcome where
  exit : Nat
  stdout : String
  stderr : String
  deriving DecidableEq, Repr

/-- A command. -/
inductive Request where
  | check (request : CheckRequest) (pretty : Bool) (stateFile : Option String)
  | tokens (condition : String) (pretty : Bool)
  | version
  | help (text : String)
  deriving Repr

/-- Where the state document of a command is. -/
inductive StateSource where
  | nowhere
  | file (path : String)
  | input
  deriving DecidableEq, Repr

namespace Request

/-- The name of the program. -/
def program : String := "bcond"

/-- What the program does. -/
def programAbout : String :=
  "bcond - evaluate build-file conditions such as '$(Configuration)' == 'Debug'"

/-- The name and the version of the program. -/
def versionLine : String := program ++ " 0.1.0\n"

/-! ## Commands and options -/

/-- The option that names the state document. -/
def stateOption : OptionSpec where
  name := "state"
  letter := some 's'
  kind := .value "STATE"
  accepts := fun path => !path.isEmpty
  about := "JSON state file with properties and items (reads stdin if not provided)"

/-- The option that assigns a property. -/
def propertyOption : OptionSpec where
  name := "property"
  letter := some 'p'
  kind := .values "NAME=VALUE"
  accepts := fun _ => true
  about := "Define a property"

/-- The option that adds an item. -/
def itemOption : OptionSpec where
  name := "item"
  letter := some 'i'
  kind := .values "TYPE=INCLUDE"
  accepts := fun _ => true
  about := "Add an item"

/-- The option that names the file a condition comes from. -/
def fileOption : OptionSpec where
  name := "file"
  letter := none
  kind := .value "FILE"
  accepts := fun _ => true
  about := "File the condition came from, for error messages"

/-- An option that takes one number, zero if it is not given. -/
def numberOption (name shown : String) : OptionSpec where
  name
  letter := none
  kind := .value shown
  accepts := fun text => (wordValue? text).isSome
  about := "[default: 0]"

/-- A switch. -/
def switchOption (name about : String) : OptionSpec where
  name
  letter := none
  kind := .switch
  accepts := fun _ => true
  about

/-- The switch for output of many lines. -/
def prettyOption : OptionSpec := switchOption "pretty" "Pretty-print the output"

/-- The command that checks a condition. -/
def checkCommand : CommandSpec where
  name := "check"
  about := "Validate and evaluate a condition"
  operand := "CONDITION"
  operandAbout := "The condition to evaluate"
  options :=
    [stateOption, propertyOption, itemOption,
      switchOption "strict" "Undefined properties and metadata are errors",
      switchOption "no-item-lists" "Reject item list references",
      switchOption "no-metadata" "Reject item metadata references",
      fileOption, numberOption "line" "LINE", numberOption "column" "COLUMN", prettyOption,
      switchOption "syntax-only" "Only validate syntax, don't evaluate"]

/-- The command that prints the tokens of a condition. -/
def tokensCommand : CommandSpec where
  name := "tokens"
  about := "Print the tokens of a condition"
  operand := "CONDITION"
  operandAbout := ""
  options := [prettyOption]

/-- The help of the program. -/
def programHelp : String := Help.ofProgram program programAbout [checkCommand, tokensCommand]

/-- The help of a command. -/
def helpOf? (name : String) : Option String :=
  if name = "help" then some (Help.ofHelp program)
  else ([checkCommand, tokensCommand].find? (·.name == name)).map (Help.ofCommand program)

/-! ## Reading -/

/-- The number given for an option, or zero. -/
def numberOf (given : Arguments) (name : String) : Nat :=
  ((given.value? name).bind wordValue?).getD 0

/-- The `check` that operand and options ask for; the document is not read yet. -/
def ofCheckArguments (condition : String) (given : Arguments) : Request :=
  .check
    { condition
      document := none
      properties := given.values "property"
      items := given.values "item"
      strict := given.switch "strict"
      policy := ⟨true, !given.switch "no-item-lists", !given.switch "no-metadata"⟩
      location := ⟨given.value? "file", numberOf given "line", numberOf given "column"⟩
      syntaxOnly := given.switch "syntax-only" }
    (given.switch "pretty") (given.value? "state")

/-- What arguments behind the name of a command ask for; `none` if they are wrong. -/
def ofOptions? (spec : CommandSpec) (make : String → Arguments → Request)
    (arguments : List String) : Option Request :=
  match Arguments.read spec.options arguments with
  | .ok (operand, given) => some (make operand given)
  | .error .help => some (.help (Help.ofCommand program spec))
  | .error .usage => none

/-- What arguments ask for; `none` if they are wrong. -/
def ofArguments? : List String → Option Request
  | [] => none
  | "check" :: rest => ofOptions? checkCommand ofCheckArguments rest
  | "tokens" :: rest =>
      ofOptions? tokensCommand (fun text given => .tokens text (given.switch "pretty")) rest
  | ["help"] => some (.help programHelp)
  | ["help", name] => (helpOf? name).map .help
  | first :: _ =>
      match Shape.of first with
      | .long "version" none | .short 'V' _ => some .version
      | .long "help" none | .short 'h' _ => some (.help programHelp)
      | _ => none

/-! ## Running -/

/-- Where the state document of a command is. -/
def stateSource : Request → StateSource
  | check _ _ (some path) => .file path
  | check request _ none => if request.syntaxOnly then .nowhere else .input
  | _ => .nowhere

/-- The text of a source, read or not, as a state document. -/
def document (source : StateSource) (content : Except String String) :
    Except CommandError (Option String) :=
  match source with
  | .nowhere => .ok none
  | .file _ =>
      match content with
      | .ok text => .ok (some text)
      | .error message => .error (.io message)
  | .input =>
      match content with
      | .ok text => .ok (if Text.isBlankText text then none else some text)
      | .error message => .error (.io message)

/-- What is printed of a value. -/
def printed (value : Json) (pretty : Bool) : Outcome := ⟨0, value.toText pretty ++ "\n", ""⟩

/-- What is printed of an error. -/
def failed (error : CommandError) : Outcome := ⟨1, "", error.message ++ "\n"⟩

/-- What is printed of a check. -/
def checkOutcome (pretty : Bool) : Except CommandError CheckResult → Outcome
  | .ok .syntaxValid => ⟨0, "Syntax is valid\n", ""⟩
  | .ok (.report report) => printed report.toJson pretty
  | .error e => failed e

/-- Runs a command, given the content of the source of its state document and which resolved paths
exist.  It answers the resolved paths it asked about, too. -/
def run (request : Request) (content : Except String String) (onDisk : String → Bool) :
    Outcome × List String :=
  match request with
  | check wanted pretty _ =>
      match document request.stateSource content with
      | .error e => (failed e, [])
      | .ok document =>
          let checked := { wanted with document }.run onDisk
          (checkOutcome pretty checked.outcome, checked.paths)
  | tokens condition pretty =>
      match Command.tokens condition with
      | .ok report => (printed report pretty, [])
      | .error e => (failed e, [])
  | version => (⟨0, versionLine, ""⟩, [])
  | help text => (⟨0, text, ""⟩, [])

end Request

/-- What comes of wrong arguments. -/
def Outcome.misused : Outcome := ⟨2, "", ""⟩

/-- The command line as a whole, given standard input, how files read, and which resolved paths
exist. -/
def runLine (arguments : List String) (input : Except String String)
    (read : String → Except String String) (onDisk : String → Bool) : Outcome :=
  match Request.ofArguments? arguments with
  | none => .misused
  | some request =>
      let content :=
        match request.stateSource with
        | .file path => read path
        | _ => input
      (request.run content onDisk).1

end CondLang.Command
