import CondLang.Text.Digits

/-!
# Arguments

The arguments of a command are operands and options.  A long option is `--name value` or
`--name=value`; a short one is `-n value`, `-nvalue` or `-n=value`.  A switch takes no value.  A
value that is an argument of its own does not start with a dash, unless it is one dash only.  Behind
`--` every argument is an operand.

Each command takes one operand.  An option may be repeated only if its values are a list.  Arguments
are read from left to right, and the first one that is wrong, or that asks for help, decides.
-/

namespace CondLang.Command

/-- What an option takes: nothing, one value, or one value each time it is given.  A value has a
name for the text of help. -/
inductive OptionKind where
  | switch
  | value (shown : String)
  | values (shown : String)
  deriving DecidableEq, Repr

/-- Whether an option may be given more than once. -/
def OptionKind.repeats : OptionKind → Bool
  | values _ => true
  | switch | value _ => false

/-- An option: its name, the letter it may be given by, what it takes, which values it accepts, and
what it is for. -/
structure OptionSpec where
  name : String
  letter : Option Char
  kind : OptionKind
  accepts : String → Bool
  about : String

/-- A command: its name, what it does, the name and the meaning of its operand, and its options. -/
structure CommandSpec where
  name : String
  about : String
  operand : String
  operandAbout : String
  options : List OptionSpec

/-- The arguments of a command: the values of its options, in order, and its operand.  A switch that
is on has the empty value. -/
structure Arguments where
  options : List (String × String)
  operand : Option String
  deriving DecidableEq, Repr

/-- Why the arguments of a command do not make it run: help is asked for, or they are wrong. -/
inductive Refusal where
  | help
  | usage
  deriving DecidableEq, Repr

namespace Arguments

/-- No arguments. -/
def none : Arguments := ⟨[], .none⟩

/-- The values of an option. -/
def values (given : Arguments) (name : String) : List String :=
  given.options.filterMap fun (option, value) => if option = name then some value else .none

/-- The value of an option. -/
def value? (given : Arguments) (name : String) : Option String := (given.values name).head?

/-- Whether a switch is on. -/
def switch (given : Arguments) (name : String) : Bool := !(given.values name).isEmpty

/-- The arguments with an operand, of which there may be one. -/
def addOperand (given : Arguments) (operand : String) : Except Refusal Arguments :=
  match given.operand with
  | .none => .ok { given with operand := some operand }
  | some _ => .error .usage

/-- The arguments with a value of an option. -/
def addOption (given : Arguments) (spec : OptionSpec) (value : String) :
    Except Refusal Arguments :=
  if !spec.kind.repeats && given.switch spec.name then .error .usage
  else if spec.accepts value then
    .ok { given with options := given.options ++ [(spec.name, value)] }
  else .error .usage

end Arguments

/-- An argument that may be an option, taken apart. -/
inductive Shape where
  | operand
  | escape
  | long (name : String) (attached : Option String)
  | short (letter : Char) (attached : Option String)
  deriving DecidableEq, Repr

namespace Shape

/-- A name and what follows its equals sign. -/
def splitAttached (text : List Char) : String × Option String :=
  match text.dropWhile (· != '=') with
  | _ :: value => (.ofList (text.takeWhile (· != '=')), some (.ofList value))
  | [] => (.ofList text, none)

/-- Takes an argument apart. -/
def of (argument : String) : Shape :=
  match argument.toList with
  | ['-', '-'] => .escape
  | '-' :: '-' :: rest =>
      let (name, attached) := splitAttached rest
      .long name attached
  | ['-', letter] => .short letter none
  | '-' :: letter :: '=' :: value => .short letter (some (.ofList value))
  | '-' :: letter :: value => .short letter (some (.ofList value))
  | _ => .operand

/-- Whether an argument can be the value of the option before it. -/
def isValue (argument : String) : Bool := Shape.of argument == .operand

end Shape

namespace Arguments

/-- What to do with an argument: take an operand, an option with its value, or an option whose value
comes next. -/
inductive Step where
  | done (given : Arguments)
  | needsValue (spec : OptionSpec)
  | escape

/-- Takes an option with what is attached to it. -/
def stepOption (given : Arguments) (spec : OptionSpec) (attached : Option String) :
    Except Refusal Step :=
  match spec.kind, attached with
  | .switch, .none => (given.addOption spec "").map .done
  | .switch, some _ => .error .usage
  | _, some value => (given.addOption spec value).map .done
  | _, .none => .ok (.needsValue spec)

/-- Takes one argument. -/
def step (specs : List OptionSpec) (given : Arguments) (argument : String) :
    Except Refusal Step :=
  match Shape.of argument with
  | .operand => (given.addOperand argument).map .done
  | .escape => .ok .escape
  | .long "help" attached => .error (if attached.isSome then .usage else .help)
  | .short 'h' _ => .error .help
  | .long name attached =>
      match specs.find? (·.name == name) with
      | some spec => given.stepOption spec attached
      | .none => .error .usage
  | .short letter attached =>
      match specs.find? (·.letter == some letter) with
      | some spec => given.stepOption spec attached
      | .none => .error .usage

/-- Reads arguments, the first of which may be the value of an option. -/
def readFrom (specs : List OptionSpec) (given : Arguments) (pending : Option OptionSpec) :
    List String → Except Refusal Arguments
  | [] => if pending.isSome then .error .usage else .ok given
  | argument :: rest =>
      match pending with
      | some spec =>
          if Shape.isValue argument then
            match given.addOption spec argument with
            | .ok given => readFrom specs given .none rest
            | .error refusal => .error refusal
          else .error .usage
      | .none =>
          match given.step specs argument with
          | .ok (.done given) => readFrom specs given .none rest
          | .ok (.needsValue spec) => readFrom specs given (some spec) rest
          | .ok .escape => rest.foldlM addOperand given
          | .error refusal => .error refusal

/-- Reads the arguments of a command, which must include an operand. -/
def read (specs : List OptionSpec) (arguments : List String) :
    Except Refusal (String × Arguments) := do
  let given ← readFrom specs .none .none arguments
  match given.operand with
  | some operand => return (operand, given)
  | .none => .error .usage

end Arguments

/-- The number below `2 ^ 64` that a text writes, with or without a plus sign. -/
def wordValue? (text : String) : Option Nat :=
  let digits :=
    match text.toList with
    | '+' :: rest => rest
    | rest => rest
  if !digits.isEmpty && digits.all Char.isDigit then
    let value := Text.decimalValue digits
    if value < Nat.pow 2 64 then some value else none
  else none

end CondLang.Command
