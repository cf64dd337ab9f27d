import CondLang.Command.Arguments

/-!
# The text of help

A help text says what a command does, shows how it is called, and lists what it takes in tables.  A
table has two columns: all its labels have one width, two blanks stand before them and two behind,
and what is explained starts in one column.

`ofCommand` is the text for a command, `ofProgram` the one for all of them together.
-/

namespace CondLang.Command.Help

/-- A label and what it means. -/
structure Row where
  label : String
  about : String
  deriving DecidableEq, Repr

/-- A text with blanks behind it, at least `width` characters long. -/
def padded (width : Nat) (text : String) : String :=
  .ofList (text.toList ++ List.replicate (width - text.length) ' ')

/-- The length of the longest label. -/
def labelWidth (rows : List Row) : Nat :=
  rows.foldl (fun width row => max width row.label.length) 0

/-- The line of a row whose label has a given width. -/
def Row.line (width : Nat) (row : Row) : String :=
  "  " ++ padded width row.label ++ "  " ++ row.about ++ "\n"

/-- A heading with a table under it. -/
def table (heading : String) (rows : List Row) : String :=
  heading ++ ":\n" ++ String.join (rows.map (Row.line (labelWidth rows)))

/-- What a command does, how it is called, and its tables. -/
def page (about usage : String) (tables : List String) : String :=
  about ++ "\n\nUsage: " ++ usage ++ "\n" ++ String.join (tables.map ("\n" ++ ·))

/-! ## Labels -/

/-- The label of an option: its letter or the blanks in its place, its name, and its value. -/
def optionLabel (spec : OptionSpec) : String :=
  let letter :=
    match spec.letter with
    | some c => "-" ++ c.toString ++ ", "
    | none => "    "
  let value :=
    match spec.kind with
    | .switch => ""
    | .value shown | .values shown => " <" ++ shown ++ ">"
  letter ++ "--" ++ spec.name ++ value

/-- The row of an option. -/
def optionRow (spec : OptionSpec) : Row := ⟨optionLabel spec, spec.about⟩

/-- The row of the switch that asks for help. -/
def helpRow : Row := ⟨"-h, --help", "Print help"⟩

/-- The row of the switch that asks for the version. -/
def versionRow : Row := ⟨"-V, --version", "Print version"⟩

/-! ## Pages -/

/-- The help of a command of a program. -/
def ofCommand (program : String) (spec : CommandSpec) : String :=
  let operand := "<" ++ spec.operand ++ ">"
  page spec.about (program ++ " " ++ spec.name ++ " [OPTIONS] " ++ operand)
    [table "Arguments" [⟨operand, spec.operandAbout⟩],
      table "Options" (spec.options.map optionRow ++ [helpRow])]

/-- What the command `help` does. -/
def helpAbout : String := "Print this message or the help of the given subcommand(s)"

/-- The help of the command `help`. -/
def ofHelp (program : String) : String :=
  page helpAbout (program ++ " help [COMMAND]...")
    [table "Arguments" [⟨"[COMMAND]...", "Print help for the subcommand(s)"⟩]]

/-- The help of a program with some commands. -/
def ofProgram (program about : String) (specs : List CommandSpec) : String :=
  page about (program ++ " <COMMAND>")
    [table "Commands" (specs.map (fun spec => ⟨spec.name, spec.about⟩) ++ [⟨"help", helpAbout⟩]),
      table "Options" [helpRow, versionRow]]

end CondLang.Command.Help
