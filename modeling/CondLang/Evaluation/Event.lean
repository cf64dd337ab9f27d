import CondLang.Environment
import CondLang.Operator
import CondLang.Value.Decimal
import CondLang.Value.Version

/-!
# What an evaluation does besides answering

An evaluation asks questions, records values that properties are compared with, and notes how it
came to its answer.  All this is kept as a list of events in the order in which they happened; it
never influences an answer.
-/

namespace CondLang

/-- How an answer came about, or a warning about a condition. -/
inductive Note where
  | parsed (condition shown : String)
  | mixed (condition : String)
  | shortCircuit (op : Connective) (left : Bool)
  | comparedNumbers (left : Decimal) (op : Relation) (right : Decimal)
  | comparedVersions (left : Version) (op : Relation) (right : Version)
  | comparedTexts (left : String) (op : Relation) (right : String)
  | comparedBooleans (left : Bool) (op : Relation) (right : Bool)
  | called (function argument : String) (result : Bool)
  | conditioned (name value : String)
  deriving DecidableEq, Repr

namespace Note

/-- Whether the note warns. -/
def isWarning : Note → Bool
  | mixed _ => true
  | _ => false

/-- The note in words. -/
def message : Note → String
  | parsed condition shown => "parsed condition \"" ++ condition ++ "\": " ++ shown
  | mixed condition =>
      "condition \"" ++ condition ++
        "\" mixes 'and' and 'or' without parentheses; 'and' binds tighter"
  | shortCircuit op left =>
      "'" ++ op.symbol ++ "' short-circuits on left operand " ++ toString left
  | comparedNumbers left op right =>
      "comparing " ++ left.toText ++ " " ++ op.symbol ++ " " ++ right.toText ++ " as numbers"
  | comparedVersions left op right =>
      "comparing " ++ left.toText ++ " " ++ op.symbol ++ " " ++ right.toText ++ " as versions"
  | comparedTexts left op right =>
      "comparing '" ++ left ++ "' " ++ op.symbol ++ " '" ++ right ++ "' as strings"
  | comparedBooleans left op right =>
      "comparing " ++ toString left ++ " " ++ op.symbol ++ " " ++ toString right ++
        " as booleans"
  | called function argument result =>
      function ++ "('" ++ argument ++ "') = " ++ toString result
  | conditioned name value => "conditioned property " ++ name ++ " = '" ++ value ++ "'"

/-- The note as a line of a log. -/
def line (note : Note) : String :=
  (if note.isWarning then "WARN " else "DEBUG ") ++ note.message

end Note

/-- Something an evaluation does besides answering. -/
inductive Event where
  | asked (question : Question)
  | recorded (name value : String)
  | noted (note : Note)
  deriving DecidableEq, Repr

namespace Event

/-- The question an event asks. -/
def question? : Event → Option Question
  | asked question => some question
  | _ => none

/-- The name and the value an event records. -/
def record? : Event → Option (String × String)
  | recorded name value => some (name, value)
  | _ => none

/-- The note an event leaves; what is recorded is noted, too. -/
def note? : Event → Option Note
  | asked _ => none
  | recorded name value => some (.conditioned name value)
  | noted note => some note

/-- The questions among events. -/
def questions (events : List Event) : List Question := events.filterMap question?

/-- The notes among events. -/
def notes (events : List Event) : List Note := events.filterMap note?

theorem questions_append (front back : List Event) :
    questions (front ++ back) = questions front ++ questions back := List.filterMap_append

end Event

end CondLang
