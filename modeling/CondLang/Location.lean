/-!
# Where a condition stands

A location names a file, a line and a column, as far as they are known.  It appears in the messages
of evaluation errors and has no other influence.
-/

namespace CondLang

/-- A file, if known, and a line and column, of which a line 0 is unknown. -/
structure Location where
  file : Option String
  line : Nat
  column : Nat
  deriving DecidableEq, Repr, Inhabited

namespace Location

/-- The location of which nothing is known. -/
def unknown : Location := ⟨none, 0, 0⟩

/-- The location in a message. -/
def shown (location : Location) : String :=
  let place := "(" ++ toString location.line ++ "," ++ toString location.column ++ ")"
  match location.file with
  | some file => if location.line > 0 then file ++ place else file
  | none => if location.line > 0 then place else "<unknown location>"

end Location

end CondLang
