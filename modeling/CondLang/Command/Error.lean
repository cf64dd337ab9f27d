import CondLang.Evaluation.Error

/-!
# What can go wrong in a command
-/

namespace CondLang

/-- The causes for which a command fails. -/
inductive CommandError where
  | lex (error : LexError)
  | parse (error : ParseError)
  | eval (error : EvalError)
  | json
  | io (message : String)
  | invalidState (message : String)
  | invalidAssignment (text : String)
  deriving DecidableEq, Repr

/-- The cause in words. -/
def CommandError.message : CommandError → String
  | lex error => "Lex error: " ++ error.message
  | parse error => "Parse error: " ++ error.message
  | eval error => "Evaluation error: " ++ error.message
  | json => "Invalid JSON"
  | io message => "IO error: " ++ message
  | invalidState message => "Invalid state: " ++ message
  | invalidAssignment text => "Expected NAME=VALUE, found '" ++ text ++ "'"

end CondLang
