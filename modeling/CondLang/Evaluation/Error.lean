import CondLang.Condition.Error
import CondLang.Location
import CondLang.Operator
import CondLang.Reference.Error

/-!
# What can go wrong in an evaluation

A condition that does not parse has no value; any other error has a cause, and bears the condition
as written and its location.
-/

namespace CondLang

/-- An operand of a binary operator. -/
inductive Side where
  | left
  | right
  deriving DecidableEq, Repr

/-- The side in words. -/
def Side.words : Side → String
  | left => "left"
  | right => "right"

/-- The kinds of value a text may be asked for. -/
inductive Domain where
  | boolean
  | number
  | version
  deriving DecidableEq, Repr

/-- The kind of value in words. -/
def Domain.words : Domain → String
  | boolean => "boolean"
  | number => "number"
  | version => "version"

/-- The causes of evaluation errors: the whole condition or an operand of a connective is no truth
value, values that have no common order are compared by order, a value is not of the kind asked for,
a function is unknown or called with the wrong number of arguments, or a text cannot be expanded. -/
inductive EvalErrorKind where
  | notBoolean (expanded : String)
  | operandNotBoolean (op : Connective) (side : Side) (unexpanded expanded : String)
  | notComparable (op : Relation) (side : Side) (left right : String)
  | notCoercible (domain : Domain) (expanded : String)
  | undefinedFunction (name : String)
  | incorrectArgumentCount (name : String) (expected found : Nat)
  | expansion (text : String) (cause : ExpansionError)
  deriving DecidableEq, Repr

namespace EvalErrorKind

/-- Whether a value could not be used as what an operator needs. -/
def isCoercion : EvalErrorKind → Bool
  | notBoolean _ => true
  | operandNotBoolean .. => true
  | notComparable .. => true
  | notCoercible .. => true
  | _ => false

/-- The cause in words, given the condition. -/
def message (condition : String) : EvalErrorKind → String
  | notBoolean expanded =>
      "condition \"" ++ condition ++ "\" evaluated to \"" ++ expanded ++
        "\" instead of a boolean"
  | operandNotBoolean op side unexpanded expanded =>
      "the " ++ side.words ++ " operand of '" ++ op.symbol ++ "' in condition \"" ++ condition ++
        "\" is \"" ++ unexpanded ++ "\", which evaluated to \"" ++ expanded ++
        "\" instead of a boolean"
  | notComparable op _ left right =>
      "cannot compare \"" ++ left ++ "\" " ++ op.symbol ++ " \"" ++ right ++
        "\" in condition \"" ++ condition ++
        "\": both operands must be numbers or both versions"
  | notCoercible domain expanded =>
      "\"" ++ expanded ++ "\" in condition \"" ++ condition ++ "\" is not a " ++ domain.words
  | undefinedFunction name =>
      "unknown function '" ++ name ++ "' in condition \"" ++ condition ++ "\""
  | incorrectArgumentCount name expected found =>
      "function '" ++ name ++ "' takes " ++ toString expected ++ " argument(s) but " ++
        toString found ++ " were given in condition \"" ++ condition ++ "\""
  | expansion text cause =>
      "cannot expand \"" ++ text ++ "\" in condition \"" ++ condition ++ "\": " ++ cause.message

end EvalErrorKind

/-- An error of an evaluation. -/
inductive EvalError where
  | parse (error : ParseError)
  | failure (kind : EvalErrorKind) (condition : String) (location : Location)
  deriving DecidableEq, Repr

namespace EvalError

/-- The error in words. -/
def message : EvalError → String
  | parse error => error.message
  | failure kind condition location => location.shown ++ ": " ++ kind.message condition

/-- Whether a value could not be used as what an operator needs. -/
def isCoercion : EvalError → Bool
  | parse _ => false
  | failure kind _ _ => kind.isCoercion

/-- Where the condition stands, if the error says. -/
def location? : EvalError → Option Location
  | parse _ => none
  | failure _ _ location => some location

end EvalError

end CondLang
