/-!
# Operators

A condition joins truth values with connectives and compares values with relations.  A relation is
decided by the order of its operands; connectives are not.
-/

namespace CondLang

/-- The two logical connectives. -/
inductive Connective where
  | and
  | or
  deriving DecidableEq, Repr, Inhabited

namespace Connective

/-- The word for the connective. -/
def symbol : Connective → String
  | and => "and"
  | or => "or"

/-- The left value that decides the whole without the right one. -/
def decisive : Connective → Bool
  | and => false
  | or => true

end Connective

/-- The six comparisons. -/
inductive Relation where
  | equal
  | notEqual
  | less
  | greater
  | lessOrEqual
  | greaterOrEqual
  deriving DecidableEq, Repr, Inhabited

namespace Relation

/-- The relation as written. -/
def symbol : Relation → String
  | equal => "=="
  | notEqual => "!="
  | less => "<"
  | greater => ">"
  | lessOrEqual => "<="
  | greaterOrEqual => ">="

/-- Whether the relation asks for equality only.  Such relations fall back on comparing text. -/
def isEquality : Relation → Bool
  | equal | notEqual => true
  | _ => false

/-- Whether the relation asks for an order, which only numbers and versions have. -/
def isOrdering (relation : Relation) : Bool := !relation.isEquality

/-- Whether the relation holds of operands that stand in the given order. -/
def test : Relation → Ordering → Bool
  | equal, order => order == .eq
  | notEqual, order => order != .eq
  | less, order => order == .lt
  | greater, order => order == .gt
  | lessOrEqual, order => order != .gt
  | greaterOrEqual, order => order != .lt

/-- Whether an equality relation holds of operands that are equal or not. -/
def testEqual (relation : Relation) (equal : Bool) : Bool :=
  if relation = notEqual then !equal else equal

/-- The relation that holds exactly where this one does not. -/
def opposite : Relation → Relation
  | equal => notEqual
  | notEqual => equal
  | less => greaterOrEqual
  | greater => lessOrEqual
  | lessOrEqual => greater
  | greaterOrEqual => less

/-- The relation with its operands exchanged. -/
def swapped : Relation → Relation
  | equal => equal
  | notEqual => notEqual
  | less => greater
  | greater => less
  | lessOrEqual => greaterOrEqual
  | greaterOrEqual => lessOrEqual

theorem test_opposite (relation : Relation) (order : Ordering) :
    relation.opposite.test order = !relation.test order := by
  cases relation <;> cases order <;> rfl

theorem test_swapped (relation : Relation) (order : Ordering) :
    relation.swapped.test order.swap = relation.test order := by
  cases relation <;> cases order <;> rfl

end Relation

/-- A binary operator. -/
inductive Operator where
  | logical (connective : Connective)
  | comparison (relation : Relation)
  deriving DecidableEq, Repr, Inhabited

namespace Operator

/-- All operators. -/
def all : List Operator :=
  [.comparison .equal, .comparison .notEqual, .comparison .less, .comparison .greater,
    .comparison .lessOrEqual, .comparison .greaterOrEqual, .logical .and, .logical .or]

theorem mem_all (op : Operator) : op ∈ all := by
  rcases op with op | op <;> cases op <;> simp [all]

/-- The operator as written. -/
def symbol : Operator → String
  | logical connective => connective.symbol
  | comparison relation => relation.symbol

/-- The operator with a given symbol. -/
def ofSymbol? (symbol : String) : Option Operator := all.find? (·.symbol == symbol)

/-- Whether the operator is a connective. -/
def isLogical : Operator → Bool
  | logical _ => true
  | comparison _ => false

/-- Whether the operator is `==` or `!=`. -/
def isEquality : Operator → Bool
  | logical _ => false
  | comparison relation => relation.isEquality

/-- Whether the operator is one of the four that need an order. -/
def isOrdering : Operator → Bool
  | logical _ => false
  | comparison relation => relation.isOrdering

/-- Whether the operator holds of operands in the given order; a connective never does. -/
def test : Operator → Ordering → Bool
  | logical _, _ => false
  | comparison relation, order => relation.test order

end Operator

end CondLang
