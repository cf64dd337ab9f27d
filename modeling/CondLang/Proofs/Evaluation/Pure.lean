import CondLang.Evaluation

/-!
# Evaluation without a memory

The answers of an evaluation as functions of its setting.  They keep nothing from one question to
the next, expand a leaf each time its text is needed, and record nothing, so whether the setting
asks for records plays no part.  That the evaluation with a memory has the same answers is proved
elsewhere.
-/

namespace CondLang

/-- An error of the condition in a setting. -/
def Setting.failure (s : Setting) (kind : EvalErrorKind) : EvalError :=
  .failure kind s.source s.environment.location

/-! ## Leaves -/

namespace Leaf

/-- The text of a leaf after expansion. -/
def expandedIn (s : Setting) (leaf : Leaf) : Except EvalError String :=
  if leaf.expandable then
    (expand s.environment leaf.text).mapError fun cause => s.failure (.expansion leaf.text cause)
  else .ok leaf.text

/-- Whether a leaf is the empty text; a number is not. -/
def isEmptyIn (s : Setting) : Leaf → Except EvalError Bool
  | number _ => .ok false
  | leaf => return (← leaf.expandedIn s).isEmpty

/-- What a leaf is read as, if it is not the empty text. -/
def readIn {α : Type} (s : Setting) (read : String → Option α) (leaf : Leaf) :
    Except EvalError (Option α) := do
  if ← leaf.isEmptyIn s then return none
  else return read (← leaf.expandedIn s)

/-- The number that a leaf is, if it is one. -/
def numberIn (s : Setting) (leaf : Leaf) : Except EvalError (Option Decimal) :=
  leaf.readIn s Decimal.parse?

/-- The version that a leaf is, if it is one. -/
def versionIn (s : Setting) (leaf : Leaf) : Except EvalError (Option Version) :=
  leaf.readIn s Version.parse?

/-- Whether a leaf has a truth value; a number has none. -/
def canBooleanIn (s : Setting) : Leaf → Except EvalError Bool
  | number _ => .ok false
  | leaf => return (Value.boolean? (← leaf.expandedIn s)).isSome

/-- The truth value of a leaf. -/
def booleanIn (s : Setting) (leaf : Leaf) : Except EvalError Bool := do
  let text ← leaf.expandedIn s
  match Value.boolean? text with
  | some value => return value
  | none => .error (s.failure (.notCoercible .boolean text))

end Leaf

namespace Expr

/-! ## Texts, numbers and versions -/

/-- The text of a tree after expansion: operators and calls stand for their own source. -/
def expandedIn (s : Setting) : Expr → Except EvalError String
  | leaf node => node.leaf.expandedIn s
  | not _ operand => return "!" ++ (← operand.expandedIn s)
  | e => .ok (e.span.slice s.source)

/-- Whether a tree is the empty text; only a leaf can be. -/
def isEmptyIn (s : Setting) : Expr → Except EvalError Bool
  | leaf node => node.leaf.isEmptyIn s
  | _ => .ok false

/-- The number that a tree is; only a leaf can be. -/
def numberIn? (s : Setting) : Expr → Except EvalError (Option Decimal)
  | leaf node => node.leaf.numberIn s
  | _ => .ok none

/-- The version that a tree is; only a leaf can be. -/
def versionIn? (s : Setting) : Expr → Except EvalError (Option Version)
  | leaf node => node.leaf.versionIn s
  | _ => .ok none

/-- The error that a tree is not what is asked for, unless its text cannot be told. -/
def coercionErrorIn {α : Type} (s : Setting) (e : Expr) (domain : Domain) : Except EvalError α := do
  .error (s.failure (.notCoercible domain (← e.expandedIn s)))

/-- The number that a tree must be. -/
def numberIn (s : Setting) (e : Expr) : Except EvalError Decimal := do
  match ← e.numberIn? s with
  | some number => return number
  | none => e.coercionErrorIn s .number

/-- The version that a tree must be. -/
def versionIn (s : Setting) (e : Expr) : Except EvalError Version := do
  match ← e.versionIn? s with
  | some version => return version
  | none => e.coercionErrorIn s .version

/-- Whether a tree has a truth value; operators and calls always do. -/
def canBooleanIn (s : Setting) : Expr → Except EvalError Bool
  | leaf node => node.leaf.canBooleanIn s
  | not _ operand => operand.canBooleanIn s
  | _ => .ok true

/-! ## Comparing -/

/-- Whether a tree is a number or a version. -/
def isOrderedIn (s : Setting) (e : Expr) : Except EvalError Bool := do
  if (← e.numberIn? s).isSome then return true
  else return (← e.versionIn? s).isSome

/-- The first operand that does not fit a comparison by order, if the left one decides. -/
def culpritIn (s : Setting) (left : Expr) : Except EvalError Side := do
  return if ← left.isOrderedIn s then .right else .left

/-- Compares two leaves as texts, if the relation applies to texts. -/
def compareTextsIn (s : Setting) (op : Relation) (left right : Expr) : Except EvalError Bool := do
  let l ← left.expandedIn s
  let r ← right.expandedIn s
  if op.isOrdering then .error (s.failure (.notComparable op (← left.culpritIn s) l r))
  else return op.testEqual (Text.sameIgnoringCase l r)

/-- Compares two leaves as versions if both are, else as texts. -/
def compareVersionsIn (s : Setting) (op : Relation) (left right : Expr) :
    Except EvalError Bool := do
  let l ← left.versionIn? s
  let r ← right.versionIn? s
  match l, r with
  | some l, some r => return op.test (l.compare r)
  | _, _ => compareTextsIn s op left right

/-- Compares two leaves as numbers if both are, else as versions or texts. -/
def compareLeavesIn (s : Setting) (op : Relation) (left right : Expr) :
    Except EvalError Bool := do
  let l ← left.numberIn? s
  let r ← right.numberIn? s
  match l, r with
  | some l, some r => return op.test (l.compare r)
  | _, _ => compareVersionsIn s op left right

/-- Fails if a tree has no truth value. -/
def requireBooleanIn (s : Setting) (e : Expr) : Except EvalError Unit := do
  if ← e.canBooleanIn s then return () else e.coercionErrorIn s .boolean

/-! ## Calls -/

/-- The answer of a function. -/
def Builtin.applyIn (s : Setting) : Builtin → String → Bool
  | pathExists, argument =>
      !(Text.trim argument).isEmpty && s.environment.pathExists (Text.trim argument)
  | hasTrailingSlash, argument =>
      argument.toList.getLast? == some '/' || argument.toList.getLast? == some '\\'

/-- Calls a function, which takes one argument. -/
def callIn (s : Setting) (name : String) (arguments : List LeafNode) : Except EvalError Bool :=
  match builtin? name with
  | none => .error (s.failure (.undefinedFunction name))
  | some function =>
      match arguments with
      | [argument] => return function.applyIn s (← argument.leaf.expandedIn s)
      | _ => .error (s.failure (.incorrectArgumentCount name 1 arguments.length))

/-! ## Truth values -/

/-- The truth value of an operand of a connective, given its truth value as a tree. -/
def operandIn (s : Setting) (op : Connective) (side : Side) (e : Expr)
    (boolean : Except EvalError Bool) : Except EvalError Bool := do
  if ← e.canBooleanIn s then boolean
  else
    .error (s.failure
      (.operandNotBoolean op side (e.unexpanded s.source) (← e.expandedIn s)))

/-- The truth value of a tree. -/
def booleanIn (s : Setting) : Expr → Except EvalError Bool
  | leaf node => node.leaf.booleanIn s
  | call _ name arguments => callIn s name arguments
  | not _ inner => return !(← inner.booleanIn s)
  | logical _ op left right => do
      let l ← operandIn s op .left left (left.booleanIn s)
      if l = op.decisive then return l
      else operandIn s op .right right (right.booleanIn s)
  | comparison _ op left right => do
      if left.isLeaf && right.isLeaf then compareLeavesIn s op left right
      else if op.isOrdering then
        .error (s.failure (.notComparable op (← culpritIn s left) (left.unexpanded s.source)
          (right.unexpanded s.source)))
      else
        left.requireBooleanIn s
        right.requireBooleanIn s
        let l ← left.booleanIn s
        let r ← right.booleanIn s
        return op.testEqual (l == r)

/-- The truth value of a tree as a whole condition. -/
def evaluateIn (s : Setting) (e : Expr) : Except EvalError Bool := do
  if ← e.canBooleanIn s then e.booleanIn s
  else .error (s.failure (.notBoolean (← e.expandedIn s)))

end Expr

end CondLang
