import CondLang.Evaluation.Run
import CondLang.Condition.Policy
import CondLang.Expansion
import CondLang.Expr
import CondLang.Text.Caseless
import CondLang.Value.Boolean

/-!
# Evaluating conditions

Every leaf is a text.  A comparison takes both texts as numbers if they are, else as versions if
they are, and else compares them as texts, which only `==` and `!=` can.  If an operand is no leaf,
both must have a truth value, and again only `==` and `!=` apply.  A connective needs truth values
and does not look at its right operand if the left one decides.

Each function asks for no more than it needs, in the order given here, and what was asked once about
a leaf is not asked again.
-/

namespace CondLang

namespace LeafNode

/-- The text of a leaf after expansion. -/
def expanded (node : LeafNode) : EvalM String := do
  if node.leaf.expandable then
    match (← EvalM.known node.mark.id).expanded with
    | some text => return text
    | none =>
        let expansion := Expansion.ofText (← EvalM.setting).environment node.leaf.text
        EvalM.emit (expansion.asked.map fun query => .asked (.query query))
        match expansion.text with
        | .error cause => EvalM.fail (.expansion node.leaf.text cause)
        | .ok text =>
            EvalM.keep node.mark.id fun memo => { memo with expanded := some text }
            return text
  else return node.leaf.text

/-- Whether a leaf is the empty text; a number is not. -/
def isEmpty (node : LeafNode) : EvalM Bool :=
  match node.leaf with
  | .number _ => return false
  | .string text false => return text.isEmpty
  | _ => return (← node.expanded).isEmpty

/-- What a leaf is read as, if it is not the empty text. -/
def readAs {α : Type} (node : LeafNode) (read : String → Option α) : EvalM (Option α) := do
  if ← node.isEmpty then return none
  else return read (← node.expanded)

/-- The number that a leaf is, if it is one. -/
def number? (node : LeafNode) : EvalM (Option Decimal) := do
  match (← EvalM.known node.mark.id).number with
  | some number => return number
  | none =>
      let number ← node.readAs Decimal.parse?
      EvalM.keep node.mark.id fun memo => { memo with number := some number }
      return number

/-- The version that a leaf is, if it is one. -/
def version? (node : LeafNode) : EvalM (Option Version) := do
  match (← EvalM.known node.mark.id).version with
  | some version => return version
  | none =>
      let version ← node.readAs Version.parse?
      EvalM.keep node.mark.id fun memo => { memo with version := some version }
      return version

/-- Whether a leaf has a truth value; a number has none. -/
def canBoolean (node : LeafNode) : EvalM Bool :=
  match node.leaf with
  | .number _ => return false
  | _ => return (Value.boolean? (← node.expanded)).isSome

/-- The truth value of a leaf. -/
def boolean (node : LeafNode) : EvalM Bool := do
  let text ← node.expanded
  match Value.boolean? text with
  | some value => return value
  | none => EvalM.fail (.notCoercible .boolean text)

end LeafNode

namespace Expr

/-! ## Texts, numbers and versions -/

/-- The text of a tree after expansion: operators and calls stand for their own source. -/
def expanded : Expr → EvalM String
  | leaf node => node.expanded
  | not _ operand => return "!" ++ (← operand.expanded)
  | e => return e.span.slice (← EvalM.setting).source

/-- The text of a tree as it is written in a condition. -/
def unexpanded (source : String) : Expr → String
  | leaf node => node.leaf.text
  | not _ operand => "!" ++ operand.unexpanded source
  | e => e.span.slice source

/-- Whether a tree is the empty text; only a leaf can be. -/
def isEmpty : Expr → EvalM Bool
  | leaf node => node.isEmpty
  | _ => return false

/-- The number that a tree is; only a leaf can be. -/
def number? : Expr → EvalM (Option Decimal)
  | leaf node => node.number?
  | _ => return none

/-- The version that a tree is; only a leaf can be. -/
def version? : Expr → EvalM (Option Version)
  | leaf node => node.version?
  | _ => return none

/-- The error that a tree is not what is asked for. -/
def failCoercion {α : Type} (e : Expr) (domain : Domain) : EvalM α := do
  EvalM.fail (.notCoercible domain (← e.expanded))

/-- The number that a tree must be. -/
def number (e : Expr) : EvalM Decimal := do
  match ← e.number? with
  | some number => return number
  | none => e.failCoercion .number

/-- The version that a tree must be. -/
def version (e : Expr) : EvalM Version := do
  match ← e.version? with
  | some version => return version
  | none => e.failCoercion .version

/-- Whether a tree has a truth value; operators and calls always do. -/
def canBoolean : Expr → EvalM Bool
  | leaf node => node.canBoolean
  | not _ operand => operand.canBoolean
  | _ => return true

/-! ## Recording what properties are compared with -/

/-- Whether a tree is a leaf that refers to properties. -/
def refersToProperty : Expr → Bool
  | leaf node => node.leaf.expandable && Policy.opens .property node.leaf.text.toList
  | _ => false

/-- Whether a tree is a leaf without references. -/
def isLiteral : Expr → Bool
  | leaf node => !holdsReference node.leaf.text
  | _ => false

/-- The property that a part of a text is a reference to, and nothing else. -/
def soleProperty? (part : List Char) : Option String :=
  match Text.trimmed part with
  | '$' :: '(' :: rest =>
      if rest.getLast? = some ')' then
        let name := Text.trimmed rest.dropLast
        if Character.isName name then some (.ofList name) else none
      else none
  | _ => none

/-- The properties of a pattern and the values of a literal that stand in the same place between
bars, if both have as many places. -/
def matchParts (pattern literal : String) : List (String × String) :=
  let parts := Text.splitOn '|' pattern.toList
  let values := Text.splitOn '|' literal.toList
  if parts.length = values.length then
    (parts.zip values).filterMap fun (part, value) =>
      (soleProperty? part).map (·, .ofList value)
  else []

/-- Records the values that the properties of one operand are compared with, if the other operand is
a literal. -/
def recordCompared (left right : Expr) : EvalM Unit := do
  if (← EvalM.setting).recording then
    if left.refersToProperty && right.isLiteral then record left right
    else if right.refersToProperty && left.isLiteral then record right left
    else return ()
  else return ()
where
  record (pattern literal : Expr) : EvalM Unit := do
    let source := (← EvalM.setting).source
    let value ← literal.expanded
    EvalM.emit ((matchParts (pattern.unexpanded source) value).map fun (name, value) =>
      .recorded name value)

/-! ## Comparing -/

/-- Whether a tree is a number or a version. -/
def isOrdered (e : Expr) : EvalM Bool := do
  if (← e.number?).isSome then return true
  else return (← e.version?).isSome

/-- The first operand that does not fit a comparison by order, if the left one decides. -/
def culprit (left : Expr) : EvalM Side := do
  return if ← left.isOrdered then .right else .left

/-- Compares two leaves as texts, if the relation applies to texts. -/
def compareTexts (op : Relation) (left right : Expr) : EvalM Bool := do
  let l ← left.expanded
  let r ← right.expanded
  if op.isOrdering then EvalM.fail (.notComparable op (← culprit left) l r)
  else
    EvalM.note (.comparedTexts l op r)
    return op.testEqual (Text.sameIgnoringCase l r)

/-- Compares two leaves as versions if both are, else as texts. -/
def compareVersions (op : Relation) (left right : Expr) : EvalM Bool := do
  let l ← left.version?
  let r ← right.version?
  match l, r with
  | some l, some r =>
      EvalM.note (.comparedVersions l op r)
      return op.test (l.compare r)
  | _, _ => compareTexts op left right

/-- Compares two leaves as numbers if both are, else as versions or texts. -/
def compareLeaves (op : Relation) (left right : Expr) : EvalM Bool := do
  let l ← left.number?
  let r ← right.number?
  match l, r with
  | some l, some r =>
      EvalM.note (.comparedNumbers l op r)
      return op.test (l.compare r)
  | _, _ => compareVersions op left right

/-- Fails if a tree has no truth value. -/
def requireBoolean (e : Expr) : EvalM Unit := do
  if ← e.canBoolean then return () else e.failCoercion .boolean

/-! ## Calls -/

/-- The functions that a condition may call. -/
inductive Builtin where
  | pathExists
  | hasTrailingSlash
  deriving DecidableEq, Repr

/-- The function of a name. -/
def builtin? (name : String) : Option Builtin :=
  if Text.sameIgnoringAscii name "Exists" then some .pathExists
  else if Text.sameIgnoringAscii name "HasTrailingSlash" then some .hasTrailingSlash
  else none

/-- Asks whether a path exists; the empty path does not. -/
def askPath (path : String) : EvalM Bool := do
  if path.isEmpty then return false
  else
    EvalM.emit [.asked (.pathExists path)]
    return (← EvalM.setting).environment.pathExists path

/-- The answer of a function. -/
def Builtin.apply : Builtin → String → EvalM Bool
  | pathExists, argument => askPath (Text.trim argument)
  | hasTrailingSlash, argument =>
      return argument.toList.getLast? == some '/' || argument.toList.getLast? == some '\\'

/-- Calls a function, which takes one argument. -/
def callFunction (name : String) (arguments : List LeafNode) : EvalM Bool := do
  match builtin? name with
  | none => EvalM.fail (.undefinedFunction name)
  | some function =>
      match arguments with
      | [argument] =>
          let text ← argument.expanded
          let result ← function.apply text
          EvalM.note (.called name text result)
          return result
      | _ => EvalM.fail (.incorrectArgumentCount name 1 arguments.length)

/-! ## Truth values -/

/-- The truth value of an operand of a connective, given how its truth value is found. -/
def operand (op : Connective) (side : Side) (e : Expr) (boolean : EvalM Bool) : EvalM Bool := do
  if ← e.canBoolean then boolean
  else
    let source := (← EvalM.setting).source
    EvalM.fail (.operandNotBoolean op side (e.unexpanded source) (← e.expanded))

/-- The truth value of a tree. -/
def boolean : Expr → EvalM Bool
  | leaf node => node.boolean
  | call _ name arguments => callFunction name arguments
  | not _ inner => return !(← inner.boolean)
  | logical _ op left right => do
      let l ← operand op .left left left.boolean
      if l = op.decisive then
        EvalM.note (.shortCircuit op l)
        return l
      else operand op .right right right.boolean
  | comparison _ op left right => do
      if op.isEquality then recordCompared left right
      if left.isLeaf && right.isLeaf then compareLeaves op left right
      else if op.isOrdering then
        let side ← culprit left
        let source := (← EvalM.setting).source
        EvalM.fail (.notComparable op side (left.unexpanded source) (right.unexpanded source))
      else
        left.requireBoolean
        right.requireBoolean
        let l ← left.boolean
        let r ← right.boolean
        EvalM.note (.comparedBooleans l op r)
        return op.testEqual (l == r)

/-- The truth value of a tree as a whole condition. -/
def evaluate (e : Expr) : EvalM Bool := do
  if ← e.canBoolean then e.boolean
  else EvalM.fail (.notBoolean (← e.expanded))

end Expr

end CondLang
