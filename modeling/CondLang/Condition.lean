import CondLang.Condition.Parser

/-!
# Conditions

A parsed condition keeps its text, its tree and the number of its nodes, every one of which is
numbered below that.  It holds nothing that an evaluation finds out.
-/

namespace CondLang

/-- A condition ready to be evaluated any number of times. -/
structure Condition where
  text : String
  root : Expr
  nodeCount : Nat
  deriving DecidableEq, Repr, Inhabited

namespace Condition

/-- Parses a condition that may hold the references a policy allows. -/
def parse (text : String) (policy : Policy) : Except ParseError Condition :=
  match Parser.ofCursor text (.ofText text) policy with
  | .error e => .error e
  | .ok parser =>
      match Parser.whole.run parser with
      | .ok root parser => .ok ⟨text, root, parser.nextId⟩
      | .error e _ => .error e

/-- Whether the condition mixes `and` and `or` without parentheses between them. -/
def mixesConnectives (condition : Condition) : Bool := condition.root.mixesAnywhere

/-- The node with a given number; the root if there is none. -/
def node (condition : Condition) (id : Nat) : Expr := (condition.root.find? id).getD condition.root

end Condition

end CondLang
