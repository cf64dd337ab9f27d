import CondLang.Token

/-!
# Which references a condition may hold

Some places of a build file restrict their conditions: that of a property group, for instance, may
not refer to item lists.  A policy allows or forbids each kind of reference.  A bare reference falls
under its own kind; a string that may need expansion falls under each kind whose opening it holds.
-/

namespace CondLang

/-- Which kinds of reference are allowed. -/
structure Policy where
  properties : Bool
  itemLists : Bool
  metadata : Bool
  deriving DecidableEq, Repr

namespace Policy

/-- All references are allowed. -/
def everything : Policy := ⟨true, true, true⟩

/-- Only references to properties are allowed. -/
def propertiesOnly : Policy := ⟨true, false, false⟩

/-- Whether references of a kind are allowed. -/
def allows (policy : Policy) : ReferenceKind → Bool
  | .property => policy.properties
  | .itemList => policy.itemLists
  | .metadata => policy.metadata

/-- Whether the opening of a reference of a kind occurs in a text. -/
def opens (kind : ReferenceKind) : List Char → Bool
  | [] => false
  | c :: rest => (c == kind.sigil && rest.head? == some '(') || opens kind rest

/-- The kinds of reference, in the order in which they are checked. -/
def kinds : List ReferenceKind := [.property, .itemList, .metadata]

/-- The first kind of reference that a lexeme holds and the policy forbids. -/
def violation? (policy : Policy) : Lexeme → Option ReferenceKind
  | .text (.reference kind) _ _ => if policy.allows kind then none else some kind
  | .text .string text true =>
      kinds.find? fun kind => !policy.allows kind && opens kind text.toList
  | _ => none

end Policy

end CondLang
