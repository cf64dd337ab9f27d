import CondLang.Value.Decimal
import CondLang.Value.Version

/-!
# What an evaluation remembers

The text of a leaf is expanded at most once, and read as a number and as a version at most once.  A
memo holds what was found out about each node, by its number; a node that it does not hold is one
about which nothing was found out.
-/

namespace CondLang

/-- What is known of a node: its expanded text, and whether that is a number or a version. -/
structure NodeMemo where
  expanded : Option String
  number : Option (Option Decimal)
  version : Option (Option Version)
  deriving DecidableEq, Repr, Inhabited

/-- Nothing is known. -/
def NodeMemo.unknown : NodeMemo := ⟨none, none, none⟩

/-- What is known of the nodes of a tree. -/
structure Memo where
  slots : Array NodeMemo
  deriving DecidableEq, Repr, Inhabited

namespace Memo

/-- Nothing is known of any node. -/
def empty : Memo := ⟨#[]⟩

/-- What is known of a node. -/
def get (memo : Memo) (id : Nat) : NodeMemo := (memo.slots[id]?).getD .unknown

/-- The memo with room for a node. -/
def reserve (memo : Memo) (id : Nat) : Array NodeMemo :=
  memo.slots ++ Array.replicate (id + 1 - memo.slots.size) .unknown

/-- The memo with what is known of a node changed. -/
def modify (memo : Memo) (id : Nat) (change : NodeMemo → NodeMemo) : Memo :=
  ⟨(memo.reserve id).modify id change⟩

/-- The memo without what it holds of a node. -/
def forget (memo : Memo) (id : Nat) : Memo := memo.modify id fun _ => .unknown

@[simp] theorem get_empty (id : Nat) : empty.get id = .unknown := by
  simp [empty, get]

theorem getElem?_reserve (memo : Memo) (id other : Nat) :
    ((memo.reserve id)[other]?).getD .unknown = memo.get other := by
  simp only [reserve, get, Array.getElem?_append]
  split
  · rfl
  · next hbeyond =>
    rw [Array.getElem?_eq_none (Nat.not_lt.1 hbeyond), Array.getElem?_replicate]
    split <;> rfl

theorem size_reserve (memo : Memo) (id : Nat) : id < (memo.reserve id).size := by
  simp only [reserve, Array.size_append, Array.size_replicate]
  omega

/-- A change shows at its node and nowhere else. -/
theorem get_modify (memo : Memo) (id other : Nat) (change : NodeMemo → NodeMemo) :
    (memo.modify id change).get other =
      if id = other then change (memo.get other) else memo.get other := by
  rw [← getElem?_reserve memo id other]
  simp only [modify, get, Array.getElem?_modify]
  by_cases hsame : id = other
  · subst hsame
    simp [Array.getElem?_eq_getElem (size_reserve memo id)]
  · simp [hsame]

theorem get_forget (memo : Memo) (id other : Nat) :
    (memo.forget id).get other = if id = other then .unknown else memo.get other :=
  get_modify ..

end Memo

end CondLang
