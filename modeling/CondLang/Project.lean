import CondLang.Project.Item

/-!
# Projects

A project is what conditions are evaluated against: properties, items of each type in the order in
which they were added, an item that bare metadata references are about, a directory that relative
paths start from, and whether undefined names are errors.  Names of properties and types do not
regard ASCII case.
-/

namespace CondLang

/-- Whether undefined properties and undefined metadata are errors or empty text. -/
structure Strictness where
  properties : Bool
  metadata : Bool
  deriving DecidableEq, Repr, Inhabited

namespace Strictness

/-- Undefined names are empty text. -/
def lenient : Strictness := ⟨false, false⟩

/-- Undefined names are errors. -/
def strict : Strictness := ⟨true, true⟩

end Strictness

/-- Properties and items, and how references to them are answered. -/
structure Project where
  properties : NameTable String
  items : NameTable (List Item)
  current : Option (String × Item)
  baseDirectory : Option String
  strictness : Strictness
  deriving DecidableEq, Repr, Inhabited

namespace Project

/-- The project without properties and items. -/
def empty : Project := ⟨.empty, .empty, none, none, .lenient⟩

/-- The value of a property. -/
def property? (project : Project) (name : String) : Option String :=
  project.properties.find? name

/-- The project with a property set. -/
def setProperty (project : Project) (name value : String) : Project :=
  { project with properties := project.properties.insert name value }

/-- The items of a type, in the order in which they were added. -/
def itemsOf (project : Project) (itemType : String) : List Item :=
  (project.items.find? itemType).getD []

/-- The project with one more item at the end of its type. -/
def addItem (project : Project) (itemType : String) (item : Item) : Project :=
  { project with items := project.items.alter itemType fun items => items.getD [] ++ [item] }

theorem property?_setProperty (project : Project) (name wanted value : String) :
    (project.setProperty name value).property? wanted =
      if Text.sameIgnoringAscii name wanted then some value else project.property? wanted :=
  NameTable.find?_insert ..

theorem itemsOf_addItem (project : Project) (itemType wanted : String) (item : Item) :
    (project.addItem itemType item).itemsOf wanted =
      if Text.sameIgnoringAscii itemType wanted then project.itemsOf wanted ++ [item]
      else project.itemsOf wanted := by
  simp only [addItem, itemsOf, NameTable.find?_alter]
  split <;> rfl

end Project

end CondLang
