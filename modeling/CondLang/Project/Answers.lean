import CondLang.Expansion
import CondLang.Project
import CondLang.Text.Lowercase

/-!
# How a project answers

A reference to a property must be a name.  A reference to metadata is about one item: the current
one, or, in a transform, the item being transformed.  A reference to an item list starts with the
identities of the items of a type and applies its transforms from left to right; each text keeps the
item it came from, until `Count()` leaves a number that came from none.

The text of a transform is expanded like any other, so it may refer to item lists.  A quoted text
holds no quote, so such a reference has no quoted transform of its own, and references are never
nested more than `maxListDepth` deep.
-/

namespace CondLang

/-- One text of a list, and the item it came from. -/
structure ListEntry where
  text : String
  item : Option Item
  deriving DecidableEq, Repr

namespace Project

/-- The answer to a property reference. -/
def answerProperty (project : Project) (expression : String) : Except ExpansionError String :=
  if Character.isName expression.toList then
    match project.property? expression with
    | some value => .ok value
    | none =>
        if project.strictness.properties then .error (.undefinedProperty expression) else .ok ""
  else .error (.unsupported ("$(" ++ expression ++ ")"))

/-- The metadata that a reference asks for, of an item of some type. -/
def metadataOf? (scope : Option (String × Item)) (reference : MetadataReference) :
    Option String :=
  match scope with
  | some (itemType, item) =>
      if reference.itemType.all (Text.sameIgnoringAscii · itemType) then
        item.metadata? reference.name
      else none
  | none => none

/-- The answer to a metadata reference about an item of some type. -/
def answerMetadata (project : Project) (scope : Option (String × Item))
    (reference : MetadataReference) : Except ExpansionError String :=
  match metadataOf? scope reference with
  | some value => .ok value
  | none =>
      if project.strictness.metadata then .error (.undefinedMetadata reference.shown) else .ok ""

/-! ## Item lists -/

/-- The entries whose text, in lower case, is that of none before it and not among `seen`. -/
def distinctFrom (seen : List String) : List ListEntry → List ListEntry
  | [] => []
  | entry :: rest =>
      let key := Text.lowercase entry.text
      if seen.contains key then distinctFrom seen rest
      else entry :: distinctFrom (seen ++ [key]) rest

/-- The functions of lists, whose names do not regard case. -/
inductive ListFunction where
  | count
  | distinct
  | reverse
  deriving DecidableEq, Repr

/-- The function of a name. -/
def listFunction? (name : String) : Option ListFunction :=
  if Text.sameIgnoringAscii name "Count" then some .count
  else if Text.sameIgnoringAscii name "Distinct" then some .distinct
  else if Text.sameIgnoringAscii name "Reverse" then some .reverse
  else none

/-- A function applied to a list. -/
def ListFunction.apply : ListFunction → List ListEntry → List ListEntry
  | count, entries => [⟨toString entries.length, none⟩]
  | distinct, entries => distinctFrom [] entries
  | reverse, entries => entries.reverse

/-- The answers within a transform of an item of some type, given those to item list references. -/
def transformEnvironment (project : Project)
    (lists : ItemListReference → Except ExpansionError (List String)) (itemType : String)
    (item : Option Item) : Environment where
  condition := ""
  location := .unknown
  property := project.answerProperty
  itemList := lists
  metadata := project.answerMetadata (item.map (itemType, ·))
  pathExists := fun _ => false

/-- A transform applied to a list of items of some type. -/
def applyTransform (project : Project)
    (lists : ItemListReference → Except ExpansionError (List String)) (itemType : String)
    (entries : List ListEntry) : ItemTransform → Except ExpansionError (List ListEntry)
  | .expression text =>
      entries.mapM fun entry => do
        let env := project.transformEnvironment lists itemType entry.item
        return ⟨← expand env text, entry.item⟩
  | .function name arguments =>
      if !arguments.isEmpty then .error (.unsupported ("->" ++ name ++ "(" ++ arguments ++ ")"))
      else
        match listFunction? name with
        | some function => .ok (function.apply entries)
        | none => .error (.unsupported ("->" ++ name ++ "()"))

/-- The entries of a list before any transform. -/
def entriesOf (project : Project) (itemType : String) : List ListEntry :=
  (project.itemsOf itemType).map fun item => ⟨item.identity, some item⟩

/-- The deepest nesting of item list references: one in the transform of another. -/
def maxListDepth : Nat := 2

/-- The texts of an item list, where references are nested at most `depth` deep. -/
def listWithin (project : Project) : Nat → ItemListReference → Except ExpansionError (List String)
  | 0, reference => .error (.unsupported ("@(" ++ reference.name ++ ")"))
  | depth + 1, reference => do
      let entries ← reference.transforms.foldlM
        (project.applyTransform (project.listWithin depth) reference.name)
        (project.entriesOf reference.name)
      return entries.map (·.text)

/-- The answer to an item list reference. -/
def answerItemList (project : Project) (reference : ItemListReference) :
    Except ExpansionError (List String) :=
  project.listWithin maxListDepth reference

/-! ## Paths -/

/-- The path that is looked for: with slashes only, and behind the base directory if it is relative.
-/
def resolvePath (project : Project) (path : String) : String :=
  let slashed := path.toList.map fun c => if c = '\\' then '/' else c
  match project.baseDirectory with
  | some base =>
      if slashed.head? = some '/' then .ofList slashed
      else
        let front := base.toList
        let joint := if front.isEmpty || front.getLast? == some '/' then [] else ['/']
        .ofList (front ++ joint ++ slashed)
  | none => .ofList slashed

/-- Whether a path exists, given which resolved paths do. -/
def answerPathExists (project : Project) (onDisk : String → Bool) (path : String) : Bool :=
  !path.isEmpty && onDisk (project.resolvePath path)

/-- The answers of a project to a condition at some location. -/
def environment (project : Project) (onDisk : String → Bool) (condition : String)
    (location : Location) : Environment where
  condition
  location
  property := project.answerProperty
  itemList := project.answerItemList
  metadata := project.answerMetadata project.current
  pathExists := project.answerPathExists onDisk

end Project

end CondLang
