import CondLang.Character
import CondLang.Reference.Error
import CondLang.Text.Blank
import CondLang.Text.Split

/-!
# References to metadata

`%(Name)` asks for metadata of the current item, `%(Type.Name)` for that of an item of some type.
Blanks around both names are ignored.
-/

namespace CondLang

/-- What stands between the parentheses of `%(…)`. -/
structure MetadataReference where
  itemType : Option String
  name : String
  deriving DecidableEq, Repr, Inhabited

namespace MetadataReference

/-- The item type and the name in characters without blanks around them. -/
def parts (trimmed : List Char) : Option (List Char) × List Char :=
  match Text.splitOnce '.' trimmed with
  | some (itemType, name) => (some (Text.trimmed itemType), Text.trimmed name)
  | none => (none, trimmed)

/-- The reference that the text between `%(` and `)` writes. -/
def parse (inner : String) : Except ExpansionError MetadataReference :=
  let (itemType, name) := parts (Text.trimmed inner.toList)
  if Character.isName name && itemType.all Character.isName then
    .ok ⟨itemType.map .ofList, .ofList name⟩
  else .error (.invalidReference ("%(" ++ inner ++ ")"))

/-- The reference as it is written, without blanks. -/
def shown (reference : MetadataReference) : String :=
  match reference.itemType with
  | some itemType => "%(" ++ itemType ++ "." ++ reference.name ++ ")"
  | none => "%(" ++ reference.name ++ ")"

end MetadataReference

end CondLang
