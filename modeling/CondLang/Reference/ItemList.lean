import CondLang.Character
import CondLang.Reference.Error
import CondLang.Reference.Extent
import CondLang.Text.Blank

/-!
# References to item lists

```text
Reference := Name Transform* ( ',' Quoted )?
Transform := '->' ( Quoted | Name '(' Arguments ')' )
```

Blanks may stand between all of these.  A quoted text runs from one apostrophe to the next, so it
holds none, and the arguments of a function run to the parenthesis that closes the first one, as in
any reference.
-/

namespace CondLang

/-- A step applied to a list before it becomes text: a text to put in place of each item, or a
function of the list. -/
inductive ItemTransform where
  | expression (text : String)
  | function (name : String) (arguments : String)
  deriving DecidableEq, Repr, Inhabited

/-- What stands between the parentheses of `@(…)`. -/
structure ItemListReference where
  name : String
  transforms : List ItemTransform
  separator : Option String
  deriving DecidableEq, Repr, Inhabited

namespace ItemListReference

/-- What stands between the items of a list if the reference does not say. -/
def defaultSeparator : String := ";"

/-- What stands between the items of the list. -/
def joiner (reference : ItemListReference) : String :=
  reference.separator.getD defaultSeparator

/-- Splits a quoted text off the front. -/
def splitQuoted? : List Char → Option (List Char × List Char)
  | '\'' :: rest =>
      match rest.dropWhile (· != '\'') with
      | _ :: left => some (rest.takeWhile (· != '\''), left)
      | [] => none
  | _ => none

/-- Splits a name off the front. -/
def splitName? (text : List Char) : Option (List Char × List Char) :=
  let name := text.takeWhile Character.isNameChar
  if name.isEmpty then none else some (name, text.dropWhile Character.isNameChar)

/-- What a group holds between its parentheses. -/
def inside (group : List Char) : List Char := (group.drop 1).dropLast

/-- Splits a transform off the front, behind its arrow and the blanks that follow. -/
def splitTransform? (text : List Char) : Option (ItemTransform × List Char) :=
  if text.head? = some '\'' then
    (splitQuoted? text).map fun (quoted, left) => (.expression (.ofList quoted), left)
  else do
    let (name, left) ← splitName? text
    let left := Text.dropBlanks left
    if left.head? = some '(' then
      let (group, left) ← Reference.splitGroup? left
      return (.function (.ofList name) (.ofList (Text.trimmed (inside group))), left)
    else none

/-- Splits all transforms off the front, and the blanks around them.  Each takes characters of the
text, and `fuel` counts them. -/
def splitTransforms? (fuel : Nat) (text : List Char) :
    Option (List ItemTransform × List Char) :=
  match fuel, Text.dropBlanks text with
  | fuel + 1, '-' :: '>' :: rest => do
      let (transform, left) ← splitTransform? (Text.dropBlanks rest)
      let (transforms, left) ← splitTransforms? fuel left
      return (transform :: transforms, left)
  | _, left => some ([], left)

/-- The separator at the end of a reference, if there is one; `none` if the end is malformed. -/
def ending? : List Char → Option (Option String)
  | [] => some none
  | ',' :: rest =>
      match splitQuoted? (Text.dropBlanks rest) with
      | some (separator, left) =>
          if (Text.dropBlanks left).isEmpty then some (some (.ofList separator)) else none
      | none => none
  | _ => none

/-- The reference that the characters between `@(` and `)` write. -/
def ofChars? (inner : List Char) : Option ItemListReference := do
  let (name, left) ← splitName? (Text.dropBlanks inner)
  let (transforms, left) ← splitTransforms? left.length left
  let separator ← ending? left
  return ⟨.ofList name, transforms, separator⟩

/-- The reference that the text between `@(` and `)` writes. -/
def parse (inner : String) : Except ExpansionError ItemListReference :=
  match ofChars? inner.toList with
  | some reference => .ok reference
  | none => .error (.invalidReference ("@(" ++ inner ++ ")"))

end ItemListReference

end CondLang
