import CondLang.NameTable

/-!
# Items

An item is included under some text, its identity, and has metadata.  `Identity`, `Filename` and
`Extension` are metadata that follow from the identity and win over metadata of these names that was
set.
-/

namespace CondLang

/-- An item: the text it was included under, and the metadata set for it. -/
structure Item where
  identity : String
  custom : NameTable String
  deriving DecidableEq, Repr, Inhabited

namespace Item

/-- The item of an identity without metadata of its own. -/
def ofIdentity (identity : String) : Item := ⟨identity, .empty⟩

/-- The item with a piece of metadata set. -/
def setMetadata (item : Item) (name value : String) : Item :=
  { item with custom := item.custom.insert name value }

/-- Whether a character separates the segments of a path. -/
def isSeparator (c : Char) : Bool := c == '/' || c == '\\'

/-- The last segment of a path. -/
def lastSegment (path : List Char) : List Char :=
  (path.reverse.takeWhile fun c => !isSeparator c).reverse

/-- The last segment of a path in two parts: up to its last point, and from there on.  A point at
the very front starts no extension. -/
def fileParts (path : List Char) : List Char × List Char :=
  let file := lastSegment path
  match file.reverse.dropWhile (· != '.') with
  | point :: c :: stem =>
      ((c :: stem).reverse, point :: (file.reverse.takeWhile (· != '.')).reverse)
  | _ => (file, [])

theorem fileParts_append (path : List Char) :
    (fileParts path).1 ++ (fileParts path).2 = lastSegment path := by
  simp only [fileParts]
  split
  · next point c stem hbehind =>
    have hparts : (lastSegment path).reverse.takeWhile (· != '.') ++ point :: c :: stem =
        (lastSegment path).reverse := by
      rw [← hbehind]
      exact List.takeWhile_append_dropWhile
    have hwhole := congrArg List.reverse hparts
    simpa using hwhole
  · simp

/-- The metadata of an item under a name. -/
def metadata? (item : Item) (name : String) : Option String :=
  if Text.sameIgnoringAscii name "Identity" then some item.identity
  else if Text.sameIgnoringAscii name "Filename" then
    some (.ofList (fileParts item.identity.toList).1)
  else if Text.sameIgnoringAscii name "Extension" then
    some (.ofList (fileParts item.identity.toList).2)
  else item.custom.find? name

end Item

end CondLang
