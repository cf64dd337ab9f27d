import CondLang.Text.Split

/-!
# File trees

A file tree is what is known of a file system: the directories and files below the working
directory, and that the directories above it exist.  A path is followed one segment at a time; every
segment but the last must lead to a directory, and so must the last one if a slash follows.

Paths and names have a greatest length, counted in bytes of UTF-8.  A path that is too long leads
nowhere, whatever it says; a name that is too long is found out when its turn comes.
-/

namespace CondLang

/-- The directories and files below the working directory, each by the segments of its path. -/
structure FileTree where
  directories : List (List String)
  files : List (List String × String)
  deriving DecidableEq, Repr, Inhabited

/-- Where a path leads: to a directory or a file below the working directory, given by its segments,
or to a directory above it. -/
inductive Place where
  | directory (segments : List String)
  | file (segments : List String) (content : String)
  | above
  deriving DecidableEq, Repr

/-- Why a path leads nowhere, or not to a file. -/
inductive PathError where
  | missing
  | notDirectory
  | isDirectory
  | tooLong
  deriving DecidableEq, Repr

/-- The error in the words of the operating system. -/
def PathError.message : PathError → String
  | missing => "No such file or directory (os error 2)"
  | notDirectory => "Not a directory (os error 20)"
  | isDirectory => "Is a directory (os error 21)"
  | tooLong => "File name too long (os error 36)"

/-- The most bytes a path may have. -/
def maxPathBytes : Nat := 4095

/-- The most bytes a name may have. -/
def maxNameBytes : Nat := 255

namespace FileTree

/-- The tree without files. -/
def empty : FileTree := ⟨[], []⟩

/-- Segments of a path that name something. -/
def segments (path : String) : List String :=
  (Text.splitText '/' path).filter fun segment => !segment.isEmpty && segment != "."

/-- The directories that lead to a place, given the segments of its path. -/
def ancestors (path : List String) : List (List String) :=
  (List.range path.length).map fun count => path.take count

/-- The tree with a directory, and those that lead to it. -/
def addDirectory (tree : FileTree) (path : String) : FileTree :=
  let place := segments path
  { tree with directories := tree.directories ++ ancestors place ++ [place] }

/-- The tree with a file, and the directories that lead to it. -/
def addFile (tree : FileTree) (path content : String) : FileTree :=
  let place := segments path
  { directories := tree.directories ++ ancestors place
    files := (place, content) :: tree.files }

/-- What stands at a place below the working directory. -/
def lookup? (tree : FileTree) (place : List String) : Option Place :=
  match tree.files.find? (·.1 == place) with
  | some (_, content) => some (.file place content)
  | none => if tree.directories.contains place then some (.directory place) else none

/-- Follows a name from a directory below the working directory. -/
def enterNamed (tree : FileTree) (path : List String) (name : String) : Except PathError Place :=
  if maxNameBytes < name.utf8ByteSize then .error .tooLong
  else
    match tree.lookup? (path ++ [name]) with
    | some found => .ok found
    | none => .error .missing

/-- Follows one segment of a path. -/
def enter (tree : FileTree) (place : Place) (segment : String) : Except PathError Place :=
  match place with
  | .file .. => .error .notDirectory
  | .above =>
      if segment.isEmpty || segment == "." || segment == ".." then .ok .above
      else if maxNameBytes < segment.utf8ByteSize then .error .tooLong
      else .error .missing
  | .directory path =>
      if segment.isEmpty || segment == "." then .ok place
      else if segment == ".." then
        if path.isEmpty then .ok .above else .ok (.directory path.dropLast)
      else tree.enterNamed path segment

/-- Where a path leads. -/
def resolve (tree : FileTree) (path : String) : Except PathError Place :=
  if path.isEmpty then .error .missing
  else if maxPathBytes < path.utf8ByteSize then .error .tooLong
  else
    let start : Place := if path.toList.head? = some '/' then .above else .directory []
    (Text.splitText '/' path).foldlM tree.enter start

/-- Whether a path leads anywhere. -/
def pathExists (tree : FileTree) (path : String) : Bool := (tree.resolve path).isOk

/-- The content of the file that a path leads to. -/
def read (tree : FileTree) (path : String) : Except PathError String :=
  match tree.resolve path with
  | .ok (.file _ content) => .ok content
  | .ok _ => .error .isDirectory
  | .error e => .error e

end FileTree

end CondLang
