import CondLang.Text.Digits
import CondLang.Text.Split

/-!
# Versions

A version has two to four components, separated by points, each below `2 ^ 32`.  Versions are
compared component by component, and a missing component comes before any that is there: `1.0 <
1.0.0`.
-/

namespace CondLang

/-- A version; one that has a revision has a build as well. -/
structure Version where
  major : Nat
  minor : Nat
  build : Option Nat
  revision : Option Nat
  deriving DecidableEq, Repr, Inhabited

namespace Version

/-- What a component stays below. -/
def componentLimit : Nat := Nat.pow 2 32

/-- The value of a component: digits of a number in range. -/
def component? (text : List Char) : Option Nat :=
  if !text.isEmpty && text.all Char.isDigit then
    let value := Text.decimalValue text
    if value < componentLimit then some value else none
  else none

/-- The version with the given components, of which there must be two to four. -/
def ofComponents? : List Nat → Option Version
  | [major, minor] => some ⟨major, minor, none, none⟩
  | [major, minor, build] => some ⟨major, minor, some build, none⟩
  | [major, minor, build, revision] => some ⟨major, minor, some build, some revision⟩
  | _ => none

/-- The version that a text writes, if it does. -/
def parse? (text : String) : Option Version :=
  ((Text.splitOn '.' text.toList).mapM component?).bind ofComponents?

/-- The components that are there. -/
def components (v : Version) : List Nat :=
  match v.build, v.revision with
  | none, _ => [v.major, v.minor]
  | some build, none => [v.major, v.minor, build]
  | some build, some revision => [v.major, v.minor, build, revision]

/-- The order of two components that may be missing. -/
def compareOptional : Option Nat → Option Nat → Ordering
  | none, none => .eq
  | none, some _ => .lt
  | some _, none => .gt
  | some a, some b => Ord.compare a b

/-- The order of two versions. -/
def compare (a b : Version) : Ordering :=
  (Ord.compare a.major b.major).then <|
    (Ord.compare a.minor b.minor).then <|
      (compareOptional a.build b.build).then (compareOptional a.revision b.revision)

/-- A version as text. -/
def toText (v : Version) : String := ".".intercalate (v.components.map toString)

end Version

end CondLang
