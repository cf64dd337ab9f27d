import CondLang.Environment
import CondLang.Text.Escape

/-!
# Expanding text

A text is cut into pieces: references that close, and single characters for all the rest.  Expansion
asks for each reference in turn, joins what comes back with the characters between, and decodes the
percent escapes of the whole once, at the end.  What a reference is replaced by is never searched
for references.

`pieces` cuts a text; `assemble` puts it together and keeps the queries made; `expand` is the whole.
-/

namespace CondLang

/-- A part of a text: a character that stands for itself, or a reference that closes, with the text
between its parentheses. -/
inductive Piece where
  | literal (c : Char)
  | reference (kind : ReferenceKind) (inner : List Char)
  deriving DecidableEq, Repr

namespace Expansion

/-- Cuts a text into pieces from left to right. -/
def pieces (text : List Char) : List Piece :=
  match text with
  | [] => []
  | c :: rest =>
      match _hfront : Reference.front (c :: rest) with
      | .closed kind group left =>
          .reference kind (ItemListReference.inside group) :: pieces left
      | .unclosed _ | .plain => .literal c :: pieces rest
termination_by text.length
decreasing_by
  · exact Reference.length_left_lt _hfront
  all_goals simp

/-- Whether a reference that closes starts anywhere in a text. -/
def holdsReference : List Char → Bool
  | [] => false
  | c :: rest =>
      match Reference.front (c :: rest) with
      | .closed .. => true
      | .unclosed _ | .plain => holdsReference rest

end Expansion

/-- The outcome of an expansion, and the queries made on the way. -/
structure Expansion where
  asked : List Query
  outcome : Except ExpansionError (List Char)

namespace Expansion

/-- An expansion with a text in front of it. -/
def prepend (text : List Char) (expansion : Expansion) : Expansion :=
  { expansion with outcome := expansion.outcome.map (text ++ ·) }

/-- Puts pieces together.  A reference that cannot be read or answered ends the expansion. -/
def assemble (env : Environment) : List Piece → Expansion
  | [] => ⟨[], .ok []⟩
  | .literal c :: rest => (assemble env rest).prepend [c]
  | .reference kind inner :: rest =>
      match Query.parse kind inner with
      | .error e => ⟨[], .error e⟩
      | .ok query =>
          match env.answer query with
          | .error e => ⟨[query], .error e⟩
          | .ok text =>
              let others := (assemble env rest).prepend text.toList
              { others with asked := query :: others.asked }

/-- Expands a text up to its percent escapes. -/
def ofText (env : Environment) (text : String) : Expansion := assemble env (pieces text.toList)

/-- The text an expansion ends with, its percent escapes decoded. -/
def text (expansion : Expansion) : Except ExpansionError String :=
  expansion.outcome.map fun chars => Text.unescape (.ofList chars)

end Expansion

/-- A text with every reference replaced and all percent escapes decoded. -/
def expand (env : Environment) (text : String) : Except ExpansionError String :=
  (Expansion.ofText env text).text

/-- Whether a text holds a reference. -/
def holdsReference (text : String) : Bool := Expansion.holdsReference text.toList

end CondLang
