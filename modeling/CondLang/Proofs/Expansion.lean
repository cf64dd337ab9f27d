import CondLang.Expansion

/-!
# Texts without references

A text in which no reference closes is cut into single characters, so its expansion asks nothing and
cannot fail: only its percent escapes are decoded.
-/

namespace CondLang

namespace Expansion

theorem pieces_of_not_holdsReference {text : List Char} (h : holdsReference text = false) :
    pieces text = text.map .literal := by
  induction text with
  | nil => rw [pieces, List.map_nil]
  | cons c rest ih =>
    rw [holdsReference] at h
    rw [pieces, List.map_cons]
    cases hfront : Reference.front (c :: rest) with
    | closed kind group left =>
      rw [hfront] at h
      cases h
    | unclosed kind =>
      rw [hfront] at h
      rw [ih h]
    | plain =>
      rw [hfront] at h
      rw [ih h]

theorem assemble_literals (env : Environment) (text : List Char) :
    assemble env (text.map .literal) = ⟨[], .ok text⟩ := by
  induction text with
  | nil => rfl
  | cons c rest ih =>
    rw [List.map_cons, assemble, ih]
    rfl

end Expansion

theorem ofText_of_not_holdsReference (env : Environment) {text : String}
    (h : holdsReference text = false) :
    Expansion.ofText env text = ⟨[], .ok text.toList⟩ := by
  rw [Expansion.ofText, Expansion.pieces_of_not_holdsReference h, Expansion.assemble_literals]

theorem expand_of_not_holdsReference (env : Environment) {text : String}
    (h : holdsReference text = false) :
    expand env text = .ok (Text.unescape text) := by
  rw [expand, ofText_of_not_holdsReference env h, Expansion.text, Except.map,
    String.ofList_toList]

end CondLang
