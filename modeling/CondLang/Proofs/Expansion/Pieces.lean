import CondLang.Expansion
import CondLang.Proofs.Reference.Extent
import CondLang.Span

/-!
# The pieces of a text

The pieces into which a text is cut make up the text again (`flatMap_source_pieces`), so each piece
has a place in it.  `Piece.extents` says where the references stand.  A sigil and a parenthesis that
the cutting comes upon either start a reference or are kept as characters, because the reference
never closes; a text is `Closed` if the latter does not happen.
-/

namespace CondLang

namespace Reference

/-- A reference of some kind and the characters of a text that it takes. -/
structure Extent where
  kind : ReferenceKind
  span : Span
  deriving DecidableEq, Repr

/-- The same reference in a text that has more characters in front. -/
def Extent.moved (offset : Nat) (extent : Extent) : Extent :=
  { extent with span := extent.span.moved offset }

end Reference

namespace Piece

/-- The characters that a piece is cut from. -/
def source : Piece → List Char
  | literal c => [c]
  | reference kind inner => kind.sigil :: '(' :: (inner ++ [')'])

/-- Whether a piece may stand for other characters than its own. -/
def expandable : Piece → Bool
  | literal c => c == '%'
  | reference .. => true

/-- The references among pieces that are laid end to end from an offset on. -/
def extents (offset : Nat) : List Piece → List Reference.Extent
  | [] => []
  | literal _ :: rest => extents (offset + 1) rest
  | reference kind inner :: rest =>
      let stop := offset + (reference kind inner).source.length
      ⟨kind, offset, stop⟩ :: extents stop rest

theorem extents_add (pieces : List Piece) (offset more : Nat) :
    extents (offset + more) pieces = (extents offset pieces).map (·.moved more) := by
  induction pieces generalizing offset with
  | nil => rfl
  | cons piece rest ih =>
    cases piece with
    | literal c =>
      rw [extents, extents, ← ih, Nat.add_right_comm]
    | reference kind inner =>
      simp only [extents, List.map_cons, Nat.add_right_comm offset more, ih]
      rfl

end Piece

namespace Expansion

open Reference (IsGroup)

variable {c : Char} {text rest group : List Char} {kind : ReferenceKind}

theorem inside_of_isGroup (h : IsGroup group) :
    '(' :: (ItemListReference.inside group ++ [')']) = group := by
  obtain ⟨inner, rfl⟩ := h.exists_eq
  simp [ItemListReference.inside]

theorem source_of_isGroup (h : IsGroup group) :
    (Piece.reference kind (ItemListReference.inside group)).source = kind.sigil :: group := by
  rw [Piece.source, inside_of_isGroup h]

/-! ## Cutting a text -/

theorem pieces_nil : pieces [] = [] := by rw [pieces]

/-- A reference that starts a text is its first piece. -/
theorem pieces_group (hgroup : IsGroup group) :
    pieces (kind.sigil :: (group ++ rest)) =
      .reference kind (ItemListReference.inside group) :: pieces rest := by
  have hfront : Reference.front (kind.sigil :: (group ++ rest)) = .closed kind group rest :=
    Reference.front_eq_closed_iff.2 ⟨hgroup, rfl⟩
  rw [pieces]
  split
  · next kind' group' left' hfront' =>
    rw [hfront] at hfront'
    cases hfront'
    rfl
  · next hfront' => rw [hfront] at hfront'; cases hfront'
  · next hfront' => rw [hfront] at hfront'; cases hfront'

/-- A reference alone is the only piece of its text. -/
theorem pieces_reference (hgroup : IsGroup group) (kind : ReferenceKind) :
    pieces (kind.sigil :: group) = [.reference kind (ItemListReference.inside group)] := by
  have hpieces : pieces (kind.sigil :: (group ++ [])) = _ := pieces_group hgroup
  rwa [List.append_nil, pieces_nil] at hpieces

/-- A character that starts no reference which closes is a piece. -/
theorem pieces_kept
    (h : ∀ kind group left, Reference.front (c :: rest) ≠ .closed kind group left) :
    pieces (c :: rest) = .literal c :: pieces rest := by
  rw [pieces]
  split
  · next hfront => exact absurd hfront (h _ _ _)
  · rfl
  · rfl

/-- A character that opens no reference is a piece. -/
theorem pieces_literal (hopening : Reference.opening? (c :: rest) = none) :
    pieces (c :: rest) = .literal c :: pieces rest :=
  pieces_kept fun kind group left => by
    rw [Reference.front_eq_plain_iff.2 hopening]
    exact nofun

/-- The pieces of a text, joined, are the text. -/
theorem flatMap_source_pieces (text : List Char) : (pieces text).flatMap Piece.source = text := by
  fun_induction pieces text with
  | case1 => rfl
  | case2 c rest kind group left hfront ih =>
    obtain ⟨hgroup, htext⟩ := Reference.front_eq_closed_iff.1 hfront
    rw [List.flatMap_cons, ih, source_of_isGroup hgroup, htext]
    rfl
  | case3 c rest kind hfront ih => rw [List.flatMap_cons, ih]; rfl
  | case4 c rest hfront ih => rw [List.flatMap_cons, ih]; rfl

/-- A piece may stand for other characters only if it holds a parenthesis or a percent sign. -/
theorem any_expandable_eq_false (hparen : '(' ∉ text) (hpercent : '%' ∉ text) :
    (pieces text).any Piece.expandable = false := by
  refine List.any_eq_false.2 fun piece hpiece hexpandable => ?_
  have hsource : ∀ c ∈ piece.source, c ∈ text := by
    intro c hc
    rw [← flatMap_source_pieces text]
    exact List.mem_flatMap.2 ⟨piece, hpiece, hc⟩
  cases piece with
  | literal c =>
    obtain rfl := beq_iff_eq.1 hexpandable
    exact hpercent (hsource '%' List.mem_cons_self)
  | reference kind inner =>
    exact hparen (hsource '(' (List.mem_cons_of_mem _ List.mem_cons_self))

/-- A text whose pieces all stand for their own characters holds no percent sign. -/
theorem not_mem_of_any_expandable (h : (pieces text).any Piece.expandable = false) :
    '%' ∉ text := by
  rw [← flatMap_source_pieces text]
  intro hpercent
  obtain ⟨piece, hpiece, hsource⟩ := List.mem_flatMap.1 hpercent
  refine List.any_eq_false.1 h piece hpiece ?_
  cases piece with
  | literal c =>
    obtain rfl := List.mem_singleton.1 hsource
    rfl
  | reference kind inner => rfl

/-- Wherever the cutting of a text comes upon a sigil and a parenthesis, a reference closes: no
character that is kept has the look of an opening. -/
def Closed (text : List Char) : Prop :=
  ∀ (before : List Piece) (c : Char) (after : List Piece),
    pieces text = before ++ .literal c :: after →
      Reference.opening? (c :: after.flatMap Piece.source) = none

theorem closed_nil : Closed [] := by
  intro before c after h
  rw [pieces_nil] at h
  simp at h

/-- A text is closed if what follows its first piece is, and that is no sigil left open. -/
theorem Closed.of_pieces_eq_cons {piece : Piece} (h : Closed rest)
    (hpieces : pieces text = piece :: pieces rest)
    (hpiece : ∀ c, piece = .literal c → Reference.opening? (c :: rest) = none) : Closed text := by
  intro before c after heq
  rw [hpieces] at heq
  cases before with
  | nil =>
    simp only [List.nil_append, List.cons.injEq] at heq
    obtain ⟨hliteral, rfl⟩ := heq
    rw [flatMap_source_pieces]
    exact hpiece c hliteral
  | cons first before =>
    simp only [List.cons_append, List.cons.injEq] at heq
    exact h before c after heq.2

end Expansion

end CondLang
