import CondLang.Proofs.Expansion.Pieces
import CondLang.Token.Lexer

/-!
# What stands between quotes

`Quotable` texts are those that may stand in quotes: references that close, with any quotes inside
them, and other characters than the quote that open no reference.  A quoted string is read exactly
if a quotable text and a quote come next (`readQuoted_eq_lexeme_iff`).

`Scans` is what the reader of quoted strings does with the text in front of it, step by step, with
the references that it passes over and where they stand.  The expansion of a quotable text later
finds the same references (`scans_iff`).
-/

namespace CondLang

namespace Lexeme

open Reference (IsGroup)

/-- The texts that may stand between quotes. -/
inductive Quotable : List Char → Prop where
  | nil : Quotable []
  | literal {c : Char} {rest : List Char} (hc : c ≠ '\'')
      (hopening : Reference.opening? (c :: rest) = none) (hrest : Quotable rest) :
      Quotable (c :: rest)
  | reference {kind : ReferenceKind} {group rest : List Char} (hgroup : IsGroup group)
      (hrest : Quotable rest) : Quotable (kind.sigil :: (group ++ rest))

/-- Standing at an offset inside a quoted string, the reader passes over references and comes to the
closing quote at the offset `stop`, behind which `rest` is left. -/
inductive Scans : Nat → List Char → List Reference.Extent → Nat → List Char → Prop where
  | close {offset : Nat} {rest : List Char} : Scans offset ('\'' :: rest) [] offset rest
  | literal {offset stop : Nat} {c : Char} {text rest : List Char}
      {found : List Reference.Extent} (hc : c ≠ '\'')
      (hfront : Reference.front (c :: text) = .plain)
      (hscans : Scans (offset + 1) text found stop rest) :
      Scans offset (c :: text) found stop rest
  | reference {offset stop : Nat} {c : Char} {text group left rest : List Char}
      {kind : ReferenceKind} {found : List Reference.Extent} (hc : c ≠ '\'')
      (hfront : Reference.front (c :: text) = .closed kind group left)
      (hscans : Scans (offset + 1 + group.length) left found stop rest) :
      Scans offset (c :: text) (⟨kind, offset, offset + 1 + group.length⟩ :: found) stop rest

theorem sigil_ne_quote (kind : ReferenceKind) : kind.sigil ≠ '\'' := by
  cases kind <;> decide

/-- The closing quote is no parenthesis, so what opens no reference inside the quotes opens none in
the whole text. -/
theorem opening?_append_quote {c : Char} {text rest : List Char} :
    Reference.opening? (c :: (text ++ '\'' :: rest)) = none ↔
      Reference.opening? (c :: text) = none := by
  rw [Reference.opening?_cons_eq_none_iff, Reference.opening?_cons_eq_none_iff]
  cases text with
  | nil => simp
  | cons d text => rfl

theorem Quotable.closed {body : List Char} (h : Quotable body) : Expansion.Closed body := by
  induction h with
  | nil => exact Expansion.closed_nil
  | literal hc hopening _ ih =>
    refine ih.of_pieces_eq_cons (Expansion.pieces_literal hopening) fun c hliteral => ?_
    cases hliteral
    exact hopening
  | reference hgroup _ ih => exact ih.of_pieces_eq_cons (Expansion.pieces_group hgroup) nofun

/-! ## The reader of quoted strings -/

variable {taken n : Nat} {before text rest : List Char} {expandable : Bool} {lexeme : Lexeme}

theorem readQuoted_quotable {body : List Char} (h : Quotable body) :
    readQuoted taken before expandable (body ++ '\'' :: rest) =
      .lexeme (.text .string (.ofList (before.reverse ++ body))
        (expandable || (Expansion.pieces body).any Piece.expandable))
        (taken + body.length + 1) rest := by
  induction h generalizing taken before expandable with
  | nil =>
    rw [List.nil_append, readQuoted, if_pos rfl, Expansion.pieces_nil]
    simp
  | @literal c text hc hopening htext ih =>
    have hfront : Reference.front (c :: (text ++ '\'' :: rest)) = .plain :=
      Reference.front_eq_plain_iff.2 (opening?_append_quote.2 hopening)
    rw [List.cons_append, readQuoted, if_neg hc]
    split
    · next hclosed => rw [hfront] at hclosed; cases hclosed
    · next hunclosed => rw [hfront] at hunclosed; cases hunclosed
    · rw [ih, Expansion.pieces_literal hopening, List.length_cons, Nat.add_right_comm taken]
      simp [Piece.expandable, Bool.or_assoc, Nat.add_assoc]
  | @reference kind group text hgroup htext ih =>
    have hfront : Reference.front (kind.sigil :: (group ++ (text ++ '\'' :: rest))) =
        .closed kind group (text ++ '\'' :: rest) :=
      Reference.front_eq_closed_iff.2 ⟨hgroup, rfl⟩
    rw [List.cons_append, List.append_assoc, readQuoted, if_neg (sigil_ne_quote kind)]
    split
    · next kind' group' left' hclosed =>
      rw [hfront] at hclosed
      cases hclosed
      rw [ih, Expansion.pieces_group hgroup]
      simp [Piece.expandable, Nat.add_assoc, Nat.add_comm, Nat.add_left_comm]
    · next hunclosed => rw [hfront] at hunclosed; cases hunclosed
    · next hplain => rw [hfront] at hplain; cases hplain

theorem exists_quotable_of_readQuoted
    (h : readQuoted taken before expandable text = .lexeme lexeme n rest) :
    ∃ body, Quotable body ∧ text = body ++ '\'' :: rest := by
  fun_induction readQuoted taken before expandable text with
  | case1 => cases h
  | case2 taken before expandable left =>
    cases h
    exact ⟨[], .nil, rfl⟩
  | case3 taken before expandable c left hc kind group after hfront ih =>
    obtain ⟨body, hbody, rfl⟩ := ih h
    obtain ⟨hgroup, htext⟩ := Reference.front_eq_closed_iff.1 hfront
    exact ⟨_, @Quotable.reference kind group body hgroup hbody, by rw [htext]; simp⟩
  | case4 => cases h
  | case5 taken before expandable c left hc hfront ih =>
    obtain ⟨body, hbody, rfl⟩ := ih h
    have hopening := opening?_append_quote.1 (Reference.front_eq_plain_iff.1 hfront)
    exact ⟨c :: body, .literal hc hopening hbody, rfl⟩

/-- Inside quotes a string is read exactly if it is quotable and its closing quote follows.  It
needs expansion if one of its pieces does. -/
theorem readQuoted_eq_lexeme_iff :
    readQuoted taken before expandable text = .lexeme lexeme n rest ↔
      ∃ body, Quotable body ∧ text = body ++ '\'' :: rest ∧ n = taken + body.length + 1 ∧
        lexeme = .text .string (.ofList (before.reverse ++ body))
          (expandable || (Expansion.pieces body).any Piece.expandable) := by
  constructor
  · intro h
    obtain ⟨body, hbody, rfl⟩ := exists_quotable_of_readQuoted h
    rw [readQuoted_quotable hbody] at h
    cases h
    exact ⟨body, hbody, rfl, rfl, rfl⟩
  · intro h
    rcases h with ⟨body, hbody, rfl, rfl, rfl⟩
    exact readQuoted_quotable hbody

/-! ## The references that the reader passes over -/

theorem scans_of_quotable {body : List Char} (h : Quotable body) (offset : Nat)
    (rest : List Char) :
    Scans offset (body ++ '\'' :: rest) (Piece.extents offset (Expansion.pieces body))
      (offset + body.length) rest := by
  induction h generalizing offset with
  | nil =>
    rw [Expansion.pieces_nil]
    exact .close
  | @literal c text hc hopening htext ih =>
    have hscans := ih (offset + 1)
    rw [Expansion.pieces_literal hopening, Piece.extents, List.length_cons]
    rw [Nat.add_assoc, Nat.add_comm 1] at hscans
    exact .literal hc (Reference.front_eq_plain_iff.2 (opening?_append_quote.2 hopening)) hscans
  | @reference kind group text hgroup htext ih =>
    have hscans := ih (offset + 1 + group.length)
    have hstop : offset + 1 + group.length + text.length =
        offset + (kind.sigil :: (group ++ text)).length := by
      rw [List.length_cons, List.length_append]
      omega
    rw [hstop] at hscans
    rw [Expansion.pieces_group hgroup, Piece.extents, Expansion.source_of_isGroup hgroup,
      List.length_cons, List.cons_append, List.append_assoc, Nat.add_comm group.length,
      ← Nat.add_assoc]
    exact .reference (sigil_ne_quote kind) (Reference.front_eq_closed_iff.2 ⟨hgroup, rfl⟩) hscans

/-- The reader passes over the references that the expansion of the string finds, and stops at the
first quote behind them. -/
theorem scans_iff {offset stop : Nat} {found : List Reference.Extent} :
    Scans offset text found stop rest ↔
      ∃ body, Quotable body ∧ text = body ++ '\'' :: rest ∧ stop = offset + body.length ∧
        found = Piece.extents offset (Expansion.pieces body) := by
  constructor
  · intro h
    induction h with
    | close =>
      exact ⟨[], .nil, rfl, rfl, by rw [Expansion.pieces_nil]; rfl⟩
    | @literal offset stop c text rest found hc hfront _ ih =>
      obtain ⟨body, hbody, rfl, rfl, rfl⟩ := ih
      have hopening := opening?_append_quote.1 (Reference.front_eq_plain_iff.1 hfront)
      refine ⟨c :: body, .literal hc hopening hbody, rfl, ?_, ?_⟩
      · rw [List.length_cons]
        omega
      · rw [Expansion.pieces_literal hopening, Piece.extents]
    | @reference offset stop c text group left rest kind found hc hfront _ ih =>
      obtain ⟨body, hbody, rfl, rfl, rfl⟩ := ih
      obtain ⟨hgroup, htext⟩ := Reference.front_eq_closed_iff.1 hfront
      refine ⟨_, @Quotable.reference kind group body hgroup hbody, by rw [htext]; simp, ?_, ?_⟩
      · rw [List.length_cons, List.length_append]
        omega
      · rw [Expansion.pieces_group hgroup, Piece.extents, Expansion.source_of_isGroup hgroup,
          List.length_cons, Nat.add_comm group.length, ← Nat.add_assoc]
  · intro h
    rcases h with ⟨body, hbody, rfl, rfl, rfl⟩
    exact scans_of_quotable hbody offset rest

end Lexeme

end CondLang
