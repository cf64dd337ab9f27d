import CondLang.Proofs.Expansion
import CondLang.Proofs.Expansion.Pieces
import CondLang.Proofs.Reference.Named
import Mathlib.Data.Nat.Find

/-!
# The position of the first reference

Whether a text holds a reference may be asked of each position on its own (`closesAt`), inside other
references as well.  The expansion goes from left to right and jumps over each reference that it
comes upon, so it does not see all of these positions.  It sees the first of them, though: up to
there it keeps single characters (`pieces_of_front`).  So both agree on whether there is a reference
at all, and on where the first one starts (`holdsReference_agrees`).
-/

namespace CondLang

namespace Expansion

open Reference (IsGroup endOffset?)

variable {text group left : List Char} {i : Nat} {kind : ReferenceKind}

/-- Whether a reference that closes starts at a position: a sigil with a parenthesis right behind it
stands there, and there is an end to it. -/
def closesAt (text : List Char) (i : Nat) : Bool :=
  (Reference.opening? (text.drop i)).isSome && (endOffset? text i).isSome

/-! ## One position -/

theorem closesAt_iff :
    closesAt text i = true ↔
      ∃ kind group left, Reference.front (text.drop i) = .closed kind group left := by
  have hbehind : (text.drop i).drop 1 = text.drop (i + 1) := List.drop_drop
  rw [closesAt, endOffset?, Option.isSome_map, ← hbehind, Reference.front]
  cases Reference.opening? (text.drop i) with
  | none => simp
  | some kind =>
    cases Reference.splitGroup? ((text.drop i).drop 1) <;> simp

theorem closesAt_zero_iff :
    closesAt text 0 = true ↔
      ∃ kind group left, Reference.front text = .closed kind group left := by
  rw [closesAt_iff, List.drop_zero]

theorem closesAt_cons (c : Char) (rest : List Char) (i : Nat) :
    closesAt (c :: rest) (i + 1) = closesAt rest i := by
  simp [closesAt, endOffset?]

theorem closesAt_nil (i : Nat) : closesAt [] i = false := by
  simp [closesAt, Reference.opening?]

theorem lt_length_of_closesAt (h : closesAt text i = true) : i < text.length := by
  refine Nat.lt_of_not_le fun hle => ?_
  rw [closesAt, List.drop_eq_nil_of_le hle] at h
  cases h

/-- A text holds a reference if one closes at any position. -/
theorem holdsReference_iff_closesAt :
    holdsReference text = true ↔ ∃ i, closesAt text i = true := by
  induction text with
  | nil => simp [holdsReference, closesAt_nil]
  | cons c rest ih =>
    by_cases hfirst : closesAt (c :: rest) 0 = true
    · obtain ⟨kind, group, left, hfront⟩ := closesAt_zero_iff.1 hfirst
      rw [holdsReference, hfront]
      exact ⟨fun _ => ⟨0, hfirst⟩, fun _ => rfl⟩
    · have hrest : holdsReference (c :: rest) = holdsReference rest := by
        rw [holdsReference]
        split
        · next hfront => exact absurd (closesAt_zero_iff.2 ⟨_, _, _, hfront⟩) hfirst
        · rfl
        · rfl
      rw [hrest, ih]
      constructor
      · rintro ⟨i, hi⟩
        exact ⟨i + 1, (closesAt_cons c rest i).trans hi⟩
      · rintro ⟨i, hi⟩
        cases i with
        | zero => exact absurd hi hfirst
        | succ i => exact ⟨i, (closesAt_cons c rest i).symm.trans hi⟩

/-! ## The first position -/

/-- A reference stands in a text: its sigil at a position, its end at another one, and between them
its parentheses with a text inside. -/
structure StandsAt (text : List Char) (i : Nat) (kind : ReferenceKind) (inner : List Char)
    (stop : Nat) : Prop where
  sigil_eq : text[i]? = some kind.sigil
  stop_eq : endOffset? text i = some stop
  inner_eq : text.extract (i + 2) (stop - 1) = inner

/-- What a text starts with from a position on stands there. -/
theorem standsAt_of_front (h : Reference.front (text.drop i) = .closed kind group left) :
    StandsAt text i kind (ItemListReference.inside group) (i + 1 + group.length) ∧
      text.drop (i + 1 + group.length) = left := by
  obtain ⟨hgroup, htext⟩ := Reference.front_eq_closed_iff.1 h
  obtain ⟨inner, hinner⟩ := hgroup.exists_eq
  have hbehind : text.drop (i + 1) = group ++ left := by
    rw [← List.drop_drop, htext]
    rfl
  refine ⟨⟨?_, ?_, ?_⟩, ?_⟩
  · rw [← List.head?_drop, htext]
    rfl
  · rw [endOffset?, hbehind, hgroup.splitGroup?_append]
    rfl
  · have hinside : text.drop (i + 2) = inner ++ ')' :: left := by
      rw [← List.drop_drop, htext, hinner]
      simp
    have hlength : i + 1 + group.length - 1 - (i + 2) = inner.length := by
      rw [hinner]
      simp
      omega
    rw [List.extract_eq_take_drop, hinside, hlength, List.take_left, hinner,
      ItemListReference.inside_cons_append]
  · rw [← List.drop_drop, hbehind, List.drop_left]

/-- Up to the first position at which a reference closes, a text is cut into characters. -/
theorem pieces_of_front (hfront : Reference.front (text.drop i) = .closed kind group left)
    (hleast : ∀ j < i, closesAt text j = false) :
    pieces text = (text.take i).map .literal ++
      .reference kind (ItemListReference.inside group) :: pieces left := by
  induction i generalizing text with
  | zero =>
    obtain ⟨hgroup, htext⟩ := Reference.front_eq_closed_iff.1 hfront
    rw [List.drop_zero] at htext
    rw [htext, pieces_group hgroup]
    rfl
  | succ i ih =>
    cases text with
    | nil => cases hfront
    | cons c rest =>
      have hkept : pieces (c :: rest) = .literal c :: pieces rest := by
        refine pieces_kept fun kind group left hclosed => ?_
        have hnone := hleast 0 (Nat.zero_lt_succ i)
        rw [closesAt_zero_iff.2 ⟨kind, group, left, hclosed⟩] at hnone
        cases hnone
      have hrest : ∀ j < i, closesAt rest j = false := fun j hj => by
        rw [← closesAt_cons c]
        exact hleast (j + 1) (Nat.succ_lt_succ hj)
      rw [hkept, ih hfront hrest]
      rfl

/-- Characters in front of other pieces are put in front of what these are expanded to. -/
theorem assemble_literals_append (env : Environment) (text : List Char) (pieces : List Piece) :
    assemble env (text.map .literal ++ pieces) = (assemble env pieces).prepend text := by
  induction text with
  | nil =>
    rw [List.map_nil, List.nil_append]
    cases h : assemble env pieces with
    | mk asked outcome => cases outcome <;> rfl
  | cons c text ih =>
    rw [List.map_cons, List.cons_append, assemble, ih]
    cases h : assemble env pieces with
    | mk asked outcome => cases outcome <;> rfl

/-- A text that holds a reference has a first position at which one closes. -/
theorem exists_first (h : holdsReference text = true) :
    ∃ i, closesAt text i = true ∧ ∀ j < i, closesAt text j = false := by
  have hsome := holdsReference_iff_closesAt.1 h
  refine ⟨Nat.find hsome, Nat.find_spec hsome, fun j hj => ?_⟩
  exact Bool.eq_false_iff.2 (Nat.find_min hsome hj)

theorem mem_pieces_of_holdsReference (h : holdsReference text = true) :
    ∃ kind inner, .reference kind inner ∈ pieces text := by
  obtain ⟨i, hfirst, hleast⟩ := exists_first h
  obtain ⟨kind, group, left, hfront⟩ := closesAt_iff.1 hfirst
  refine ⟨kind, ItemListReference.inside group, ?_⟩
  rw [pieces_of_front hfront hleast]
  exact List.mem_append_right _ List.mem_cons_self

end Expansion

open Expansion

/-- A text holds a reference if and only if one closes at some position, and if and only if the
expansion comes upon one.  If there is none, then whatever the environment, nothing is asked and
only percent escapes are decoded.  Otherwise the first reference that the expansion comes upon
stands at the least position at which one closes: the characters in front of it are kept, and then
it is asked for. -/
theorem holdsReference_agrees :
    (∀ text : String, holdsReference text = true ↔
      ∃ i < text.toList.length, closesAt text.toList i = true) ∧
    (∀ text : String, holdsReference text = false ↔
      ∀ kind inner, .reference kind inner ∉ pieces text.toList) ∧
    (∀ (text : String) (env : Environment), holdsReference text = false →
      ofText env text = ⟨[], .ok text.toList⟩ ∧ expand env text = .ok (Text.unescape text)) ∧
    ∀ text : String, holdsReference text = true →
      ∃ i kind inner stop,
        closesAt text.toList i = true ∧ (∀ j < i, closesAt text.toList j = false) ∧
        StandsAt text.toList i kind inner stop ∧
        pieces text.toList = (text.toList.take i).map .literal ++
          .reference kind inner :: pieces (text.toList.drop stop) ∧
        ∀ env, ofText env text =
          (assemble env (.reference kind inner :: pieces (text.toList.drop stop))).prepend
            (text.toList.take i) := by
  refine ⟨fun text => ?_, fun text => ?_, fun text env h => ?_, fun text h => ?_⟩
  · rw [CondLang.holdsReference, holdsReference_iff_closesAt]
    constructor
    · rintro ⟨i, hi⟩
      exact ⟨i, lt_length_of_closesAt hi, hi⟩
    · rintro ⟨i, -, hi⟩
      exact ⟨i, hi⟩
  · constructor
    · intro h kind inner hmem
      rw [pieces_of_not_holdsReference h] at hmem
      obtain ⟨c, -, hc⟩ := List.mem_map.1 hmem
      cases hc
    · intro h
      refine Bool.eq_false_iff.2 fun hholds => ?_
      obtain ⟨kind, inner, hmem⟩ := mem_pieces_of_holdsReference hholds
      exact h kind inner hmem
  · exact ⟨ofText_of_not_holdsReference env h, expand_of_not_holdsReference env h⟩
  · obtain ⟨i, hfirst, hleast⟩ := exists_first h
    obtain ⟨kind, group, left, hfront⟩ := closesAt_iff.1 hfirst
    obtain ⟨hstands, hleft⟩ := standsAt_of_front hfront
    have hpieces := pieces_of_front hfront hleast
    rw [← hleft] at hpieces
    refine ⟨i, kind, _, _, hfirst, hleast, hstands, hpieces, fun env => ?_⟩
    rw [ofText, hpieces, assemble_literals_append]

/-- A sigil that opens nothing, and an opening that is never closed: the first reference is the one
that stands behind the latter. -/
theorem holdsReference_agrees_behindUnclosed :
    holdsReference "$a $(b @(c) d" = true ∧
    (∃ kind inner stop, StandsAt "$a $(b @(c) d".toList 7 kind inner stop ∧
      ∀ env, ofText env "$a $(b @(c) d" =
        (assemble env (.reference kind inner :: pieces ("$a $(b @(c) d".toList.drop stop))).prepend
          "$a $(b ".toList) ∧
    holdsReference "$a $(b %41" = false ∧
    ∀ env, expand env "$a $(b %41" = .ok "$a $(b A" := by
  obtain ⟨-, -, hplain, hfirst⟩ := holdsReference_agrees
  have hholds : holdsReference "$a $(b @(c) d" = true := by decide +kernel
  have hnone : holdsReference "$a $(b %41" = false := by decide +kernel
  obtain ⟨i, kind, inner, stop, hcloses, hleast, hstands, -, hasked⟩ := hfirst _ hholds
  have hfront : ∀ j < 7, closesAt "$a $(b @(c) d".toList j = false := by decide +kernel
  have hseven : closesAt "$a $(b @(c) d".toList 7 = true := by decide +kernel
  obtain rfl : i = 7 := by
    apply Nat.le_antisymm
    · exact Nat.le_of_not_lt fun hlt => Bool.eq_false_iff.1 (hleast 7 hlt) hseven
    · exact Nat.le_of_not_lt fun hlt => Bool.eq_false_iff.1 (hfront i hlt) hcloses
  refine ⟨hholds, ⟨kind, inner, stop, hstands, hasked⟩, hnone, fun env => ?_⟩
  exact (hplain _ env hnone).2.trans (congrArg _ (by decide +kernel))

end CondLang
