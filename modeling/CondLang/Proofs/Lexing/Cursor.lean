import CondLang.Proofs.Lexing.Spelling

/-!
# Reading tokens one after the other

A cursor that reads a token goes over blanks and over a spelling of its lexeme, and stands right
behind it (`next_eq_ok_iff`); so one step of the cursor is known exactly.  `Cursor.Takes` is any
number of such steps.  A cursor that is `Within` a text, before as many of its characters as it
counts, stays within it.
-/

namespace CondLang

namespace Cursor

variable {cursor left : Cursor} {token : Token} {tokens : List Token}

/-- The cursor goes over blanks and the spelling of a token. -/
structure Cuts (cursor : Cursor) (blanks front : List Char) (token : Token) (left : Cursor) :
    Prop where
  rest : cursor.rest = blanks ++ (front ++ left.rest)
  blank : ∀ c ∈ blanks, Text.isBlank c = true
  spells : Lexeme.Spells front token.lexeme left.rest
  start : token.span.start = cursor.position + blanks.length
  stop : token.span.stop = token.span.start + front.length
  position : left.position = token.span.stop

/-- Behind blanks the next spelling starts. -/
theorem skipBlanks_eq {blanks front rest : List Char} {lexeme : Lexeme}
    (hrest : cursor.rest = blanks ++ (front ++ rest))
    (hblank : ∀ c ∈ blanks, Text.isBlank c = true) (hspells : Lexeme.Spells front lexeme rest) :
    cursor.skipBlanks = ⟨cursor.position + blanks.length, front ++ rest⟩ := by
  have hhead : ∀ c ∈ (front ++ rest).head?, Text.isBlank c = false := by
    cases front with
    | cons c front => exact hspells.not_isBlank_head
    | nil =>
      rw [hspells.eq_nil_iff.1 rfl] at hspells
      rw [hspells.rest_eq_nil]
      exact nofun
  obtain ⟨htake, hdrop⟩ := Text.takeWhile_eq_and_dropWhile_eq_iff.2 ⟨hrest, hblank, hhead⟩
  rw [skipBlanks, Text.dropBlanks, htake, hdrop]

theorem next_eq_ok_iff :
    cursor.next = (.ok token, left) ↔ ∃ blanks front, cursor.Cuts blanks front token left := by
  constructor
  · intro h
    simp only [next] at h
    split at h
    · next lexeme taken rest hread =>
      cases h
      obtain ⟨front, hspells, hfront, rfl⟩ := Lexeme.read_eq_lexeme_iff.1 hread
      obtain ⟨hrest, hblank, -⟩ := Text.takeWhile_eq_and_dropWhile_eq_iff.1 ⟨rfl, hfront⟩
      exact ⟨_, front, hrest, hblank, hspells, rfl, rfl, rfl⟩
    · cases h
  · intro h
    rcases h with ⟨blanks, front, hrest, hblank, hspells, hstart, hstop, hposition⟩
    simp only [next, skipBlanks_eq hrest hblank hspells, Lexeme.read_of_spells hspells]
    obtain ⟨lexeme, start, stop⟩ := token
    obtain ⟨position, rest⟩ := left
    simp only at hstart hstop hposition
    rw [hposition, hstop, hstart]

/-- A cursor before blanks and a spelling reads the lexeme that is spelled. -/
theorem next_of_spells (position : Nat) {blanks front rest : List Char} {lexeme : Lexeme}
    (hblank : ∀ c ∈ blanks, Text.isBlank c = true) (hspells : Lexeme.Spells front lexeme rest) :
    next ⟨position, blanks ++ (front ++ rest)⟩ =
      (.ok ⟨lexeme, position + blanks.length, position + blanks.length + front.length⟩,
        ⟨position + blanks.length + front.length, rest⟩) :=
  next_eq_ok_iff.2 ⟨blanks, front, rfl, hblank, hspells, rfl, rfl, rfl⟩

/-! ## Several tokens -/

/-- Reading a number of tokens, none of which is the end of the input, a cursor comes to `left`. -/
inductive Takes : Cursor → List Token → Cursor → Prop where
  | nil {cursor : Cursor} : Takes cursor [] cursor
  | cons {cursor next left : Cursor} {token : Token} {tokens : List Token}
      (hnext : cursor.next = (.ok token, next)) (htoken : token.is .endOfInput = false)
      (htokens : Takes next tokens left) : Takes cursor (token :: tokens) left

theorem Takes.split {others : List Token} (h : cursor.Takes (tokens ++ others) left) :
    ∃ next, cursor.Takes tokens next ∧ next.Takes others left := by
  induction tokens generalizing cursor with
  | nil => exact ⟨cursor, .nil, h⟩
  | cons token tokens ih =>
    cases h with
    | cons hnext htoken htokens =>
      obtain ⟨next, htokens, hothers⟩ := ih htokens
      exact ⟨next, .cons hnext htoken htokens, hothers⟩

/-- Of the tokens that are read each is read somewhere. -/
theorem Takes.exists_next (h : cursor.Takes tokens left) (htoken : token ∈ tokens) :
    ∃ before others next after, tokens = before ++ token :: others ∧
      cursor.Takes before next ∧ next.next = (.ok token, after) ∧ after.Takes others left := by
  obtain ⟨before, others, rfl⟩ := List.append_of_mem htoken
  obtain ⟨next, hbefore, hothers⟩ := h.split
  cases hothers with
  | cons hnext _ hothers => exact ⟨before, others, next, _, rfl, hbefore, hnext, hothers⟩

/-- All tokens of a text are those that can be taken, and then the end of the input. -/
theorem reads_iff :
    cursor.Reads tokens ↔ ∃ taken next stop after, tokens = taken ++ [stop] ∧
      cursor.Takes taken next ∧ next.next = (.ok stop, after) ∧ stop.is .endOfInput = true := by
  constructor
  · intro h
    induction h with
    | stop hnext htoken => exact ⟨[], _, _, _, rfl, .nil, hnext, htoken⟩
    | step hnext htoken _ ih =>
      obtain ⟨taken, next, stop, after, rfl, htaken, hstop⟩ := ih
      exact ⟨_ :: taken, next, stop, after, rfl, .cons hnext htoken htaken, hstop⟩
  · intro h
    rcases h with ⟨taken, next, stop, after, rfl, htaken, hnext, hstop⟩
    induction htaken with
    | nil => exact .stop hnext hstop
    | cons hfirst htoken _ ih => exact .step hfirst htoken (ih hnext)

/-! ## Places in a text -/

/-- The cursor stands in a text, before as many of its characters as it counts. -/
structure Within (cursor : Cursor) (text : List Char) : Prop where
  le : cursor.position ≤ text.length
  rest : cursor.rest = text.drop cursor.position

variable {text blanks front : List Char}

theorem within_ofText (text : String) : (ofText text).Within text.toList := ⟨Nat.zero_le _, rfl⟩

theorem Within.position_add (h : cursor.Within text) :
    cursor.position + cursor.rest.length = text.length := by
  rw [h.rest, List.length_drop]
  have := h.le
  omega

namespace Cuts

theorem position_eq (h : cursor.Cuts blanks front token left) :
    left.position = cursor.position + (blanks.length + front.length) := by
  rw [h.position, h.stop, h.start, Nat.add_assoc]

/-- A cursor that reads a token stays within the text. -/
theorem within (h : cursor.Cuts blanks front token left) (hcursor : cursor.Within text) :
    left.Within text := by
  have hlength := hcursor.position_add
  have hposition := h.position_eq
  have hrest := h.rest
  refine ⟨?_, ?_⟩
  · rw [hrest, List.length_append, List.length_append] at hlength
    omega
  · rw [hposition, ← List.drop_drop, ← hcursor.rest, hrest, ← List.append_assoc,
      ← List.length_append, List.drop_left]

/-- Where a token was read the text holds its spelling. -/
theorem drop_start (h : cursor.Cuts blanks front token left) (hcursor : cursor.Within text) :
    text.drop token.span.start = front ++ left.rest := by
  rw [h.start, ← List.drop_drop, ← hcursor.rest, h.rest, List.drop_left]

theorem slice_eq (h : cursor.Cuts blanks front token left) (hcursor : cursor.Within text) :
    (text.drop token.span.start).take (token.span.stop - token.span.start) = front := by
  rw [h.drop_start hcursor, h.stop, Nat.add_sub_cancel_left, List.take_left]

theorem drop_stop (h : cursor.Cuts blanks front token left) (hcursor : cursor.Within text) :
    text.drop token.span.stop = left.rest := by
  rw [← h.position, (h.within hcursor).rest]

/-- Any token but the end of the input is spelled with characters. -/
theorem front_ne_nil (h : cursor.Cuts blanks front token left)
    (htoken : token.is .endOfInput = false) : front ≠ [] := by
  intro hnil
  simp [Token.is, h.spells.eq_nil_iff.1 hnil] at htoken

theorem start_lt_stop (h : cursor.Cuts blanks front token left)
    (htoken : token.is .endOfInput = false) : token.span.start < token.span.stop := by
  have hlength := List.length_pos_iff.2 (h.front_ne_nil htoken)
  rw [h.stop]
  omega

end Cuts

theorem Takes.within (h : cursor.Takes tokens left) (hcursor : cursor.Within text) :
    left.Within text := by
  induction h with
  | nil => exact hcursor
  | cons hnext _ _ ih =>
    obtain ⟨blanks, front, hcuts⟩ := next_eq_ok_iff.1 hnext
    exact ih (hcuts.within hcursor)

end Cursor

end CondLang
