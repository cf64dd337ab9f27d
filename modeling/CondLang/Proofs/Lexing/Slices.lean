import CondLang.Proofs.Grammar.Moved
import CondLang.Proofs.Grammar.Spans
import CondLang.Proofs.Lexing.Tiling

/-!
# Tokens of a slice

The characters from the first of some tokens of a text to the last of them are read as the same
tokens when they stand alone (`Cursor.Takes.allTokens_slice`).  What a token is depends on the text
behind it only for the name of a function, so the last token must not be one.
-/

namespace CondLang

/-- The text from where a span starts on is the slice and what is behind the span. -/
theorem Span.drop_start {span : Span} (h : span.start ≤ span.stop) (text : String) :
    text.toList.drop span.start = (span.slice text).toList ++ text.toList.drop span.stop := by
  have hstop : text.toList.drop span.stop =
      (text.toList.drop span.start).drop (span.stop - span.start) := by
    rw [List.drop_drop, Nat.add_sub_cancel' h]
  rw [slice, String.toList_ofList, hstop, List.take_append_drop]

namespace Cursor

variable {cursor left : Cursor} {tokens : List Token} {token : Token} {text : List Char}

/-- Tokens take characters of the text, which are not all blank. -/
theorem Takes.exists_taken (h : cursor.Takes tokens left) :
    ∃ taken, cursor.rest = taken ++ left.rest ∧
      (tokens ≠ [] → ∃ c ∈ taken, Text.isBlank c = false) := by
  induction h with
  | nil => exact ⟨[], rfl, fun h => absurd rfl h⟩
  | @cons cursor next left token tokens hnext htoken _ ih =>
    obtain ⟨blanks, front, hcuts⟩ := next_eq_ok_iff.1 hnext
    obtain ⟨taken, hrest, -⟩ := ih
    refine ⟨blanks ++ (front ++ taken), by rw [hcuts.rest, hrest]; simp, fun _ => ?_⟩
    obtain ⟨c, tail, rfl⟩ := List.exists_cons_of_ne_nil (hcuts.front_ne_nil htoken)
    exact ⟨c, by simp, hcuts.spells.not_isBlank_head c rfl⟩

/-- Tokens that are read lie one behind the other. -/
theorem Takes.ordered (h : cursor.Takes tokens left) : Token.Ordered tokens :=
  ⟨h.pairwise, fun t ht => Nat.le_of_lt (h.bounds t ht).2.2.1⟩

/-- Behind tokens the cursor stands where the last of them ends. -/
theorem Takes.position_eq (h : cursor.Takes tokens left) :
    ∀ t ∈ tokens.getLast?, left.position = t.span.stop := by
  induction h with
  | nil => exact nofun
  | @cons cursor next left token tokens hnext _ htokens ih =>
    intro t ht
    cases htokens with
    | nil =>
      cases ht
      obtain ⟨blanks, front, hcuts⟩ := next_eq_ok_iff.1 hnext
      exact hcuts.position
    | cons => exact ih t (by rwa [List.getLast?_cons_cons] at ht)

/-- Tokens are read from where the first of them starts. -/
theorem Takes.of_start (h : cursor.Takes (token :: tokens) left) (hcursor : cursor.Within text) :
    Takes ⟨token.span.start, text.drop token.span.start⟩ (token :: tokens) left := by
  cases h with
  | cons hnext htoken htokens =>
    obtain ⟨blanks, front, hcuts⟩ := next_eq_ok_iff.1 hnext
    refine .cons (next_eq_ok_iff.2 ⟨[], front, ?_⟩) htoken htokens
    exact ⟨hcuts.drop_start hcursor, nofun, hcuts.spells, rfl, hcuts.stop, hcuts.position⟩

/-- Tokens are read in the same way if the text ends behind them, and wherever it starts. -/
theorem Takes.truncate (h : cursor.Takes tokens left) {taken : List Char}
    (hrest : cursor.rest = taken ++ left.rest)
    (hlast : ∀ t ∈ tokens.getLast?, t.lexeme.kind ≠ .text .function) {position offset : Nat}
    (hposition : cursor.position = position + offset) :
    ∃ again, Takes ⟨position, taken⟩ again ⟨position + taken.length, []⟩ ∧
      again.map (·.mapSpan (Span.moved offset)) = tokens := by
  induction h generalizing taken position with
  | nil =>
    obtain rfl : taken = [] := by simpa using hrest
    exact ⟨[], .nil, rfl⟩
  | @cons cursor next left token tokens hnext htoken htokens ih =>
    obtain ⟨blanks, front, hcuts⟩ := next_eq_ok_iff.1 hnext
    obtain ⟨behind, hbehind, hblank⟩ := htokens.exists_taken
    -- Behind this token only what the others take is kept of the text.
    have htaken : taken = blanks ++ (front ++ behind) := by
      refine (List.append_left_inj left.rest).1 ?_
      rw [← hrest, hcuts.rest, hbehind]
      simp
    have hspells : Lexeme.Spells front token.lexeme behind := by
      have hspells := hcuts.spells
      rw [hbehind] at hspells
      refine hspells.truncate fun hfunction => hblank fun hnil => ?_
      subst hnil
      exact hlast token rfl hfunction
    subst htaken
    have hnext' : next.position = position + blanks.length + front.length + offset := by
      rw [hcuts.position_eq, hposition]
      omega
    have hlast' : ∀ t ∈ tokens.getLast?, t.lexeme.kind ≠ .text .function := by
      intro t ht
      refine hlast t ?_
      rw [List.getLast?_cons, Option.mem_def.1 ht]
      rfl
    obtain ⟨again, htakes, rfl⟩ := ih hbehind hlast' hnext'
    have hlength : position + blanks.length + front.length + behind.length =
        position + (blanks ++ (front ++ behind)).length := by
      rw [List.length_append, List.length_append]
      omega
    rw [hlength] at htakes
    refine ⟨_, .cons (next_of_spells position hcuts.blank hspells) htoken htakes, ?_⟩
    have hstart : token.span.start = position + blanks.length + offset := by
      rw [hcuts.start, hposition]
      omega
    have hstop : token.span.stop = position + blanks.length + front.length + offset := by
      rw [hcuts.stop, hstart]
      omega
    rw [List.map_cons, Token.mapSpan, Span.moved, ← hstart, ← hstop]

/-- The tokens of the slice that tokens cover are these tokens, moved to its start. -/
theorem Takes.allTokens_slice {source : String} (h : cursor.Takes tokens left)
    (hcursor : cursor.Within source.toList) {span : Span} (hspan : span.Covers tokens)
    (hlast : ∀ t ∈ tokens.getLast?, t.lexeme.kind ≠ .text .function) :
    ∃ again stop, stop.is .endOfInput = true ∧
      Command.allTokens (span.slice source) = .ok (again ++ [stop]) ∧
      again.map (·.mapSpan (Span.moved span.start)) = tokens := by
  obtain ⟨first, hfirst, hstart⟩ := hspan.first
  obtain ⟨last, hmem, hstop⟩ := hspan.last
  obtain ⟨others, rfl⟩ := List.head?_eq_some_iff.1 hfirst
  have hposition := (h.position_eq last hmem).trans hstop
  have hslice : source.toList.drop span.start = (span.slice source).toList ++ left.rest := by
    have hbounds := (h.bounds first List.mem_cons_self).2
    rw [(h.within hcursor).rest, hposition, Span.drop_start (by omega)]
  have hplace := h.of_start hcursor
  rw [hstart] at hplace
  obtain ⟨again, htakes, hagain⟩ := hplace.truncate hslice hlast (Nat.zero_add _).symm
  have hend : ∀ n, Cursor.next ⟨n, []⟩ = (.ok ⟨.symbol .endOfInput, n, n⟩, ⟨n, []⟩) := fun _ => rfl
  have hreads := reads_iff.2 ⟨again, _, _, _, rfl, htakes, hend _, rfl⟩
  exact ⟨again, _, rfl, Command.allTokens_eq_ok_iff.2 hreads, hagain⟩

end Cursor

end CondLang
