import CondLang.Proofs.Lexing.Cursor
import CondLang.Token.Stream

/-!
# Nothing of a text is lost

A stream gives out finitely many tokens and then one last answer, the end of the input or an error.
The tokens lie in the text one behind the other, each over the characters that it was written with,
and only blanks are left out (`TokenStream.exists_tiling`).
-/

namespace CondLang

/-! ## What a token is written with -/

/-- What may stand in a condition for a lexeme. -/
def Lexeme.WrittenAs : Lexeme → String → Prop
  | .text .string content _, written =>
      written = "'" ++ content ++ "'" ∨ written = content ∧ Character.isName content.toList = true
  | .text _ content _, written => written = content
  | .symbol (.connective op), written => Text.sameIgnoringAscii written op.symbol = true
  | .symbol .not, written => written = "!" ∨ Text.sameIgnoringAscii written "not" = true
  | .symbol s, written => written = s.shown

namespace Lexeme

theorem writtenAs_ofName {word rest : List Char} (hne : word ≠ [])
    (hword : ∀ c ∈ word, Character.isNameChar c = true) :
    (ofName (.ofList word) rest).WrittenAs (.ofList word) := by
  rcases ofName_cases (.ofList word) rest with ⟨s, hs, heq⟩ | ⟨-, -, heq⟩ | heq <;> rw [heq]
  · rcases keyword?_eq_some hs with ⟨rfl, hand⟩ | ⟨rfl, hor⟩ | ⟨rfl, hnot⟩
    · exact hand
    · exact hor
    · exact .inr hnot
  · rfl
  · refine .inr ⟨rfl, ?_⟩
    simpa [Character.isName, hne] using hword

theorem Spells.writtenAs {front rest : List Char} {lexeme : Lexeme}
    (h : Spells front lexeme rest) (hlexeme : lexeme ≠ .symbol .endOfInput) :
    lexeme.WrittenAs (.ofList front) := by
  cases h with
  | ending => exact absurd rfl hlexeme
  | leftParen | rightParen | comma => rfl
  | relation op hrest => exact String.ofList_toList
  | not => exact .inl rfl
  | name hc hword hrest =>
    refine writtenAs_ofName (List.cons_ne_nil _ _) (List.forall_mem_cons.2 ⟨?_, hword⟩)
    simp [Character.isNameChar, hc]
  | hexadecimal => rfl
  | decimal => rfl
  | reference => rfl
  | @quoted body =>
    refine .inl (String.toList_inj.1 ?_)
    simp

/-! ## Where errors stand -/

variable {taken offset n : Nat} {before text rest : List Char} {expandable : Bool}
  {kind : LexErrorKind}

theorem offset_lt_of_readQuoted (htaken : 0 < taken)
    (h : readQuoted taken before expandable text = .failure kind offset n rest) :
    offset < taken + text.length := by
  fun_induction readQuoted taken before expandable text with
  | case1 =>
    cases h
    exact htaken
  | case2 => cases h
  | case3 taken before expandable c left _ kind' group after hfront ih =>
    have hlt := ih (by omega) h
    have hlength := congrArg List.length (Reference.front_append hfront)
    simp only [List.cons_append, List.length_cons, List.length_append] at hlength ⊢
    omega
  | case4 =>
    cases h
    simp
  | case5 taken before expandable c left _ _ ih =>
    have hlt := ih (by omega) h
    rw [List.length_cons]
    omega

theorem offset_eq_of_numberReading {digits left : List Char} {wellFormed : Bool}
    (h : numberReading digits wellFormed left = .failure kind offset n rest) : offset = 0 := by
  unfold numberReading at h
  split at h
  · cases h
  · cases h
    rfl

theorem offset_eq_of_readNumber (h : readNumber text = .failure kind offset n rest) :
    offset = 0 := by
  unfold readNumber at h
  split at h
  · split at h
    · exact offset_eq_of_numberReading h
    · exact offset_eq_of_numberReading h
  · exact offset_eq_of_numberReading h

theorem offset_eq_of_readReference {reference : ReferenceKind}
    (h : readReference reference text = .failure kind offset n rest) : offset = 0 := by
  unfold readReference at h
  split at h
  · split at h
    · cases h
    · cases h
      rfl
  · cases h
    rfl

/-- An error is about a character of the text. -/
theorem offset_lt_of_read (h : read text = .failure kind offset n rest) :
    offset < text.length := by
  unfold read at h
  split at h
  case h_6 =>
    cases h
    simp
  case h_13 =>
    have hlt := offset_lt_of_readQuoted Nat.one_pos h
    rw [List.length_cons]
    omega
  case h_14 =>
    split at h
    · simp [offset_eq_of_readReference h]
    · split at h
      · simp [offset_eq_of_readNumber h]
      · split at h
        · cases h
        · cases h
          simp
  all_goals cases h

end Lexeme

namespace Cursor

variable {cursor left : Cursor} {token : Token} {tokens : List Token} {text : List Char}

/-- An error is about a character that the cursor has not read yet. -/
theorem position_of_next_eq_error {e : LexError} (h : cursor.next = (.error e, left)) :
    cursor.position ≤ e.position ∧ e.position < cursor.position + cursor.rest.length := by
  simp only [next] at h
  split at h
  · cases h
  · next kind offset taken rest hread =>
    cases h
    have hlt := Lexeme.offset_lt_of_read hread
    have hlength : (cursor.rest.takeWhile Text.isBlank).length +
        (Text.dropBlanks cursor.rest).length = cursor.rest.length := by
      rw [← List.length_append, Text.dropBlanks, List.takeWhile_append_dropWhile]
    simp only [skipBlanks] at hlt ⊢
    omega

/-- In front of a token only blanks were gone over. -/
theorem Cuts.isBlank {blanks front : List Char} (h : cursor.Cuts blanks front token left)
    (hcursor : cursor.Within text) {i : Nat} {c : Char} (hc : text[i]? = some c)
    (hi : cursor.position ≤ i) (hstart : i < token.span.start) : Text.isBlank c = true := by
  obtain ⟨k, rfl⟩ := Nat.exists_eq_add_of_le hi
  have hk : k < blanks.length := by
    have := h.start
    omega
  rw [← List.getElem?_drop, ← hcursor.rest, h.rest, List.getElem?_append_left hk] at hc
  exact h.blank c (List.mem_of_getElem? hc)

theorem Cuts.start_le {blanks front : List Char} (h : cursor.Cuts blanks front token left) :
    cursor.position ≤ token.span.start := by
  rw [h.start]
  omega

namespace Takes

theorem position_le (h : cursor.Takes tokens left) : cursor.position ≤ left.position := by
  induction h with
  | nil => exact Nat.le_refl _
  | cons hnext _ _ ih =>
    obtain ⟨blanks, front, hcuts⟩ := next_eq_ok_iff.1 hnext
    have hposition := hcuts.position_eq
    omega

/-- Tokens lie between the places where the cursor stood before and after. -/
theorem bounds (h : cursor.Takes tokens left) :
    ∀ t ∈ tokens, t.is .endOfInput = false ∧ cursor.position ≤ t.span.start ∧
      t.span.start < t.span.stop ∧ t.span.stop ≤ left.position := by
  induction h with
  | nil => exact nofun
  | cons hnext htoken htokens ih =>
    obtain ⟨blanks, front, hcuts⟩ := next_eq_ok_iff.1 hnext
    have hposition := hcuts.position_eq
    have hle := htokens.position_le
    refine List.forall_mem_cons.2 ⟨⟨htoken, hcuts.start_le, hcuts.start_lt_stop htoken, ?_⟩, ?_⟩
    · rw [← hcuts.position]
      exact hle
    · intro t ht
      obtain ⟨hend, hstart, hstop, hleft⟩ := ih t ht
      exact ⟨hend, by omega, hstop, hleft⟩

/-- Tokens lie one behind the other. -/
theorem pairwise (h : cursor.Takes tokens left) :
    tokens.Pairwise fun a b => a.span.stop ≤ b.span.start := by
  induction h with
  | nil => exact .nil
  | cons hnext htoken htokens ih =>
    obtain ⟨blanks, front, hcuts⟩ := next_eq_ok_iff.1 hnext
    refine .cons (fun t ht => ?_) ih
    rw [← hcuts.position]
    exact (htokens.bounds t ht).2.1

/-- A token is read from what it was written with. -/
theorem writtenAs {source : String} (h : cursor.Takes tokens left)
    (hcursor : cursor.Within source.toList) :
    ∀ t ∈ tokens, t.lexeme.WrittenAs (t.span.slice source) := by
  induction h with
  | nil => exact nofun
  | cons hnext htoken _ ih =>
    obtain ⟨blanks, front, hcuts⟩ := next_eq_ok_iff.1 hnext
    refine List.forall_mem_cons.2 ⟨?_, ih (hcuts.within hcursor)⟩
    rw [Span.slice, hcuts.slice_eq hcursor]
    refine hcuts.spells.writtenAs fun hend => ?_
    simp [Token.is, hend] at htoken

/-- What is in no token is blank. -/
theorem isBlank (h : cursor.Takes tokens left) (hcursor : cursor.Within text) {i : Nat} {c : Char}
    (hc : text[i]? = some c) (hi : cursor.position ≤ i) (hleft : i < left.position)
    (hout : ∀ t ∈ tokens, i < t.span.start ∨ t.span.stop ≤ i) : Text.isBlank c = true := by
  induction h with
  | nil => omega
  | cons hnext _ _ ih =>
    obtain ⟨blanks, front, hcuts⟩ := next_eq_ok_iff.1 hnext
    obtain ⟨hfirst, hothers⟩ := List.forall_mem_cons.1 hout
    rcases hfirst with hstart | hstop
    · exact hcuts.isBlank hcursor hc hi hstart
    · refine ih (hcuts.within hcursor) ?_ hleft hothers
      rw [hcuts.position]
      exact hstop

end Takes

/-- From any cursor on the tokens come to an end, with an error or the end of the input. -/
theorem exists_takes (cursor : Cursor) :
    ∃ tokens left answer after, cursor.Takes tokens left ∧ left.next = (answer, after) ∧
      TokenStream.isLast answer = true := by
  generalize hn : cursor.rest.length = n
  induction n using Nat.strongRecOn generalizing cursor with
  | _ n ih =>
    obtain ⟨answer, after, hnext⟩ : ∃ answer after, cursor.next = (answer, after) := ⟨_, _, rfl⟩
    by_cases hlast : TokenStream.isLast answer = true
    · exact ⟨[], cursor, answer, after, .nil, hnext, hlast⟩
    · cases answer with
      | error e => exact absurd rfl hlast
      | ok token =>
        have htoken : token.is .endOfInput = false := by simpa [TokenStream.isLast] using hlast
        have hlt := length_rest_lt hnext htoken
        obtain ⟨tokens, left, last, stop, htakes, hstop⟩ := ih _ (by omega) after rfl
        exact ⟨token :: tokens, left, last, stop, .cons hnext htoken htakes, hstop⟩

/-- Behind its tokens a text ends with blanks. -/
theorem next_endOfInput {after : Cursor} (h : left.next = (.ok token, after))
    (htoken : token.is .endOfInput = true) (hleft : left.Within text) :
    token = ⟨.symbol .endOfInput, text.length, text.length⟩ := by
  obtain ⟨blanks, front, hcuts⟩ := next_eq_ok_iff.1 h
  have hlexeme : token.lexeme = .symbol .endOfInput := by simpa [Token.is] using htoken
  have hspells := hcuts.spells
  rw [hlexeme] at hspells
  have hfront := hspells.eq_nil_iff.2 rfl
  have hlength := hleft.position_add
  rw [hcuts.rest, hfront, hspells.rest_eq_nil, List.append_nil, List.append_nil] at hlength
  have hstart : token.span.start = text.length := by rw [hcuts.start, hlength]
  have hstop : token.span.stop = text.length := by rw [hcuts.stop, hfront, hstart]; rfl
  obtain ⟨lexeme, start, stop⟩ := token
  cases hlexeme
  cases hstart
  cases hstop
  rfl

end Cursor

namespace TokenStream

variable {cursor left : Cursor} {tokens : List Token} {answer : Except LexError Token}

theorem answer?_of_ended (cursor : Cursor) (n : Nat) : answer? ⟨cursor, true⟩ n = none := by
  induction n with
  | zero => rfl
  | succ n ih => exact ih

/-- A stream gives out the tokens that its cursor takes and then one last answer. -/
theorem answer?_eq_getElem? {after : Cursor} (h : cursor.Takes tokens left)
    (hlast : left.next = (answer, after)) (hanswer : isLast answer = true) (n : Nat) :
    answer? ⟨cursor, false⟩ n = (tokens.map .ok ++ [answer])[n]? := by
  induction h generalizing n with
  | @nil cursor =>
    have hnext : next ⟨cursor, false⟩ = (some answer, ⟨after, true⟩) := by
      simp [next, hlast, hanswer]
    cases n with
    | zero => simp [answer?, TokenStream.after, hnext]
    | succ n =>
      have hended := answer?_of_ended after n
      simpa [answer?, TokenStream.after, hnext] using hended
  | @cons cursor following left token tokens hnext htoken _ ih =>
    have hnext : next ⟨cursor, false⟩ = (some (.ok token), ⟨following, false⟩) := by
      simp [next, hnext, isLast, htoken]
    cases n with
    | zero => simp [answer?, TokenStream.after, hnext]
    | succ n =>
      have hothers := ih hlast n
      simpa [answer?, TokenStream.after, hnext] using hothers

/-- The tokens of a text and the last answer, which is the end of the input or an error, cover the
text but for blanks. -/
structure Tiling (text : String) (tokens : List Token) (last : Except LexError Token) : Prop where
  ending : last = .ok ⟨.symbol .endOfInput, text.length, text.length⟩ ∨
    ∃ e, last = .error e ∧ e.position < text.length ∧ ∀ t ∈ tokens, t.span.stop ≤ e.position
  bounds : ∀ t ∈ tokens, t.is .endOfInput = false ∧ t.span.start < t.span.stop ∧
    t.span.stop ≤ text.length
  ordered : tokens.Pairwise fun a b => a.span.stop ≤ b.span.start
  written : ∀ t ∈ tokens, t.lexeme.WrittenAs (t.span.slice text)
  blank : ∀ i c, text.toList[i]? = some c → (∀ t ∈ tokens, i < t.span.start ∨ t.span.stop ≤ i) →
    ((∀ e, last ≠ .error e) ∨ ∃ t ∈ tokens, i < t.span.start) → Text.isBlank c = true

/-- Asked again and again, the stream of a text gives out tokens, then one last answer and then
nothing.  The last answer is the end of the input behind the last character, or an error about a
character that no token holds.  The tokens take at least a character each and do not overlap; each
is written where it stands, and what is written elsewhere is blank, though behind the last token
only if there was no error. -/
theorem exists_tiling (text : String) :
    ∃ tokens last, (∀ n, (ofText text).answer? n = (tokens.map .ok ++ [last])[n]?) ∧
      Tiling text tokens last := by
  obtain ⟨tokens, left, last, after, htakes, hnext, hlast⟩ := (Cursor.ofText text).exists_takes
  have hstart := Cursor.within_ofText text
  have hleft := htakes.within hstart
  refine ⟨tokens, last, answer?_eq_getElem? htakes hnext hlast, ?_, ?_, htakes.pairwise,
    htakes.writtenAs hstart, ?_⟩
  · cases last with
    | ok token => exact .inl (congrArg _ (Cursor.next_endOfInput hnext hlast hleft))
    | error e =>
      obtain ⟨hle, hlt⟩ := Cursor.position_of_next_eq_error hnext
      rw [hleft.position_add] at hlt
      exact .inr ⟨e, rfl, hlt, fun t ht => (htakes.bounds t ht).2.2.2.trans hle⟩
  · intro t ht
    obtain ⟨hend, -, hlt, hle⟩ := htakes.bounds t ht
    exact ⟨hend, hlt, hle.trans hleft.le⟩
  · intro i c hc hout hwhere
    by_cases hi : i < left.position
    · exact htakes.isBlank hstart hc (Nat.zero_le i) hi hout
    · rcases hwhere with hok | ⟨t, ht, hit⟩
      · cases last with
        | error e => exact absurd rfl (hok e)
        | ok token =>
          obtain ⟨blanks, front, hcuts⟩ := Cursor.next_eq_ok_iff.1 hnext
          have htoken := Cursor.next_endOfInput hnext hlast hleft
          have hlength := (List.getElem?_eq_some_iff.1 hc).1
          refine hcuts.isBlank hleft hc (by omega) ?_
          rw [htoken]
          exact hlength
      · obtain ⟨-, -, hlt, hle⟩ := htakes.bounds t ht
        omega

end TokenStream

end CondLang
