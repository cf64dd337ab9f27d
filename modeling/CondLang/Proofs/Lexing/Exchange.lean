import CondLang.Proofs.Lexing.Slices

/-!
# Changing a text behind its tokens

Tokens are read in the same way if what stands behind them is exchanged for something else, as long
as no lexeme goes on into that (`Cursor.Takes.exchange`), and if the text in front of them grows
(`Cursor.Reads.moved`).  What a token is depends on more than the next character only for a name,
which is that of a function if the next character that is no blank is a parenthesis.
-/

namespace CondLang

namespace Lexeme

/-- No lexeme goes on into a text. -/
def Separates (rest : List Char) : Prop :=
  ∀ c ∈ rest.head?, c ≠ '=' ∧ Character.isNameChar c = false ∧ Character.isHexDigit c = false ∧
    isDecimalChar c = false

/-- Whether a name before the text is the name of a function. -/
def OpensCall (rest : List Char) : Prop := (Text.dropBlanks rest).head? = some '('

variable {front behind rest rest' : List Char} {lexeme : Lexeme}

/-- Whether a lexeme goes on into a text is decided by the first character. -/
theorem separates_cons {c : Char} (hc : c ≠ '=' ∧ Character.isNameChar c = false ∧
    Character.isHexDigit c = false ∧ isDecimalChar c = false) (rest : List Char) :
    Separates (c :: rest) := by
  rintro d ⟨⟩
  exact hc

/-- The first character of a text whose end is exchanged is one of the text or of the new end. -/
theorem forall_head?_exchange {p : Char → Prop} (h : ∀ c ∈ (behind ++ rest).head?, p c)
    (hrest : ∀ c ∈ rest'.head?, p c) : ∀ c ∈ (behind ++ rest').head?, p c := by
  cases behind with
  | nil => exact hrest
  | cons c behind => exact h

theorem opensCall_exchange (h : OpensCall rest ↔ OpensCall rest') :
    OpensCall (behind ++ rest) ↔ OpensCall (behind ++ rest') := by
  unfold OpensCall Text.dropBlanks at h ⊢
  rw [List.dropWhile_append, List.dropWhile_append]
  split
  · exact h
  · next hrest =>
    rw [List.isEmpty_iff] at hrest
    obtain ⟨c, others, heq⟩ := List.exists_cons_of_ne_nil hrest
    rw [heq]
    exact Iff.rfl

/-- Behind a character that is no blank nothing matters to a name in front of it. -/
theorem opensCall_append (hbehind : ∃ c ∈ behind, Text.isBlank c = false) (rest rest' : List Char) :
    OpensCall (behind ++ rest) ↔ OpensCall (behind ++ rest') := by
  obtain ⟨d, hd⟩ := exists_head?_dropBlanks hbehind
  rw [OpensCall, OpensCall, head?_dropBlanks_append hd, head?_dropBlanks_append hd]

/-- A name that is read as a lexeme is still read as it if the text behind is exchanged. -/
def Keeps (lexeme : Lexeme) (rest rest' : List Char) : Prop :=
  ∀ name, ofName name rest = lexeme → ofName name rest' = lexeme

theorem keeps_of_iff (lexeme : Lexeme) (h : OpensCall rest ↔ OpensCall rest') :
    lexeme.Keeps rest rest' := by
  have hparen : (Text.dropBlanks rest).head? = some '(' ↔
      (Text.dropBlanks rest').head? = some '(' := h
  intro name hname
  simpa only [ofName, hparen] using hname

/-- A keyword is one whatever is behind. -/
theorem keeps_symbol (s : Symbol) (rest rest' : List Char) :
    (Lexeme.symbol s).Keeps rest rest' := by
  intro name hname
  rcases ofName_cases name rest with ⟨s', hword, heq⟩ | ⟨-, -, heq⟩ | heq <;> rw [hname] at heq <;>
    cases heq
  rw [ofName, hword]

/-- A name that is not that of a function need only not become one. -/
theorem keeps_of_not_opensCall (hlexeme : lexeme.kind ≠ .text .function)
    (hrest : ¬OpensCall rest') (rest : List Char) : lexeme.Keeps rest rest' := by
  rintro name rfl
  rcases ofName_cases name rest' with ⟨s, hword, heq⟩ | ⟨-, hparen, -⟩ | heq
  · rw [ofName, ofName, hword]
  · exact absurd hparen hrest
  · rw [heq]
    rcases ofName_cases name rest with ⟨s, hword, -⟩ | ⟨-, -, hfunction⟩ | hstring
    · rw [ofName, hword] at heq
      cases heq
    · rw [hfunction] at hlexeme
      exact absurd rfl hlexeme
    · exact hstring.symm

/-- A spelling is one if the end of the text behind it is exchanged. -/
theorem Spells.exchange (h : Spells front lexeme (behind ++ rest))
    (hlexeme : lexeme ≠ .symbol .endOfInput) (hseparates : Separates rest')
    (hkeeps : lexeme.Keeps (behind ++ rest) (behind ++ rest')) :
    Spells front lexeme (behind ++ rest') := by
  have hequals (hne : (behind ++ rest).head? ≠ some '=') : (behind ++ rest').head? ≠ some '=' := by
    have hfirst : ∀ c ∈ (behind ++ rest).head?, c ≠ '=' := by
      rintro c hc rfl
      exact hne hc
    have hnew := forall_head?_exchange hfirst fun c hc => (hseparates c hc).1
    exact fun hhead => hnew '=' hhead rfl
  generalize hall : behind ++ rest = all at h
  cases h with
  | ending => exact absurd rfl hlexeme
  | leftParen => exact .leftParen
  | rightParen => exact .rightParen
  | comma => exact .comma
  | relation op hrest =>
    subst hall
    exact .relation op fun hop => hequals (hrest hop)
  | not hrest =>
    subst hall
    exact .not (hequals hrest)
  | name hc hword hrest =>
    subst hall
    rw [← hkeeps _ rfl]
    exact .name hc hword (forall_head?_exchange hrest fun c hc => (hseparates c hc).2.1)
  | hexadecimal hx hne hdigits hrest =>
    subst hall
    exact .hexadecimal hx hne hdigits
      (forall_head?_exchange hrest fun c hc => (hseparates c hc).2.2.1)
  | decimal hsign hdigits hany hrest hzero =>
    subst hall
    refine .decimal hsign hdigits hany
      (forall_head?_exchange hrest fun c hc => (hseparates c hc).2.2.2) fun hfront => ?_
    refine forall_head?_exchange (hzero hfront) fun c hc => ?_
    -- A character that goes on in no name is no `x`.
    have hname := (hseparates c hc).2.1
    constructor
    · rintro rfl
      revert hname
      decide
    · rintro rfl
      revert hname
      decide
  | reference hgroup => exact .reference hgroup
  | quoted hbody => exact .quoted hbody

end Lexeme

namespace Cursor

open Lexeme (Separates OpensCall)

variable {cursor left : Cursor} {token : Token} {tokens : List Token} {rest rest' : List Char}

/-- Tokens are read in the same way if the text is exchanged from some place behind them on. -/
theorem Takes.exchange (h : cursor.Takes tokens left) {gap taken : List Char}
    (hleft : left.rest = gap ++ rest) (hrest : cursor.rest = taken ++ rest)
    (hseparates : Separates rest')
    (hlast : ∀ t ∈ tokens.getLast?, t.lexeme.Keeps (gap ++ rest) (gap ++ rest')) :
    Takes ⟨cursor.position, taken ++ rest'⟩ tokens ⟨left.position, gap ++ rest'⟩ := by
  induction h generalizing taken with
  | nil =>
    rw [hleft] at hrest
    rw [List.append_cancel_right hrest]
    exact .nil
  | @cons cursor following left token tokens hnext htoken htokens ih =>
    obtain ⟨blanks, front, hcuts⟩ := next_eq_ok_iff.1 hnext
    obtain ⟨behind, hbehind, hblank⟩ := htokens.exists_taken
    have hkeeps : token.lexeme.Keeps (behind ++ gap ++ rest) (behind ++ gap ++ rest') := by
      rw [List.append_assoc, List.append_assoc]
      cases htokens with
      | nil =>
        obtain rfl : behind = [] := by simpa using hbehind
        exact hlast token rfl
      | cons => exact Lexeme.keeps_of_iff _ (Lexeme.opensCall_append (hblank nofun) _ _)
    rw [hleft, ← List.append_assoc] at hbehind
    have htaken : taken = blanks ++ (front ++ (behind ++ gap)) := by
      refine (List.append_left_inj rest).1 ?_
      rw [← hrest, hcuts.rest, hbehind]
      simp only [List.append_assoc]
    have hlexeme : token.lexeme ≠ .symbol .endOfInput := by
      simpa [Token.is] using htoken
    have hspells := hcuts.spells
    rw [hbehind] at hspells
    have hagain : next ⟨cursor.position, blanks ++ (front ++ (behind ++ gap ++ rest'))⟩ =
        (.ok token, ⟨following.position, behind ++ gap ++ rest'⟩) :=
      next_eq_ok_iff.2 ⟨blanks, front, rfl, hcuts.blank,
        hspells.exchange hlexeme hseparates hkeeps, hcuts.start, hcuts.stop, hcuts.position⟩
    rw [htaken, List.append_assoc, List.append_assoc]
    refine .cons hagain htoken (ih hleft hbehind fun t ht => hlast t ?_)
    rw [List.getLast?_cons, Option.mem_def.1 ht]
    rfl

/-- A token is read in the same way wherever the text starts. -/
theorem next_moved (offset : Nat) (h : cursor.next = (.ok token, left)) :
    next ⟨cursor.position + offset, cursor.rest⟩ =
      (.ok (token.mapSpan (Span.moved offset)), ⟨left.position + offset, left.rest⟩) := by
  obtain ⟨blanks, front, hcuts⟩ := next_eq_ok_iff.1 h
  have hstart := hcuts.start
  have hstop := hcuts.stop
  refine next_eq_ok_iff.2 ⟨blanks, front, hcuts.rest, hcuts.blank, hcuts.spells, ?_, ?_, ?_⟩
  · show token.span.start + offset = cursor.position + offset + blanks.length
    omega
  · show token.span.stop + offset = token.span.start + offset + front.length
    omega
  · show left.position + offset = token.span.stop + offset
    rw [hcuts.position]

theorem Reads.moved (offset : Nat) (h : cursor.Reads tokens) :
    Reads ⟨cursor.position + offset, cursor.rest⟩
      (tokens.map (·.mapSpan (Span.moved offset))) := by
  induction h with
  | stop hnext htoken => exact .stop (next_moved offset hnext) htoken
  | step hnext htoken _ ih => exact .step (next_moved offset hnext) htoken ih

/-! ## All tokens of a text in parts -/

theorem Reads.split {others : List Token} (hne : others ≠ [])
    (h : cursor.Reads (tokens ++ others)) :
    ∃ following, cursor.Takes tokens following ∧ following.Reads others := by
  induction tokens generalizing cursor with
  | nil => exact ⟨cursor, .nil, h⟩
  | cons token tokens ih =>
    generalize hall : (token :: tokens) ++ others = all at h
    cases h with
    | stop hnext htoken => simp [hne] at hall
    | step hnext htoken hleft =>
      cases hall
      obtain ⟨following, htakes, hreads⟩ := ih hleft
      exact ⟨following, .cons hnext htoken htakes, hreads⟩

/-- A token is read where those in front of it end, and those behind it from where it ends. -/
theorem Reads.exists_cuts {others : List Token} (h : cursor.Reads (tokens ++ token :: others))
    (htoken : token.is .endOfInput = false) :
    ∃ before blanks front after, cursor.Takes tokens before ∧
      before.Cuts blanks front token after ∧ after.Reads others := by
  obtain ⟨before, htakes, hreads⟩ := h.split (List.cons_ne_nil token others)
  cases hreads with
  | stop _ hend =>
    rw [htoken] at hend
    cases hend
  | step hnext _ hothers =>
    obtain ⟨blanks, front, hcuts⟩ := next_eq_ok_iff.1 hnext
    exact ⟨before, blanks, front, _, htakes, hcuts, hothers⟩

theorem Takes.append {others : List Token} (h : cursor.Takes tokens left)
    (hleft : left.Reads others) : cursor.Reads (tokens ++ others) := by
  induction h with
  | nil => exact hleft
  | cons hnext htoken _ ih => exact .step hnext htoken (ih hleft)

/-- No token stands in front of where the cursor was. -/
theorem Reads.bounds (h : cursor.Reads tokens) :
    ∀ t ∈ tokens, cursor.position ≤ t.span.start ∧ t.span.start ≤ t.span.stop := by
  induction h with
  | stop hnext _ =>
    obtain ⟨blanks, front, hcuts⟩ := next_eq_ok_iff.1 hnext
    have hstop := hcuts.stop
    exact List.forall_mem_singleton.2 ⟨hcuts.start_le, by omega⟩
  | step hnext _ _ ih =>
    obtain ⟨blanks, front, hcuts⟩ := next_eq_ok_iff.1 hnext
    have hstart := hcuts.start
    have hstop := hcuts.stop
    have hposition := hcuts.position
    refine List.forall_mem_cons.2 ⟨⟨hcuts.start_le, by omega⟩, fun t ht => ?_⟩
    obtain ⟨hle, hspan⟩ := ih t ht
    exact ⟨by omega, hspan⟩

end Cursor

/-! ## Comparisons -/

namespace Lexeme

variable {left right : String} {l r : Lexeme}

/-- A relation makes a name in front of it no name of a function. -/
theorem not_opensCall_relation (op : Relation) (rest : List Char) :
    ¬OpensCall (' ' :: (op.symbol.toList ++ rest)) := by
  have hspace : Text.isBlank ' ' = true := by decide
  obtain ⟨c, tail, hsymbol, hblank, hparen⟩ : ∃ c tail, op.symbol.toList = c :: tail ∧
      Text.isBlank c = false ∧ c ≠ '(' := by
    cases op <;> exact ⟨_, _, rfl, by decide, by decide⟩
  simp [OpensCall, Text.dropBlanks, hspace, hsymbol, hblank, hparen]

/-- A spelling that may end a text may stand in front of a relation. -/
theorem Spells.before_relation (h : Spells left.toList l []) (hl : l ≠ .symbol .endOfInput)
    (op : Relation) (rest : List Char) :
    Spells left.toList l (' ' :: (op.symbol.toList ++ rest)) := by
  have hempty : Spells left.toList l ([] ++ []) := h
  exact hempty.exchange hl (separates_cons (by decide) _)
    (keeps_of_iff l (iff_of_false nofun (not_opensCall_relation op rest)))

/-- The tokens of a comparison. -/
theorem allTokens_comparison (op : Relation)
    (hleft : Spells left.toList l (' ' :: (op.symbol.toList ++ ' ' :: right.toList)))
    (hl : l ≠ .symbol .endOfInput) (hright : Spells right.toList r [])
    (hr : r ≠ .symbol .endOfInput) :
    ∃ first sign second stop, Command.allTokens (left ++ " " ++ op.symbol ++ " " ++ right) =
      .ok [⟨l, first⟩, ⟨.symbol (.relation op), sign⟩, ⟨r, second⟩,
        ⟨.symbol .endOfInput, stop⟩] := by
  have hspace : ∀ c ∈ [' '], Text.isBlank c = true := List.forall_mem_singleton.2 (by decide)
  have htoken : ∀ {lexeme : Lexeme} (span : Span), lexeme ≠ .symbol .endOfInput →
      (⟨lexeme, span⟩ : Token).is .endOfInput = false := by
    intro lexeme span hlexeme
    simpa [Token.is] using hlexeme
  have hcursor : Cursor.ofText (left ++ " " ++ op.symbol ++ " " ++ right) =
      ⟨0, [] ++ (left.toList ++ ' ' :: (op.symbol.toList ++ ' ' :: right.toList))⟩ := by
    simp [Cursor.ofText]
  have hfirst := Cursor.next_of_spells 0 (fun _ h => absurd h List.not_mem_nil) hleft
  have hsign (n : Nat) : Cursor.next ⟨n, [' '] ++ (op.symbol.toList ++ ' ' :: right.toList)⟩ = _ :=
    Cursor.next_of_spells n hspace (.relation op fun _ => by simp)
  have hsecond (n : Nat) : Cursor.next ⟨n, [' '] ++ (right.toList ++ [])⟩ = _ :=
    Cursor.next_of_spells n hspace hright
  have hstop (n : Nat) : Cursor.next ⟨n, []⟩ = (.ok ⟨.symbol .endOfInput, n, n⟩, ⟨n, []⟩) := rfl
  rw [List.append_nil] at hsecond
  have hreads := Cursor.Reads.step hfirst (htoken _ hl)
    (.step (hsign _) rfl (.step (hsecond _) (htoken _ hr) (.stop (hstop _) rfl)))
  rw [← hcursor] at hreads
  exact ⟨_, _, _, _, Command.allTokens_eq_ok_iff.2 hreads⟩

end Lexeme

end CondLang
