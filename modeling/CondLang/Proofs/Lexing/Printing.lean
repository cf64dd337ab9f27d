import CondLang.Proofs.Lexing.Tiling

/-!
# Printed tokens are read again

The tokens of a text, written with a space between them, are read as the same lexemes again
(`Command.allTokens_print`).  Only a quoted string is printed in the way it was written; a bare one
gets quotes, which is right because no reference starts in it, and keywords are printed in one way.
A space ends every lexeme, and the name of a function is followed by its parenthesis in print if it
was in the text.
-/

namespace CondLang

/-- Tokens as they could be written in a condition, with a space between them.  The end of the input
is not written. -/
def Token.print (tokens : List Token) : String :=
  " ".intercalate
    ((tokens.filter fun token => !token.is .endOfInput).map fun token => token.lexeme.shown)

namespace Lexeme

variable {front rest after : List Char} {lexeme : Lexeme}

/-! ## Names in quotes -/

/-- A name may stand in quotes and needs no expansion there. -/
theorem quotable_name {word : List Char} (h : ∀ c ∈ word, Character.isNameChar c = true) :
    Quotable word ∧ (Expansion.pieces word).any Piece.expandable = false := by
  induction word with
  | nil => exact ⟨.nil, by rw [Expansion.pieces_nil]; rfl⟩
  | cons c word ih =>
    obtain ⟨hc, hword⟩ := List.forall_mem_cons.1 h
    obtain ⟨hquotable, hplain⟩ := ih hword
    have hsigil := Character.ofSigil?_of_isNameChar hc
    have hopening : Reference.opening? (c :: word) = none :=
      Reference.opening?_cons_eq_none_iff.2 fun _ => hsigil
    have hquote : c ≠ '\'' := by rintro rfl; revert hc; decide
    have hpercent : c ≠ '%' := by rintro rfl; cases hsigil
    refine ⟨.literal hquote hopening hquotable, ?_⟩
    rw [Expansion.pieces_literal hopening, List.any_cons, hplain]
    simpa [Piece.expandable] using hpercent

/-! ## Printed lexemes -/

/-- What is printed for a name is read as what the name was, in front of a space and, if it was the
name of a function, of a parenthesis. -/
theorem spells_shown_ofName {c : Char} {word : List Char}
    (hc : Character.isNameStart c = true) (hword : ∀ d ∈ word, Character.isNameChar d = true)
    (hafter : ∀ d ∈ after.head?, d = ' ')
    (hfunction : (ofName (.ofList (c :: word)) rest).kind = .text .function →
      (Text.dropBlanks after).head? = some '(') :
    Spells (ofName (.ofList (c :: word)) rest).shown.toList (ofName (.ofList (c :: word)) rest)
      after := by
  have hspace (d : Char) (hd : d ∈ after.head?) : Character.isNameChar d = false := by
    rw [hafter d hd]
    decide
  rcases ofName_cases (.ofList (c :: word)) rest with
    ⟨s, hkeyword, heq⟩ | ⟨hkeyword, -, heq⟩ | heq <;> rw [heq] at hfunction ⊢
  · rcases keyword?_eq_some hkeyword with ⟨rfl, -⟩ | ⟨rfl, -⟩ | ⟨rfl, -⟩
    · exact @Spells.name 'a' ['n', 'd'] after rfl (List.all_eq_true.1 rfl) hspace
    · exact @Spells.name 'o' ['r'] after rfl (List.all_eq_true.1 rfl) hspace
    · refine .not fun hhead => ?_
      have hequals := hafter _ hhead
      revert hequals
      decide
  · have hname : ofName (.ofList (c :: word)) after =
        .text .function (.ofList (c :: word)) false := by
      simp only [ofName, hkeyword, hfunction rfl, if_true]
    have hspells := Spells.name hc hword hspace
    rw [hname] at hspells
    rwa [shown, String.toList_ofList]
    nofun
  · have hall : ∀ d ∈ c :: word, Character.isNameChar d = true :=
      List.forall_mem_cons.2 ⟨by simp [Character.isNameChar, hc], hword⟩
    obtain ⟨hquotable, hplain⟩ := quotable_name hall
    have hquoted : Spells ('\'' :: (c :: word ++ ['\''])) _ after := .quoted hquotable
    rw [hplain] at hquoted
    simpa [shown] using hquoted

/-- What is printed for a lexeme is read as the lexeme in front of a space. -/
theorem Spells.shown (h : Spells front lexeme rest) (hlexeme : lexeme ≠ .symbol .endOfInput)
    (hafter : ∀ d ∈ after.head?, d = ' ')
    (hfunction : lexeme.kind = .text .function → (Text.dropBlanks after).head? = some '(') :
    Spells lexeme.shown.toList lexeme after := by
  have hequals : after.head? ≠ some '=' := fun hhead => by
    have hspace := hafter _ hhead
    revert hspace
    decide
  cases h with
  | ending => exact absurd rfl hlexeme
  | leftParen => exact .leftParen
  | rightParen => exact .rightParen
  | comma => exact .comma
  | relation op hrest => exact .relation op fun _ => hequals
  | not hrest => exact .not hequals
  | name hc hword hrest => exact spells_shown_ofName hc hword hafter hfunction
  | hexadecimal hx hne hdigits hrest =>
    simp only [Lexeme.shown, String.toList_ofList]
    refine .hexadecimal hx hne hdigits fun d hd => ?_
    rw [hafter d hd]
    decide
  | decimal hsign hdigits hany hrest hzero =>
    simp only [Lexeme.shown, String.toList_ofList]
    refine .decimal hsign hdigits hany (fun d hd => ?_) fun _ d hd => ?_
    · rw [hafter d hd]
      decide
    · rw [hafter d hd]
      decide
  | reference hgroup =>
    simp only [Lexeme.shown, String.toList_ofList]
    exact .reference hgroup
  | @quoted body rest hbody =>
    have hquoted : Spells ('\'' :: (body ++ ['\''])) _ after := .quoted hbody
    simpa [Lexeme.shown] using hquoted

/-- The name of a function stands before a parenthesis. -/
theorem Spells.head?_of_function (h : Spells front lexeme rest)
    (hlexeme : lexeme.kind = .text .function) : (Text.dropBlanks rest).head? = some '(' := by
  cases h with
  | @name c word _ _ _ _ =>
    rcases ofName_cases (.ofList (c :: word)) rest with ⟨s, -, heq⟩ | ⟨-, hparen, -⟩ | heq
    · rw [heq] at hlexeme
      cases hlexeme
    · exact hparen
    · rw [heq] at hlexeme
      cases hlexeme
  | _ => cases hlexeme

end Lexeme

namespace Cursor

variable {cursor left after : Cursor} {tokens : List Token} {stop : Token}

/-- The characters of tokens in print. -/
def printed (tokens : List Token) : List Char :=
  [' '].intercalate (tokens.map (·.lexeme.shown.toList))

/-- Behind a token in print there is a space and the others, or nothing. -/
theorem exists_printed_cons (token : Token) (tokens : List Token) :
    ∃ gap, printed (token :: tokens) = token.lexeme.shown.toList ++ (gap ++ printed tokens) ∧
      (∀ c ∈ gap, c = ' ') ∧ ∀ c ∈ (gap ++ printed tokens).head?, c = ' ' := by
  cases tokens with
  | nil => exact ⟨[], by simp [printed], nofun, nofun⟩
  | cons next tokens => exact ⟨[' '], by simp [printed], by simp, by simp⟩

theorem isBlank_of_space {gap : List Char} (hgap : ∀ c ∈ gap, c = ' ') :
    ∀ c ∈ gap, Text.isBlank c = true := by
  intro c hc
  rw [hgap c hc]
  decide

/-- A parenthesis that comes next is the first token, and the first that is printed. -/
theorem head?_printed (h : cursor.Takes tokens left)
    (hstop : left.next = (.ok stop, after)) (hend : stop.is .endOfInput = true)
    (hparen : (Text.dropBlanks cursor.rest).head? = some '(') :
    ∃ others, printed tokens = '(' :: others := by
  obtain ⟨rest, hrest⟩ := List.head?_eq_some_iff.1 hparen
  have hnext : ∃ span next, cursor.next = (.ok ⟨.symbol .leftParen, span⟩, next) :=
    ⟨_, _, by rw [next, skipBlanks, hrest]; rfl⟩
  obtain ⟨span, next, hnext⟩ := hnext
  cases h with
  | nil =>
    rw [hnext] at hstop
    cases hstop
    cases hend
  | @cons _ _ _ token tokens hfirst htoken htokens =>
    rw [hnext] at hfirst
    cases hfirst
    obtain ⟨gap, hprinted, -⟩ := exists_printed_cons ⟨.symbol .leftParen, span⟩ tokens
    exact ⟨gap ++ printed tokens, by simpa [Lexeme.shown, Symbol.shown] using hprinted⟩

/-- Tokens that were read up to the end of the input are read again as they are printed, wherever
they stand. -/
theorem reads_printed (h : cursor.Takes tokens left)
    (hstop : left.next = (.ok stop, after)) (hend : stop.is .endOfInput = true) (position : Nat)
    (gap : List Char) (hgap : ∀ c ∈ gap, c = ' ') :
    ∃ again, Reads ⟨position, gap ++ printed tokens⟩ again ∧
      again.map Token.lexeme = (tokens ++ [stop]).map Token.lexeme := by
  -- The gap in front is arbitrary, because each token but the first has a space in front.
  induction h generalizing position gap with
  | nil =>
    have hlexeme : stop.lexeme = .symbol .endOfInput := by simpa [Token.is] using hend
    have hnext : Cursor.next ⟨position, gap ++ printed []⟩ = _ :=
      next_of_spells position (isBlank_of_space hgap) .ending
    exact ⟨_, .stop hnext rfl, by simp [hlexeme]⟩
  | @cons cursor next left token tokens hnext htoken htokens ih =>
    obtain ⟨blanks, front, hcuts⟩ := next_eq_ok_iff.1 hnext
    obtain ⟨gap', hprinted, hgap', hafter⟩ := exists_printed_cons token tokens
    have hlexeme : token.lexeme ≠ .symbol .endOfInput := by simpa [Token.is] using htoken
    have hspells : Lexeme.Spells token.lexeme.shown.toList token.lexeme
        (gap' ++ printed tokens) := by
      refine hcuts.spells.shown hlexeme hafter fun hfunction => ?_
      have hparen := hcuts.spells.head?_of_function hfunction
      obtain ⟨others, hothers⟩ := head?_printed htokens hstop hend hparen
      rw [hothers, Text.dropBlanks, List.dropWhile_append_of_pos (isBlank_of_space hgap')]
      rfl
    obtain ⟨again, hreads, hsame⟩ := ih hstop _ gap' hgap'
    rw [hprinted]
    have hagain := next_of_spells position (isBlank_of_space hgap) hspells
    exact ⟨_, .step hagain htoken hreads, by simp [hsame]⟩

end Cursor

namespace Command

/-- If all tokens of a text can be read, they can be read again from what is printed for them, and
are the same but for where they stand. -/
theorem allTokens_print {text : String} {tokens : List Token}
    (h : allTokens text = .ok tokens) :
    (allTokens (Token.print tokens)).map (·.map Token.lexeme) =
      .ok (tokens.map Token.lexeme) := by
  obtain ⟨taken, left, stop, after, rfl, htakes, hstop, hend⟩ :=
    Cursor.reads_iff.1 (allTokens_eq_ok_iff.1 h)
  have hfilter : (taken ++ [stop]).filter (fun token => !token.is .endOfInput) = taken := by
    rw [List.filter_append, List.filter_eq_self.2 fun t ht => by simp [(htakes.bounds t ht).1]]
    simp [hend]
  have hprint : (Token.print (taken ++ [stop])).toList = Cursor.printed taken := by
    rw [Token.print, hfilter, String.toList_intercalate, List.map_map]
    rfl
  obtain ⟨again, hreads, hsame⟩ := Cursor.reads_printed htakes hstop hend 0 [] nofun
  rw [List.nil_append, ← hprint] at hreads
  rw [allTokens_eq_ok_iff.2 hreads]
  exact congrArg _ hsame

/-- A call, a keyword in capitals and a list whose transform has quotes within quotes, with hardly
any blanks. -/
def denseText : String := "not Is(A)AND'@(S->'%(F)')'<=-1"

/-- The tokens of `denseText`. -/
def denseTokens : List Token :=
  [⟨.symbol .not, 0, 3⟩, ⟨.text .function "Is" false, 4, 6⟩, ⟨.symbol .leftParen, 6, 7⟩,
    ⟨.text .string "A" false, 7, 8⟩, ⟨.symbol .rightParen, 8, 9⟩,
    ⟨.symbol (.connective .and), 9, 12⟩, ⟨.text .string "@(S->'%(F)')" true, 12, 26⟩,
    ⟨.symbol (.relation .lessOrEqual), 26, 28⟩, ⟨.text .number "-1" false, 28, 30⟩,
    ⟨.symbol .endOfInput, 30, 30⟩]

theorem allTokens_print_denseText :
    allTokens denseText = .ok denseTokens ∧
      Token.print denseTokens = "! Is ( 'A' ) and '@(S->'%(F)')' <= -1" ∧
      (allTokens "! Is ( 'A' ) and '@(S->'%(F)')' <= -1").map (·.map Token.lexeme) =
        .ok (denseTokens.map Token.lexeme) := by
  have htokens : allTokens denseText = .ok denseTokens := by decide +kernel
  have hprint : Token.print denseTokens = "! Is ( 'A' ) and '@(S->'%(F)')' <= -1" := by
    decide +kernel
  have hagain := allTokens_print htokens
  rw [hprint] at hagain
  exact ⟨htokens, hprint, hagain⟩

end Command

end CondLang
