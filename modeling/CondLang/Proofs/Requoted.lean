import CondLang.Proofs.Evaluation.Aligned
import CondLang.Proofs.Grammar.Twins
import CondLang.Proofs.Lexing.Exchange
import CondLang.Proofs.Lexing.References
import CondLang.Proofs.Parser.Leaves

/-!
# References in quotes

A bare reference of a condition may be put in quotes.  Then it is read as a string of the same text,
which needs expansion; the tokens in front of it are read as before, and those behind it two
characters later (`Command.allTokens_quote`).  So the condition has the same tree but for that leaf
and the spans, and it evaluates in the same way (`Condition.parse_quote`).
-/

namespace CondLang

/-- The text with quotes around the characters under a span. -/
def Span.quote (span : Span) (text : String) : String :=
  .ofList (text.toList.take span.start ++
    '\'' :: ((span.slice text).toList ++ '\'' :: text.toList.drop span.stop))

/-- Where a place comes to stand once the characters from another one on are in quotes: what starts
there includes the opening quote, and what stands behind moves by both quotes. -/
def Span.quotedFrom (start place : ℕ) : ℕ := if place ≤ start then place else place + 2

theorem Span.monotone_quotedFrom (start : ℕ) : Monotone (quotedFrom start) := by
  intro a b hle
  unfold quotedFrom
  split <;> split <;> omega

/-! ## Reading -/

namespace Lexeme

/-- A bare reference is spelled with its text, which is a sigil and a group. -/
theorem Spells.exists_of_reference {kind : ReferenceKind} {content : String} {expandable : Bool}
    {front rest : List Char} (h : Spells front (.text (.reference kind) content expandable) rest) :
    ∃ group, Reference.IsGroup group ∧ front = kind.sigil :: group ∧
      content.toList = kind.sigil :: group := by
  obtain ⟨group, hgroup, hcontent⟩ := h.exists_isGroup
  have hwritten : String.ofList front = content := h.writtenAs nofun
  refine ⟨group, hgroup, ?_, hcontent⟩
  rw [← hcontent, ← hwritten, String.toList_ofList]

/-- A reference in quotes is a string that needs expansion. -/
theorem spells_quoted_reference {group : List Char} (hgroup : Reference.IsGroup group)
    (kind : ReferenceKind) (rest : List Char) :
    Spells ('\'' :: (kind.sigil :: group ++ ['\'']))
      (.text .string (.ofList (kind.sigil :: group)) true) rest := by
  have hquotable : Quotable (kind.sigil :: (group ++ [])) := .reference hgroup .nil
  rw [List.append_nil] at hquotable
  have hspells : Spells ('\'' :: (kind.sigil :: group ++ ['\''])) _ rest := .quoted hquotable
  rw [Expansion.pieces_reference hgroup] at hspells
  exact hspells

/-- Neither a reference nor a quote makes a name in front of it the name of a function. -/
theorem opensCall_quote_iff (kind : ReferenceKind) (rest behind : List Char) :
    OpensCall (kind.sigil :: rest) ↔ OpensCall ('\'' :: behind) := by
  have hblank := Character.sigil_not_isBlank kind
  have hparen : kind.sigil ≠ '(' := by cases kind <;> decide
  have hquote : Text.isBlank '\'' = false := by decide
  simp [OpensCall, Text.dropBlanks, hblank, hquote, hparen]

end Lexeme

/-- Where a reference is read, the reference in quotes is read as a string. -/
theorem Cursor.Cuts.next_quoted {cursor after : Cursor} {blanks group : List Char} {token : Token}
    {content : String} {kind : ReferenceKind}
    (h : cursor.Cuts blanks (kind.sigil :: group) token after) (hgroup : Reference.IsGroup group)
    (hcontent : content.toList = kind.sigil :: group) :
    next ⟨cursor.position,
        blanks ++ ('\'' :: (kind.sigil :: group ++ ['\'']) ++ after.rest)⟩ =
      (.ok ⟨.text .string content true, token.span.start, token.span.stop + 2⟩,
        ⟨after.position + 2, after.rest⟩) := by
  have hspells := Lexeme.spells_quoted_reference hgroup kind after.rest
  rw [← hcontent, String.ofList_toList, hcontent] at hspells
  refine next_eq_ok_iff.2 ⟨blanks, _, rfl, h.blank, hspells, h.start, ?_, ?_⟩
  · show token.span.stop + 2 = token.span.start + _
    rw [h.stop]
    simp only [List.length_cons, List.length_append, List.length_nil]
    omega
  · show after.position + 2 = token.span.stop + 2
    rw [h.position]

/-- The tokens of a text with a reference in quotes. -/
theorem Command.allTokens_quote {text content : String} {front back : List Token} {token : Token}
    {kind : ReferenceKind} {expandable : Bool}
    (htokens : allTokens text = .ok (front ++ token :: back))
    (hlexeme : token.lexeme = .text (.reference kind) content expandable) :
    allTokens (token.span.quote text) = .ok (front ++
      ⟨.text .string content true, token.span.start, token.span.stop + 2⟩ ::
        back.map (·.mapSpan (Span.moved 2))) := by
  have htoken : token.is .endOfInput = false := by simp [Token.is, hlexeme]
  obtain ⟨next, blanks, spelling, after, hfront, hcuts, hback⟩ :=
    (allTokens_eq_ok_iff.1 htokens).exists_cuts htoken
  have hwithin := hfront.within (Cursor.within_ofText text)
  have hspells := hcuts.spells
  rw [hlexeme] at hspells
  obtain ⟨group, hgroup, rfl, hcontent⟩ := hspells.exists_of_reference
  -- The text in three parts, and with the quotes.
  have hslice : (token.span.slice text).toList = kind.sigil :: group := by
    rw [Span.slice, String.toList_ofList, hcuts.slice_eq hwithin]
  have htext : text.toList = text.toList.take token.span.start ++
      (kind.sigil :: group ++ after.rest) := by
    rw [← hcuts.drop_start hwithin, List.take_append_drop]
  have hquote : (token.span.quote text).toList = text.toList.take token.span.start ++
      ('\'' :: (kind.sigil :: group ++ ['\'']) ++ after.rest) := by
    rw [Span.quote, String.toList_ofList, hslice, hcuts.drop_stop hwithin]
    simp
  -- In front of the reference nothing tells it from a quote.
  have hbehind := Lexeme.opensCall_quote_iff kind (group ++ after.rest)
    (kind.sigil :: group ++ ['\''] ++ after.rest)
  have hseparates := Lexeme.separates_cons (c := '\'') (by decide)
    (kind.sigil :: group ++ ['\''] ++ after.rest)
  have hagain := hfront.exchange hcuts.rest htext hseparates fun t _ =>
    Lexeme.keeps_of_iff t.lexeme (Lexeme.opensCall_exchange hbehind)
  refine allTokens_eq_ok_iff.2 ?_
  rw [Cursor.ofText, hquote]
  exact hagain.append (.step (hcuts.next_quoted hgroup hcontent) rfl (hback.moved 2))

/-- The tokens of a text are twins of those of the text with a reference in quotes. -/
theorem Command.twins_quote {text content : String} {front back : List Token} {token : Token}
    {kind : ReferenceKind} {expandable : Bool}
    (htokens : allTokens text = .ok (front ++ token :: back))
    (hlexeme : token.lexeme = .text (.reference kind) content expandable) :
    List.Forall₂ (Token.Twins (Span.quotedFrom token.span.start)) (front ++ token :: back)
      (front ++ ⟨.text .string content true, token.span.start, token.span.stop + 2⟩ ::
        back.map (·.mapSpan (Span.moved 2))) := by
  have htoken : token.is .endOfInput = false := by simp [Token.is, hlexeme]
  obtain ⟨next, blanks, spelling, after, hfront, hcuts, hback⟩ :=
    (allTokens_eq_ok_iff.1 htokens).exists_cuts htoken
  have hle := hcuts.start_le
  have hlt := hcuts.start_lt_stop htoken
  have hposition := hcuts.position
  have hbefore : List.Forall₂ (Token.Twins (Span.quotedFrom token.span.start)) front front := by
    refine List.forall₂_same.2 fun t ht => ⟨.same _, ?_⟩
    obtain ⟨-, -, hspan, hstop⟩ := hfront.bounds t ht
    rw [Span.map, Span.quotedFrom, Span.quotedFrom, if_pos (by omega), if_pos (by omega)]
  have hquoted : token.Twins (Span.quotedFrom token.span.start)
      ⟨.text .string content true, token.span.start, token.span.stop + 2⟩ := by
    refine ⟨?_, ?_⟩
    · rw [hlexeme]
      exact .quoted kind content expandable
    · rw [Span.map, Span.quotedFrom, Span.quotedFrom, if_pos (Nat.le_refl _), if_neg (by omega)]
  have hbehind : List.Forall₂ (Token.Twins (Span.quotedFrom token.span.start)) back
      (back.map (·.mapSpan (Span.moved 2))) := by
    refine List.forall₂_map_right_iff.2 (List.forall₂_same.2 fun t ht => ⟨.same _, ?_⟩)
    obtain ⟨hstart, hspan⟩ := hback.bounds t ht
    rw [Span.map, Span.quotedFrom, Span.quotedFrom, if_neg (by omega), if_neg (by omega)]
    rfl
  exact List.rel_append hbefore (.cons hquoted hbehind)

/-! ## Parsing -/

theorem Token.leaves_mapSpan (f : Span → Span) (tokens : List Token) :
    leaves (tokens.map (·.mapSpan f)) = leaves tokens := by
  rw [leaves, leaves, List.filterMap_map]
  rfl

/-- The end of the input is no leaf. -/
theorem Token.leaves_concat_stop {stop : Token} (hstop : stop.is .endOfInput = true)
    (tokens : List Token) : leaves (tokens ++ [stop]) = leaves tokens := by
  obtain ⟨lexeme, span⟩ := stop
  obtain rfl : lexeme = .symbol .endOfInput := by simpa [Token.is] using hstop
  rw [leaves_append, leaves_symbol]
  exact List.append_nil _

theorem Token.leaves_text {kind : TextKind} {content : String} {expandable : Bool} {leaf : Leaf}
    (h : Lexeme.Denotes (.text kind content expandable) leaf) (span : Span) (tokens : List Token) :
    leaves (⟨.text kind content expandable, span⟩ :: tokens) = leaf :: leaves tokens :=
  leaves_leafToken ⟨⟨.text kind content expandable, span⟩, leaf, h⟩ tokens

theorem Policy.violation?_everything (lexeme : Lexeme) : everything.violation? lexeme = none := by
  have hkinds : ∀ text : List Char,
      (kinds.find? fun kind => !everything.allows kind && opens kind text) = none := by
    intro text
    refine List.find?_eq_none.2 fun kind _ => ?_
    cases kind <;> exact Bool.false_ne_true
  unfold violation?
  split
  · next kind _ _ => cases kind <;> rfl
  · exact hkinds _
  · rfl

/-- A reference that stands bare in a condition may as well be put in quotes.  The text that results
is accepted if the condition was.  Its tree differs in that leaf only, which becomes a string of the
same text, and in where the nodes stand.  In every environment, and whether values are recorded or
not, both conditions have the same value or the same kind of error, ask the same questions and
record the same values, in the same order. -/
theorem Condition.parse_quote {text content : String} {condition : Condition}
    {front back : List Token} {token : Token} {kind : ReferenceKind} {expandable : Bool}
    (hparse : parse text .everything = .ok condition)
    (htokens : Command.allTokens text = .ok (front ++ token :: back))
    (hlexeme : token.lexeme = .text (.reference kind) content expandable) :
    ∃ quoted, parse (token.span.quote text) .everything = .ok quoted ∧
      quoted.nodeCount = condition.nodeCount ∧
      condition.root.Twins (Mark.Moved (Span.quotedFrom token.span.start)) quoted.root ∧
      condition.root.leaves.map (·.leaf) =
        Token.leaves front ++ .reference kind content :: Token.leaves back ∧
      quoted.root.leaves.map (·.leaf) =
        Token.leaves front ++ .string content true :: Token.leaves back ∧
      ∀ (evaluator : Evaluator) (env : Environment),
        (evaluator.evaluate condition env).1.Aligned (evaluator.evaluate quoted env).1 ∧
          (evaluator.evaluate condition env).2 = (evaluator.evaluate quoted env).2 := by
  obtain ⟨d, stop, hstop, hyield, -, hneed, rfl⟩ := exists_derivation_of_parse hparse
  have htwins := Command.twins_quote htokens hlexeme
  have hagain := Command.allTokens_quote htokens hlexeme
  have hsame : front ++ token :: back = d.yield ++ [stop] :=
    Except.ok.inj (htokens.symm.trans hyield)
  generalize hall : front ++ ⟨.text .string content true, token.span.start, token.span.stop + 2⟩ ::
    back.map (·.mapSpan (Span.moved 2)) = tokens at htwins hagain
  rw [hsame] at htwins
  obtain ⟨phrase, last, rfl, hphrase, hlast⟩ := exists_append_of_forall₂ htwins
  obtain ⟨d', rfl, hd⟩ := d.exists_twin (Span.monotone_quotedFrom _) hphrase
  obtain ⟨stop', none, hstop', hnone, rfl⟩ := List.forall₂_cons_left_iff.1 hlast
  obtain rfl := List.forall₂_nil_left_iff.1 hnone
  have hend : stop'.is .endOfInput = true := by
    obtain ⟨lexeme, span⟩ := stop
    obtain rfl : lexeme = .symbol .endOfInput := by simpa [Token.is] using hstop
    rw [hstop'.eq_symbol]
    rfl
  have hparse' := parse_of_derivation d' hend hagain (fun t _ => Policy.violation?_everything _)
    (hd.need ▸ hneed)
  have htree : (d.tree () 0).Twins (Mark.Moved (Span.quotedFrom token.span.start))
      (d'.tree () 0) := hd.tree () () trivial 0
  refine ⟨_, hparse', hd.size, htree, ?_, ?_, fun evaluator env => ?_⟩
  · obtain ⟨lexeme, span⟩ := token
    obtain rfl := hlexeme
    rw [d.leaves_tree () 0]
    show Token.leaves d.yield = _
    rw [← Token.leaves_concat_stop hstop, ← hsame, Token.leaves_append,
      Token.leaves_text (.reference kind content expandable)]
  · rw [d'.leaves_tree () 0]
    show Token.leaves d'.yield = _
    rw [← Token.leaves_concat_stop hend, ← hall, Token.leaves_append,
      Token.leaves_text (.string content true), Token.leaves_mapSpan]
  · have hnumbers : (d.tree () 0).Twins (Mark.Corresponds (.refl ℕ)) (d'.tree () 0) := by
      refine htree.mono fun mark mark' hmark => ?_
      rw [Mark.Corresponds, PEquiv.refl_apply, hmark.id]
      exact rfl
    exact evaluator.evaluate_twins hnumbers env

/-- A reference in parentheses, whose leaf covers these, too. -/
theorem Condition.parse_quote_grouped :
    let text := "($(A)) == 'x'"
    let token : Token := ⟨.text (.reference .property) "$(A)" true, 1, 5⟩
    let back : List Token := [⟨.symbol .rightParen, 5, 6⟩, ⟨.symbol (.relation .equal), 7, 9⟩,
      ⟨.text .string "x" false, 10, 13⟩, ⟨.symbol .endOfInput, 13, 13⟩]
    ∃ condition quoted, parse text .everything = .ok condition ∧
      Command.allTokens text = .ok ([⟨.symbol .leftParen, 0, 1⟩] ++ token :: back) ∧
      token.lexeme = .text (.reference .property) "$(A)" true ∧
      parse "('$(A)') == 'x'" .everything = .ok quoted ∧
      condition.root.Twins (Mark.Moved (Span.quotedFrom 1)) quoted.root ∧
      quoted.root.leaves.map (·.leaf) = [.string "$(A)" true, .string "x" false] ∧
      ((Evaluator.recording.evaluate condition .silent).1.Aligned
        (Evaluator.recording.evaluate quoted .silent).1) := by
  intro text token back
  have hparsed : (parse text .everything).toOption.map (·.nodeCount) = some 3 := by decide +kernel
  obtain ⟨condition, hparse, -⟩ := exists_of_map_parse_eq_some hparsed
  have htokens : Command.allTokens text =
      .ok ([⟨.symbol .leftParen, 0, 1⟩] ++ token :: back) := by decide +kernel
  have hquote : token.span.quote text = "('$(A)') == 'x'" := by decide +kernel
  obtain ⟨quoted, hquoted, -, htwins, -, hleaves, haligned⟩ := parse_quote hparse htokens rfl
  rw [hquote] at hquoted
  exact ⟨condition, quoted, hparse, htokens, rfl, hquoted, htwins, hleaves,
    (haligned Evaluator.recording .silent).1⟩

end CondLang
