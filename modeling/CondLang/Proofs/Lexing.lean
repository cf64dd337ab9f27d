import CondLang.Command.Tokens

/-!
# What reading a token takes

A token that is read is cut off the front of the text, and only the end of the input takes nothing
(`Lexeme.cutOff_of_read`).  So a cursor that has read any other token stands before a shorter text,
and the tokens of a text are finitely many: `Cursor.Reads` relates a cursor to all of them, and
`allTokens_eq_ok_iff` says that they are what a listing of tokens shows.
-/

namespace CondLang

namespace Lexeme

/-- A lexeme was cut off the front of a text, and only the end of the input takes nothing of it. -/
def CutOff (text : List Char) (lexeme : Lexeme) (taken : Nat) (rest : List Char) : Prop :=
  ∃ front, front ++ rest = text ∧ front.length = taken ∧
    (lexeme = .symbol .endOfInput ↔ front = [])

variable {text rest : List Char} {lexeme : Lexeme} {taken : Nat}

theorem cutOff_of_readReference {kind : ReferenceKind}
    (h : readReference kind text = .lexeme lexeme taken rest) :
    CutOff text lexeme taken rest := by
  unfold readReference at h
  split at h
  · next c inner =>
    split at h
    · next group left hgroup =>
      cases h
      refine ⟨c :: group, ?_, rfl, by simp⟩
      rw [List.cons_append, Reference.splitGroup?_append hgroup]
    · cases h
  · cases h

/-- Inside a quoted string, `start` characters have been taken before. -/
theorem cutOff_of_readQuoted {start : Nat} {before : List Char} {expandable : Bool}
    (h : readQuoted start before expandable text = .lexeme lexeme taken rest) :
    ∃ front, front ++ rest = text ∧ start + front.length = taken ∧
      lexeme ≠ .symbol .endOfInput := by
  fun_induction readQuoted start before expandable text with
  | case1 => cases h
  | case2 start before expandable left =>
    cases h
    exact ⟨['\''], rfl, rfl, nofun⟩
  | case3 start before expandable c left _ kind group after hfront ih =>
    obtain ⟨front, rfl, rfl, hlexeme⟩ := ih h
    refine ⟨kind.sigil :: group ++ front, ?_, ?_, hlexeme⟩
    · rw [List.append_assoc, Reference.front_append hfront]
    · simp only [List.cons_append, List.length_cons, List.length_append]
      omega
  | case4 => cases h
  | case5 start before expandable c left _ _ ih =>
    obtain ⟨front, rfl, rfl, hlexeme⟩ := ih h
    refine ⟨c :: front, rfl, ?_, hlexeme⟩
    simp only [List.length_cons]
    omega

theorem cutOff_of_numberReading {digits left : List Char} {wellFormed : Bool}
    (hdigits : wellFormed = true → digits ≠ [])
    (h : numberReading digits wellFormed left = .lexeme lexeme taken rest) :
    CutOff (digits ++ left) lexeme taken rest := by
  unfold numberReading at h
  split at h
  · next hwell =>
    cases h
    exact ⟨digits, rfl, rfl, by simp [hdigits hwell]⟩
  · cases h

theorem splitSign_append (text : List Char) : (splitSign text).1 ++ (splitSign text).2 = text := by
  unfold splitSign
  split
  · split <;> rfl
  · rfl

theorem cutOff_of_readDecimal (h : readDecimal text = .lexeme lexeme taken rest) :
    CutOff text lexeme taken rest := by
  have hdigits (sign digits : List Char) (hany : digits.any Char.isDigit = true) :
      sign ++ digits ≠ [] := by
    intro hnil
    rw [(List.append_eq_nil_iff.1 hnil).2] at hany
    cases hany
  unfold readDecimal at h
  rw [← splitSign_append text]
  generalize splitSign text = split at h ⊢
  have hcut := cutOff_of_numberReading (hdigits _ _) h
  rwa [List.append_assoc, List.takeWhile_append_dropWhile] at hcut

theorem cutOff_of_readNumber (h : readNumber text = .lexeme lexeme taken rest) :
    CutOff text lexeme taken rest := by
  unfold readNumber at h
  split at h
  · next x left =>
    split at h
    · have hcut := cutOff_of_numberReading (fun _ => List.cons_ne_nil _ _) h
      rwa [List.cons_append, List.cons_append, List.takeWhile_append_dropWhile] at hcut
    · exact cutOff_of_readDecimal h
  · exact cutOff_of_readDecimal h

theorem keyword?_ne_endOfInput (name : String) : keyword? name ≠ some .endOfInput := by
  unfold keyword?
  split
  · nofun
  · split
    · nofun
    · split <;> nofun

theorem ofName_ne_endOfInput (name : String) (left : List Char) :
    ofName name left ≠ .symbol .endOfInput := by
  unfold ofName
  split
  · next s hs =>
    intro h
    cases h
    exact keyword?_ne_endOfInput name hs
  · split <;> nofun

theorem cutOff_of_readName {c : Char} {left : List Char} (hc : Character.isNameStart c = true)
    (h : readName (c :: left) = .lexeme lexeme taken rest) :
    CutOff (c :: left) lexeme taken rest := by
  unfold readName at h
  cases h
  refine ⟨_, List.takeWhile_append_dropWhile, rfl, ?_⟩
  have hchar : Character.isNameChar c = true := by simp [Character.isNameChar, hc]
  simp [ofName_ne_endOfInput, hchar]

/-- A symbol takes the characters it is written with. -/
theorem cutOff_of_readSymbol {s : Symbol} {left : List Char} (front : List Char)
    (hs : s = .endOfInput ↔ front = [])
    (h : readSymbol s front.length left = .lexeme lexeme taken rest) :
    CutOff (front ++ left) lexeme taken rest := by
  cases h
  exact ⟨front, rfl, rfl, by simpa using hs⟩

/-- Whatever is read is cut off the front of the text. -/
theorem cutOff_of_read (h : read text = .lexeme lexeme taken rest) :
    CutOff text lexeme taken rest := by
  unfold read at h
  split at h
  · exact cutOff_of_readSymbol [] (by simp) h
  · exact cutOff_of_readSymbol ['('] (by simp) h
  · exact cutOff_of_readSymbol [')'] (by simp) h
  · exact cutOff_of_readSymbol [','] (by simp) h
  · exact cutOff_of_readSymbol ['=', '='] (by simp) h
  · cases h
  · exact cutOff_of_readSymbol ['!', '='] (by simp) h
  · exact cutOff_of_readSymbol ['!'] (by simp) h
  · exact cutOff_of_readSymbol ['<', '='] (by simp) h
  · exact cutOff_of_readSymbol ['<'] (by simp) h
  · exact cutOff_of_readSymbol ['>', '='] (by simp) h
  · exact cutOff_of_readSymbol ['>'] (by simp) h
  · next left =>
    obtain ⟨front, rfl, rfl, hlexeme⟩ := cutOff_of_readQuoted h
    exact ⟨'\'' :: front, rfl, by simp [Nat.add_comm], by simp [hlexeme]⟩
  · next c left _ _ _ _ _ _ _ _ _ _ _ _ =>
    split at h
    · exact cutOff_of_readReference h
    · split at h
      · exact cutOff_of_readNumber h
      · split at h
        · next hc => exact cutOff_of_readName hc h
        · cases h

end Lexeme

namespace Cursor

/-- Reading from a cursor to the end of the input gives these tokens, of which the last is the end
of the input and no other one is. -/
inductive Reads : Cursor → List Token → Prop where
  | stop {cursor left : Cursor} {token : Token} (hnext : cursor.next = (.ok token, left))
      (htoken : token.is .endOfInput = true) : Reads cursor [token]
  | step {cursor left : Cursor} {token : Token} {tokens : List Token}
      (hnext : cursor.next = (.ok token, left)) (htoken : token.is .endOfInput = false)
      (hleft : Reads left tokens) : Reads cursor (token :: tokens)

/-- Any token but the end of the input takes characters of the text. -/
theorem length_rest_lt {cursor left : Cursor} {token : Token}
    (hnext : cursor.next = (.ok token, left)) (htoken : token.is .endOfInput = false) :
    left.rest.length < cursor.rest.length := by
  simp only [next] at hnext
  split at hnext
  · next lexeme taken rest hread =>
    cases hnext
    obtain ⟨front, hfront, -, hend⟩ := Lexeme.cutOff_of_read hread
    have hskip : cursor.skipBlanks.rest.length ≤ cursor.rest.length :=
      (List.dropWhile_sublist _).length_le
    have hne : front ≠ [] := by
      intro hnil
      simp [Token.is, hend.2 hnil] at htoken
    have hpos := List.length_pos_iff.2 hne
    rw [← hfront, List.length_append] at hskip
    change rest.length < _
    omega
  · cases hnext

end Cursor

namespace Command

theorem readTokens_of_reads {cursor : Cursor} {tokens : List Token} (h : cursor.Reads tokens)
    {fuel : Nat} (hfuel : cursor.rest.length < fuel) : readTokens fuel cursor = .ok tokens := by
  induction h generalizing fuel with
  | stop hnext htoken =>
    cases fuel with
    | zero => omega
    | succ fuel => simp [readTokens, hnext, htoken]
  | step hnext htoken _ ih =>
    cases fuel with
    | zero => omega
    | succ fuel =>
      have hlt := Cursor.length_rest_lt hnext htoken
      simp [readTokens, hnext, htoken, ih (by omega : _ < fuel), Except.map]

theorem reads_of_readTokens {fuel : Nat} {cursor : Cursor} {tokens : List Token}
    (hfuel : cursor.rest.length < fuel) (h : readTokens fuel cursor = .ok tokens) :
    cursor.Reads tokens := by
  induction fuel generalizing cursor tokens with
  | zero => omega
  | succ fuel ih =>
    rw [readTokens] at h
    split at h
    · cases h
    · next token left hnext =>
      split at h
      · next htoken =>
        cases h
        exact .stop hnext htoken
      · next htoken =>
        rw [Bool.not_eq_true] at htoken
        have hlt := Cursor.length_rest_lt hnext htoken
        cases hleft : readTokens fuel left with
        | error e => simp [hleft, Except.map] at h
        | ok others =>
          simp only [hleft, Except.map, Except.ok.injEq] at h
          subst h
          exact .step hnext htoken (ih (by omega) hleft)

/-- The listed tokens of a text are those that can be read from its start to its end. -/
theorem allTokens_eq_ok_iff {text : String} {tokens : List Token} :
    allTokens text = .ok tokens ↔ (Cursor.ofText text).Reads tokens :=
  ⟨reads_of_readTokens (Nat.lt_succ_self _), fun h => readTokens_of_reads h (Nat.lt_succ_self _)⟩

end Command

end CondLang
