import CondLang.Proofs.Lexing.Tiling

/-!
# The references of a token are those of its expansion

A quoted string is read up to the first quote that is in no reference of it, so the reader of
conditions and the expansion of strings must agree on what is a reference.  They do
(`TokenStream.references_of_answer?`): the references that the reader passes over are those that the
expansion of the token finds, and a bare reference is a single one.
-/

namespace CondLang

namespace Lexeme

variable {front tail rest : List Char} {lexeme : Lexeme}

/-- What starts with a quote is a quoted string. -/
theorem Spells.exists_quotable (h : Spells ('\'' :: tail) lexeme rest) :
    ∃ body, Quotable body ∧ tail ++ rest = body ++ '\'' :: rest ∧ tail.length = body.length + 1 ∧
      lexeme = .text .string (.ofList body) ((Expansion.pieces body).any Piece.expandable) := by
  have hread := read_of_spells h
  rw [List.cons_append, read.eq_13] at hread
  obtain ⟨body, hbody, htext, hlength, hlexeme⟩ := readQuoted_eq_lexeme_iff.1 hread
  refine ⟨body, hbody, htext, ?_, hlexeme⟩
  rw [List.length_cons] at hlength
  omega

/-- What starts like a name is no number and no reference. -/
theorem ofName_ne_text {kind : TextKind} (hstring : kind ≠ .string) (hfunction : kind ≠ .function)
    (name : String) (rest : List Char) (content : String) (expandable : Bool) :
    ofName name rest ≠ .text kind content expandable := by
  intro h
  rcases ofName_cases name rest with ⟨s, -, heq⟩ | ⟨-, -, heq⟩ | heq <;> rw [heq] at h <;> cases h
  · exact hfunction rfl
  · exact hstring rfl

/-- The characters that numbers are written with. -/
def isNumberChar (c : Char) : Bool :=
  Character.isNumberStart c || Character.isHexDigit c || c == 'x' || c == 'X'

theorem Spells.isNumberChar_of_mem {content : String} {expandable : Bool}
    (h : Spells front (.text .number content expandable) rest) :
    ∀ c ∈ content.toList, isNumberChar c = true := by
  have hhex : ∀ {c : Char}, Character.isHexDigit c = true → isNumberChar c = true := fun hc => by
    simp [isNumberChar, hc]
  have hstart : ∀ {c : Char}, Character.isNumberStart c = true → isNumberChar c = true :=
    fun hc => by simp [isNumberChar, hc]
  generalize hlexeme : Lexeme.text .number content expandable = lexeme at h
  cases h with
  | name => exact (ofName_ne_text (by nofun) (by nofun) _ _ _ _ hlexeme.symm).elim
  | hexadecimal hx _ hdigits =>
    cases hlexeme
    rw [String.toList_ofList, List.forall_mem_cons, List.forall_mem_cons]
    refine ⟨rfl, ?_, fun c hc => hhex (hdigits c hc)⟩
    rcases hx with rfl | rfl <;> rfl
  | decimal hsign hdigits =>
    cases hlexeme
    rw [String.toList_ofList, List.forall_mem_append]
    refine ⟨?_, fun c hc => hstart (Character.isNumberStart_iff.2 ?_)⟩
    · rcases hsign with rfl | rfl | rfl
      · exact List.forall_mem_nil _
      · exact List.forall_mem_singleton.2 rfl
      · exact List.forall_mem_singleton.2 rfl
    · rcases Bool.or_eq_true_iff.1 (hdigits c hc) with hdigit | hpoint
      · exact .inr (.inr (.inr hdigit))
      · exact .inr (.inr (.inl (beq_iff_eq.1 hpoint)))
  | _ => cases hlexeme

/-- The text of a number holds no other character. -/
theorem Spells.not_mem_of_number {content : String} {expandable : Bool} {c : Char}
    (h : Spells front (.text .number content expandable) rest) (hc : isNumberChar c = false) :
    c ∉ content.toList := by
  intro hmem
  rw [h.isNumberChar_of_mem c hmem] at hc
  cases hc

/-- The text of a number starts like one. -/
theorem Spells.exists_start_of_number {content : String} {expandable : Bool}
    (h : Spells front (.text .number content expandable) rest) :
    ∃ c tail, content.toList = c :: tail ∧ Character.isNumberStart c = true := by
  generalize hlexeme : Lexeme.text .number content expandable = lexeme at h
  cases h with
  | name => exact (ofName_ne_text (by nofun) (by nofun) _ _ _ _ hlexeme.symm).elim
  | hexadecimal =>
    cases hlexeme
    exact ⟨_, _, String.toList_ofList, rfl⟩
  | @decimal sign digits rest hsign hdigits hany =>
    cases hlexeme
    rw [String.toList_ofList]
    rcases hsign with rfl | rfl | rfl
    · cases digits with
      | nil => cases hany
      | cons d digits =>
        refine ⟨d, digits, rfl, Character.isNumberStart_iff.2 ?_⟩
        rcases Bool.or_eq_true_iff.1 (hdigits d List.mem_cons_self) with hdigit | hpoint
        · exact .inr (.inr (.inr hdigit))
        · exact .inr (.inr (.inl (beq_iff_eq.1 hpoint)))
    · exact ⟨'+', digits, rfl, rfl⟩
    · exact ⟨'-', digits, rfl, rfl⟩
  | _ => cases hlexeme

/-- A bare reference is its sigil and a group. -/
theorem Spells.exists_isGroup {kind : ReferenceKind} {content : String} {expandable : Bool}
    (h : Spells front (.text (.reference kind) content expandable) rest) :
    ∃ group, Reference.IsGroup group ∧ content.toList = kind.sigil :: group := by
  generalize hlexeme : Lexeme.text (.reference kind) content expandable = lexeme at h
  cases h with
  | name => exact (ofName_ne_text (by nofun) (by nofun) _ _ _ _ hlexeme.symm).elim
  | @reference kind' group _ hgroup =>
    cases hlexeme
    exact ⟨group, hgroup, String.toList_ofList⟩
  | _ => cases hlexeme

end Lexeme

namespace TokenStream

/-- Each token that a stream gives out was read somewhere in the text. -/
theorem exists_next_of_answer? {text : String} {n : Nat} {token : Token}
    (h : (ofText text).answer? n = some (.ok token)) :
    ∃ cursor left : Cursor, cursor.Within text.toList ∧ cursor.next = (.ok token, left) := by
  obtain ⟨tokens, last, answer, after, htakes, hnext, hlast⟩ := (Cursor.ofText text).exists_takes
  have hstart := Cursor.within_ofText text
  rw [ofText, answer?_eq_getElem? htakes hnext hlast] at h
  rcases List.mem_append.1 (List.mem_of_getElem? h) with hmem | hmem
  · obtain ⟨other, hother, heq⟩ := List.mem_map.1 hmem
    cases heq
    obtain ⟨before, _, cursor, left, _, hbefore, hnext, _⟩ := htakes.exists_next hother
    exact ⟨cursor, left, hbefore.within hstart, hnext⟩
  · rw [← List.mem_singleton.1 hmem] at hnext
    exact ⟨last, after, htakes.within hstart, hnext⟩

/-- Whatever token of a text is given out, its references are those that an expansion of its text
finds.  The reader of a quoted string passes over them where the expansion does, moved by the place
of the string in the text, and every sigil and parenthesis that the expansion comes upon belongs to
a reference that closes.  A bare reference is one reference from end to end. -/
theorem references_of_answer? {text : String} {n : Nat} {token : Token}
    (h : (ofText text).answer? n = some (.ok token)) :
    (∀ content expandable, token.lexeme = .text .string content expandable →
      text.toList[token.span.start]? = some '\'' →
      Lexeme.Scans (token.span.start + 1) (text.toList.drop (token.span.start + 1))
          ((Piece.extents 0 (Expansion.pieces content.toList)).map
            (·.moved (token.span.start + 1)))
          (token.span.stop - 1) (text.toList.drop token.span.stop) ∧
        Expansion.Closed content.toList) ∧
    (∀ kind content expandable, token.lexeme = .text (.reference kind) content expandable →
      ∃ inner, Expansion.pieces content.toList = [.reference kind inner] ∧
        Piece.extents 0 (Expansion.pieces content.toList) = [⟨kind, 0, content.length⟩]) := by
  obtain ⟨cursor, left, hcursor, hnext⟩ := exists_next_of_answer? h
  obtain ⟨blanks, front, hcuts⟩ := Cursor.next_eq_ok_iff.1 hnext
  have hspells := hcuts.spells
  have hdrop := hcuts.drop_start hcursor
  refine ⟨fun content expandable hlexeme hquote => ?_, fun kind content expandable hlexeme => ?_⟩
  · rw [← List.head?_drop, hdrop] at hquote
    cases front with
    | nil => rw [hspells.eq_nil_iff.1 rfl] at hlexeme; cases hlexeme
    | cons c tail =>
      cases hquote
      obtain ⟨body, hbody, htext, hlength, hstring⟩ := hspells.exists_quotable
      rw [hstring] at hlexeme
      cases hlexeme
      rw [String.toList_ofList]
      refine ⟨Lexeme.scans_iff.2 ⟨body, hbody, ?_, ?_, ?_⟩, hbody.closed⟩
      · rw [← List.drop_drop, hdrop, hcuts.drop_stop hcursor, ← htext]
        rfl
      · rw [hcuts.stop, List.length_cons, hlength]
        omega
      · rw [← Piece.extents_add, Nat.zero_add]
  · rw [hlexeme] at hspells
    obtain ⟨group, hgroup, hcontent⟩ := hspells.exists_isGroup
    have hpieces := Expansion.pieces_reference hgroup kind
    refine ⟨_, hcontent ▸ hpieces, ?_⟩
    rw [hcontent, hpieces, Piece.extents, Piece.extents, Expansion.source_of_isGroup hgroup,
      ← hcontent, Nat.zero_add]
    rfl

/-- A string with a property in it and a list whose transform is quoted itself, and a reference that
stands alone. -/
def nestedQuotes : String := "'$(A)@(S->'%(F)')'!=%(C)"

theorem references_of_answer?_nestedQuotes :
    ((ofText nestedQuotes).answer? 0 =
        some (.ok ⟨.text .string "$(A)@(S->'%(F)')" true, 0, 18⟩) ∧
      Lexeme.Scans 1 "$(A)@(S->'%(F)')'!=%(C)".toList [⟨.property, 1, 5⟩, ⟨.itemList, 5, 17⟩] 17
        "!=%(C)".toList ∧
      Expansion.Closed "$(A)@(S->'%(F)')".toList) ∧
    ((ofText nestedQuotes).answer? 2 =
        some (.ok ⟨.text (.reference .metadata) "%(C)" true, 20, 24⟩) ∧
      ∃ inner, Expansion.pieces "%(C)".toList = [.reference .metadata inner]) := by
  have hstring : (ofText nestedQuotes).answer? 0 =
      some (.ok ⟨.text .string "$(A)@(S->'%(F)')" true, 0, 18⟩) := by decide +kernel
  have hbare : (ofText nestedQuotes).answer? 2 =
      some (.ok ⟨.text (.reference .metadata) "%(C)" true, 20, 24⟩) := by decide +kernel
  have hextents : Piece.extents 0 (Expansion.pieces "$(A)@(S->'%(F)')".toList) =
      [⟨.property, 0, 4⟩, ⟨.itemList, 4, 16⟩] := by decide +kernel
  obtain ⟨hscans, hclosed⟩ := (references_of_answer? hstring).1 _ _ rfl rfl
  rw [hextents] at hscans
  obtain ⟨inner, hpieces, -⟩ := (references_of_answer? hbare).2 _ _ _ rfl
  exact ⟨⟨hstring, hscans, hclosed⟩, hbare, inner, hpieces⟩

end TokenStream

end CondLang
