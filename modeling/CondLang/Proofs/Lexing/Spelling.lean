import CondLang.Proofs.Lexing
import CondLang.Proofs.Lexing.Quoted
import CondLang.Proofs.Text.Classes
import Mathlib.Data.List.TakeWhile

/-!
# The spellings of lexemes

`Spells front lexeme rest` says that `front` is a spelling of a lexeme and that the lexeme does not
go on into `rest`, the text behind it.  A lexeme is read exactly where a spelling of it comes next
(`read_eq_lexeme_iff`).  What is asked of `rest` is little: for most lexemes nothing or a condition
on its first character.  So a spelling stays one if the text behind it is cut short
(`Spells.truncate`), and a token can be read again elsewhere.
-/

namespace CondLang

namespace Lexeme

open Reference (IsGroup)
open Text (takeWhile_eq_and_dropWhile_eq_iff)

/-- The characters of `front`, with `rest` behind them, are read as a lexeme. -/
inductive Spells : List Char → Lexeme → List Char → Prop where
  | ending : Spells [] (.symbol .endOfInput) []
  | leftParen {rest : List Char} : Spells ['('] (.symbol .leftParen) rest
  | rightParen {rest : List Char} : Spells [')'] (.symbol .rightParen) rest
  | comma {rest : List Char} : Spells [','] (.symbol .comma) rest
  | relation {rest : List Char} (op : Relation)
      (hrest : op = .less ∨ op = .greater → rest.head? ≠ some '=') :
      Spells op.symbol.toList (.symbol (.relation op)) rest
  | not {rest : List Char} (hrest : rest.head? ≠ some '=') : Spells ['!'] (.symbol .not) rest
  /-- A keyword, the name of a function or a bare string. -/
  | name {c : Char} {word rest : List Char} (hc : Character.isNameStart c = true)
      (hword : ∀ d ∈ word, Character.isNameChar d = true)
      (hrest : ∀ d ∈ rest.head?, Character.isNameChar d = false) :
      Spells (c :: word) (ofName (.ofList (c :: word)) rest) rest
  | hexadecimal {x : Char} {digits rest : List Char} (hx : x = 'x' ∨ x = 'X')
      (hne : digits ≠ []) (hdigits : ∀ d ∈ digits, Character.isHexDigit d = true)
      (hrest : ∀ d ∈ rest.head?, Character.isHexDigit d = false) :
      Spells ('0' :: x :: digits) (.text .number (.ofList ('0' :: x :: digits)) false) rest
  | decimal {sign digits rest : List Char} (hsign : sign = [] ∨ sign = ['+'] ∨ sign = ['-'])
      (hdigits : ∀ d ∈ digits, isDecimalChar d = true) (hany : digits.any Char.isDigit = true)
      (hrest : ∀ d ∈ rest.head?, isDecimalChar d = false)
      (hhexadecimal : sign ++ digits = ['0'] → ∀ d ∈ rest.head?, d ≠ 'x' ∧ d ≠ 'X') :
      Spells (sign ++ digits) (.text .number (.ofList (sign ++ digits)) false) rest
  | reference {kind : ReferenceKind} {group rest : List Char} (hgroup : IsGroup group) :
      Spells (kind.sigil :: group)
        (.text (.reference kind) (.ofList (kind.sigil :: group)) true) rest
  | quoted {body rest : List Char} (hbody : Quotable body) :
      Spells ('\'' :: (body ++ ['\'']))
        (.text .string (.ofList body) ((Expansion.pieces body).any Piece.expandable)) rest

variable {n : Nat} {c : Char} {text front rest : List Char} {lexeme : Lexeme}
  {kind : ReferenceKind}

theorem head?_ne_of_forall {d : Char} (h : ∀ rest, text = d :: rest → False) :
    text.head? ≠ some d := by
  intro hhead
  cases text with
  | nil => cases hhead
  | cons e rest =>
    cases hhead
    exact h rest rfl

/-! ## Names -/

theorem keyword?_eq_some {name : String} {s : Symbol} (h : keyword? name = some s) :
    s = .connective .and ∧ Text.sameIgnoringAscii name "and" = true ∨
      s = .connective .or ∧ Text.sameIgnoringAscii name "or" = true ∨
      s = .not ∧ Text.sameIgnoringAscii name "not" = true := by
  unfold keyword? at h
  split at h
  · next hand =>
    cases h
    exact .inl ⟨rfl, hand⟩
  · split at h
    · next hor =>
      cases h
      exact .inr (.inl ⟨rfl, hor⟩)
    · split at h
      · next hnot =>
        cases h
        exact .inr (.inr ⟨rfl, hnot⟩)
      · cases h

/-- A name is a keyword, the name of a function or a bare string. -/
theorem ofName_cases (name : String) (rest : List Char) :
    (∃ s, keyword? name = some s ∧ ofName name rest = .symbol s) ∨
      keyword? name = none ∧ (Text.dropBlanks rest).head? = some '(' ∧
        ofName name rest = .text .function name false ∨
      ofName name rest = .text .string name false := by
  unfold ofName
  cases keyword? name with
  | some s => exact .inl ⟨s, rfl, rfl⟩
  | none =>
    by_cases hparen : (Text.dropBlanks rest).head? = some '('
    · exact .inr (.inl ⟨rfl, hparen, if_pos hparen⟩)
    · exact .inr (.inr (if_neg hparen))

/-! ## The readers of single kinds -/

theorem readReference_eq_lexeme_iff :
    readReference kind (c :: text) = .lexeme lexeme n rest ↔
      ∃ group, IsGroup group ∧ text = group ++ rest ∧ n = group.length + 1 ∧
        lexeme = .text (.reference kind) (.ofList (kind.sigil :: group)) true := by
  constructor
  · intro h
    unfold readReference at h
    split at h
    · next heq =>
      cases heq
      split at h
      · next hsplit =>
        cases h
        exact ⟨_, Reference.isGroup_of_splitGroup? rfl hsplit,
          (Reference.splitGroup?_append hsplit).symm, rfl, rfl⟩
      · cases h
    · cases h
  · intro h
    rcases h with ⟨group, hgroup, rfl, rfl, rfl⟩
    have hsplit := hgroup.splitGroup?_append rest
    obtain ⟨inner, rfl⟩ := hgroup.exists_eq
    rw [List.cons_append] at hsplit ⊢
    simp only [readReference, hsplit]

theorem numberReading_eq_lexeme_iff {digits left : List Char} {wellFormed : Bool} :
    numberReading digits wellFormed left = .lexeme lexeme n rest ↔
      wellFormed = true ∧ left = rest ∧ n = digits.length ∧
        lexeme = .text .number (.ofList digits) false := by
  unfold numberReading
  split
  · next h => simp [h, eq_comm, and_assoc, and_comm]
  · next h => simp [h]

theorem readName_eq_lexeme_iff :
    readName text = .lexeme lexeme n rest ↔
      ∃ word, text = word ++ rest ∧ n = word.length ∧
        (∀ d ∈ word, Character.isNameChar d = true) ∧
        (∀ d ∈ rest.head?, Character.isNameChar d = false) ∧
        lexeme = ofName (.ofList word) rest := by
  constructor
  · intro h
    simp only [readName, Reading.lexeme.injEq] at h
    obtain ⟨rfl, rfl, rfl⟩ := h
    obtain ⟨happend, hword, hrest⟩ := takeWhile_eq_and_dropWhile_eq_iff.1 ⟨rfl, rfl⟩
    exact ⟨_, happend, rfl, hword, hrest, rfl⟩
  · intro h
    rcases h with ⟨word, htext, rfl, hword, hrest, rfl⟩
    obtain ⟨rfl, rfl⟩ := takeWhile_eq_and_dropWhile_eq_iff.2 ⟨htext, hword, hrest⟩
    rfl

theorem splitSign_of_sign {sign unsigned : List Char}
    (hsign : sign = [] ∨ sign = ['+'] ∨ sign = ['-'])
    (hunsigned : ∀ d ∈ unsigned.head?, isDecimalChar d = true) :
    splitSign (sign ++ unsigned) = (sign, unsigned) := by
  rcases hsign with rfl | rfl | rfl
  · cases unsigned with
    | nil => rfl
    | cons d unsigned =>
      have hd := hunsigned d rfl
      have hplus : d ≠ '+' := by rintro rfl; cases hd
      have hminus : d ≠ '-' := by rintro rfl; cases hd
      simp [splitSign, hplus, hminus]
  · rfl
  · rfl

theorem sign_of_splitSign (text : List Char) :
    (splitSign text).1 = [] ∨ (splitSign text).1 = ['+'] ∨ (splitSign text).1 = ['-'] := by
  unfold splitSign
  split
  · split
    · next h => rcases h with rfl | rfl <;> simp
    · exact .inl rfl
  · exact .inl rfl

theorem readDecimal_eq_lexeme_iff :
    readDecimal text = .lexeme lexeme n rest ↔
      ∃ sign digits, text = sign ++ digits ++ rest ∧ n = (sign ++ digits).length ∧
        (sign = [] ∨ sign = ['+'] ∨ sign = ['-']) ∧
        (∀ d ∈ digits, isDecimalChar d = true) ∧ digits.any Char.isDigit = true ∧
        (∀ d ∈ rest.head?, isDecimalChar d = false) ∧
        lexeme = .text .number (.ofList (sign ++ digits)) false := by
  constructor
  · intro h
    have hsign := sign_of_splitSign text
    have htext := splitSign_append text
    unfold readDecimal at h
    generalize splitSign text = split at h hsign htext
    obtain ⟨hany, hleft, rfl, rfl⟩ := numberReading_eq_lexeme_iff.1 h
    obtain ⟨hunsigned, hdigits, hrest⟩ := takeWhile_eq_and_dropWhile_eq_iff.1 ⟨rfl, hleft⟩
    refine ⟨_, _, ?_, rfl, hsign, hdigits, hany, hrest, rfl⟩
    rw [List.append_assoc, ← hunsigned, htext]
  · intro h
    rcases h with ⟨sign, digits, rfl, rfl, hsign, hdigits, hany, hrest, rfl⟩
    obtain ⟨htake, hdrop⟩ := takeWhile_eq_and_dropWhile_eq_iff.2 ⟨rfl, hdigits, hrest⟩
    have hhead : ∀ d ∈ (digits ++ rest).head?, isDecimalChar d = true := by
      cases digits with
      | nil => cases hany
      | cons d digits => simpa using hdigits d List.mem_cons_self
    unfold readDecimal
    rw [List.append_assoc, splitSign_of_sign hsign hhead]
    simp only [htake, hdrop]
    exact numberReading_eq_lexeme_iff.2 ⟨hany, rfl, rfl, rfl⟩

/-- Whether a text starts as hexadecimal numbers do. -/
def StartsHexadecimal (text : List Char) : Prop :=
  ∃ x left, text = '0' :: x :: left ∧ (x = 'x' ∨ x = 'X')

theorem readNumber_of_not_startsHexadecimal (h : ¬StartsHexadecimal text) :
    readNumber text = readDecimal text := by
  unfold readNumber
  split
  · next x left => rw [if_neg fun hx => h ⟨x, left, rfl, hx⟩]
  · rfl

theorem spells_of_readNumber (h : readNumber text = .lexeme lexeme n rest) :
    ∃ front, Spells front lexeme rest ∧ text = front ++ rest ∧ n = front.length := by
  by_cases hstarts : StartsHexadecimal text
  · obtain ⟨x, left, rfl, hx⟩ := hstarts
    simp only [readNumber, if_pos hx] at h
    obtain ⟨hdigits, hleft, rfl, rfl⟩ := numberReading_eq_lexeme_iff.1 h
    obtain ⟨hsplit, hall, hrest⟩ := takeWhile_eq_and_dropWhile_eq_iff.1 ⟨rfl, hleft⟩
    refine ⟨_, .hexadecimal hx ?_ hall hrest, ?_, rfl⟩
    · simpa using hdigits
    · rw [List.cons_append, List.cons_append, ← hsplit]
  · rw [readNumber_of_not_startsHexadecimal hstarts, readDecimal_eq_lexeme_iff] at h
    obtain ⟨sign, digits, rfl, rfl, hsign, hdigits, hany, hrest, rfl⟩ := h
    refine ⟨_, .decimal hsign hdigits hany hrest fun hzero x hx => ?_, rfl, rfl⟩
    rw [hzero] at hstarts
    cases rest with
    | nil => cases hx
    | cons x left =>
      cases hx
      exact not_or.1 fun hx => hstarts ⟨x, left, rfl, hx⟩

theorem readNumber_hexadecimal {x : Char} {digits : List Char} (hx : x = 'x' ∨ x = 'X')
    (hne : digits ≠ []) (hdigits : ∀ d ∈ digits, Character.isHexDigit d = true)
    (hrest : ∀ d ∈ rest.head?, Character.isHexDigit d = false) :
    readNumber ('0' :: x :: (digits ++ rest)) =
      .lexeme (.text .number (.ofList ('0' :: x :: digits)) false) (digits.length + 2) rest := by
  obtain ⟨htake, hdrop⟩ := takeWhile_eq_and_dropWhile_eq_iff.2 ⟨rfl, hdigits, hrest⟩
  simp only [readNumber, if_pos hx, htake, hdrop]
  exact numberReading_eq_lexeme_iff.2 ⟨by simpa using hne, rfl, rfl, rfl⟩

/-- What starts as a decimal number starts as a hexadecimal one only if it is a single `0`. -/
theorem not_startsHexadecimal {sign digits : List Char}
    (hsign : sign = [] ∨ sign = ['+'] ∨ sign = ['-'])
    (hdigits : ∀ d ∈ digits, isDecimalChar d = true) (hany : digits.any Char.isDigit = true)
    (hzero : sign ++ digits = ['0'] → ∀ d ∈ rest.head?, d ≠ 'x' ∧ d ≠ 'X') :
    ¬StartsHexadecimal (sign ++ digits ++ rest) := by
  rintro ⟨x, left, heq, hx⟩
  rcases hsign with rfl | rfl | rfl
  · cases digits with
    | nil => cases hany
    | cons zero digits =>
      simp only [List.nil_append, List.cons_append, List.cons.injEq] at heq
      obtain ⟨rfl, heq⟩ := heq
      cases digits with
      | nil =>
        rw [List.nil_append] at heq
        rw [heq] at hzero
        exact not_or.2 (hzero rfl x rfl) hx
      | cons d digits =>
        simp only [List.cons_append, List.cons.injEq] at heq
        have hd := hdigits d (by simp)
        rw [heq.1] at hd
        rcases hx with rfl | rfl <;> cases hd
  · simp at heq
  · simp at heq

/-! ## The reader of all lexemes -/

/-- The characters that symbols and quoted strings start with. -/
def marks : List Char := ['(', ')', ',', '=', '!', '<', '>', '\'']

/-- A class that holds no mark starts no symbol and no quoted string. -/
theorem not_mem_marks {p : Char → Bool} (hp : marks.any p = false) (hc : p c = true) :
    c ∉ marks :=
  fun hmem => List.any_eq_false.1 hp c hmem hc

/-- What starts with no mark is told by the class of its first character. -/
theorem read_of_not_mem_marks (hc : c ∉ marks) :
    read (c :: text) =
      match ReferenceKind.ofSigil? c with
      | some kind => readReference kind (c :: text)
      | none =>
          if Character.isNumberStart c then readNumber (c :: text)
          else if Character.isNameStart c then readName (c :: text)
          else .failure (.illegalCharacter c) 0 0 (c :: text) := by
  simp only [marks, List.mem_cons, List.not_mem_nil, or_false, not_or] at hc
  obtain ⟨h₁, h₂, h₃, h₄, h₅, h₆, h₇, h₈⟩ := hc
  exact read.eq_14 c text h₁ h₂ h₃ (fun _ h _ => h₄ h) h₄ (fun _ h _ => h₅ h) h₅
    (fun _ h _ => h₆ h) h₆ (fun _ h _ => h₇ h) h₇ h₈

theorem read_sigil (kind : ReferenceKind) (text : List Char) :
    read (kind.sigil :: text) = readReference kind (kind.sigil :: text) := by
  rw [read_of_not_mem_marks (by cases kind <;> decide), ReferenceKind.ofSigil?_sigil]

theorem read_of_isNumberStart (hc : Character.isNumberStart c = true) :
    read (c :: text) = readNumber (c :: text) := by
  rw [read_of_not_mem_marks (not_mem_marks (by decide) hc), Character.ofSigil?_of_isNumberStart hc]
  exact if_pos hc

theorem read_of_isNameStart (hc : Character.isNameStart c = true) :
    read (c :: text) = readName (c :: text) := by
  rw [read_of_not_mem_marks (not_mem_marks (by decide) hc), Character.ofSigil?_of_isNameStart hc]
  simp [Character.isNumberStart_of_isNameStart hc, hc]

theorem spells_of_read (h : read text = .lexeme lexeme n rest) :
    ∃ front, Spells front lexeme rest ∧ text = front ++ rest ∧ n = front.length := by
  unfold read at h
  split at h
  · cases h
    exact ⟨_, .ending, rfl, rfl⟩
  · cases h
    exact ⟨_, .leftParen, rfl, rfl⟩
  · cases h
    exact ⟨_, .rightParen, rfl, rfl⟩
  · cases h
    exact ⟨_, .comma, rfl, rfl⟩
  · cases h
    exact ⟨_, .relation .equal nofun, rfl, rfl⟩
  · cases h
  · cases h
    exact ⟨_, .relation .notEqual nofun, rfl, rfl⟩
  · next left hleft =>
    cases h
    exact ⟨_, .not (head?_ne_of_forall hleft), rfl, rfl⟩
  · cases h
    exact ⟨_, .relation .lessOrEqual nofun, rfl, rfl⟩
  · next left hleft =>
    cases h
    exact ⟨_, .relation .less fun _ => head?_ne_of_forall hleft, rfl, rfl⟩
  · cases h
    exact ⟨_, .relation .greaterOrEqual nofun, rfl, rfl⟩
  · next left hleft =>
    cases h
    exact ⟨_, .relation .greater fun _ => head?_ne_of_forall hleft, rfl, rfl⟩
  · obtain ⟨body, hbody, rfl, rfl, rfl⟩ := readQuoted_eq_lexeme_iff.1 h
    exact ⟨_, .quoted hbody, by simp, by simp [Nat.add_comm]⟩
  · next c left _ _ _ _ _ _ _ _ _ _ _ _ =>
    split at h
    · next kind hkind =>
      obtain ⟨group, hgroup, rfl, rfl, rfl⟩ := readReference_eq_lexeme_iff.1 h
      rw [ReferenceKind.ofSigil?_eq_some_iff.1 hkind]
      exact ⟨_, .reference hgroup, rfl, rfl⟩
    · split at h
      · exact spells_of_readNumber h
      · split at h
        · next hc =>
          obtain ⟨word, htext, rfl, hword, hrest, rfl⟩ := readName_eq_lexeme_iff.1 h
          cases word with
          | nil =>
            rw [List.nil_append] at htext
            have hname := hrest c (by rw [← htext]; rfl)
            simp [Character.isNameChar, hc] at hname
          | cons d word =>
            simp only [List.cons_append, List.cons.injEq] at htext
            obtain ⟨rfl, rfl⟩ := htext
            exact ⟨_, .name hc (fun e he => hword e (List.mem_cons_of_mem _ he)) hrest, rfl, rfl⟩
        · cases h

theorem isNumberStart_head {sign digits : List Char}
    (hsign : sign = [] ∨ sign = ['+'] ∨ sign = ['-'])
    (hdigits : ∀ d ∈ digits, isDecimalChar d = true) (hany : digits.any Char.isDigit = true) :
    ∃ c tail, sign ++ digits = c :: tail ∧ Character.isNumberStart c = true := by
  rcases hsign with rfl | rfl | rfl
  · cases digits with
    | nil => cases hany
    | cons d digits =>
      refine ⟨d, digits, rfl, ?_⟩
      have hd := hdigits d List.mem_cons_self
      simp only [isDecimalChar, Bool.or_eq_true, beq_iff_eq] at hd
      rw [Character.isNumberStart_iff]
      exact hd.elim (fun h => .inr (.inr (.inr h))) fun h => .inr (.inr (.inl h))
  · exact ⟨'+', digits, rfl, rfl⟩
  · exact ⟨'-', digits, rfl, rfl⟩

theorem read_of_spells (h : Spells front lexeme rest) :
    read (front ++ rest) = .lexeme lexeme front.length rest := by
  cases h with
  | ending => rfl
  | leftParen => rfl
  | rightParen => rfl
  | comma => rfl
  | relation op hrest =>
    cases op with
    | equal => rfl
    | notEqual => rfl
    | less => exact read.eq_10 rest fun _ h => hrest (.inl rfl) (by rw [h]; rfl)
    | greater => exact read.eq_12 rest fun _ h => hrest (.inr rfl) (by rw [h]; rfl)
    | lessOrEqual => rfl
    | greaterOrEqual => rfl
  | not hrest => exact read.eq_8 rest fun _ h => hrest (by rw [h]; rfl)
  | @name c word rest hc hword hrest =>
    rw [List.cons_append, read_of_isNameStart hc]
    refine readName_eq_lexeme_iff.2 ⟨c :: word, rfl, rfl, ?_, hrest, rfl⟩
    exact List.forall_mem_cons.2 ⟨by simp [Character.isNameChar, hc], hword⟩
  | hexadecimal hx hne hdigits hrest =>
    rw [List.cons_append, List.cons_append, read_of_isNumberStart rfl]
    exact readNumber_hexadecimal hx hne hdigits hrest
  | decimal hsign hdigits hany hrest hzero =>
    have hnumber := readNumber_of_not_startsHexadecimal
      (not_startsHexadecimal hsign hdigits hany hzero)
    obtain ⟨c, tail, heq, hc⟩ := isNumberStart_head hsign hdigits hany
    rw [heq, List.cons_append, read_of_isNumberStart hc, ← List.cons_append, ← heq, hnumber]
    exact readDecimal_eq_lexeme_iff.2 ⟨_, _, rfl, rfl, hsign, hdigits, hany, hrest, rfl⟩
  | reference hgroup =>
    rw [List.cons_append, read_sigil]
    exact readReference_eq_lexeme_iff.2 ⟨_, hgroup, rfl, rfl, rfl⟩
  | @quoted body rest hbody =>
    rw [List.cons_append, List.append_assoc, List.singleton_append, read.eq_13,
      readQuoted_quotable hbody]
    simp [Nat.add_comm]

/-- A lexeme is read exactly where a spelling of it comes next that does not go on. -/
theorem read_eq_lexeme_iff :
    read text = .lexeme lexeme n rest ↔
      ∃ front, Spells front lexeme rest ∧ text = front ++ rest ∧ n = front.length := by
  constructor
  · exact spells_of_read
  · intro h
    rcases h with ⟨front, hfront, rfl, rfl⟩
    exact read_of_spells hfront

/-! ## What a spelling starts with and what follows it -/

namespace Spells

/-- A spelling starts with no blank. -/
theorem not_isBlank_head (h : Spells front lexeme rest) :
    ∀ c ∈ front.head?, Text.isBlank c = false := by
  intro c hc
  cases h with
  | ending => cases hc
  | leftParen | rightParen | comma | not => cases hc; decide
  | relation op hrest => cases op <;> cases hc <;> decide
  | name hc' _ _ =>
    cases hc
    rw [← Bool.not_eq_true]
    intro hblank
    rw [Character.isNameStart_of_isBlank hblank] at hc'
    cases hc'
  | hexadecimal => cases hc; decide
  | decimal hsign hdigits hany _ _ =>
    obtain ⟨d, tail, heq, hd⟩ := isNumberStart_head hsign hdigits hany
    rw [heq] at hc
    cases hc
    rw [← Bool.not_eq_true]
    intro hblank
    rw [Character.isNumberStart_of_isBlank hblank] at hd
    cases hd
  | @reference kind => cases hc; exact Character.sigil_not_isBlank kind
  | quoted => cases hc; decide

theorem eq_nil_iff (h : Spells front lexeme rest) :
    front = [] ↔ lexeme = .symbol .endOfInput := by
  cases h with
  | ending => simp
  | leftParen | rightParen | comma | not => simp
  | relation op hrest => cases op <;> simp [Relation.symbol]
  | name => simp [ofName_ne_endOfInput]
  | hexadecimal => simp
  | decimal hsign hdigits hany _ _ =>
    obtain ⟨d, tail, heq, -⟩ := isNumberStart_head hsign hdigits hany
    simp [heq]
  | reference => simp
  | quoted => simp

/-- Nothing follows the end of the input. -/
theorem rest_eq_nil (h : Spells front (.symbol .endOfInput) rest) : rest = [] := by
  generalize hlexeme : Lexeme.symbol .endOfInput = lexeme at h
  cases h with
  | ending => rfl
  | name => exact absurd hlexeme.symm (ofName_ne_endOfInput _ _)
  | _ => cases hlexeme

end Spells

/-! ## Cutting short what follows a spelling -/

variable {more : List Char}

theorem mem_head?_append {d : Char} (h : d ∈ rest.head?) : d ∈ (rest ++ more).head? := by
  cases rest with
  | nil => cases h
  | cons e rest => exact h

theorem head?_ne_of_append {d : Char} (h : (rest ++ more).head? ≠ some d) :
    rest.head? ≠ some d :=
  fun hhead => h (mem_head?_append hhead)

/-- The first character that is no blank stays the same if it is not cut off. -/
theorem head?_dropBlanks_append {d : Char} (h : (Text.dropBlanks rest).head? = some d) :
    (Text.dropBlanks (rest ++ more)).head? = some d := by
  unfold Text.dropBlanks at h ⊢
  rw [List.dropWhile_append]
  split
  · next hempty =>
    rw [List.isEmpty_iff.1 hempty] at h
    cases h
  · exact mem_head?_append h

theorem exists_head?_dropBlanks (h : ∃ c ∈ rest, Text.isBlank c = false) :
    ∃ d, (Text.dropBlanks rest).head? = some d := by
  obtain ⟨c, hc, hblank⟩ := h
  cases hdrop : Text.dropBlanks rest with
  | cons d left => exact ⟨d, rfl⟩
  | nil =>
    have hall := List.dropWhile_eq_nil_iff.1 hdrop c hc
    rw [hblank] at hall
    cases hall

/-- What a name is does not change if the text behind it is cut short, unless it is the name of a
function and the parenthesis is cut off. -/
theorem ofName_append (name : String)
    (h : (ofName name (rest ++ more)).kind = .text .function →
      ∃ c ∈ rest, Text.isBlank c = false) :
    ofName name (rest ++ more) = ofName name rest := by
  unfold ofName at h ⊢
  split
  · rfl
  · next hkeyword =>
    rw [hkeyword] at h
    by_cases hparen : (Text.dropBlanks rest).head? = some '('
    · rw [if_pos hparen, if_pos (head?_dropBlanks_append hparen)]
    · rw [if_neg hparen]
      by_cases hmore : (Text.dropBlanks (rest ++ more)).head? = some '('
      · simp only [hmore, if_true] at h
        obtain ⟨d, hd⟩ := exists_head?_dropBlanks (h rfl)
        rw [head?_dropBlanks_append hd] at hmore
        exact absurd (hd.trans hmore) hparen
      · rw [if_neg hmore]

/-- A spelling is one whatever is cut off the text behind it, unless that is the parenthesis behind
the name of a function. -/
theorem Spells.truncate (h : Spells front lexeme (rest ++ more))
    (hfunction : lexeme.kind = .text .function → ∃ c ∈ rest, Text.isBlank c = false) :
    Spells front lexeme rest := by
  generalize hall : rest ++ more = all at h
  cases h with
  | ending =>
    rw [(List.append_eq_nil_iff.1 hall).1]
    exact .ending
  | leftParen => exact .leftParen
  | rightParen => exact .rightParen
  | comma => exact .comma
  | relation op hrest =>
    subst hall
    exact .relation op fun hop => head?_ne_of_append (hrest hop)
  | not hrest =>
    subst hall
    exact .not (head?_ne_of_append hrest)
  | name hc hword hrest =>
    subst hall
    rw [ofName_append _ hfunction]
    exact .name hc hword fun d hd => hrest d (mem_head?_append hd)
  | hexadecimal hx hne hdigits hrest =>
    subst hall
    exact .hexadecimal hx hne hdigits fun d hd => hrest d (mem_head?_append hd)
  | decimal hsign hdigits hany hrest hzero =>
    subst hall
    exact .decimal hsign hdigits hany (fun d hd => hrest d (mem_head?_append hd))
      fun hfront d hd => hzero hfront d (mem_head?_append hd)
  | reference hgroup => exact .reference hgroup
  | quoted hbody => exact .quoted hbody

end Lexeme

end CondLang
