import CondLang.Proofs.Text.Utf8
import CondLang.Text.Escape

/-!
# Decoding escapes

The decoder goes over bytes; `units` says what it finds in terms of characters: characters that
stand for themselves, and escapes that stand for a byte each (`decodeEscapes_encode`).  From this
follow two laws of `unescape`.

* It changes nothing or makes a text shorter (`unescape_eq_or_length_lt`): an escape of three
  characters comes to one at most.
* Texts that are joined by a character which is part of no escape may be decoded one by one
  (`unescape_intercalate`).

So decoding joined texts once more changes nothing only if it changes none of them
(`intercalate_map_unescape_eq_iff`).
-/

namespace CondLang.Text

open Utf8 (bytesOf encode)

/-! ## Escapes in bytes -/

theorem lt_of_hexValue? {byte value : Nat} (h : hexValue? byte = some value) : byte < 0x80 := by
  unfold hexValue? at h
  split_ifs at h <;> omega

theorem hexPair?_eq_some {high low byte : Nat} (h : hexPair? high low = some byte) :
    high < 0x80 ∧ low < 0x80 := by
  unfold hexPair? at h
  split at h
  · next hhigh hlow => exact ⟨lt_of_hexValue? hhigh, lt_of_hexValue? hlow⟩
  · cases h

theorem decodeEscapes_percent {rest : List Nat}
    (h : ∀ high low behind, rest = high :: low :: behind → hexPair? high low = none) :
    decodeEscapes (0x25 :: rest) = 0x25 :: decodeEscapes rest := by
  rw [decodeEscapes.eq_def]
  split
  · next high low behind heq =>
    cases heq
    rw [h _ _ _ rfl]
  · next heq =>
    cases heq
    rfl
  · next heq => cases heq

theorem decodeEscapes_cons {byte : Nat} (h : byte ≠ 0x25) (rest : List Nat) :
    decodeEscapes (byte :: rest) = byte :: decodeEscapes rest := by
  rw [decodeEscapes]
  intro high low behind heq
  exact absurd heq h

theorem decodeEscapes_append {front : List Nat} (h : 0x25 ∉ front) (rest : List Nat) :
    decodeEscapes (front ++ rest) = front ++ decodeEscapes rest := by
  induction front with
  | nil => rfl
  | cons byte front ih =>
    rw [List.mem_cons, not_or] at h
    rw [List.cons_append, decodeEscapes_cons (Ne.symm h.1), ih h.2, List.cons_append]

/-! ## Escapes in text -/

/-- What is found in a text: a character that stands for itself, or an escape that stands for a
byte. -/
inductive EscapeUnit where
  | plain (c : Char)
  | escape (byte : Nat)

/-- The bytes that are found. -/
def EscapeUnit.bytes : EscapeUnit → List Nat
  | plain c => bytesOf c.toNat
  | escape byte => [byte]

/-- What is found in a text, from left to right. -/
def units : List Char → List EscapeUnit
  | '%' :: high :: low :: rest =>
      match hexPair? high.toNat low.toNat with
      | some byte => .escape byte :: units rest
      | none => .plain '%' :: units (high :: low :: rest)
  | c :: rest => .plain c :: units rest
  | [] => []

/-- Two hexadecimal digits among the bytes of a text are two characters of it. -/
theorem exists_of_hexPair?_encode {text : List Char} {high low byte : Nat} {rest : List Nat}
    (htext : encode text = high :: low :: rest) (h : hexPair? high low = some byte) :
    ∃ c d behind, text = c :: d :: behind ∧ c.toNat = high ∧ d.toNat = low := by
  obtain ⟨hhigh, hlow⟩ := hexPair?_eq_some h
  have hfirst : ∀ (c : Char) (text : List Char) (byte : Nat) (rest : List Nat),
      encode (c :: text) = byte :: rest → byte < 0x80 → c.toNat = byte ∧ encode text = rest := by
    intro c text byte rest heq hbyte
    rw [encode, List.flatMap_cons] at heq
    by_cases hascii : c.toNat < 0x80
    · rw [Utf8.bytesOf_of_ascii hascii] at heq
      cases heq
      exact ⟨rfl, rfl⟩
    · obtain ⟨first, others, hbytes, hlead, -⟩ :=
        Utf8.exists_bytesOf_eq_cons (Nat.not_lt.1 hascii)
      rw [hbytes] at heq
      cases heq
      omega
  cases text with
  | nil => cases htext
  | cons c text =>
    obtain ⟨hc, htext⟩ := hfirst c text high _ htext hhigh
    cases text with
    | nil => cases htext
    | cons d text =>
      obtain ⟨hd, -⟩ := hfirst d text low _ htext hlow
      exact ⟨c, d, text, rfl, hc, hd⟩

theorem encode_cons (c : Char) (text : List Char) :
    encode (c :: text) = bytesOf c.toNat ++ encode text := List.flatMap_cons

/-- A percent sign in front of anything but two hexadecimal digits stands for itself. -/
theorem decodeEscapes_encode_percent {rest : List Char}
    (h : ∀ high low behind, rest = high :: low :: behind →
      hexPair? high.toNat low.toNat = none) :
    decodeEscapes (encode ('%' :: rest)) = bytesOf '%'.toNat ++ decodeEscapes (encode rest) := by
  refine decodeEscapes_percent fun high low behind heq => ?_
  cases hpair : hexPair? high low with
  | none => rfl
  | some byte =>
    obtain ⟨c, d, others, htext, rfl, rfl⟩ := exists_of_hexPair?_encode heq hpair
    rw [h c d others htext] at hpair
    cases hpair

/-- Any other character stands for itself. -/
theorem decodeEscapes_encode_cons {c : Char} (h : c ≠ '%') (rest : List Char) :
    decodeEscapes (encode (c :: rest)) = bytesOf c.toNat ++ decodeEscapes (encode rest) := by
  rw [encode_cons]
  refine decodeEscapes_append ?_ _
  by_cases hascii : c.toNat < 0x80
  · rw [Utf8.bytesOf_of_ascii hascii, List.mem_singleton]
    intro hpercent
    exact h (Char.toNat_inj.1 hpercent.symm)
  · obtain ⟨first, others, hbytes, hfirst, hothers⟩ :=
      Utf8.exists_bytesOf_eq_cons (Nat.not_lt.1 hascii)
    rw [hbytes, List.mem_cons]
    rintro (hpercent | hpercent)
    · omega
    · have := hothers _ hpercent
      omega

/-- The decoder finds the units of a text. -/
theorem decodeEscapes_encode (text : List Char) :
    decodeEscapes (encode text) = (units text).flatMap EscapeUnit.bytes := by
  fun_induction units text with
  | case1 high low rest byte hpair ih =>
    obtain ⟨hhigh, hlow⟩ := hexPair?_eq_some hpair
    rw [encode_cons, encode_cons, encode_cons, Utf8.bytesOf_of_ascii hhigh,
      Utf8.bytesOf_of_ascii hlow, List.flatMap_cons, ← ih]
    show decodeEscapes (0x25 :: high.toNat :: low.toNat :: encode rest) = _
    rw [decodeEscapes, hpair]
    rfl
  | case2 high low rest hpair ih =>
    rw [decodeEscapes_encode_percent, ih]
    · rfl
    · intro high' low' rest' heq
      cases heq
      exact hpair
  | case3 c rest hshort ih =>
    by_cases hc : c = '%'
    · subst hc
      rw [decodeEscapes_encode_percent fun high low behind heq =>
        (hshort high low behind rfl heq).elim, ih]
      rfl
    · rw [decodeEscapes_encode_cons hc, ih]
      rfl
  | case4 => rfl

/-! ## Decoding shortens -/

/-- Escapes take three characters each. -/
theorem units_eq_or_length_lt (text : List Char) :
    units text = text.map .plain ∨ (units text).length < text.length := by
  fun_induction units text with
  | case1 high low rest byte hpair ih =>
    refine .inr ?_
    rcases ih with ih | ih
    · rw [ih]
      simp
    · simp only [List.length_cons]
      omega
  | case2 high low rest hpair ih =>
    rcases ih with ih | ih
    · exact .inl (by rw [ih]; rfl)
    · exact .inr (Nat.succ_lt_succ ih)
  | case3 c rest hshort ih =>
    rcases ih with ih | ih
    · exact .inl (by rw [ih]; rfl)
    · exact .inr (Nat.succ_lt_succ ih)
  | case4 => exact .inl rfl

/-- Each unit comes to one character at most. -/
theorem length_decodeFrom_units_le {state : Option Utf8.Pending} (h : Utf8.Continuing state)
    (found : List EscapeUnit) :
    (Utf8.decodeFrom state (found.flatMap EscapeUnit.bytes)).length ≤
      found.length + Utf8.owed state := by
  induction found generalizing state with
  | nil => cases state <;> exact Nat.le_of_eq rfl
  | cons unit found ih =>
    rw [List.flatMap_cons, List.length_cons]
    cases unit with
    | plain c =>
      have hrest := ih Utf8.continuing_none
      cases state with
      | none =>
        rw [EscapeUnit.bytes, Utf8.decodeFrom_bytesOf, List.length_cons]
        exact Nat.succ_le_succ hrest
      | some pending =>
        rw [EscapeUnit.bytes, Utf8.decodeFrom_some_bytesOf h, List.length_cons, List.length_cons]
        exact Nat.succ_le_succ (Nat.succ_le_succ hrest)
    | escape byte =>
      have hstep := Utf8.length_step_le state byte
      have hrest := ih (h.step byte)
      show (Utf8.decodeFrom state (byte :: found.flatMap EscapeUnit.bytes)).length ≤ _
      rw [Utf8.decodeFrom_cons, List.length_append]
      omega

/-- Decoding changes nothing or makes a text shorter. -/
theorem unescape_eq_or_length_lt (text : String) :
    unescape text = text ∨ (unescape text).length < text.length := by
  rw [unescape, decodeEscapes_encode]
  rcases units_eq_or_length_lt text.toList with hplain | hshorter
  · have hbytes : (units text.toList).flatMap EscapeUnit.bytes = encode text.toList := by
      rw [hplain, List.flatMap_map]
      rfl
    rw [hbytes, Utf8.decode_encode, String.ofList_toList]
    exact .inl rfl
  · have hle := length_decodeFrom_units_le Utf8.continuing_none (units text.toList)
    rw [String.length_ofList, ← String.length_toList]
    exact .inr (Nat.lt_of_le_of_lt hle hshorter)

/-! ## Decoding in parts -/

theorem decodeEscapes_append_cons {byte : Nat} (hne : byte ≠ 0x25) (hhex : hexValue? byte = none)
    (before behind : List Nat) :
    decodeEscapes (before ++ byte :: behind) =
      decodeEscapes before ++ byte :: decodeEscapes behind := by
  have hpair : ∀ first second : Nat, first = byte ∨ second = byte →
      hexPair? first second = none := by
    intro first second h
    unfold hexPair?
    split
    · next hfirst hsecond =>
      rcases h with rfl | rfl
      · rw [hhex] at hfirst
        cases hfirst
      · rw [hhex] at hsecond
        cases hsecond
    · rfl
  fun_induction decodeEscapes before with
  | case1 high low rest value hvalue ih =>
    show decodeEscapes (0x25 :: high :: low :: (rest ++ byte :: behind)) = _
    rw [decodeEscapes, hvalue, ih]
    rfl
  | case2 high low rest hvalue ih =>
    rw [List.cons_append, decodeEscapes_percent, ih]
    · rfl
    · intro high' low' behind' heq
      cases heq
      exact hvalue
  | case3 first rest hshort ih =>
    rw [List.cons_append, List.cons_append, ← ih]
    by_cases hfirst : first = 0x25
    · subst hfirst
      refine decodeEscapes_percent fun high low behind' heq => ?_
      -- Too few bytes stand in front of `byte` for two digits.
      rcases rest with _ | ⟨high', _ | ⟨low', rest⟩⟩
      · cases heq
        exact hpair _ _ (.inl rfl)
      · cases heq
        exact hpair _ _ (.inr rfl)
      · exact (hshort high' low' rest rfl rfl).elim
    · exact decodeEscapes_cons hfirst _
  | case4 => exact decodeEscapes_cons hne _

/-- Whether a character is ASCII and part of no escape. -/
structure Separates (c : Char) : Prop where
  ascii : c.toNat < 0x80
  ne_percent : c ≠ '%'
  not_hex : hexValue? c.toNat = none

theorem unescape_append_singleton {c : Char} (h : Separates c) (before behind : String) :
    unescape (before ++ String.singleton c ++ behind) =
      unescape before ++ String.singleton c ++ unescape behind := by
  have hencode : encode (before ++ String.singleton c ++ behind).toList =
      encode before.toList ++ c.toNat :: encode behind.toList := by
    rw [String.toList_append, String.toList_append, String.toList_singleton, List.append_assoc,
      List.singleton_append, encode, List.flatMap_append, List.flatMap_cons,
      Utf8.bytesOf_of_ascii h.ascii]
    rfl
  have hne : c.toNat ≠ 0x25 := fun hpercent => h.ne_percent (Char.toNat_inj.1 hpercent)
  rw [unescape, hencode, decodeEscapes_append_cons hne h.not_hex,
    Utf8.decode_append_ascii _ h.ascii, Char.ofNat_toNat, String.ofList_append, String.append_assoc,
    ← List.singleton_append, String.ofList_append]
  rfl

/-- Texts joined by a character that separates them are decoded one by one. -/
theorem unescape_intercalate {c : Char} (h : Separates c) (texts : List String) :
    unescape ((String.singleton c).intercalate texts) =
      (String.singleton c).intercalate (texts.map unescape) := by
  induction texts with
  | nil => rfl
  | cons first others ih =>
    cases others with
    | nil => rw [List.map_singleton, String.intercalate_singleton, String.intercalate_singleton]
    | cons second others =>
      rw [List.map_cons, List.map_cons, String.intercalate_cons_cons, String.intercalate_cons_cons,
        ← List.map_cons, ← ih, unescape_append_singleton h]

theorem length_unescape_le (text : String) : (unescape text).length ≤ text.length := by
  rcases unescape_eq_or_length_lt text with heq | hlt
  · exact Nat.le_of_eq (congrArg String.length heq)
  · exact Nat.le_of_lt hlt

theorem length_intercalate_map_unescape_le (separator : String) (texts : List String) :
    (separator.intercalate (texts.map unescape)).length ≤
      (separator.intercalate texts).length := by
  induction texts with
  | nil => exact Nat.le_refl _
  | cons first others ih =>
    have hfirst := length_unescape_le first
    cases others with
    | nil =>
      rw [List.map_singleton, String.intercalate_singleton, String.intercalate_singleton]
      exact hfirst
    | cons second others =>
      rw [List.map_cons, List.map_cons, String.intercalate_cons_cons, String.intercalate_cons_cons,
        ← List.map_cons, String.length_append, String.length_append, String.length_append,
        String.length_append]
      exact Nat.add_le_add (Nat.add_le_add_right hfirst _) ih

/-- Texts that are decoded and joined are the texts joined only if decoding changes none of them:
it makes none longer, so what one loses no other makes good. -/
theorem intercalate_map_unescape_eq_iff (separator : String) (texts : List String) :
    separator.intercalate (texts.map unescape) = separator.intercalate texts ↔
      ∀ text ∈ texts, unescape text = text := by
  refine ⟨fun h => ?_, fun h => by rw [List.map_congr_left h, List.map_id']⟩
  induction texts with
  | nil => nofun
  | cons first others ih =>
    cases others with
    | nil =>
      rw [List.map_singleton, String.intercalate_singleton, String.intercalate_singleton] at h
      rwa [List.forall_mem_singleton]
    | cons second others =>
      rw [List.map_cons, List.map_cons, String.intercalate_cons_cons, String.intercalate_cons_cons,
        ← List.map_cons] at h
      rw [List.forall_mem_cons]
      rcases unescape_eq_or_length_lt first with heq | hlt
      · rw [heq, String.append_right_inj] at h
        exact ⟨heq, ih h⟩
      · have hlength := congrArg String.length h
        have hle := length_intercalate_map_unescape_le separator (second :: others)
        simp only [String.length_append] at hlength
        omega

end CondLang.Text
