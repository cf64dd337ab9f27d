import CondLang.Character
import CondLang.Proofs.Text.Classes
import CondLang.Proofs.Text.Escape
import CondLang.Text.Digits

/-!
# Decoding undoes percent encoding

A text may be written with any of its characters as escapes, one for each byte of the character and
with digits of any case; only a percent sign must be.  `PercentEncodes` relates a text to all the
ways of writing it.  Decoding gives the text back from each of them, and changes no text that holds
no escape (`unescape_percentEncoded`).

Both follow from the units that the decoder finds.  Those of an encoding have the bytes of the text,
and a text without escapes has no units but its characters.
-/

namespace CondLang

/-! ## Hexadecimal digits -/

theorem Character.isHexDigit_iff {c : Char} : isHexDigit c = true ↔
    48 ≤ c.toNat ∧ c.toNat ≤ 57 ∨ 97 ≤ c.toNat ∧ c.toNat ≤ 102 ∨
      65 ≤ c.toNat ∧ c.toNat ≤ 70 := by
  simp [isHexDigit, isHexLetter, Char.isDigit, Char.le_def, UInt32.le_iff_toNat_le]

namespace Text

open Character (isHexDigit)
open Utf8 (bytesOf encode)

/-- The digits that the decoder knows by their bytes are the hexadecimal digits. -/
theorem hexValue?_toNat (c : Char) :
    hexValue? c.toNat = if isHexDigit c then some (hexDigitValue c) else none := by
  have hlower : 'a' ≤ c ↔ 97 ≤ c.toNat := by
    simp [Char.le_def, UInt32.le_iff_toNat_le]
  have hvalue : hexDigitValue c =
      if 48 ≤ c.toNat ∧ c.toNat ≤ 57 then c.toNat - 48
      else if 97 ≤ c.toNat then c.toNat - 97 + 10 else c.toNat - 65 + 10 := by
    simp only [hexDigitValue, Character.isDigit_iff, hlower]
    rfl
  simp only [hexValue?, hvalue, Character.isHexDigit_iff]
  split_ifs <;> first | rfl | omega

theorem hexPair?_of_isHexDigit {high low : Char} (hhigh : isHexDigit high = true)
    (hlow : isHexDigit low = true) :
    hexPair? high.toNat low.toNat = some (16 * hexDigitValue high + hexDigitValue low) := by
  simp only [hexPair?, hexValue?_toNat, hhigh, hlow, if_true]

theorem isHexDigit_of_hexPair? {high low : Char} {byte : Nat}
    (h : hexPair? high.toNat low.toNat = some byte) :
    isHexDigit high = true ∧ isHexDigit low = true := by
  simp only [hexPair?, hexValue?_toNat] at h
  split at h
  · next hhigh hlow =>
    exact ⟨(Option.ite_none_right_eq_some.1 hhigh).1, (Option.ite_none_right_eq_some.1 hlow).1⟩
  · cases h

/-! ## Encodings -/

/-- The characters write the bytes, each as a percent sign and two hexadecimal digits. -/
inductive EscapesOf : List UInt8 → List Char → Prop where
  | nil : EscapesOf [] []
  | cons {byte : UInt8} {bytes : List UInt8} {high low : Char} {written : List Char}
      (hhigh : isHexDigit high = true) (hlow : isHexDigit low = true)
      (hbyte : 16 * hexDigitValue high + hexDigitValue low = byte.toNat)
      (hwritten : EscapesOf bytes written) :
      EscapesOf (byte :: bytes) ('%' :: high :: low :: written)

/-- The second text writes the first one, in which each character stands for itself or is written
as the escapes of its bytes. -/
inductive PercentEncodes : List Char → List Char → Prop where
  | nil : PercentEncodes [] []
  | plain {c : Char} {text written : List Char} (hc : c ≠ '%') (h : PercentEncodes text written) :
      PercentEncodes (c :: text) (c :: written)
  | escaped {c : Char} {text escapes written : List Char}
      (hescapes : EscapesOf (String.utf8EncodeChar c) escapes) (h : PercentEncodes text written) :
      PercentEncodes (c :: text) (escapes ++ written)

/-- The bytes of a character are those of strings. -/
theorem bytesOf_toNat (c : Char) :
    bytesOf c.toNat = (String.utf8EncodeChar c).map (·.toNat) := by
  have hvalid : c.toNat < 0xD800 ∨ 0xDFFF < c.toNat ∧ c.toNat < 0x110000 := c.valid
  have hcode : c.val.toNat = c.toNat := rfl
  simp only [String.utf8EncodeChar, hcode, bytesOf]
  generalize c.toNat = code at hvalid
  split_ifs <;> simp <;> omega

/-! ## What the decoder finds in them -/

theorem units_cons {c : Char} (h : c ≠ '%') (rest : List Char) :
    units (c :: rest) = .plain c :: units rest := by
  rw [units]
  intro high low behind hc
  exact absurd hc h

/-- The escapes of bytes are found one by one. -/
theorem EscapesOf.units_append {bytes : List UInt8} {escapes : List Char}
    (h : EscapesOf bytes escapes) (rest : List Char) :
    units (escapes ++ rest) = bytes.map (.escape ·.toNat) ++ units rest := by
  induction h with
  | nil => rfl
  | @cons byte bytes high low written hhigh hlow hbyte _ ih =>
    have hpair := hexPair?_of_isHexDigit hhigh hlow
    rw [hbyte] at hpair
    simp only [List.cons_append, units, hpair, ih, List.map_cons]

/-- The units of an encoding have the bytes of the text. -/
theorem PercentEncodes.flatMap_bytes_units {text written : List Char}
    (h : PercentEncodes text written) : (units written).flatMap EscapeUnit.bytes = encode text := by
  induction h with
  | nil => rfl
  | @plain c text written hc _ ih =>
    rw [units_cons hc, List.flatMap_cons, ih, encode_cons]
    rfl
  | @escaped c text escapes written hescapes _ ih =>
    have hbytes (bytes : List UInt8) :
        (bytes.map fun byte => EscapeUnit.escape byte.toNat).flatMap EscapeUnit.bytes =
          bytes.map (·.toNat) := by
      induction bytes with
      | nil => rfl
      | cons byte bytes ih => exact congrArg (byte.toNat :: ·) ih
    rw [hescapes.units_append, List.flatMap_append, ih, hbytes, encode_cons, bytesOf_toNat]

/-! ## Decoding -/

/-- A percent sign with two hexadecimal digits behind it stands in the text. -/
def HoldsEscape (text : List Char) : Prop :=
  ∃ before high low behind, text = before ++ '%' :: high :: low :: behind ∧
    isHexDigit high = true ∧ isHexDigit low = true

/-- Without escapes every character stands for itself. -/
theorem units_eq_map_plain {text : List Char} (h : ¬ HoldsEscape text) :
    units text = text.map .plain := by
  induction text with
  | nil => rfl
  | cons c rest ih =>
    have hrest : ¬ HoldsEscape rest := by
      rintro ⟨before, high, low, behind, rfl, hdigits⟩
      exact h ⟨c :: before, high, low, behind, rfl, hdigits⟩
    rw [List.map_cons, ← ih hrest]
    by_cases hc : c = '%'
    · subst hc
      rcases rest with _ | ⟨high, _ | ⟨low, behind⟩⟩
      · rfl
      · rfl
      · cases hpair : hexPair? high.toNat low.toNat with
        | none => simp only [units, hpair]
        | some byte =>
          exact absurd ⟨[], high, low, behind, rfl, isHexDigit_of_hexPair? hpair⟩ h
    · exact units_cons hc rest

/-- What is decoded is the text whose bytes are found. -/
theorem unescape_of_units {text written : String}
    (h : (units written.toList).flatMap EscapeUnit.bytes = encode text.toList) :
    unescape written = text := by
  rw [unescape, decodeEscapes_encode, h, Utf8.decode_encode, String.ofList_toList]

theorem unescape_of_not_holdsEscape {text : String} (h : ¬ HoldsEscape text.toList) :
    unescape text = text := by
  refine unescape_of_units ?_
  rw [units_eq_map_plain h, List.flatMap_map]
  rfl

/-- A text without a percent sign has no escapes. -/
theorem unescape_of_not_mem {text : String} (h : '%' ∉ text.toList) : unescape text = text := by
  refine unescape_of_not_holdsEscape ?_
  rintro ⟨before, high, low, behind, htext, -⟩
  exact h (htext ▸ List.mem_append_right _ List.mem_cons_self)

/-- Decoding gives a text back from each of its encodings, and leaves a text as it is that holds no
escape. -/
theorem unescape_percentEncoded :
    (∀ text written : String, PercentEncodes text.toList written.toList →
      unescape written = text) ∧
    ∀ text : String, ¬ HoldsEscape text.toList → unescape text = text :=
  ⟨fun _ _ h => unescape_of_units h.flatMap_bytes_units,
    fun _ h => unescape_of_not_holdsEscape h⟩

/-- Digits of both cases, a character beyond ASCII as escapes and another as itself, and an escaped
percent sign in front of digits; percent signs that start no escape. -/
theorem unescape_percentEncoded_mixed :
    PercentEncodes "é%41λ".toList "%c3%A9%2541λ".toList ∧ unescape "%c3%A9%2541λ" = "é%41λ" ∧
      ¬ HoldsEscape "100%zé%4".toList ∧ unescape "100%zé%4" = "100%zé%4" := by
  have hencodes : PercentEncodes "é%41λ".toList "%c3%A9%2541λ".toList := by
    have hacute : EscapesOf (String.utf8EncodeChar 'é') "%c3%A9".toList :=
      .cons (by decide) (by decide) (by decide) (.cons (by decide) (by decide) (by decide) .nil)
    have hpercent : EscapesOf (String.utf8EncodeChar '%') "%25".toList :=
      .cons (by decide) (by decide) (by decide) .nil
    exact .escaped hacute (.escaped hpercent
      (.plain (by decide) (.plain (by decide) (.plain (by decide) .nil))))
  have hplain : ¬ HoldsEscape "100%zé%4".toList := by
    rintro ⟨before, high, low, behind, heq, hhigh, -⟩
    -- Two characters follow the first percent sign only, and the first of them is no digit.
    obtain ⟨-, -, -, -, -, -, -, rfl, -⟩ : ∃ as, before = '1' :: as ∧ ∃ bs, as = '0' :: bs ∧
        ∃ cs, bs = '0' :: cs ∧ cs = [] ∧ high = 'z' ∧ low = 'é' ∧ behind = ['%', '4'] := by
      simpa [List.cons_eq_append_iff] using heq
    cases hhigh
  exact ⟨hencodes, unescape_percentEncoded.1 _ _ hencodes, hplain,
    unescape_percentEncoded.2 _ hplain⟩

end Text

end CondLang
