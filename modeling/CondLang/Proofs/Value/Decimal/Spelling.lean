import CondLang.Proofs.Value.Decimal
import Mathlib.Data.List.DropRight
import Mathlib.Tactic.FieldSimp
import Mathlib.Tactic.Ring

/-!
# Decimal numbers as they are written

A number is spelled with an optional sign and ASCII digits, of which there is at least one and among
which there may be a point (`Decimal.Spelling`).  A text that is no spelling and no hexadecimal
number is no number at all.  A spelling whose digits are in range, read without the point, is read
as the very rational number that it writes: nothing is rounded.  So how a number is spelled makes no
difference when it is compared (`Decimal.reads_exactly`).
-/

namespace CondLang

namespace Text

theorem decimalValue_append (front back : List Char) :
    decimalValue (front ++ back) =
      decimalValue front * 10 ^ back.length + decimalValue back := by
  simp only [decimalValue_eq_ofDigitChars, Nat.ofDigitChars_append]
  rw [Nat.ofDigitChars_eq_ofDigitChars_zero, Nat.mul_comm]

end Text

namespace Decimal

/-- The sign in front of a number. -/
inductive Sign where
  | none
  | plus
  | minus
  deriving DecidableEq

/-- The characters of a sign. -/
def Sign.text : Sign → List Char
  | none => []
  | plus => ['+']
  | minus => ['-']

/-- A way of writing a number: whole digits, and a point with more digits if there is a fraction.
Either may be empty, but not both. -/
structure Spelling where
  sign : Sign
  whole : List Char
  fraction : Option (List Char)
  whole_digits : ∀ c ∈ whole, c.isDigit = true
  fraction_digits : ∀ c ∈ fraction.getD [], c.isDigit = true
  some_digit : whole ++ fraction.getD [] ≠ []

/-- Characters write a number in base sixteen: `0x` or `0X`, and digits behind it. -/
def WritesHex (text digits : List Char) : Prop :=
  ∃ x, text = '0' :: x :: digits ∧ (x = 'x' ∨ x = 'X') ∧ digits ≠ [] ∧
    ∀ c ∈ digits, Character.isHexDigit c = true

namespace Spelling

/-- The digits behind the point. -/
def decimals (s : Spelling) : List Char := s.fraction.getD []

/-- The characters behind the sign. -/
def unsigned (s : Spelling) : List Char := s.whole ++ s.fraction.elim [] ('.' :: ·)

/-- The characters of a number. -/
def text (s : Spelling) : List Char := s.sign.text ++ s.unsigned

/-- The rational number that is written. -/
def value (s : Spelling) : ℚ :=
  (if s.sign = .minus then -1 else 1) *
    (Text.decimalValue s.whole + Text.decimalValue s.decimals / 10 ^ s.decimals.length)

/-- There are at most 28 decimals, and without the point the digits write a number below
`2 ^ 96`. -/
structure InRange (s : Spelling) : Prop where
  decimals_le : s.decimals.length ≤ 28
  digits_lt : Text.decimalValue (s.whole ++ s.decimals) < 2 ^ 96

/-- Two spellings differ at most in a plus sign, in leading zeros, in zeros behind the last decimal,
and in whether there is a point. -/
structure Alike (s t : Spelling) : Prop where
  sign : s.sign = .minus ↔ t.sign = .minus
  whole : s.whole.dropWhile (· == '0') = t.whole.dropWhile (· == '0')
  decimals : s.decimals.rdropWhile (· == '0') = t.decimals.rdropWhile (· == '0')

variable (s : Spelling)

/-! ## The characters of a spelling -/

theorem unsigned_of_none (h : s.fraction = none) :
    s.unsigned = s.whole ∧ s.decimals = [] ∧ s.whole ≠ [] := by
  have hdigit := s.some_digit
  rw [h] at hdigit
  simp_all [unsigned, decimals]

theorem unsigned_of_some {fraction : List Char} (h : s.fraction = some fraction) :
    s.unsigned = s.whole ++ '.' :: fraction ∧ s.decimals = fraction := by
  simp [unsigned, decimals, h]

theorem isNumberStart_of_mem_unsigned :
    ∀ c ∈ s.unsigned, Character.isNumberStart c = true := by
  have hdigit : ∀ {c : Char}, c.isDigit = true → Character.isNumberStart c = true := fun hc =>
    Character.isNumberStart_iff.2 (.inr (.inr (.inr hc)))
  intro c hc
  rcases List.mem_append.1 hc with hc | hc
  · exact hdigit (s.whole_digits c hc)
  · have hfraction := s.fraction_digits c
    cases h : s.fraction with
    | none =>
      rw [h] at hc
      cases hc
    | some fraction =>
      rw [h] at hc hfraction
      rcases List.mem_cons.1 hc with rfl | hc
      · rfl
      · exact hdigit (hfraction hc)

theorem isNumberStart_of_mem_text : ∀ c ∈ s.text, Character.isNumberStart c = true := by
  refine List.forall_mem_append.2 ⟨?_, s.isNumberStart_of_mem_unsigned⟩
  cases s.sign with
  | none => exact List.forall_mem_nil _
  | plus => exact List.forall_mem_singleton.2 rfl
  | minus => exact List.forall_mem_singleton.2 rfl

/-- Behind the sign there is no other. -/
theorem not_sign_of_head?_unsigned :
    ∀ c ∈ s.unsigned.head?, c ≠ '-' ∧ c ≠ '+' := by
  have hdigit : ∀ {c : Char}, c.isDigit = true → c ≠ '-' ∧ c ≠ '+' := by
    intro c hc
    constructor <;> rintro rfl <;> cases hc
  intro c hc
  cases hwhole : s.whole with
  | cons first rest =>
    rw [unsigned, hwhole] at hc
    obtain rfl := Option.some.inj hc
    exact hdigit (s.whole_digits first (hwhole ▸ List.mem_cons_self))
  | nil =>
    cases h : s.fraction with
    | none => exact absurd hwhole (s.unsigned_of_none h).2.2
    | some fraction =>
      rw [unsigned, hwhole, h] at hc
      obtain rfl := Option.some.inj hc
      decide

/-! ## Reading a spelling -/

/-- A spelling is not hexadecimal. -/
theorem hexDigits?_text : hexDigits? s.text = none := by
  refine Option.eq_none_iff_forall_ne_some.2 fun digits hdigits => ?_
  obtain ⟨x, htext, hx, -⟩ := hexDigits?_eq_some_iff.1 hdigits
  have hmem : x ∈ s.text := htext ▸ List.mem_cons_of_mem _ List.mem_cons_self
  have hstart := s.isNumberStart_of_mem_text x hmem
  rcases hx with rfl | rfl <;> cases hstart

theorem ofUnsigned?_unsigned (negative : Bool) :
    ofUnsigned? negative s.unsigned = ofDigits? negative s.whole s.decimals := by
  have hsplit := Text.takeWhile_eq_and_dropWhile_eq_iff.2
    ⟨rfl, s.whole_digits, show ∀ d ∈ (s.fraction.elim [] ('.' :: ·)).head?, d.isDigit = false by
      cases s.fraction with
      | none => nofun
      | some fraction =>
        rintro d ⟨⟩
        rfl⟩
  rw [ofUnsigned?, unsigned, hsplit.1, hsplit.2]
  cases h : s.fraction with
  | none =>
    obtain ⟨-, hdecimals, hne⟩ := s.unsigned_of_none h
    simp [hdecimals, hne]
  | some fraction =>
    have hdigit := s.some_digit
    have hall := s.fraction_digits
    rw [h] at hdigit hall
    obtain ⟨-, hdecimals⟩ := s.unsigned_of_some h
    have hfits : (fraction.all Char.isDigit && !(s.whole.isEmpty && fraction.isEmpty)) = true := by
      refine Bool.and_eq_true_iff.2 ⟨List.all_eq_true.2 hall, ?_⟩
      rw [Bool.not_eq_true', Bool.eq_false_iff]
      intro hempty
      obtain ⟨hwhole, hfraction⟩ := Bool.and_eq_true_iff.1 hempty
      exact hdigit (List.append_eq_nil_iff.2
        ⟨List.isEmpty_iff.1 hwhole, List.isEmpty_iff.1 hfraction⟩)
    rw [hdecimals]
    exact if_pos hfits

/-- A spelling is read as its sign and its digits say. -/
theorem ofChars?_text :
    ofChars? s.text = ofDigits? (s.sign == .minus) s.whole s.decimals := by
  unfold ofChars?
  rw [s.hexDigits?_text, text]
  simp only
  cases hsign : s.sign with
  | minus => exact s.ofUnsigned?_unsigned true
  | plus => exact s.ofUnsigned?_unsigned false
  | none =>
    have hhead := s.not_sign_of_head?_unsigned
    rw [Sign.text, List.nil_append]
    split
    · next h => exact absurd rfl (hhead '-' (h ▸ rfl)).1
    · next h => exact absurd rfl (hhead '+' (h ▸ rfl)).2
    · exact s.ofUnsigned?_unsigned false

end Spelling

/-! ## Texts that are spelled -/

theorem exists_spelling_of_ofUnsigned? {negative : Bool} {text : List Char} {d : Decimal}
    (h : ofUnsigned? negative text = some d) (sign : Sign) :
    ∃ s : Spelling, s.text = sign.text ++ text := by
  have hwhole : ∀ c ∈ text.takeWhile Char.isDigit, c.isDigit = true :=
    fun c hc => List.mem_takeWhile_imp hc
  have htext := List.takeWhile_append_dropWhile (p := Char.isDigit) (l := text)
  rw [ofUnsigned?] at h
  split at h
  · next hrest =>
    obtain ⟨hne, -⟩ := Option.ite_none_left_eq_some.1 h
    refine ⟨⟨sign, text.takeWhile Char.isDigit, none, hwhole, List.forall_mem_nil _, ?_⟩, ?_⟩
    · rw [Option.getD_none, List.append_nil]
      exact fun hnil => hne (List.isEmpty_iff.2 hnil)
    · rw [hrest] at htext
      exact congrArg _ htext
  · next fraction hrest =>
    obtain ⟨hfits, -⟩ := Option.ite_none_right_eq_some.1 h
    obtain ⟨hall, hne⟩ := Bool.and_eq_true_iff.1 hfits
    refine ⟨⟨sign, text.takeWhile Char.isDigit, some fraction, hwhole, List.all_eq_true.1 hall,
      ?_⟩, ?_⟩
    · intro hnil
      obtain ⟨hnone, rfl⟩ := List.append_eq_nil_iff.1 hnil
      rw [hnone] at hne
      cases hne
    · rw [hrest] at htext
      exact congrArg _ htext
  · cases h

/-- What is read as a number is hexadecimal or spelled. -/
theorem exists_spelling_of_ofChars? {text : List Char} {d : Decimal}
    (hhex : hexDigits? text = none) (h : ofChars? text = some d) :
    ∃ s : Spelling, s.text = text := by
  unfold ofChars? at h
  rw [hhex] at h
  simp only at h
  split at h
  · exact exists_spelling_of_ofUnsigned? h .minus
  · exact exists_spelling_of_ofUnsigned? h .plus
  · exact exists_spelling_of_ofUnsigned? h .none

/-! ## Digits in range -/

/-- Decimals that fit are all taken. -/
theorem takeFraction_eq {value scale : Nat} {digits : List Nat}
    (hscale : scale + digits.length ≤ maxScale)
    (h : digits.foldl (fun value digit => value * 10 + digit) value < mantissaLimit) :
    takeFraction value scale digits =
      some (digits.foldl (fun value digit => value * 10 + digit) value, scale + digits.length) := by
  induction digits generalizing value scale with
  | nil => rfl
  | cons digit digits ih =>
    rw [List.length_cons] at hscale
    have hfits : scale < maxScale ∧ value * 10 + digit < mantissaLimit :=
      ⟨by omega, Nat.lt_of_le_of_lt (le_foldl_digits _ digits) h⟩
    rw [takeFraction, if_pos hfits, ih (by omega) h, List.foldl_cons, List.length_cons,
      Nat.add_right_comm, Nat.add_assoc]

/-- Digits in range are read without rounding. -/
theorem ofDigits?_eq {whole decimals : List Char} (negative : Bool)
    (hscale : decimals.length ≤ maxScale)
    (h : Text.decimalValue (whole ++ decimals) < mantissaLimit) :
    ofDigits? negative whole decimals =
      some ⟨if negative then -(Text.decimalValue (whole ++ decimals) : Int)
        else Text.decimalValue (whole ++ decimals), decimals.length⟩ := by
  have hvalue : Text.decimalValue (whole ++ decimals) =
      (decimals.map Text.digitValue).foldl (fun value digit => value * 10 + digit)
        (Text.decimalValue whole) := by
    rw [Text.decimalValue, List.map_append, Text.natOfDigits_append]
    rfl
  rw [hvalue] at h ⊢
  have hwhole := takeWhole_eq (Nat.lt_of_le_of_lt (le_foldl_digits _ _) h)
  have hfits : 0 + (decimals.map Text.digitValue).length ≤ maxScale := by
    rwa [List.length_map, Nat.zero_add]
  have hfraction := takeFraction_eq hfits h
  rw [List.length_map, Nat.zero_add] at hfraction
  rw [ofDigits?, hwhole]
  exact congrArg (· >>= _) hfraction

namespace Spelling

variable {s t : Spelling}

/-- A spelling in range is read as the number that it writes. -/
theorem exists_ofChars?_text (h : s.InRange) :
    ∃ d, ofChars? s.text = some d ∧ d.value = s.value := by
  rw [s.ofChars?_text, ofDigits?_eq _ h.decimals_le h.digits_lt]
  refine ⟨_, rfl, ?_⟩
  have hpow : (10 : ℚ) ^ s.decimals.length ≠ 0 := by positivity
  simp only [Decimal.value, Spelling.value, Text.decimalValue_append, beq_iff_eq]
  split <;> push_cast <;> field_simp

/-- Only zeros were dropped from the front. -/
theorem decimalValue_dropWhile (digits : List Char) :
    Text.decimalValue (digits.dropWhile (· == '0')) = Text.decimalValue digits := by
  induction digits with
  | nil => rfl
  | cons c digits ih =>
    rw [List.dropWhile_cons]
    split
    · next hzero =>
      obtain rfl := beq_iff_eq.1 hzero
      exact ih
    · rfl

/-- Only zeros were dropped from the back, which does not change the value behind the point. -/
theorem decimalValue_rdropWhile (digits : List Char) :
    (Text.decimalValue (digits.rdropWhile (· == '0')) : ℚ) /
        10 ^ (digits.rdropWhile (· == '0')).length =
      Text.decimalValue digits / 10 ^ digits.length := by
  induction digits using List.reverseRecOn with
  | nil => rfl
  | append_singleton digits c ih =>
    by_cases hzero : c = '0'
    · have hvalue : Text.decimalValue (digits ++ ['0']) = Text.decimalValue digits * 10 :=
        Text.decimalValue_append digits ['0']
      rw [List.rdropWhile_concat_pos _ _ _ (by simpa using hzero), ih, hzero, hvalue,
        List.length_append, List.length_singleton, pow_succ]
      push_cast
      field_simp
    · rw [List.rdropWhile_concat_neg _ _ _ (by simpa using hzero)]

/-- Spellings that differ in zeros and a plus sign only write the same number. -/
theorem Alike.value_eq (h : s.Alike t) : s.value = t.value := by
  rw [value, value, ← decimalValue_dropWhile s.whole, ← decimalValue_rdropWhile s.decimals,
    h.whole, h.decimals, decimalValue_dropWhile, decimalValue_rdropWhile]
  simp only [h.sign]

end Spelling

/-- A text of `0x` and hexadecimal digits is the number that they write in base sixteen if that is
below `2 ^ 64`, and else none.  Any other text is a number only if it is spelled with an optional
sign and ASCII digits, at least one and with at most one point among them, and then it is exactly
the rational number that is written, if its digits are in range.  So two spellings in range are
equal as numbers if they write the same number, whatever their signs and zeros are. -/
theorem reads_exactly :
    (∀ text digits, WritesHex text.toList digits → parse? text =
      if Text.hexValue digits < 2 ^ 64 then some ⟨Text.hexValue digits, 0⟩ else none) ∧
    (∀ text, (∀ digits, ¬ WritesHex text.toList digits) →
      (∀ spelling : Spelling, text.toList ≠ spelling.text) → parse? text = none) ∧
    (∀ text (spelling : Spelling), text.toList = spelling.text → spelling.InRange →
      ∃ d, parse? text = some d ∧ d.value = spelling.value) ∧
    ∀ text text' (s t : Spelling), text.toList = s.text → text'.toList = t.text →
      s.InRange → t.InRange → ∃ d e, parse? text = some d ∧ parse? text' = some e ∧
        (d.compare e = .eq ↔ s.value = t.value) ∧ (s.Alike t → d.compare e = .eq) := by
  refine ⟨fun text digits h => ?_, fun text hhex hspelled => ?_, fun text s h hs => ?_,
    fun text text' s t h h' hs ht => ?_⟩
  · rw [parse?, ofChars?_of_hex (hexDigits?_eq_some_iff.2 h)]
    rfl
  · refine Option.eq_none_iff_forall_ne_some.2 fun d hd => ?_
    have hnone : hexDigits? text.toList = none :=
      Option.eq_none_iff_forall_ne_some.2 fun digits hdigits =>
        hhex digits (hexDigits?_eq_some_iff.1 hdigits)
    obtain ⟨s, hs⟩ := exists_spelling_of_ofChars? hnone hd
    exact hspelled s hs.symm
  · rw [parse?, h]
    exact Spelling.exists_ofChars?_text hs
  · obtain ⟨d, hd, hdvalue⟩ := Spelling.exists_ofChars?_text hs
    obtain ⟨e, he, hevalue⟩ := Spelling.exists_ofChars?_text ht
    have hcompare : d.compare e = .eq ↔ s.value = t.value := by
      rw [compare_eq_eq_iff, hdvalue, hevalue]
    exact ⟨d, e, by rw [parse?, h, hd], by rw [parse?, h', he], hcompare,
      fun halike => hcompare.2 halike.value_eq⟩

/-- The spelling `+007.50`. -/
def Spelling.padded : Spelling :=
  ⟨.plus, "007".toList, some "50".toList, List.all_eq_true.1 rfl, List.all_eq_true.1 rfl,
    by decide⟩

/-- The spelling `7.5`. -/
def Spelling.bare : Spelling :=
  ⟨.none, "7".toList, some "5".toList, List.all_eq_true.1 rfl, List.all_eq_true.1 rfl, by decide⟩

/-- Hexadecimal digits of both cases, a digit of another script, and two spellings of `15 / 2` that
differ in a sign and in zeros. -/
theorem reads_exactly_padded :
    WritesHex "0XfF".toList "fF".toList ∧ parse? "0XfF" = some ⟨255, 0⟩ ∧
    ((∀ digits, ¬ WritesHex "٣".toList digits) ∧
      ∀ spelling : Spelling, "٣".toList ≠ spelling.text) ∧ parse? "٣" = none ∧
    Spelling.padded.InRange ∧ Spelling.bare.InRange ∧ Spelling.padded.Alike .bare ∧
    (∃ d, parse? "+007.50" = some d ∧ d.value = 15 / 2) ∧
    ∃ d e, parse? "+007.50" = some d ∧ parse? "7.5" = some e ∧ d.compare e = .eq := by
  obtain ⟨hhex, hnone, hexact, hequal⟩ := reads_exactly
  have hwrites : WritesHex "0XfF".toList "fF".toList :=
    ⟨'X', by decide, .inr rfl, by decide, List.all_eq_true.1 rfl⟩
  have hnohex : ∀ digits, ¬ WritesHex "٣".toList digits := by
    rintro digits ⟨x, htext, -⟩
    cases htext
  have hnospelling : ∀ spelling : Spelling, "٣".toList ≠ spelling.text := by
    intro spelling htext
    have hstart := spelling.isNumberStart_of_mem_text '٣' (htext ▸ List.mem_cons_self)
    cases hstart
  have hpadded : Spelling.padded.InRange := ⟨by decide, by decide⟩
  have hbare : Spelling.bare.InRange := ⟨by decide, by decide⟩
  have halike : Spelling.padded.Alike .bare := ⟨by decide, by decide, by decide⟩
  obtain ⟨d, hd, hvalue⟩ := hexact "+007.50" .padded (by decide) hpadded
  obtain ⟨e, f, he, hf, -, hcompare⟩ :=
    hequal "+007.50" "7.5" .padded .bare (by decide) (by decide) hpadded hbare
  refine ⟨hwrites, (hhex _ _ hwrites).trans (by decide +kernel), ⟨hnohex, hnospelling⟩,
    hnone _ hnohex hnospelling, hpadded, hbare, halike, ⟨d, hd, hvalue.trans ?_⟩,
    e, f, he, hf, hcompare halike⟩
  have hdigits : Text.decimalValue "007".toList = 7 ∧ Text.decimalValue "50".toList = 50 := by
    decide
  rw [Spelling.value, if_neg (by decide), one_mul]
  show (Text.decimalValue "007".toList : ℚ) + Text.decimalValue "50".toList / 10 ^ 2 = 15 / 2
  norm_num [hdigits]

/-- With 28 decimals nothing is rounded, and `2 ^ 64` is too large in base sixteen. -/
example : parse? "-.0000000000000000000000000001" = some ⟨-1, 28⟩ ∧
    parse? "0XfFFFFFFFFFFFFFFF" = some ⟨18446744073709551615, 0⟩ ∧
    parse? "0x10000000000000000" = none := by
  decide +kernel

end Decimal

end CondLang
