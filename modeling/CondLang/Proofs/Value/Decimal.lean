import CondLang.Proofs.Text.Caseless
import CondLang.Value.Decimal
import Mathlib.Algebra.Order.Field.Rat
import Mathlib.Algebra.Order.Field.Basic
import Mathlib.Tactic.NormNum
import Mathlib.Tactic.Positivity

/-!
# Numbers by value

Numbers are compared by the rational number that they write (`Decimal.compare_eq`), so comparing
them the other way around gives the opposite order (`Decimal.compare_swap`).  Equality without
regard to case does not tell a number from a text that is none, and equal texts write the same
number (`Decimal.parse?_congr`).
-/

namespace CondLang

namespace Decimal

/-! ## Values -/

/-- The rational number that a number is. -/
def value (a : Decimal) : ℚ := a.mantissa / 10 ^ a.scale

theorem compare_eq (a b : Decimal) : a.compare b = Ord.compare a.value b.value := by
  have hscale : ∀ scale : Nat, (0 : ℚ) < 10 ^ scale := fun scale => by positivity
  have hlt : ∀ a b : Decimal, a.value < b.value ↔
      a.mantissa * 10 ^ b.scale < b.mantissa * 10 ^ a.scale := by
    intro a b
    rw [value, value, div_lt_div_iff₀ (hscale _) (hscale _)]
    exact_mod_cast Iff.rfl
  show Ord.compare (a.mantissa * 10 ^ b.scale) (b.mantissa * 10 ^ a.scale) = _
  rcases lt_trichotomy a.value b.value with h | h | h
  · rw [compare_lt_iff_lt.2 h, compare_lt_iff_lt.2 ((hlt a b).1 h)]
  · rw [compare_eq_iff_eq.2 h, compare_eq_iff_eq]
    refine le_antisymm ?_ ?_
    · exact not_lt.1 fun hgt => absurd ((hlt b a).2 hgt) (not_lt.2 h.le)
    · exact not_lt.1 fun hgt => absurd ((hlt a b).2 hgt) (not_lt.2 h.ge)
  · rw [compare_gt_iff_gt.2 h, compare_gt_iff_gt.2 ((hlt b a).1 h)]

theorem compare_eq_eq_iff {a b : Decimal} : a.compare b = .eq ↔ a.value = b.value := by
  rw [compare_eq, compare_eq_iff_eq]

theorem compare_swap (a b : Decimal) : b.compare a = (a.compare b).swap := by
  rw [compare_eq, compare_eq]
  exact Std.OrientedOrd.eq_swap

/-! ## Reading without regard to case -/

theorem hexDigits?_eq_some_iff {text digits : List Char} :
    hexDigits? text = some digits ↔ ∃ x, text = '0' :: x :: digits ∧ (x = 'x' ∨ x = 'X') ∧
      digits ≠ [] ∧ ∀ c ∈ digits, Character.isHexDigit c = true := by
  unfold hexDigits?
  split
  · next x rest =>
    rw [Option.ite_none_right_eq_some]
    simp only [Bool.not_eq_true', List.isEmpty_eq_false_iff, List.all_eq_true, Option.some.injEq,
      List.cons.injEq, true_and]
    constructor
    · rintro ⟨⟨hx, hne, hall⟩, rfl⟩
      exact ⟨x, ⟨rfl, rfl⟩, hx, hne, hall⟩
    · rintro ⟨x, ⟨rfl, rfl⟩, hx, hne, hall⟩
      exact ⟨⟨hx, hne, hall⟩, rfl⟩
  · next hother =>
    refine ⟨nofun, ?_⟩
    rintro ⟨x, rfl, -⟩
    exact absurd rfl (hother x digits)

theorem ofChars?_of_hex {text digits : List Char} (h : hexDigits? text = some digits) :
    ofChars? text = ofHex? digits := by
  unfold ofChars?
  rw [h]

/-- A number behind a sign has no letters. -/
theorem isNumberStart_of_ofUnsigned? {negative : Bool} {text : List Char} {d : Decimal}
    (h : ofUnsigned? negative text = some d) : ∀ c ∈ text, Character.isNumberStart c = true := by
  have hdigit : ∀ {c : Char}, c.isDigit = true → Character.isNumberStart c = true := fun hc =>
    Character.isNumberStart_iff.2 (.inr (.inr (.inr hc)))
  have hwhole : ∀ c ∈ text.takeWhile Char.isDigit, Character.isNumberStart c = true :=
    fun c hc => hdigit (List.mem_takeWhile_imp hc)
  rw [ofUnsigned?] at h
  intro c hc
  rw [← List.takeWhile_append_dropWhile (p := Char.isDigit) (l := text)] at hc
  split at h
  · next hnil =>
    rw [hnil, List.append_nil] at hc
    exact hwhole c hc
  · next fraction hpoint =>
    obtain ⟨hfits, -⟩ := Option.ite_none_right_eq_some.1 h
    have hfraction := List.all_eq_true.1 (Bool.and_eq_true_iff.1 hfits).1
    rw [hpoint] at hc
    rcases List.mem_append.1 hc with hc | hc
    · exact hwhole c hc
    · rcases List.mem_cons.1 hc with rfl | hc
      · rfl
      · exact hdigit (hfraction c hc)
  · cases h

/-- A number that is not hexadecimal has no letters. -/
theorem isNumberStart_of_ofChars? {text : List Char} {d : Decimal} (hhex : hexDigits? text = none)
    (h : ofChars? text = some d) : ∀ c ∈ text, Character.isNumberStart c = true := by
  unfold ofChars? at h
  rw [hhex] at h
  simp only at h
  split at h
  · exact List.forall_mem_cons.2 ⟨rfl, isNumberStart_of_ofUnsigned? h⟩
  · exact List.forall_mem_cons.2 ⟨rfl, isNumberStart_of_ofUnsigned? h⟩
  · exact isNumberStart_of_ofUnsigned? h

theorem ofChars?_of_map_upperOne_eq {text other : List Char} {d : Decimal}
    (hsame : text.map Text.upperOne = other.map Text.upperOne) (h : ofChars? text = some d) :
    ofChars? other = some d := by
  cases hhex : hexDigits? text with
  | none => rwa [Text.eq_of_map_upperOne_eq (isNumberStart_of_ofChars? hhex h) hsame]
  | some digits =>
    rw [ofChars?_of_hex hhex] at h
    obtain ⟨x, rfl, hx, hne, hdigits⟩ := hexDigits?_eq_some_iff.1 hhex
    obtain ⟨zero, rest, rfl, hzero, hrest⟩ := List.map_eq_cons_iff.1 hsame.symm
    obtain ⟨x', digits', rfl, hx', hdigits'⟩ := List.map_eq_cons_iff.1 hrest
    obtain rfl : '0' = zero := hzero.symm.trans (Text.upperOne_eq_self (hzero ▸ rfl))
    have hletter : x' = 'x' ∨ x' = 'X' := by
      refine Text.eq_x_of_upperOne (hx'.trans ?_)
      rcases hx with rfl | rfl <;> rfl
    obtain ⟨hall, hvalue⟩ := Text.hexValue_of_map_upperOne_eq hdigits hdigits'.symm
    have hne' : digits' ≠ [] := by
      rintro rfl
      exact hne (List.map_eq_nil_iff.1 hdigits'.symm)
    rw [ofChars?_of_hex (hexDigits?_eq_some_iff.2 ⟨x', rfl, hletter, hne', hall⟩), ← h, ofHex?,
      hvalue, ofHex?]

/-- Texts that are equal without regard to case write the same number, or both write none. -/
theorem parse?_congr {a b : String} (h : Text.sameIgnoringCase a b = true) :
    parse? a = parse? b := by
  have hsame := Text.sameIgnoringCase_iff.1 h
  refine Option.ext fun d => ⟨?_, ?_⟩
  · exact ofChars?_of_map_upperOne_eq hsame
  · exact ofChars?_of_map_upperOne_eq hsame.symm

/-! ## Digits that fit -/

theorem le_foldl_digits (value : Nat) (digits : List Nat) :
    value ≤ digits.foldl (fun value digit => value * 10 + digit) value := by
  induction digits generalizing value with
  | nil => exact Nat.le_refl _
  | cons digit digits ih =>
    have hnext : value ≤ value * 10 + digit := by omega
    exact hnext.trans (ih _)

/-- Whole digits are taken if their value is in range. -/
theorem takeWhole_eq {value : Nat} {digits : List Nat}
    (h : digits.foldl (fun value digit => value * 10 + digit) value < mantissaLimit) :
    takeWhole value digits =
      some (digits.foldl (fun value digit => value * 10 + digit) value) := by
  induction digits generalizing value with
  | nil => rfl
  | cons digit digits ih =>
    have hfits : value * 10 + digit < mantissaLimit :=
      Nat.lt_of_le_of_lt (le_foldl_digits _ digits) h
    rw [takeWhole, if_pos hfits]
    exact ih h

/-- Decimals can be taken and rounded, unless there is no room behind the whole digits. -/
theorem exists_takeFraction {value scale : Nat} (digits : List Nat)
    (h : 0 < scale ∨ value + 1 < mantissaLimit) :
    ∃ result, takeFraction value scale digits = some result := by
  induction digits generalizing value scale with
  | nil => exact ⟨_, rfl⟩
  | cons digit digits ih =>
    rw [takeFraction]
    split
    · exact ih (.inl (Nat.succ_pos scale))
    · rw [roundBy]
      split
      · exact ⟨_, rfl⟩
      · split
        · exact ⟨_, rfl⟩
        · next hfull =>
          rw [if_neg (Nat.pos_iff_ne_zero.1 (h.resolve_right hfull))]
          exact ⟨_, rfl⟩

theorem exists_ofDigits? {whole : List Char} (negative : Bool) (fraction : List Char)
    (h : Text.decimalValue whole + 1 < mantissaLimit) :
    ∃ d, ofDigits? negative whole fraction = some d := by
  have hwhole := takeWhole_eq (Nat.lt_of_succ_lt h)
  have hroom : 0 < 0 ∨ Text.decimalValue whole + 1 < mantissaLimit := .inr h
  obtain ⟨⟨value, scale⟩, hfraction⟩ := exists_takeFraction (fraction.map Text.digitValue) hroom
  refine ⟨⟨if negative then -(value : Int) else value, scale⟩, ?_⟩
  simp only [ofDigits?, hwhole]
  exact congrArg (· >>= _) hfraction

/-- Digits with a point behind them are not hexadecimal and have no sign, so only what is behind the
point decides whether they are a number. -/
theorem ofChars?_digits_point {whole : List Char} (hne : whole ≠ [])
    (hwhole : ∀ c ∈ whole, c.isDigit = true) (rest : List Char) :
    ofChars? (whole ++ '.' :: rest) =
      if rest.all Char.isDigit then ofDigits? false whole rest else none := by
  obtain ⟨first, others, rfl⟩ := List.exists_cons_of_ne_nil hne
  obtain ⟨hfirst, hothers⟩ := List.forall_mem_cons.1 hwhole
  have hhex : hexDigits? (first :: others ++ '.' :: rest) = none := by
    refine Option.eq_none_iff_forall_ne_some.2 fun digits hdigits => ?_
    obtain ⟨x, htext, hx, -⟩ := hexDigits?_eq_some_iff.1 hdigits
    obtain ⟨-, htext⟩ := List.cons.inj htext
    cases others with
    | nil =>
      obtain ⟨rfl, -⟩ := List.cons.inj htext
      exact absurd hx (by decide)
    | cons second others =>
      obtain ⟨rfl, -⟩ := List.cons.inj htext
      have hsecond := hothers second List.mem_cons_self
      rcases hx with rfl | rfl <;> cases hsecond
  have htake : (first :: others ++ '.' :: rest).takeWhile Char.isDigit = first :: others := by
    rw [List.takeWhile_append_of_pos hwhole]
    exact List.append_nil _
  have hdrop : (first :: others ++ '.' :: rest).dropWhile Char.isDigit = '.' :: rest :=
    List.dropWhile_append_of_pos hwhole
  have hunsigned : ofChars? (first :: others ++ '.' :: rest) =
      ofUnsigned? false (first :: others ++ '.' :: rest) := by
    unfold ofChars?
    rw [hhex]
    simp only
    split
    · next hminus =>
      obtain ⟨rfl, -⟩ := List.cons.inj hminus
      cases hfirst
    · next hplus =>
      obtain ⟨rfl, -⟩ := List.cons.inj hplus
      cases hfirst
    · rfl
  rw [hunsigned, ofUnsigned?, htake, hdrop]
  simp

end Decimal

end CondLang
