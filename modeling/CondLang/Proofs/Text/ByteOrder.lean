import CondLang.Text.Utf8
import Mathlib.Data.String.Basic
import Mathlib.Tactic.SplitIfs

/-!
# The order of texts is that of their bytes

Texts are compared character by character, and characters by their code points.  UTF-8 keeps this
order: the first byte in which two characters differ says which of them comes first, as a character
with more bytes starts with a greater one, and no character starts with the bytes of another.  So
texts may as well be compared byte by byte (`lt_iff_encode_lt`).
-/

namespace CondLang.Text.Utf8

/-- Of two characters the lower one has the lower bytes, whatever follows either of them. -/
theorem bytesOf_append_lt {code code' : Nat} (h : code < code') (rest rest' : List Nat) :
    bytesOf code ++ rest < bytesOf code' ++ rest' := by
  -- The first byte tells how many there are, and the others are digits to the base of 64.
  unfold bytesOf
  split_ifs
  all_goals
    simp only [List.cons_append, List.nil_append, List.cons_lt_cons_iff]
    omega

theorem bytesOf_ne_nil (code : Nat) : bytesOf code ≠ [] := by
  unfold bytesOf
  split_ifs <;> exact List.cons_ne_nil _ _

/-- The same bytes in front do not count. -/
theorem append_lt_append_iff (front rest rest' : List Nat) :
    front ++ rest < front ++ rest' ↔ rest < rest' := by
  induction front with
  | nil => rfl
  | cons byte front ih =>
    rw [List.cons_append, List.cons_append, List.cons_lt_cons_iff, ih]
    simp

theorem encode_lt_encode_iff (text text' : List Char) :
    encode text < encode text' ↔ text < text' := by
  induction text generalizing text' with
  | nil =>
    cases text' with
    | nil => simp [encode]
    | cons c' rest' =>
      obtain ⟨byte, bytes, hbytes⟩ := List.exists_cons_of_ne_nil (bytesOf_ne_nil c'.toNat)
      simp [encode, hbytes]
  | cons c rest ih =>
    cases text' with
    | nil => simp [encode]
    | cons c' rest' =>
      have hfirst : encode (c :: rest) = bytesOf c.toNat ++ encode rest := rfl
      have hfirst' : encode (c' :: rest') = bytesOf c'.toNat ++ encode rest' := rfl
      rw [hfirst, hfirst', List.cons_lt_cons_iff]
      rcases Nat.lt_trichotomy c.toNat c'.toNat with hless | hsame | hmore
      · have hc : c < c' := hless
        simp only [hc, true_or, iff_true]
        exact bytesOf_append_lt hless _ _
      · have hc : c = c' := Char.toNat_inj.1 hsame
        subst hc
        rw [append_lt_append_iff, ih]
        simp
      · have hc : ¬(c < c' ∨ c = c' ∧ rest < rest') := by
          rintro (hless | ⟨rfl, -⟩)
          · exact Nat.lt_asymm hmore hless
          · exact Nat.lt_irrefl _ hmore
        have hbytes := bytesOf_append_lt hmore (encode rest') (encode rest)
        simp only [hc, iff_false]
        exact List.lt_asymm hbytes

/-- Texts have the order of their bytes. -/
theorem lt_iff_encode_lt (text text' : String) :
    text < text' ↔ encode text.toList < encode text'.toList := by
  rw [encode_lt_encode_iff, String.lt_iff]

end CondLang.Text.Utf8
