import CondLang.Proofs.Text.Caseless
import CondLang.Value.Boolean

/-!
# Texts without a truth value

Only the empty text and six words have a truth value (`Value.boolean?_eq_none_iff`).  So neither the
text of a number nor that of a negation has one.
-/

namespace CondLang.Value

variable {text : String}

theorem boolean?_eq_none_iff : boolean? text = none ↔
    text ≠ "" ∧ ∀ word ∈ trueWords ++ falseWords, Text.sameIgnoringAscii text word = false := by
  have hany : ∀ words : List String, words.any (Text.sameIgnoringAscii text) = true ↔
      ¬ ∀ word ∈ words, Text.sameIgnoringAscii text word = false := by simp
  unfold boolean?
  simp only [List.forall_mem_append, String.isEmpty_iff, hany]
  split
  · next hempty => exact iff_of_false nofun fun h => h.1 hempty
  · next hempty =>
    split
    · next htrue => exact iff_of_false nofun fun h => htrue h.2.1
    · next htrue =>
      split
      · next hfalse => exact iff_of_false nofun fun h => hfalse h.2.2
      · next hfalse => exact iff_of_true rfl ⟨hempty, not_not.1 htrue, not_not.1 hfalse⟩

/-- A text has no truth value if none of the words starts like it. -/
theorem boolean?_eq_none_of_head {c : Char} {tail : List Char} (htext : text.toList = c :: tail)
    (hc : ∀ word ∈ trueWords ++ falseWords, word.toList.head? ≠ some c.toLower) :
    boolean? text = none := by
  refine boolean?_eq_none_iff.2 ⟨?_, fun word hword => ?_⟩
  · rintro rfl
    cases htext
  · have hsmall : word.toList.map Char.toLower = word.toList := by
      revert word
      decide
    refine Bool.eq_false_iff.2 fun hsame => hc word hword ?_
    rw [Text.sameIgnoringAscii_iff, Text.asciiKey, Text.asciiKey, htext, hsmall] at hsame
    rw [← hsame]
    rfl

/-- What starts like a number has no truth value. -/
theorem boolean?_eq_none_of_isNumberStart {c : Char} {tail : List Char}
    (htext : text.toList = c :: tail) (hc : Character.isNumberStart c = true) :
    boolean? text = none := by
  have hall : ∀ code < 0x80, Character.isNumberStart (.ofNat code) = true →
      ∀ word ∈ trueWords ++ falseWords,
        word.toList.head? ≠ some (Char.ofNat code).toLower := by decide +kernel
  have hcode := hall c.toNat (Text.lt_of_isNumberStart hc)
  rw [Char.ofNat_toNat] at hcode
  exact boolean?_eq_none_of_head htext (hcode hc)

theorem boolean?_negated (text : String) : boolean? ("!" ++ text) = none :=
  boolean?_eq_none_of_head String.toList_append (by decide)

end CondLang.Value
