import CondLang.Character
import CondLang.Reference.Extent
import CondLang.Text.Blank
import Mathlib.Data.List.TakeWhile

/-!
# No character starts two kinds of token

Blanks, the first characters of names, the first characters of numbers and the sigils of references
are four classes that do not overlap.  So the first character that is no blank tells what kind of
token comes next, whatever the order in which the classes are tried.
-/

namespace CondLang

namespace Text

/-- A text is split where a class of characters ends. -/
theorem takeWhile_eq_and_dropWhile_eq_iff {p : Char → Bool} {text word rest : List Char} :
    (text.takeWhile p = word ∧ text.dropWhile p = rest) ↔
      text = word ++ rest ∧ (∀ d ∈ word, p d = true) ∧ ∀ d ∈ rest.head?, p d = false := by
  constructor
  · intro h
    rcases h with ⟨rfl, rfl⟩
    refine ⟨List.takeWhile_append_dropWhile.symm, List.all_eq_true.1 List.all_takeWhile, ?_⟩
    intro d hd
    have hstop := List.head?_dropWhile_not p text
    rwa [Option.mem_def.1 hd] at hstop
  · intro h
    rcases h with ⟨rfl, hword, hrest⟩
    rw [List.takeWhile_append_of_pos hword, List.dropWhile_append_of_pos hword]
    cases rest with
    | nil => simp
    | cons d rest => simp [hrest d rfl]

/-- A code point that is found lies in one of the ranges. -/
theorem Ranges.exists_of_contains {ranges : Ranges} {code : Nat}
    (h : ranges.contains code = true) :
    ∃ range ∈ ranges, range.1 ≤ code ∧ code ≤ range.2 := by
  induction ranges with
  | nil => cases h
  | cons range ranges ih =>
    rw [contains] at h
    split at h
    · cases h
    · next hfirst =>
      by_cases hlast : code ≤ range.2
      · exact ⟨range, List.mem_cons_self, by omega, hlast⟩
      · simp only [hlast, decide_false, Bool.false_or] at h
        obtain ⟨other, hother, hwithin⟩ := ih h
        exact ⟨other, List.mem_cons_of_mem _ hother, hwithin⟩

/-- No blank is a letter. -/
theorem isAlphabetic_of_isBlank {c : Char} (h : isBlank c = true) : isAlphabetic c = false := by
  have hletters : ∀ range ∈ blankRanges, ∀ i < range.2 + 1 - range.1,
      alphabeticRanges.contains (range.1 + i) = false := by decide +kernel
  obtain ⟨range, hrange, hfirst, hlast⟩ := Ranges.exists_of_contains h
  have hletter := hletters range hrange (c.toNat - range.1) (by omega)
  rwa [Nat.add_sub_cancel' hfirst] at hletter

end Text

namespace Character

open Text (isBlank)

variable {c : Char}

theorem isDigit_iff : c.isDigit = true ↔ 48 ≤ c.toNat ∧ c.toNat ≤ 57 := by
  simp [Char.isDigit, UInt32.le_iff_toNat_le]

theorem isNumberStart_iff :
    isNumberStart c = true ↔ c = '+' ∨ c = '-' ∨ c = '.' ∨ c.isDigit = true := by
  simp [isNumberStart, or_assoc]

/-! ## Blanks -/

theorem isNameStart_of_isBlank (h : isBlank c = true) : isNameStart c = false := by
  have hunderscore : c ≠ '_' := by
    rintro rfl
    revert h
    decide
  simp [isNameStart, hunderscore, Text.isAlphabetic_of_isBlank h]

theorem not_isDigit_of_isBlank (h : isBlank c = true) : c.isDigit = false := by
  rw [← Bool.not_eq_true, isDigit_iff]
  obtain ⟨range, hrange, hfirst, hlast⟩ := Text.Ranges.exists_of_contains h
  simp only [Text.blankRanges, List.mem_cons, List.not_mem_nil, or_false] at hrange
  rcases hrange with rfl | rfl | rfl | rfl | rfl | rfl | rfl | rfl | rfl | rfl <;>
    simp only at hfirst hlast <;> omega

theorem isNumberStart_of_isBlank (h : isBlank c = true) : isNumberStart c = false := by
  rw [← Bool.not_eq_true, isNumberStart_iff, not_isDigit_of_isBlank h]
  rintro (rfl | rfl | rfl | hdigit)
  · revert h; decide
  · revert h; decide
  · revert h; decide
  · cases hdigit

theorem sigil_not_isBlank (kind : ReferenceKind) : isBlank kind.sigil = false := by
  cases kind <;> decide

/-! ## Names, numbers and references -/

theorem isNumberStart_of_isNameStart (h : isNameStart c = true) : isNumberStart c = false := by
  rw [← Bool.not_eq_true, isNumberStart_iff]
  rintro (rfl | rfl | rfl | hdigit)
  · revert h; decide
  · revert h; decide
  · revert h; decide
  · rw [isDigit_iff] at hdigit
    have hletter : Text.isAlphabetic c = false := Text.Ranges.contains_of_lt (by omega)
    have hunderscore : c ≠ '_' := by
      rintro rfl
      revert hdigit
      decide
    simp [isNameStart, hunderscore, hletter] at h

/-- A class that holds no sigil starts no reference. -/
theorem ofSigil?_eq_none {p : Char → Bool} (hp : ∀ kind : ReferenceKind, p kind.sigil = false)
    (h : p c = true) : ReferenceKind.ofSigil? c = none := by
  cases hkind : ReferenceKind.ofSigil? c with
  | none => rfl
  | some kind =>
    rw [ReferenceKind.ofSigil?_eq_some_iff.1 hkind, hp kind] at h
    cases h

theorem ofSigil?_of_isBlank (h : isBlank c = true) : ReferenceKind.ofSigil? c = none :=
  ofSigil?_eq_none sigil_not_isBlank h

theorem ofSigil?_of_isNameStart (h : isNameStart c = true) : ReferenceKind.ofSigil? c = none :=
  ofSigil?_eq_none (fun kind => by cases kind <;> decide) h

theorem ofSigil?_of_isNameChar (h : isNameChar c = true) : ReferenceKind.ofSigil? c = none :=
  ofSigil?_eq_none (fun kind => by cases kind <;> decide) h

theorem ofSigil?_of_isNumberStart (h : isNumberStart c = true) :
    ReferenceKind.ofSigil? c = none :=
  ofSigil?_eq_none (fun kind => by cases kind <;> decide) h

end Character

end CondLang
