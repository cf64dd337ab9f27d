import CondLang.Proofs.Expansion.Pieces
import CondLang.Proofs.Text.Classes

/-!
# References that start with a name

A name holds no parenthesis and no quote, so where a group ends is decided by what stands behind the
name (`isGroup_of_name`).
-/

namespace CondLang

open Character (isName isNameChar)

/-! ## Names -/

namespace Character

variable {c : Char} {name : List Char}

theorem isName_iff : isName name = true ↔ name ≠ [] ∧ ∀ c ∈ name, isNameChar c = true := by
  simp [isName]

theorem isBlank_of_isNameChar (h : isNameChar c = true) : Text.isBlank c = false := by
  cases hblank : Text.isBlank c with
  | false => rfl
  | true =>
    rw [isNameChar, isNameStart_of_isBlank hblank, not_isDigit_of_isBlank hblank] at h
    cases h

/-- A class of characters that holds none of those which end a group or a text within it. -/
theorem passedOver_of_all {p : Char → Bool}
    (hp : ['(', ')', '\'', '"', '\u0060'].all (!p ·) = true) (h : p c = true) :
    c ≠ '(' ∧ c ≠ ')' ∧ Reference.isQuote c = false := by
  have hne : ∀ d ∈ ['(', ')', '\'', '"', '\u0060'], c ≠ d := by
    rintro d hd rfl
    have hd := List.all_eq_true.1 hp c hd
    rw [h] at hd
    cases hd
  have hquote : ¬Reference.isQuote c = true := by
    simpa [Reference.isQuote, and_assoc] using ⟨hne '\'' (by simp), hne '"' (by simp),
      hne '\u0060' (by simp)⟩
  exact ⟨hne '(' (by simp), hne ')' (by simp), Bool.eq_false_iff.2 hquote⟩

theorem passedOver_of_isNameChar (h : isNameChar c = true) :
    c ≠ '(' ∧ c ≠ ')' ∧ Reference.isQuote c = false :=
  passedOver_of_all (by decide +kernel) h

theorem passedOver_of_isBlank (h : Text.isBlank c = true) :
    c ≠ '(' ∧ c ≠ ')' ∧ Reference.isQuote c = false :=
  passedOver_of_all (by decide +kernel) h

end Character

/-! ## Groups -/

namespace Reference

/-- Characters that are neither parentheses nor quotes are passed over. -/
theorem closeFrom_append_passedOver {text : List Char}
    (h : ∀ c ∈ text, c ≠ '(' ∧ c ≠ ')' ∧ isQuote c = false) (depth : Nat) (rest : List Char) :
    closeFrom depth none (text ++ rest) =
      (closeFrom depth none rest).map fun (group, left) => (text ++ group, left) := by
  induction text with
  | nil => simp
  | cons c text ih =>
    obtain ⟨⟨hopen, hclose, hquote⟩, htext⟩ := List.forall_mem_cons.1 h
    have hnot : ¬ (c = ')' ∧ depth ≤ 1) := fun hcloses => hclose hcloses.1
    simp only [List.cons_append, closeFrom, hquote, if_neg hnot, if_neg hopen, if_neg hclose,
      Bool.false_eq_true, if_false, ih htext, Option.map_map]
    rfl

/-- Inside quotes everything is passed over but the quote. -/
theorem closeFrom_append_quoted {text : List Char} {q : Char} (h : q ∉ text) (depth : Nat)
    (rest : List Char) :
    closeFrom depth (some q) (text ++ rest) =
      (closeFrom depth (some q) rest).map fun (group, left) => (text ++ group, left) := by
  induction text with
  | nil => simp
  | cons c text ih =>
    rw [List.mem_cons, not_or] at h
    rw [List.cons_append, closeFrom, if_neg (Ne.symm h.1), ih h.2, Option.map_map]
    rfl

/-- A parenthesis and characters that are passed over start a group if what follows closes it. -/
theorem isGroup_of_passedOver {text behind : List Char}
    (h : ∀ c ∈ text, c ≠ '(' ∧ c ≠ ')' ∧ isQuote c = false)
    (hbehind : closeFrom 1 none behind = some (behind, [])) :
    IsGroup ('(' :: (text ++ behind)) := by
  refine ⟨rfl, ?_⟩
  have hpassed := closeFrom_append_passedOver h 1 behind
  rw [hbehind] at hpassed
  simp [splitGroup?, closeFrom, isQuote, hpassed]

theorem isGroup_of_name {name behind : List Char} (hname : ∀ c ∈ name, isNameChar c = true)
    (hbehind : closeFrom 1 none behind = some (behind, [])) :
    IsGroup ('(' :: (name ++ behind)) :=
  isGroup_of_passedOver (fun c hc => Character.passedOver_of_isNameChar (hname c hc)) hbehind

end Reference

/-! ## Item lists -/

namespace ItemListReference

theorem inside_cons_append (inner : List Char) : inside ('(' :: (inner ++ [')'])) = inner := by
  simp [inside]

end ItemListReference

end CondLang
