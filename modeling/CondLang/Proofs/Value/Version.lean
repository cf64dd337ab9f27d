import CondLang.Proofs.Value.Decimal
import CondLang.Value.Version
import Mathlib.Data.List.Forall2

/-!
# Versions and numbers

A version of two components is a number as well, and one of more components is not
(`Version.isSome_decimal_iff`).  Versions have no letters, so equality without regard to case does
not tell a version from a text that is none, and equal texts write the same version
(`Version.parse?_congr`).
-/

namespace CondLang

namespace Version

/-! ## Order -/

theorem compareOptional_eq_eq_iff {a b : Option Nat} : compareOptional a b = .eq ↔ a = b := by
  cases a <;> cases b <;> simp [compareOptional]

/-- Versions stand side by side in their order only if they are the same. -/
theorem compare_eq_eq_iff {a b : Version} : a.compare b = .eq ↔ a = b := by
  obtain ⟨major, minor, build, revision⟩ := a
  obtain ⟨major', minor', build', revision'⟩ := b
  simp only [compare, Ordering.then_eq_eq, compareOptional_eq_eq_iff, compare_eq_iff_eq, mk.injEq]

theorem compareOptional_swap (a b : Option Nat) :
    compareOptional b a = (compareOptional a b).swap := by
  cases a <;> cases b <;> first | rfl | exact Std.OrientedOrd.eq_swap

theorem compare_swap (a b : Version) : b.compare a = (a.compare b).swap := by
  simp only [compare, Ordering.swap_then, ← compareOptional_swap, ← Std.OrientedOrd.eq_swap]

/-! ## Components -/

theorem component?_eq_some {text : List Char} {n : Nat} (h : component? text = some n) :
    text ≠ [] ∧ (∀ c ∈ text, c.isDigit = true) ∧ Text.decimalValue text < componentLimit := by
  obtain ⟨hdigits, hvalue⟩ := Option.ite_none_right_eq_some.1 h
  obtain ⟨hlt, -⟩ := Option.ite_none_right_eq_some.1 hvalue
  simp only [Bool.and_eq_true, Bool.not_eq_true', List.isEmpty_eq_false_iff, List.all_eq_true]
    at hdigits
  exact ⟨hdigits.1, hdigits.2, hlt⟩

theorem forall₂_component? {parts : List (List Char)} {components : List Nat}
    (h : parts.mapM component? = some components) :
    List.Forall₂ (fun part n => component? part = some n) parts components := by
  induction parts generalizing components with
  | nil =>
    obtain rfl := Option.some.inj h
    exact .nil
  | cons part parts ih =>
    simp only [List.mapM_cons, Option.bind_eq_bind, Option.bind_eq_some_iff, Option.pure_def,
      Option.some.injEq] at h
    obtain ⟨n, hn, others, hothers, rfl⟩ := h
    exact .cons hn (ih hothers)

theorem exists_components {components : List Nat} {v : Version}
    (h : ofComponents? components = some v) :
    ∃ minor more, components = v.major :: minor :: more ∧ (more = [] ↔ v.build = none) := by
  unfold ofComponents? at h
  split at h <;> cases h <;> exact ⟨_, _, rfl, by simp⟩

/-! ## Reading -/

variable {text : String} {v : Version}

/-- A version has a point behind its major component, and behind this only digits if there are two
components. -/
theorem exists_point (h : parse? text = some v) :
    ∃ whole rest, text.toList = whole ++ '.' :: rest ∧ component? whole = some v.major ∧
      (rest.all Char.isDigit = true ↔ v.build = none) := by
  obtain ⟨components, hmap, hcomponents⟩ := Option.bind_eq_some_iff.1 h
  obtain ⟨minor, more, rfl, hmore⟩ := exists_components hcomponents
  have hparts := forall₂_component? hmap
  generalize hsplit : Text.splitOn '.' text.toList = parts at hparts
  obtain _ | ⟨hwhole, _ | ⟨hnext, hothers⟩⟩ := hparts
  obtain ⟨rest, htext, hrest⟩ := Text.exists_of_splitOn_eq_cons_cons hsplit
  refine ⟨_, rest, htext, hwhole, Iff.trans ?_ hmore⟩
  cases hothers with
  | nil =>
    obtain rfl := Text.eq_of_splitOn_eq_singleton hrest
    exact iff_of_true (List.all_eq_true.2 (component?_eq_some hnext).2.1) rfl
  | cons hthird hothers =>
    obtain ⟨behind, rfl, -⟩ := Text.exists_of_splitOn_eq_cons_cons hrest
    refine iff_of_false (fun hall => ?_) (List.cons_ne_nil _ _)
    have hpoint := List.all_eq_true.1 hall '.' (List.mem_append_right _ List.mem_cons_self)
    cases hpoint

theorem isNumberStart_of_parse? (h : parse? text = some v) :
    ∀ c ∈ text.toList, Character.isNumberStart c = true := by
  obtain ⟨components, hmap, -⟩ := Option.bind_eq_some_iff.1 h
  have hboth := (forall₂_component? hmap).imp fun part n hn =>
    And.intro (component?_eq_some hn).2.1 hn
  obtain ⟨hdigits, -⟩ := (List.forall₂_and_left _ _).1 hboth
  intro c hc
  rcases Text.mem_part_of_mem '.' hc with rfl | ⟨part, hpart, hmem⟩
  · rfl
  · exact Character.isNumberStart_iff.2 (.inr (.inr (.inr (hdigits part hpart c hmem))))

/-- A version is a number if it has two components, and only then. -/
theorem isSome_decimal_iff (h : parse? text = some v) :
    (Decimal.parse? text).isSome = true ↔ v.build = none := by
  obtain ⟨whole, rest, htext, hwhole, hrest⟩ := exists_point h
  obtain ⟨hne, hdigits, hlt⟩ := component?_eq_some hwhole
  rw [Decimal.parse?, htext, Decimal.ofChars?_digits_point hne hdigits, ← hrest]
  have hroom : Text.decimalValue whole + 1 < Decimal.mantissaLimit :=
    Nat.lt_of_le_of_lt hlt (by decide)
  obtain ⟨d, hd⟩ := Decimal.exists_ofDigits? false rest hroom
  split
  · next hall => exact iff_of_true (by rw [hd]; rfl) hall
  · next hall => exact iff_of_false nofun hall

/-- Texts that are equal without regard to case write the same version, or both write none. -/
theorem parse?_congr {a b : String} (h : Text.sameIgnoringCase a b = true) :
    parse? a = parse? b := by
  have hsame := Text.sameIgnoringCase_iff.1 h
  have hread : ∀ {a b : String} {v : Version},
      a.toList.map Text.upperOne = b.toList.map Text.upperOne →
        parse? a = some v → parse? b = some v := by
    intro a b v hsame hv
    rwa [String.toList_inj.1 (Text.eq_of_map_upperOne_eq (isNumberStart_of_parse? hv) hsame)]
  exact Option.ext fun v => ⟨hread hsame, hread hsame.symm⟩

end Version

end CondLang
