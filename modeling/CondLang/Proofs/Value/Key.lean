import CondLang.Proofs.Value.Version

/-!
# What texts are compared by

A text counts as the number that it writes, else as the version that it writes, and else as itself
in upper case: its key.  Two texts are compared as numbers if both are numbers, else as versions if
both are, and else as texts.  Though this depends on both of them, it always finds them equal just
if their keys are (`Value.key_eq_iff_of_numbers`, `Value.key_eq_iff_of_versions`,
`Value.key_eq_iff_of_texts`).

A number and a version that is no number can only be compared as versions, where they differ in the
count of their components, or as texts, where they differ as case does not make a text a number.
-/

namespace CondLang

namespace Value

/-- What a text counts as where it is compared. -/
inductive Key where
  | number (value : ℚ)
  | version (version : Version)
  | text (folded : List Char)
  deriving DecidableEq

/-- The key of a text. -/
def key (text : String) : Key :=
  match Decimal.parse? text with
  | some number => .number number.value
  | none =>
      match Version.parse? text with
      | some version => .version version
      | none => .text (text.toList.map Text.upperOne)

variable {text a b : String}

theorem key_of_number {number : Decimal} (h : Decimal.parse? text = some number) :
    key text = .number number.value := by
  rw [key, h]

theorem key_of_version {version : Version} (hnumber : Decimal.parse? text = none)
    (h : Version.parse? text = some version) : key text = .version version := by
  rw [key, hnumber, h]

theorem key_of_text (hnumber : Decimal.parse? text = none) (h : Version.parse? text = none) :
    key text = .text (text.toList.map Text.upperOne) := by
  rw [key, hnumber, h]

/-! ## Comparing by keys -/

/-- Two numbers have the same key if they are equal in value. -/
theorem key_eq_iff_of_numbers {x y : Decimal} (ha : Decimal.parse? a = some x)
    (hb : Decimal.parse? b = some y) : key a = key b ↔ x.compare y = .eq := by
  rw [key_of_number ha, key_of_number hb, Key.number.injEq, Decimal.compare_eq_eq_iff]

/-- A version that is a number differs from one that is none. -/
theorem version_ne_of_number {x : Decimal} {v w : Version} (hnumber : Decimal.parse? a = some x)
    (hother : Decimal.parse? b = none) (ha : Version.parse? a = some v)
    (hb : Version.parse? b = some w) : v ≠ w := by
  rintro rfl
  have hbuild : v.build = none := (Version.isSome_decimal_iff ha).1 (by rw [hnumber]; rfl)
  have hsome := (Version.isSome_decimal_iff hb).2 hbuild
  rw [hother] at hsome
  cases hsome

/-- Two versions that are not both numbers have the same key if they are equal. -/
theorem key_eq_iff_of_versions {v w : Version}
    (hnumbers : ∀ x y, Decimal.parse? a = some x → Decimal.parse? b = some y → False)
    (ha : Version.parse? a = some v) (hb : Version.parse? b = some w) :
    key a = key b ↔ v.compare w = .eq := by
  rw [Version.compare_eq_eq_iff]
  cases hx : Decimal.parse? a with
  | some x =>
    cases hy : Decimal.parse? b with
    | some y => exact (hnumbers x y hx hy).elim
    | none =>
      rw [key_of_number hx, key_of_version hy hb]
      exact iff_of_false nofun (version_ne_of_number hx hy ha hb)
  | none =>
    cases hy : Decimal.parse? b with
    | some y =>
      rw [key_of_version hx ha, key_of_number hy]
      exact iff_of_false nofun (version_ne_of_number hy hx hb ha).symm
    | none => rw [key_of_version hx ha, key_of_version hy hb, Key.version.injEq]

/-- Of two texts with the same key both are numbers, or none is. -/
theorem numbers_of_key_eq (h : key a = key b) :
    (Decimal.parse? a = none ∧ Decimal.parse? b = none) ∨
      ∃ x y, Decimal.parse? a = some x ∧ Decimal.parse? b = some y := by
  have hnumber : ∀ {text : String} {value : ℚ}, key text = .number value →
      ∃ x, Decimal.parse? text = some x := by
    intro text value hkey
    rw [key] at hkey
    split at hkey
    · next x hx => exact ⟨x, hx⟩
    · split at hkey <;> cases hkey
  cases hx : Decimal.parse? a with
  | some x =>
    obtain ⟨y, hy⟩ := hnumber (h.symm.trans (key_of_number hx))
    exact .inr ⟨x, y, rfl, hy⟩
  | none =>
    cases hy : Decimal.parse? b with
    | none => exact .inl ⟨rfl, rfl⟩
    | some y =>
      obtain ⟨x, hx'⟩ := hnumber (h.trans (key_of_number hy))
      cases hx.symm.trans hx'

/-- Of two texts with the same key that are no numbers both are versions, or none is. -/
theorem versions_of_key_eq (ha : Decimal.parse? a = none) (hb : Decimal.parse? b = none)
    (h : key a = key b) :
    (Version.parse? a = none ∧ Version.parse? b = none) ∨
      ∃ v w, Version.parse? a = some v ∧ Version.parse? b = some w := by
  simp only [key, ha, hb] at h
  cases hv : Version.parse? a <;> cases hw : Version.parse? b <;> simp_all

/-- Two texts that are neither both numbers nor both versions have the same key if they differ at
most in case. -/
theorem key_eq_iff_of_texts
    (hnumbers : ∀ x y, Decimal.parse? a = some x → Decimal.parse? b = some y → False)
    (hversions : ∀ v w, Version.parse? a = some v → Version.parse? b = some w → False) :
    key a = key b ↔ Text.sameIgnoringCase a b = true := by
  constructor
  · intro h
    obtain ⟨hx, hy⟩ | ⟨x, y, hx, hy⟩ := numbers_of_key_eq h
    · obtain ⟨hv, hw⟩ | ⟨v, w, hv, hw⟩ := versions_of_key_eq hx hy h
      · rw [key_of_text hx hv, key_of_text hy hw, Key.text.injEq] at h
        exact Text.sameIgnoringCase_iff.2 h
      · exact (hversions v w hv hw).elim
    · exact (hnumbers x y hx hy).elim
  · intro h
    have hnumber := Decimal.parse?_congr h
    have hversion := Version.parse?_congr h
    have hx : Decimal.parse? a = none :=
      Option.eq_none_iff_forall_ne_some.2 fun x hx => hnumbers x x hx (hnumber ▸ hx)
    have hv : Version.parse? a = none :=
      Option.eq_none_iff_forall_ne_some.2 fun v hv => hversions v v hv (hversion ▸ hv)
    rw [key_of_text hx hv, key_of_text (hnumber ▸ hx) (hversion ▸ hv),
      Text.sameIgnoringCase_iff.1 h]

end Value

end CondLang
