import CondLang.Proofs.Text.Classes
import CondLang.Text.Caseless
import CondLang.Text.Digits

/-!
# Case does not tell apart what is equal without regard to it

Two texts are equal without regard to case if and only if they are equal once each character is made
upper case, whether or not both are ASCII (`Text.sameIgnoringCase_iff`).

What a number or a version is written with does not depend on case, but for the letters of
hexadecimal numbers.  Two characters beyond ASCII have upper cases within ASCII, and neither is a
letter of a hexadecimal number.
-/

namespace CondLang

namespace Text

/-- A property of the ASCII characters can be checked for each code. -/
theorem forall_ascii {p : Char → Prop} (h : ∀ code < 0x80, p (.ofNat code)) {c : Char}
    (hc : c.toNat < 0x80) : p c := by
  have hcode := h c.toNat hc
  rwa [Char.ofNat_toNat] at hcode

/-! ## Making texts upper case -/

theorem map_upperOne_of_isAscii {text : List Char} (h : ∀ c ∈ text, c.toNat < 0x80) :
    text.map upperOne = text.map Char.toUpper :=
  List.map_congr_left fun c hc => if_pos (h c hc)

theorem toUpper_toLower {c : Char} (h : c.toNat < 0x80) : c.toLower.toUpper = c.toUpper := by
  have hall : ∀ code < 0x80, (Char.ofNat code).toLower.toUpper = (Char.ofNat code).toUpper := by
    decide
  exact forall_ascii (p := fun c => c.toLower.toUpper = c.toUpper) hall h

theorem toLower_toUpper {c : Char} (h : c.toNat < 0x80) : c.toUpper.toLower = c.toLower := by
  have hall : ∀ code < 0x80, (Char.ofNat code).toUpper.toLower = (Char.ofNat code).toLower := by
    decide
  exact forall_ascii (p := fun c => c.toUpper.toLower = c.toLower) hall h

/-- ASCII texts are equal in small letters if and only if they are in capitals. -/
theorem map_toLower_eq_iff {text text' : List Char} (h : ∀ c ∈ text, c.toNat < 0x80)
    (h' : ∀ c ∈ text', c.toNat < 0x80) :
    text.map Char.toLower = text'.map Char.toLower ↔
      text.map Char.toUpper = text'.map Char.toUpper := by
  have hupper : ∀ {text : List Char}, (∀ c ∈ text, c.toNat < 0x80) →
      (text.map Char.toLower).map Char.toUpper = text.map Char.toUpper := by
    intro text htext
    rw [List.map_map]
    exact List.map_congr_left fun c hc => toUpper_toLower (htext c hc)
  have hlower : ∀ {text : List Char}, (∀ c ∈ text, c.toNat < 0x80) →
      (text.map Char.toUpper).map Char.toLower = text.map Char.toLower := by
    intro text htext
    rw [List.map_map]
    exact List.map_congr_left fun c hc => toLower_toUpper (htext c hc)
  constructor
  · intro hsame
    rw [← hupper h, ← hupper h', hsame]
  · intro hsame
    rw [← hlower h, ← hlower h', hsame]

/-- Equality without regard to case is equality in upper case. -/
theorem sameIgnoringCase_iff {a b : String} :
    sameIgnoringCase a b = true ↔ a.toList.map upperOne = b.toList.map upperOne := by
  rw [sameIgnoringCase]
  split
  · next hascii =>
    have hall : ∀ {text : String}, isAscii text = true → ∀ c ∈ text.toList, c.toNat < 0x80 :=
      fun h c hc => of_decide_eq_true (List.all_eq_true.1 h c hc)
    obtain ⟨ha, hb⟩ := Bool.and_eq_true_iff.1 hascii
    rw [sameIgnoringAscii_iff, map_upperOne_of_isAscii (hall ha), map_upperOne_of_isAscii (hall hb)]
    exact map_toLower_eq_iff (hall ha) (hall hb)
  · exact beq_iff_eq

/-! ## Characters of numbers -/

namespace CaseRun

variable {run : CaseRun} {code image : Nat}

/-- The first code point that a run maps to. -/
def firstImage (run : CaseRun) : Nat := (run.first + run.distance).toNat

/-- The last code point that a run maps to. -/
def lastImage (run : CaseRun) : Nat := (run.last + run.distance).toNat

/-- Whether a run maps to characters beyond ASCII, or to one of some letters only. -/
def mapsBeyond (letters : List Char) (run : CaseRun) : Bool :=
  Nat.beq run.first run.last && letters.any (fun letter => Nat.beq run.firstImage letter.toNat) ||
    Nat.ble 0x80 run.firstImage && (Nat.blt run.lastImage 0xD800 ||
      Nat.blt 0xDFFF run.firstImage && Nat.blt run.lastImage 0x110000)

theorem map?_eq_some_iff :
    run.map? code = some image ↔ (run.first ≤ code ∧ code ≤ run.last ∧
      (code - run.first) % run.step = 0) ∧ (code + run.distance).toNat = image := by
  simp only [map?, Option.ite_none_right_eq_some, Option.some.injEq]

theorem map?_of_mapsBeyond {letters : List Char} (h : run.mapsBeyond letters = true)
    (himage : run.map? code = some image) :
    0x80 ≤ (Char.ofNat image).toNat ∨ Char.ofNat image ∈ letters := by
  obtain ⟨⟨hfirst, hlast, -⟩, rfl⟩ := map?_eq_some_iff.1 himage
  simp only [mapsBeyond, Bool.or_eq_true, Bool.and_eq_true, List.any_eq_true, Nat.beq_eq,
    Nat.ble_eq, Nat.blt_eq, firstImage, lastImage] at h
  rcases h with ⟨hone, letter, hletter, hmapped⟩ | ⟨hbeyond, hrange⟩
  · have hcode : code = run.first := by omega
    rw [hcode, hmapped, Char.ofNat_toNat]
    exact .inr hletter
  · have hvalid : (code + run.distance).toNat.isValidChar := by
      rcases hrange with hlow | ⟨hhigh, hless⟩
      · exact .inl (by omega)
      · exact .inr ⟨by omega, by omega⟩
    have hcode : (Char.ofNat (code + run.distance).toNat).toNat = (code + run.distance).toNat :=
      congrArg Char.toNat (dif_pos hvalid)
    rw [hcode]
    exact .inl (by omega)

end CaseRun

/-- The image of a character beyond ASCII is beyond ASCII, but for some letters. -/
theorem mapCase_beyond {runs : List CaseRun} {letters : List Char}
    (hruns : runs.all (CaseRun.mapsBeyond letters) = true) {c : Char} (h : 0x80 ≤ c.toNat) :
    0x80 ≤ (mapCase runs c).toNat ∨ mapCase runs c ∈ letters := by
  rw [mapCase]
  cases hfound : runs.findSome? (·.map? c.toNat) with
  | none => exact .inl h
  | some image =>
    obtain ⟨run, hrun, hmap⟩ := List.exists_of_findSome?_eq_some hfound
    exact CaseRun.map?_of_mapsBeyond (List.all_eq_true.1 hruns run hrun) hmap

/-- The upper case of a character beyond ASCII is beyond ASCII, but for two letters. -/
theorem upperOne_beyond {c : Char} (h : 0x80 ≤ c.toNat) :
    0x80 ≤ (upperOne c).toNat ∨ upperOne c = 'I' ∨ upperOne c = 'S' := by
  have hruns : upperRuns.all (CaseRun.mapsBeyond ['I', 'S']) = true := by decide +kernel
  rw [upperOne, if_neg (by omega)]
  refine (mapCase_beyond hruns h).imp_right fun hletter => ?_
  exact (List.mem_cons.1 hletter).imp_right List.mem_singleton.1

/-- Where the upper case is another ASCII character, it is that of an ASCII character. -/
theorem ascii_of_upperOne {c : Char} (h : (upperOne c).toNat < 0x80) (hi : upperOne c ≠ 'I')
    (hs : upperOne c ≠ 'S') : c.toNat < 0x80 ∧ upperOne c = c.toUpper := by
  by_cases hc : c.toNat < 0x80
  · exact ⟨hc, if_pos hc⟩
  · rcases upperOne_beyond (Nat.not_lt.1 hc) with hbeyond | hexception | hexception
    · omega
    · exact absurd hexception hi
    · exact absurd hexception hs

theorem lt_of_isNumberStart {c : Char} (h : Character.isNumberStart c = true) :
    c.toNat < 0x80 := by
  rcases Character.isNumberStart_iff.1 h with rfl | rfl | rfl | hdigit
  · decide
  · decide
  · decide
  · have hrange := Character.isDigit_iff.1 hdigit
    omega

theorem lt_of_isHexDigit {c : Char} (h : Character.isHexDigit c = true) : c.toNat < 0x80 := by
  rcases Bool.or_eq_true_iff.1 h with hdigit | hletter
  · have hrange := Character.isDigit_iff.1 hdigit
    omega
  · simp only [Character.isHexLetter, Bool.or_eq_true, Bool.and_eq_true, decide_eq_true_eq,
      Char.le_def, UInt32.le_iff_toNat_le] at hletter
    rcases hletter with ⟨-, hlast⟩ | ⟨-, hlast⟩
    · exact Nat.lt_of_le_of_lt hlast (by decide)
    · exact Nat.lt_of_le_of_lt hlast (by decide)

/-- What a number may be written with besides letters is its own upper case, and that of no other
character. -/
theorem upperOne_eq_self {c : Char} (h : Character.isNumberStart (upperOne c) = true) :
    upperOne c = c := by
  have hall : ∀ code < 0x80, Character.isNumberStart (Char.ofNat code).toUpper = true →
      (Char.ofNat code).toUpper = Char.ofNat code := by decide
  obtain ⟨hc, hupper⟩ := ascii_of_upperOne (lt_of_isNumberStart h)
    (fun hi => by rw [hi] at h; cases h) (fun hs => by rw [hs] at h; cases h)
  rw [hupper] at h ⊢
  exact forall_ascii (p := fun c => Character.isNumberStart c.toUpper = true → c.toUpper = c) hall
    hc h

/-- Case makes no difference to what is a hexadecimal digit, and of what value. -/
theorem isHexDigit_of_upperOne {c : Char} (h : Character.isHexDigit (upperOne c) = true) :
    Character.isHexDigit c = true ∧ hexDigitValue (upperOne c) = hexDigitValue c := by
  have hall : ∀ code < 0x80, Character.isHexDigit (Char.ofNat code).toUpper = true →
      Character.isHexDigit (Char.ofNat code) = true ∧
        hexDigitValue (Char.ofNat code).toUpper = hexDigitValue (Char.ofNat code) := by decide
  obtain ⟨hc, hupper⟩ := ascii_of_upperOne (lt_of_isHexDigit h)
    (fun hi => by rw [hi] at h; cases h) (fun hs => by rw [hs] at h; cases h)
  rw [hupper] at h ⊢
  exact forall_ascii (p := fun c => Character.isHexDigit c.toUpper = true →
    Character.isHexDigit c = true ∧ hexDigitValue c.toUpper = hexDigitValue c) hall hc h

theorem eq_x_of_upperOne {c : Char} (h : upperOne c = 'X') : c = 'x' ∨ c = 'X' := by
  have hall : ∀ code < 0x80, (Char.ofNat code).toUpper = 'X' →
      Char.ofNat code = 'x' ∨ Char.ofNat code = 'X' := by decide
  obtain ⟨hc, hupper⟩ := ascii_of_upperOne (c := c) (by rw [h]; decide) (by rw [h]; decide)
    (by rw [h]; decide)
  exact forall_ascii (p := fun c => c.toUpper = 'X' → c = 'x' ∨ c = 'X') hall hc
    (hupper.symm.trans h)

theorem upperOne_of_isNumberStart {c : Char} (h : Character.isNumberStart c = true) :
    upperOne c = c := by
  have hall : ∀ code < 0x80, Character.isNumberStart (Char.ofNat code) = true →
      (Char.ofNat code).toUpper = Char.ofNat code := by decide
  have hc := lt_of_isNumberStart h
  rw [upperOne, if_pos hc]
  exact forall_ascii (p := fun c => Character.isNumberStart c = true → c.toUpper = c) hall hc h

theorem isHexDigit_upperOne {c : Char} (h : Character.isHexDigit c = true) :
    Character.isHexDigit (upperOne c) = true := by
  have hall : ∀ code < 0x80, Character.isHexDigit (Char.ofNat code) = true →
      Character.isHexDigit (Char.ofNat code).toUpper = true := by decide
  have hc := lt_of_isHexDigit h
  rw [upperOne, if_pos hc]
  exact forall_ascii (p := fun c => Character.isHexDigit c = true →
    Character.isHexDigit c.toUpper = true) hall hc h

/-! ## Texts of numbers -/

variable {text other : List Char}

/-- A text without letters is equal to no other one without regard to case. -/
theorem eq_of_map_upperOne_eq (h : ∀ c ∈ text, Character.isNumberStart c = true)
    (hsame : text.map upperOne = other.map upperOne) : other = text := by
  have hmap : ∀ {list : List Char}, (∀ c ∈ list, upperOne c = c) → list.map upperOne = list :=
    fun hself => (List.map_congr_left (g := id) hself).trans (List.map_id _)
  have htext : text.map upperOne = text := hmap fun c hc => upperOne_of_isNumberStart (h c hc)
  have hother : other.map upperOne = other := by
    refine hmap fun c hc => upperOne_eq_self (h _ ?_)
    rw [← htext, hsame]
    exact List.mem_map_of_mem hc
  exact hother.symm.trans (hsame.symm.trans htext)

/-- Hexadecimal numbers have the same value in any case. -/
theorem hexValue_of_map_upperOne_eq (h : ∀ c ∈ text, Character.isHexDigit c = true)
    (hsame : text.map upperOne = other.map upperOne) :
    (∀ c ∈ other, Character.isHexDigit c = true) ∧ hexValue other = hexValue text := by
  have hvalues : ∀ {digits : List Char}, (∀ c ∈ digits, Character.isHexDigit (upperOne c) = true) →
      (digits.map upperOne).map hexDigitValue = digits.map hexDigitValue := by
    intro digits hdigits
    rw [List.map_map]
    exact List.map_congr_left fun c hc => (isHexDigit_of_upperOne (hdigits c hc)).2
  have htext : ∀ c ∈ text, Character.isHexDigit (upperOne c) = true :=
    fun c hc => isHexDigit_upperOne (h c hc)
  have hother : ∀ c ∈ other, Character.isHexDigit (upperOne c) = true := by
    intro c hc
    have hmem : upperOne c ∈ text.map upperOne := hsame ▸ List.mem_map_of_mem hc
    obtain ⟨d, hd, hcase⟩ := List.mem_map.1 hmem
    exact hcase ▸ htext d hd
  refine ⟨fun c hc => (isHexDigit_of_upperOne (hother c hc)).1, ?_⟩
  rw [hexValue, hexValue, ← hvalues hother, ← hvalues htext, hsame]

end Text

end CondLang
