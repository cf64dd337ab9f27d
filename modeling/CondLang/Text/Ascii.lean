/-!
# ASCII case

Keywords, function names, properties, item types and metadata are compared without regard to the
case of ASCII letters; all other characters are compared as they are.  `asciiKey` is the text such a
comparison looks at, so equal names are names with equal keys.
-/

namespace CondLang.Text

/-- The characters of a text with ASCII capitals made small. -/
def asciiKey (text : String) : List Char := text.toList.map Char.toLower

/-- Whether two texts differ at most in the case of ASCII letters. -/
def sameIgnoringAscii (a b : String) : Bool := asciiKey a == asciiKey b

theorem sameIgnoringAscii_iff {a b : String} :
    sameIgnoringAscii a b = true ↔ asciiKey a = asciiKey b := by
  simp [sameIgnoringAscii]

@[simp] theorem sameIgnoringAscii_refl (a : String) : sameIgnoringAscii a a = true := by
  simp [sameIgnoringAscii]

theorem sameIgnoringAscii_comm (a b : String) :
    sameIgnoringAscii a b = sameIgnoringAscii b a := by
  simp only [sameIgnoringAscii]
  exact Bool.beq_comm ..

theorem sameIgnoringAscii_trans {a b c : String}
    (hab : sameIgnoringAscii a b = true) (hbc : sameIgnoringAscii b c = true) :
    sameIgnoringAscii a c = true := by
  rw [sameIgnoringAscii_iff] at *
  exact hab.trans hbc

/-- Whether every character of a text is ASCII. -/
def isAscii (text : String) : Bool := text.toList.all (·.toNat < 0x80)

end CondLang.Text
