/-!
# Digits

Reading and writing natural numbers in a base of at most sixteen.  `natOfDigits` reads the most
significant digit first.
-/

namespace CondLang.Text

/-- The value of a decimal digit. -/
def digitValue (c : Char) : Nat := c.toNat - '0'.toNat

/-- The value of a hexadecimal digit. -/
def hexDigitValue (c : Char) : Nat :=
  if c.isDigit then c.toNat - '0'.toNat
  else if 'a' ≤ c then c.toNat - 'a'.toNat + 10
  else c.toNat - 'A'.toNat + 10

/-- The number that digits with the given values write in a base. -/
def natOfDigits (base : Nat) (digits : List Nat) : Nat :=
  digits.foldl (fun value digit => value * base + digit) 0

theorem natOfDigits_append (base : Nat) (front back : List Nat) :
    natOfDigits base (front ++ back) =
      back.foldl (fun value digit => value * base + digit) (natOfDigits base front) := by
  simp [natOfDigits, List.foldl_append]

/-- The number that decimal digits write. -/
def decimalValue (digits : List Char) : Nat := natOfDigits 10 (digits.map digitValue)

/-- The value of digits is the one by which natural numbers are read. -/
theorem decimalValue_eq_ofDigitChars (digits : List Char) :
    decimalValue digits = Nat.ofDigitChars 10 digits 0 := by
  rw [Nat.ofDigitChars_eq_foldl, decimalValue, natOfDigits, List.foldl_map]
  simp only [digitValue, Nat.mul_comm]

/-- The number that hexadecimal digits write. -/
def hexValue (digits : List Char) : Nat := natOfDigits 16 (digits.map hexDigitValue)

/-- The decimal digits of a number, without leading zeros. -/
def decimalDigits (n : Nat) : List Char := Nat.toDigits 10 n

theorem decimalValue_decimalDigits (n : Nat) : decimalValue (decimalDigits n) = n := by
  rw [decimalValue_eq_ofDigitChars]
  exact Nat.ofDigitChars_ten_toDigits

/-- The decimal digits of a number, filled up with zeros in front to at least `width`. -/
def paddedDigits (width n : Nat) : List Char :=
  let digits := decimalDigits n
  List.replicate (width - digits.length) '0' ++ digits

end CondLang.Text
