import CondLang.Text.Digits

/-!
# Binary floating point

A finite double is a mantissa below `2 ^ 53` times a power of two whose exponent is at least -1074.
`round` takes a fraction to the nearest double, to the even mantissa if two are equally near, and
`shortest` finds the fewest decimal digits that are nearer to a double than to any other.  Both
compute with whole numbers only.
-/

namespace CondLang

/-- The number `mantissa * 2 ^ exponent`, with a sign. -/
structure Double where
  negative : Bool
  mantissa : Nat
  exponent : Int
  deriving DecidableEq, Repr, Inhabited

namespace Double

/-- The fraction `num / den` times a power of two, as a fraction. -/
def scaleBy (num den : Nat) (power : Int) : Nat × Nat :=
  if power < 0 then (num, den * Nat.pow 2 (-power).toNat)
  else (num * Nat.pow 2 power.toNat, den)

/-- A quotient rounded to the nearest whole number, a half to the even one. -/
def divideToEven (num den : Nat) : Nat :=
  let quotient := num / den
  let rest := num % den
  if den < 2 * rest ∨ (2 * rest = den ∧ quotient % 2 = 1) then quotient + 1 else quotient

/-- The double nearest to a fraction that is not negative; `none` if that is beyond the largest. -/
def round (num den : Nat) : Option Double :=
  if num = 0 then some ⟨false, 0, 0⟩
  else
    -- The binary order of magnitude, from which the exponent of a full mantissa follows.
    let estimate : Int := (num.log2 : Int) - (den.log2 : Int)
    let (n, d) := scaleBy num den (-estimate)
    let magnitude := if n < d then estimate - 1 else estimate
    let exponent := max (magnitude - 52) (-1074)
    let (n, d) := scaleBy num den (-exponent)
    let mantissa := divideToEven n d
    let (mantissa, exponent) :=
      if mantissa = Nat.pow 2 53 then (Nat.pow 2 52, exponent + 1) else (mantissa, exponent)
    if exponent > 971 then none else some ⟨false, mantissa, exponent⟩

/-- The fraction that the size of a double is. -/
def fraction (x : Double) : Nat × Nat := scaleBy x.mantissa 1 x.exponent

/-- A double times ten to a power, rounded; `none` if the product is too large. -/
def timesTenTo (x : Double) (power : Nat) : Option Double := do
  let ten ← round (Nat.pow 10 power) 1
  let (n, d) := x.fraction
  let (m, e) := ten.fraction
  let product ← round (n * m) (d * e)
  return { product with negative := x.negative }

/-- A double divided by ten to a power, rounded. -/
def overTenTo (x : Double) (power : Nat) : Option Double := do
  let ten ← round (Nat.pow 10 power) 1
  let (n, d) := x.fraction
  let (m, e) := ten.fraction
  let quotient ← round (n * e) (d * m)
  return { quotient with negative := x.negative }

/-! ## Shortest digits -/

/-- Whether a fraction lies between two others, which belong to the range or not. -/
def within (low high : Nat × Nat) (closed : Bool) (n d : Nat) : Bool :=
  let above := low.1 * d
  let below := n * high.2
  if closed then decide (above ≤ n * low.2) && decide (below ≤ high.1 * d)
  else decide (above < n * low.2) && decide (below < high.1 * d)

/-- The fractions halfway to the two neighbours of a double, and whether they round to it. -/
def interval (x : Double) : (Nat × Nat) × (Nat × Nat) × Bool :=
  let narrow := x.mantissa = Nat.pow 2 52 ∧ x.exponent > -1074
  let low :=
    if narrow then scaleBy (4 * x.mantissa - 1) 4 x.exponent
    else scaleBy (2 * x.mantissa - 1) 2 x.exponent
  (low, scaleBy (2 * x.mantissa + 1) 2 x.exponent, x.mantissa % 2 = 0)

/-- The decimal exponent of a fraction: it is at least one tenth of, and less than, ten to that
power. The search goes down from an exponent that is too large. -/
def decimalExponent (n d : Nat) : Nat → Int → Int
  | 0, power => power
  | fuel + 1, power =>
      let lower := power - 1
      let reached :=
        if lower < 0 then decide (d ≤ n * Nat.pow 10 (-lower).toNat)
        else decide (d * Nat.pow 10 lower.toNat ≤ n)
      if reached then power else decimalExponent n d fuel lower

/-- The fraction `units * 10 ^ power`. -/
def decimalFraction (units : Nat) (power : Int) : Nat × Nat :=
  if power < 0 then (units, Nat.pow 10 (-power).toNat)
  else (units * Nat.pow 10 power.toNat, 1)

/-- The decimal on a grid nearest to a double among its two neighbours there that round to it; of
two equally near, the even one. -/
def nearestOnGrid? (x : Double) (power : Int) : Option Nat :=
  let (n, d) := x.fraction
  let (low, high, closed) := x.interval
  let (gn, gd) := decimalFraction 1 power
  let floor := n * gd / (d * gn)
  let rest := n * gd % (d * gn)
  let fits (units : Nat) : Bool :=
    let (un, ud) := decimalFraction units power
    units > 0 && within low high closed un ud
  let upperNearer := d * gn < 2 * rest ∨ (2 * rest = d * gn ∧ floor % 2 = 1)
  if fits floor && fits (floor + 1) then some (if upperNearer then floor + 1 else floor)
  else if fits floor then some floor
  else if fits (floor + 1) then some (floor + 1)
  else none

/-- The first grid, from coarse to fine, that has a decimal for a double. -/
def shortestFrom (x : Double) (magnitude : Int) : Nat → Nat → Nat × Int
  | 0, count => ((x.nearestOnGrid? (magnitude - count)).getD 0, magnitude - count)
  | fuel + 1, count =>
      match x.nearestOnGrid? (magnitude - count) with
      | some units => (units, magnitude - count)
      | none => shortestFrom x magnitude fuel (count + 1)

/-- The fewest digits that are nearer to a double than to any other, as a whole number and the power
of ten to multiply it with. -/
def shortest (x : Double) : Nat × Int :=
  let (n, d) := x.fraction
  shortestFrom x (decimalExponent n d 700 310) 17 1

/-! ## Text -/

/-- Digits without the zeros at their end, and the power of ten that belongs to them. -/
def dropZeros (digits : List Char) (power : Int) : List Char × Int :=
  let kept := (digits.reverse.dropWhile (· == '0')).reverse
  (kept, power + (digits.length - kept.length : Nat))

/-- A double as text: positional from `0.00001` up to sixteen whole digits, with at least one
decimal, and else with an exponent, whose sign is always written. -/
def toText (x : Double) : String :=
  let sign := if x.negative then ['-'] else []
  if x.mantissa = 0 then .ofList (sign ++ "0.0".toList)
  else
    let (units, power) := x.shortest
    let (digits, power) := dropZeros (Text.decimalDigits units) power
    let count : Int := digits.length
    -- The first digit stands for this power of ten.
    let leading := power + count - 1
    if 0 ≤ power ∧ leading < 16 then
      .ofList (sign ++ digits ++ List.replicate power.toNat '0' ++ ".0".toList)
    else if 0 ≤ leading ∧ leading < 16 then
      let whole := (leading + 1).toNat
      .ofList (sign ++ digits.take whole ++ '.' :: digits.drop whole)
    else if -5 ≤ leading ∧ leading < 0 then
      .ofList (sign ++ "0.".toList ++ List.replicate (-leading - 1).toNat '0' ++ digits)
    else
      let exponent := (if leading < 0 then '-' else '+') :: Text.decimalDigits leading.natAbs
      let decimals := if digits.length > 1 then '.' :: digits.drop 1 else []
      .ofList (sign ++ digits.take 1 ++ decimals ++ 'e' :: exponent)

end Double

end CondLang
