import WireContract.Double.Basic

/-!
# Reading and writing doubles as decimals

Reading comes in two strengths.  `ofDecimal` gives the double nearest to the decimal.  `ofScaled`
first rounds the digits to a double and then scales by a power of ten, with one rounding at each
step; it may differ from the nearest double in the last place.

Writing uses the fewest digits that read back as the same double, and of these the ones nearest
to it.  A `Style` says where positional notation ends and how a positive exponent is marked.
-/

namespace WireContract.Double

/-! ## Reading -/

/-- The double nearest to `± digits * 10 ^ exponent`, unless that is too large. -/
def ofDecimal (negative : Bool) (digits : Nat) (exponent : Int) : Option Double :=
  if digits == 0 then some ⟨negative, 0, 0⟩
  else
    let top := exponent + (Nat.toDigits 10 digits).length
    if 310 < top then none
    else if top < -330 then some ⟨negative, 0, 0⟩
    else if 0 ≤ exponent then ofRatio negative (digits * pow10 exponent.toNat) 1
    else ofRatio negative digits (pow10 (-exponent).toNat)

/-- The largest power of ten with a finite double. -/
def maxPowerOfTen : Nat := 308

/-- The double nearest to a power of ten. -/
def powerOfTen (n : Nat) : Option Double :=
  ofRatio false (pow10 n) 1

/-- Scales by a power of ten.  A power beyond the finite ones is reached in several divisions, and
never by multiplication. -/
def scaleByTen (x : Double) (exponent : Int) : Option Double :=
  if exponent.natAbs ≤ maxPowerOfTen then do
    let power ← powerOfTen exponent.natAbs
    if 0 ≤ exponent then x.mul power else x.div power
  else if x.isZero then some x
  else if 0 ≤ exponent then none
  else do
    let power ← powerOfTen maxPowerOfTen
    scaleByTen (← x.div power) (exponent + maxPowerOfTen)
termination_by exponent.natAbs
decreasing_by simp only [maxPowerOfTen] at *; omega

/-- The digits as a double, scaled by a power of ten; each step rounds. -/
def ofScaled (negative : Bool) (digits : Nat) (exponent : Int) : Option Double := do
  let x ← ofNat? digits
  return (← x.scaleByTen exponent).withSign negative

/-! ## Fewest digits -/

/-- The number of decimal digits before the point of `num / den`, negative for small fractions:
the `k` with `10 ^ (k - 1) ≤ num / den < 10 ^ k`. -/
def decimalTop (num den : Nat) : Int :=
  let whole := num / den
  if whole != 0 then (Nat.toDigits 10 whole).length
  else
    let inverse := (den - 1) / num
    1 - (Nat.toDigits 10 inverse).length

/-- Whether `digits * 10 ^ exponent` rounds to the double: it lies between the midpoints to its
neighbours, which count when the significand is even.  Both sides are compared in quarters of the
double's last place. -/
def readsBack (x : Double) (digits : Nat) (exponent : Int) : Bool :=
  let scaledUp := if 0 ≤ exponent then digits * pow10 exponent.toNat else digits
  let scaledDown := if 0 ≤ exponent then 1 else pow10 (-exponent).toNat
  let value := 4 * scaledUp * pow2 minExponent
  let place := pow2 x.scale * scaledDown
  let below := if x.significand == pow2 (precision - 1) && x.scale != 0 then 1 else 2
  let low := (4 * x.significand - below) * place
  let high := (4 * x.significand + 2) * place
  if x.significand % 2 == 0 then low ≤ value && value ≤ high else low < value && value < high

/-- The neighbours of the double on the grid of multiples of `10 ^ exponent`, the nearer first; of
two equally near ones the even first. -/
def gridNeighbours (x : Double) (exponent : Int) : List Nat :=
  let num := if 0 ≤ exponent then x.units else x.units * pow10 (-exponent).toNat
  let den := pow2 minExponent * (if 0 ≤ exponent then pow10 exponent.toNat else 1)
  let floor := num / den
  let rest := num % den
  if rest == 0 then [floor]
  else if 2 * rest < den || (2 * rest == den && floor % 2 == 0) then [floor, floor + 1]
  else [floor + 1, floor]

/-- The digits and exponent found by trying grids from coarse to fine. -/
def searchDigits (x : Double) (top : Int) : (tries : Nat) → (count : Nat) → Nat × Int
  | 0, count => ((x.gridNeighbours (top - count)).headD 0, top - count)
  | tries + 1, count =>
    let exponent := top - count
    match (x.gridNeighbours exponent).find? (x.readsBack · exponent) with
    | some digits => (digits, exponent)
    | none => searchDigits x top tries (count + 1)

/-- The shortest decimal of a number other than zero, as digits and a power of ten. -/
def shortest (x : Double) : Nat × Int :=
  x.searchDigits (decimalTop x.units (pow2 minExponent)) 17 1

/-! ## Writing -/

/-- How a decimal is laid out: the decimal exponents that are written positionally, and the mark
of a positive exponent. -/
structure Style where
  leastPositional : Int
  greatestPositional : Int
  plus : String

/-- Digits without trailing zeros, and how many there were. -/
def stripZeros (ds : List Char) : List Char × Nat :=
  let kept := (ds.reverse.dropWhile (· == '0')).reverse
  (kept, ds.length - kept.length)

/-- The text of a positive decimal: `digits` with the point after the first `point` of them. -/
def layoutDigits (style : Style) (digits : List Char) (point : Int) : String :=
  let count : Int := digits.length
  let exponent := point - 1
  if exponent < style.leastPositional || style.greatestPositional < exponent then
    let tail := digits.drop 1
    let fraction := if tail.isEmpty then "" else "." ++ String.ofList tail
    let sign := if exponent < 0 then "-" else style.plus
    String.ofList (digits.take 1) ++ fraction ++ "e" ++ sign ++ toString exponent.natAbs
  else if point ≤ 0 then
    "0." ++ String.ofList (List.replicate (-point).toNat '0') ++ String.ofList digits
  else if point < count then
    String.ofList (digits.take point.toNat) ++ "." ++ String.ofList (digits.drop point.toNat)
  else
    String.ofList digits ++ String.ofList (List.replicate (point - count).toNat '0') ++ ".0"

/-- The text of a double: its shortest decimal in the given style. -/
def format (style : Style) (x : Double) : String :=
  let sign := if x.negative then "-" else ""
  if x.isZero then sign ++ "0.0"
  else
    let (digits, exponent) := x.shortest
    let (kept, dropped) := stripZeros (Nat.toDigits 10 digits)
    sign ++ layoutDigits style kept (exponent + dropped + kept.length)

end WireContract.Double
