/-!
# Finite binary64 numbers by exact arithmetic

A `Double` is a sign and a natural multiple of the least positive number `2 ^ (-1074)`, kept as a
significand below `2 ^ 53` and a power of two.  Every operation is one exact rational computation
followed by one rounding to nearest, ties to the even significand; it fails where the rounded
number has no finite form.  Nothing here depends on machine floating point, so each operation can
be computed and reasoned about in `Nat`.
-/

namespace WireContract

/-- The number `± significand * 2 ^ scale * 2 ^ (-1074)`. -/
structure Double where
  negative : Bool
  significand : Nat
  scale : Nat
deriving DecidableEq, Repr, Inhabited

namespace Double

/-- A power of two. -/
def pow2 (n : Nat) : Nat := Nat.pow 2 n

/-- A power of ten. -/
def pow10 (n : Nat) : Nat := Nat.pow 10 n

/-- The number of significand bits. -/
def precision : Nat := 53

/-- The least positive number is `2 ^ (-minExponent)`. -/
def minExponent : Nat := 1074

/-- The largest power of two of a finite number, counted from the least positive one. -/
def maxScale : Nat := 2045

/-- The magnitude as a multiple of `2 ^ (-1074)`. -/
def units (x : Double) : Nat :=
  x.significand * pow2 x.scale

/-- Positive or negative zero. -/
def isZero (x : Double) : Bool :=
  x.significand == 0

/-- The quotient rounded to nearest, a half going to the even neighbour. -/
def roundQuotient (num den : Nat) : Nat :=
  let quotient := num / den
  let rest := num % den
  if 2 * rest < den then quotient
  else if den < 2 * rest then quotient + 1
  else if quotient % 2 == 0 then quotient
  else quotient + 1

/-- The number nearest to `num / den`, unless that is too large to be finite. -/
def ofRatio (negative : Bool) (num den : Nat) : Option Double :=
  let total := num * pow2 minExponent
  let bits := if total / den == 0 then 0 else Nat.log2 (total / den) + 1
  let scale := bits - precision
  let significand := roundQuotient total (den * pow2 scale)
  let (significand, scale) :=
    if significand == pow2 precision then (pow2 (precision - 1), scale + 1)
    else (significand, scale)
  if scale ≤ maxScale then some ⟨negative, significand, scale⟩ else none

/-- The number nearest to a natural number. -/
def ofNat? (n : Nat) : Option Double :=
  ofRatio false n 1

/-- The number nearest to an integer; zero is positive. -/
def ofInt? (n : Int) : Option Double :=
  ofRatio (n < 0) n.natAbs 1

/-- The rounded product. -/
def mul (x y : Double) : Option Double :=
  ofRatio (x.negative != y.negative) (x.units * y.units) (pow2 (2 * minExponent))

/-- The rounded quotient by a number other than zero. -/
def div (x y : Double) : Option Double :=
  ofRatio (x.negative != y.negative) x.units y.units

/-- The same magnitude with the given sign. -/
def withSign (negative : Bool) (x : Double) : Double :=
  { x with negative }

end Double

end WireContract
