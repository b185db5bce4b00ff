import WireContract.Double.Decimal
import WireContract.Json.Basic
import WireContract.Text.Case

/-!
# What a plain scalar means

A scalar without quotes is null, a boolean, a number or else a text.  Integers may be written in
base sixteen, eight or two; digits after a leading zero are a text.  Integers of up to one hundred
and twenty-eight bits are recognised as integers, of which only those of sixty-four bits have a
value.  Numbers too large for a double are texts, and what is not a finite number is null.
-/

namespace WireContract.Yaml

/-- The meaning of a scalar. -/
inductive Meaning where
  | null
  | bool (b : Bool)
  | int (n : Int)
  /-- An integer that no JSON number holds. -/
  | hugeInt
  | double (x : Double)
  | notFinite
  | text
deriving DecidableEq, Repr

/-! ## Words -/

/-- Whether a word means null. -/
def isNullWord (s : String) : Bool :=
  ["null", "Null", "NULL", "~"].contains s

/-- The boolean that a word means. -/
def boolWord? (s : String) : Option Bool :=
  if ["true", "True", "TRUE"].contains s then some true
  else if ["false", "False", "FALSE"].contains s then some false
  else none

/-! ## Integers -/

/-- The value of a digit in any base up to sixteen. -/
def digitValue? (c : Char) : Option Nat :=
  if '0' ≤ c && c ≤ '9' then some (c.toNat - 48)
  else if 'a' ≤ c && c ≤ 'f' then some (c.toNat - 87)
  else if 'A' ≤ c && c ≤ 'F' then some (c.toNat - 55)
  else none

/-- The number that digits write in a base. -/
def natOf? (base : Nat) (cs : List Char) : Option Nat :=
  if cs.isEmpty then none
  else cs.foldlM (fun n c => do
    let d ← digitValue? c
    if d < base then some (n * base + d) else none) 0

/-- The number of a text that names its base. -/
def basedNat? : List Char → Option Nat
  | '0' :: 'x' :: digits => natOf? 16 digits
  | '0' :: 'o' :: digits => natOf? 8 digits
  | '0' :: 'b' :: digits => natOf? 2 digits
  | _ => none

/-- The text without one sign. -/
def unsigned : List Char → List Char
  | '-' :: cs => cs
  | '+' :: cs => cs
  | cs => cs

/-- Digits after a leading zero, which are no number. -/
def isZeroLed (cs : List Char) : Bool :=
  match unsigned cs with
  | '0' :: c :: rest => (c :: rest).all Text.isAsciiDigit
  | _ => false

/-- The number of a text in some base, ten if none is named. -/
def natIn? (cs : List Char) : Option Nat :=
  (basedNat? cs).or (if isZeroLed cs then none else natOf? 10 cs)

/-- The integer that a text writes, if it has at most one hundred and twenty-eight bits. -/
def integer? (cs : List Char) : Option Meaning :=
  match cs with
  | '-' :: digits => do
    let n ← natIn? digits
    if n ≤ Double.pow2 63 then some (.int (-(n : Int)))
    else if n ≤ Double.pow2 127 then some .hugeInt
    else none
  | _ => do
    let n ← natIn? (match cs with
      | '+' :: digits => digits
      | _ => cs)
    if n < Double.pow2 64 then some (.int n)
    else if n < Double.pow2 128 then some .hugeInt
    else none

/-! ## Doubles -/

/-- The exponent that ends a number. -/
def exponent? : List Char → Option Int
  | [] => some 0
  | e :: cs =>
    if e == 'e' || e == 'E' then
      match cs with
      | '-' :: digits => (natOf? 10 digits).map fun n => -(n : Int)
      | '+' :: digits => (natOf? 10 digits).map fun n => (n : Int)
      | digits => (natOf? 10 digits).map fun n => (n : Int)
    else none

/-- A decimal number with an optional minus sign, if a double can hold it. -/
def decimal? (cs : List Char) : Option Double := do
  let (negative, cs) := match cs with
    | '-' :: rest => (true, rest)
    | _ => (false, cs)
  let whole := cs.takeWhile Text.isAsciiDigit
  let (fraction, after) := match cs.drop whole.length with
    | '.' :: rest =>
      let fraction := rest.takeWhile Text.isAsciiDigit
      (fraction, rest.drop fraction.length)
    | rest => ([], rest)
  let digits ← natOf? 10 (whole ++ fraction)
  let exponent ← exponent? after
  Double.ofDecimal negative digits (exponent - fraction.length)

/-- The double that a text writes. -/
def double? (cs : List Char) : Option Meaning :=
  let s := String.ofList cs
  let (signed, positive) := match cs with
    | '+' :: rest => (true, rest)
    | _ => (false, cs)
  if [".inf", ".Inf", ".INF"].contains (String.ofList positive) then some .notFinite
  else if ["-.inf", "-.Inf", "-.INF", ".nan", ".NaN", ".NAN"].contains s then some .notFinite
  else if signed && positive.head? == some '-' then none
  else (decimal? positive).map .double

/-! ## Scalars -/

/-- The meaning of a scalar without quotes. -/
def meaning (s : String) : Meaning :=
  let cs := s.toList
  if s.isEmpty || isNullWord s then .null
  else
    match boolWord? s with
    | some b => .bool b
    | none =>
      match integer? cs with
      | some m => m
      | none => if isZeroLed cs then .text else (double? cs).getD .text

/-- The value of a scalar with a meaning. -/
def Meaning.toJson (text : String) : Meaning → Option Json
  | .null | .notFinite => some .null
  | .bool b => some (.bool b)
  | .int n => some (.num (.int n))
  | .double x => some (.num (.double x))
  | .text => some (.str text)
  | .hugeInt => none

/-- Whether a text has to be quoted lest it reads as something else. -/
def isAmbiguous (s : String) : Bool :=
  meaning s != .text || isZeroLed s.toList

end WireContract.Yaml
