import WireContract.Text.Case.Table

/-!
# Upper and lower case of arbitrary text

Case tests and case mappings for every character, not only for ASCII.  The mappings are the
unconditional full ones, so the image of one character may have several (`upper 'ß'` is `SS`, and
`lower 'İ'` is `i` followed by a combining dot).  ASCII is decided by arithmetic before any table
is looked at.
-/

namespace WireContract.Text

namespace Case

/-- Membership in a list of runs `(gap, count, step)`. -/
def inRuns : List (Nat × Nat × Nat) → Nat → Bool
  | [], _ => false
  | (gap, count, step) :: runs, n =>
    let past := gap + (count - 1) * step + 1
    if n < past then gap ≤ n && (n - gap) % step == 0 else inRuns runs (n - past)

/-- The image of a code point under shifted runs, when one of them covers it. -/
def shifted? (runs : List (Nat × Nat × Nat × Int)) (n : Nat) : Option Nat :=
  runs.findSome? fun (first, last, step, shift) =>
    if first ≤ n && n ≤ last && (n - first) % step == 0 then some (Int.ofNat n + shift).toNat
    else none

/-- The full mapping given by sequences and shifted runs; other characters stand for themselves. -/
def mapped (sequences : List (Nat × List Nat)) (runs : List (Nat × Nat × Nat × Int))
    (c : Char) : List Char :=
  match sequences.lookup c.toNat with
  | some image => image.map Char.ofNat
  | none =>
    match shifted? runs c.toNat with
    | some n => [Char.ofNat n]
    | none => [c]

end Case

/-- Lowercase ASCII letters. -/
def isAsciiLower (c : Char) : Bool :=
  'a' ≤ c && c ≤ 'z'

/-- Uppercase ASCII letters. -/
def isAsciiUpper (c : Char) : Bool :=
  'A' ≤ c && c ≤ 'Z'

/-- ASCII digits. -/
def isAsciiDigit (c : Char) : Bool :=
  '0' ≤ c && c ≤ '9'

/-- ASCII letters of either case. -/
def isAsciiAlpha (c : Char) : Bool :=
  isAsciiLower c || isAsciiUpper c

/-- ASCII letters and digits. -/
def isAsciiAlphanumeric (c : Char) : Bool :=
  isAsciiAlpha c || isAsciiDigit c

/-- Upper case within ASCII; every other character stands for itself. -/
def asciiUpper (c : Char) : Char :=
  if isAsciiLower c then Char.ofNat (c.toNat - 32) else c

/-- Lower case within ASCII; every other character stands for itself. -/
def asciiLower (c : Char) : Char :=
  if isAsciiUpper c then Char.ofNat (c.toNat + 32) else c

/-- Characters with the property `Uppercase`. -/
def isUpper (c : Char) : Bool :=
  if c.toNat < 128 then isAsciiUpper c else Case.inRuns Case.uppercaseRuns c.toNat

/-- Characters with the property `Lowercase`. -/
def isLower (c : Char) : Bool :=
  if c.toNat < 128 then isAsciiLower c else Case.inRuns Case.lowercaseRuns c.toNat

/-- The full upper case of one character. -/
def upperChars (c : Char) : List Char :=
  if c.toNat < 128 then [asciiUpper c] else Case.mapped Case.toUpperSequences Case.toUpperRuns c

/-- The full lower case of one character. -/
def lowerChars (c : Char) : List Char :=
  if c.toNat < 128 then [asciiLower c] else Case.mapped Case.toLowerSequences Case.toLowerRuns c

/-- The full upper case of a text, character by character. -/
def upper (s : String) : String :=
  String.ofList (s.toList.flatMap upperChars)

end WireContract.Text
