import WireContract.Text.Case

/-!
# Universally unique identifiers

An identifier is thirty-two hexadecimal digits.  It is written in lower case, in groups of eight,
four, four, four and twelve digits with hyphens between.  That form is read in either case, alone,
between braces or after `urn:uuid:`; the digits alone are read too.
-/

namespace WireContract.Wire

/-- Thirty-two hexadecimal digits. -/
structure Uuid where
  digits : List (Fin 16)
  length_digits : digits.length = 32
deriving DecidableEq, Repr

namespace Uuid

/-- A hexadecimal digit in lower case. -/
def digit (n : Fin 16) : Char :=
  if n.val < 10 then Char.ofNat (48 + n.val) else Char.ofNat (87 + n.val)

/-- The value of a hexadecimal digit. -/
def value? (c : Char) : Option (Fin 16) :=
  if '0' ≤ c && c ≤ '9' then some (Fin.ofNat 16 (c.toNat - 48))
  else if 'a' ≤ c && c ≤ 'f' then some (Fin.ofNat 16 (c.toNat - 87))
  else if 'A' ≤ c && c ≤ 'F' then some (Fin.ofNat 16 (c.toNat - 55))
  else none

/-- The sizes of the groups before the last. -/
def groups : List Nat := [8, 4, 4, 4]

/-- The digits with a hyphen after each group of the given sizes. -/
def hyphenated : List Nat → List Char → List Char
  | [], cs => cs
  | n :: ns, cs => cs.take n ++ '-' :: hyphenated ns (cs.drop n)

/-- The canonical text. -/
def text (u : Uuid) : String :=
  String.ofList (hyphenated groups (u.digits.map digit))

/-- The digits without the hyphens that have to stand after each group. -/
def unhyphenated? : List Nat → List Char → Option (List Char)
  | [], cs => some cs
  | n :: ns, cs =>
    match cs.drop n with
    | '-' :: rest => (cs.take n ++ ·) <$> unhyphenated? ns rest
    | _ => none

/-- The identifier of exactly thirty-two digits. -/
def ofDigits? (cs : List Char) : Option Uuid := do
  let digits ← cs.mapM value?
  if h : digits.length = 32 then some ⟨digits, h⟩ else none

/-- The identifier in its hyphenated form. -/
def ofHyphenated? (cs : List Char) : Option Uuid := do
  ofDigits? (← unhyphenated? groups cs)

/-- The mark that may stand before the hyphenated form, in any case of letters. -/
def urn : List Char := "urn:uuid:".toList

/-- Whether the mark stands at the front. -/
def startsWithUrn (cs : List Char) : Bool :=
  (cs.take urn.length).map Text.asciiLower == urn

/-- What stands between braces. -/
def inBraces? : List Char → Option (List Char)
  | '\x7b' :: cs => if cs.getLast? == some '\x7d' then some cs.dropLast else none
  | _ => none

/-- The identifier that a text gives. -/
def parse? (s : String) : Option Uuid :=
  let cs := s.toList
  if cs.length == 32 then ofDigits? cs
  else
    match inBraces? cs with
    | some inner => ofHyphenated? inner
    | none => ofHyphenated? (if startsWithUrn cs then cs.drop urn.length else cs)

end Uuid

end WireContract.Wire
