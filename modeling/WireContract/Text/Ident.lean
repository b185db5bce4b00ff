import WireContract.Text.Ident.Table

/-!
# Identifier characters

An identifier starts with a character of `XID_Start` or an underscore and goes on with characters
of `XID_Continue`.
-/

namespace WireContract.Text

/-- Membership in a list of runs, each given by the gap before it and its length. -/
def inRuns : List (Nat × Nat) → Nat → Bool
  | [], _ => false
  | (gap, count) :: runs, n =>
    if n < gap + count then gap ≤ n else inRuns runs (n - (gap + count))

/-- Characters that may start an identifier. -/
def isIdentStart (c : Char) : Bool :=
  if c.toNat < 128 then
    ('a' ≤ c && c ≤ 'z') || ('A' ≤ c && c ≤ 'Z') || c == '_'
  else inRuns Ident.startRuns c.toNat

/-- Characters that may stand inside an identifier. -/
def isIdentContinue (c : Char) : Bool :=
  if c.toNat < 128 then
    ('a' ≤ c && c ≤ 'z') || ('A' ≤ c && c ≤ 'Z') || ('0' ≤ c && c ≤ '9') || c == '_'
  else inRuns Ident.startRuns c.toNat || inRuns Ident.innerRuns c.toNat

/-- Texts that are identifiers, keywords among them. -/
def isIdent : List Char → Bool
  | [] => false
  | c :: cs => isIdentStart c && cs.all isIdentContinue

end WireContract.Text
