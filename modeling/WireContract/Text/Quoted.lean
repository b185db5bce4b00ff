import WireContract.Text.Ident
import WireContract.Text.Quoted.Table

/-!
# Quoted text in messages

A text quoted in a message stands between double quotes.  Quotes, backslashes and the usual
control characters are escaped; a character without a visible form, or one that would attach to
its neighbour, is written by its code point in hexadecimal.
-/

namespace WireContract.Text

namespace Quoted

/-- Characters shown as themselves. -/
def isVisible (c : Char) : Bool :=
  if c.toNat < 128 then 0x20 ≤ c.toNat && c.toNat < 0x7F
  else !inRuns hiddenRuns c.toNat

/-- The form of one character between the quotes. -/
def escape (c : Char) : List Char :=
  if c == '\x00' then ['\\', '0']
  else if c == '\t' then ['\\', 't']
  else if c == '\r' then ['\\', 'r']
  else if c == '\n' then ['\\', 'n']
  else if c == '"' then ['\\', '"']
  else if c == '\\' then ['\\', '\\']
  else if isVisible c then [c]
  else ['\\', 'u', '\x7b'] ++ Nat.toDigits 16 c.toNat ++ ['\x7d']

end Quoted

/-- The text between double quotes, with escapes. -/
def quoted (s : String) : String :=
  String.ofList ('"' :: (s.toList.flatMap Quoted.escape ++ ['"']))

end WireContract.Text
