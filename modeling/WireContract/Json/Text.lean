import WireContract.Json.Basic

/-!
# The text of a JSON value

Values are written without blanks, fields in their own order.  A double is written by its shortest
decimal and always shows a point or an exponent, so that it reads back as a double.
-/

namespace WireContract.Json

/-- Doubles are positional from `0.00001` up to sixteen digits before the point; a positive
exponent has a plus sign. -/
def doubleStyle : Double.Style := ⟨-5, 15, "+"⟩

/-- The text of a number. -/
def Number.text : Number → String
  | .int n => toString n
  | .double x => x.format doubleStyle

/-- One hexadecimal digit, in lower case. -/
def hexDigit (n : Nat) : Char :=
  (Nat.toDigits 16 n).headD '0'

/-- The form of one character inside a string. -/
def escape (c : Char) : List Char :=
  if c == '"' then ['\\', '"']
  else if c == '\\' then ['\\', '\\']
  else if c == '\x08' then ['\\', 'b']
  else if c == '\x0c' then ['\\', 'f']
  else if c == '\n' then ['\\', 'n']
  else if c == '\r' then ['\\', 'r']
  else if c == '\t' then ['\\', 't']
  else if c.toNat < 0x20 then
    ['\\', 'u', '0', '0', hexDigit (c.toNat / 16), hexDigit (c.toNat % 16)]
  else [c]

/-- A string between its quotes. -/
def stringText (s : String) : String :=
  String.ofList ('"' :: (s.toList.flatMap escape ++ ['"']))

mutual

/-- The text of a value. -/
def text : Json → String
  | null => "null"
  | bool b => if b then "true" else "false"
  | num n => n.text
  | str s => stringText s
  | arr items => "[" ++ itemsText items ++ "]"
  | obj fields => "\x7b" ++ fieldsText fields ++ "\x7d"

/-- The items, separated by commas. -/
def itemsText : List Json → String
  | [] => ""
  | [x] => text x
  | x :: xs => text x ++ "," ++ itemsText xs

/-- The fields, separated by commas. -/
def fieldsText : List (String × Json) → String
  | [] => ""
  | [(k, x)] => stringText k ++ ":" ++ text x
  | (k, x) :: xs => stringText k ++ ":" ++ text x ++ "," ++ fieldsText xs

end

end WireContract.Json
