import WireContract.Text.Case
import WireContract.Text.Ident
import WireContract.Text.Quoted

/-!
# Literals of Rust source

A literal is kept as it is written.  `Literal.afterLiteral?` finds where the literal at the front of
a text ends: a string, byte string, C string, byte, character or number, with a suffix if it has
one.  `Literal.stringValue?` gives the text that a string literal stands for.
-/

namespace WireContract.Rust.Literal

/-! ## Parts of literals -/

/-- What follows a word at the front, if there is one. -/
def afterWord? : List Char → Option (List Char)
  | c :: cs => if Text.isIdentStart c then some (cs.dropWhile Text.isIdentContinue) else none
  | [] => none

/-- What follows an optional suffix. -/
def afterSuffix (cs : List Char) : List Char :=
  (afterWord? cs).getD cs

/-- What follows a text at the front. -/
def afterText? : List Char → List Char → Option (List Char)
  | [], cs => some cs
  | w :: ws, c :: cs => if c == w then afterText? ws cs else none
  | _ :: _, [] => none

/-- The value of a hexadecimal digit. -/
def hexValue? (c : Char) : Option Nat :=
  if '0' ≤ c && c ≤ '9' then some (c.toNat - 48)
  else if 'a' ≤ c && c ≤ 'f' then some (c.toNat - 87)
  else if 'A' ≤ c && c ≤ 'F' then some (c.toNat - 55)
  else none

/-- The kinds of quoted literals. -/
inductive Quoted where
  | text
  | bytes
  | terminated
deriving DecidableEq, Repr

/-- The character of a one-letter escape. -/
def shortEscape? (c : Char) : Option Char :=
  if c == 'n' then some '\n'
  else if c == 'r' then some '\r'
  else if c == 't' then some '\t'
  else if c == '0' then some '\x00'
  else if c == '\\' || c == '\'' || c == '"' then some c
  else none

/-- The value of two hexadecimal digits, as far as the kind allows it. -/
def hexEscape? (kind : Quoted) (a b : Char) : Option Nat := do
  let n := (← hexValue? a) * 16 + (← hexValue? b)
  match kind with
  | .text => if n < 0x80 then some n else none
  | .bytes => some n
  | .terminated => if n == 0 then none else some n

/-- The value of up to six hexadecimal digits up to a closing brace, and what follows.  Underscores
may stand after the first digit. -/
def bracedEscape? (count value : Nat) : List Char → Option (Char × List Char)
  | [] => none
  | c :: cs =>
    if c == '_' && 0 < count then bracedEscape? count value cs
    else if c == '\x7d' && 0 < count then
      if value < 0xD800 || (0xDFFF < value && value < 0x110000) then some (Char.ofNat value, cs)
      else none
    else do
      let d ← hexValue? c
      if count == 6 then none else bracedEscape? (count + 1) (value * 16 + d) cs

/-- What follows a backslash at the end of a line: the next character that is no blank. -/
def afterLineEnd? : (fuel : Nat) → (last : Char) → List Char → Option (List Char)
  | 0, _, _ => none
  | fuel + 1, last, cs => do
    let cs ←
      if last == '\r' then
        match cs with
        | '\n' :: cs => some cs
        | _ => none
      else some cs
    match cs with
    | [] => none
    | c :: rest =>
      if c == ' ' || c == '\t' || c == '\n' || c == '\r' then afterLineEnd? fuel c rest else some cs

/-- The value of a quoted literal from the character after its quote, and what follows the closing
quote. -/
def cooked? (kind : Quoted) : (fuel : Nat) → List Char → Option (List Char × List Char)
  | 0, _ => none
  | _, [] => none
  | _, '"' :: cs => some ([], cs)
  | fuel + 1, '\r' :: '\n' :: cs => do
    let (value, rest) ← cooked? kind fuel cs
    return ('\n' :: value, rest)
  | _, '\r' :: _ => none
  | fuel + 1, '\\' :: 'x' :: a :: b :: cs => do
    let n ← hexEscape? kind a b
    let (value, rest) ← cooked? kind fuel cs
    return (Char.ofNat n :: value, rest)
  | fuel + 1, '\\' :: 'u' :: '\x7b' :: cs => do
    if kind == .bytes then none
    let (c, cs) ← bracedEscape? 0 0 cs
    if kind == .terminated && c == '\x00' then none
    let (value, rest) ← cooked? kind fuel cs
    return (c :: value, rest)
  | fuel + 1, '\\' :: c :: cs =>
    if c == '\n' || c == '\r' then do
      cooked? kind fuel (← afterLineEnd? (cs.length + 1) c cs)
    else do
      let c ← shortEscape? c
      if kind == .terminated && c == '\x00' then none
      let (value, rest) ← cooked? kind fuel cs
      return (c :: value, rest)
  | fuel + 1, c :: cs => do
    if kind == .bytes && 0x7F < c.toNat then none
    if kind == .terminated && c == '\x00' then none
    let (value, rest) ← cooked? kind fuel cs
    return (c :: value, rest)

/-- The value of a raw literal from the character after its quote, and what follows the quote and
the hashes that close it. -/
def raw? (kind : Quoted) (hashes : List Char) : List Char → Option (List Char × List Char)
  | [] => none
  | '\r' :: '\n' :: cs => do
    let (value, rest) ← raw? kind hashes cs
    return ('\r' :: '\n' :: value, rest)
  | c :: cs =>
    let go : Option (List Char × List Char) := do
      if c == '\r' then none
      if (kind == .bytes && 0x7F < c.toNat) || (kind == .terminated && c == '\x00') then none
      let (value, rest) ← raw? kind hashes cs
      return (c :: value, rest)
    if c == '"' then
      match afterText? hashes cs with
      | some rest => some ([], rest)
      | none => go
    else go

/-- A raw literal from its hashes on. -/
def rawFrom? (kind : Quoted) (cs : List Char) : Option (List Char × List Char) :=
  let hashes := cs.takeWhile (· == '#')
  match cs.drop hashes.length with
  | '"' :: rest => if 255 < hashes.length then none else raw? kind hashes rest
  | _ => none

/-- A quoted or raw literal of some kind: its value and what follows it, before a suffix. -/
def quoted? (kind : Quoted) (cs : List Char) : Option (List Char × List Char) :=
  let mark := match kind with
    | .text => []
    | .bytes => ['b']
    | .terminated => ['c']
  match afterText? (mark ++ ['"']) cs with
  | some rest => cooked? kind (rest.length + 1) rest
  | none => do rawFrom? kind (← afterText? (mark ++ ['r']) cs)

/-- What follows a single character in quotes, from the character after the first quote. -/
def afterCharacter? (kind : Quoted) (cs : List Char) : Option (List Char) := do
  let rest ←
    match cs with
    | '\\' :: 'x' :: a :: b :: rest => (hexEscape? kind a b).map fun _ => rest
    | '\\' :: 'u' :: '\x7b' :: rest =>
      if kind == .bytes then none else (bracedEscape? 0 0 rest).map (·.2)
    | '\\' :: c :: rest => (shortEscape? c).map fun _ => rest
    | ['\\'] => none
    | c :: rest => if kind == .bytes && 0x7F < c.toNat then none else some rest
    | [] => none
  match rest with
  | '\'' :: rest => some rest
  | _ => none

/-! ## Numbers -/

/-- What follows the digits, signs and underscores of an exponent; it needs a digit. -/
def afterExponent? (signed valued : Bool) : List Char → Option (List Char)
  | c :: cs =>
    if c == '+' || c == '-' then
      if valued then some (c :: cs)
      else if signed then none
      else afterExponent? true valued cs
    else if Text.isAsciiDigit c then afterExponent? signed true cs
    else if c == '_' then afterExponent? signed valued cs
    else if valued then some (c :: cs)
    else none
  | [] => if valued then some [] else none

/-- What follows the digits of a number with a point or an exponent.  An exponent without digits
belongs to the number only if it has no point. -/
def afterFloatDigits? (pointed : Bool) : List Char → Option (List Char)
  | c :: cs =>
    if Text.isAsciiDigit c || c == '_' then afterFloatDigits? pointed cs
    else if c == '.' then
      if pointed then some (c :: cs)
      else if cs.head?.any fun d => d == '.' || Text.isIdentStart d then none
      else afterFloatDigits? true cs
    else if c == 'e' || c == 'E' then
      match afterExponent? false false cs with
      | some rest => some rest
      | none => if pointed then some (c :: cs) else none
    else if pointed then some (c :: cs)
    else none
  | [] => if pointed then some [] else none

/-- What follows the digits of an integer in a base; `empty` says that none has been read. -/
def afterDigits? (base : Nat) (empty : Bool) : List Char → Option (List Char)
  | [] => if empty then none else some []
  | c :: cs =>
    let stop := if empty then none else some (c :: cs)
    if c == '_' then if empty && base == 10 then none else afterDigits? base empty cs
    else
      match hexValue? c with
      | none => stop
      | some d =>
        if d < base then afterDigits? base false cs
        else if Text.isAsciiDigit c then none
        else stop

/-- What follows an integer before its suffix. -/
def afterInt? : List Char → Option (List Char)
  | '0' :: 'x' :: cs => afterDigits? 16 true cs
  | '0' :: 'o' :: cs => afterDigits? 8 true cs
  | '0' :: 'b' :: cs => afterDigits? 2 true cs
  | cs => afterDigits? 10 true cs

/-- What follows a number: its suffix has to end the word. -/
def afterNumber? (cs : List Char) : Option (List Char) := do
  if !(cs.head?.any Text.isAsciiDigit) then none
  let ended (rest : List Char) : Option (List Char) :=
    let rest := afterSuffix rest
    if rest.head?.any Text.isIdentContinue then none else some rest
  match (afterFloatDigits? false cs).bind ended with
  | some rest => some rest
  | none => (afterInt? cs).bind ended

/-! ## Literals -/

/-- What follows the literal at the front of a text, if there is one. -/
def afterLiteral? (cs : List Char) : Option (List Char) :=
  let quoted := [Quoted.text, .bytes, .terminated].findSome? fun kind =>
    (quoted? kind cs).map fun (_, rest) => afterSuffix rest
  let byte := (afterText? ['b', '\''] cs).bind (afterCharacter? .bytes)
  let character := (afterText? ['\''] cs).bind (afterCharacter? .text)
  (quoted.or ((byte.or character).map afterSuffix)).or (afterNumber? cs)

/-- The text that a string literal stands for. -/
def stringValue? (written : String) : Option String :=
  (quoted? .text written.toList).map fun (value, _) => String.ofList value

/-- Characters between the quotes of a literal.  A null character before a digit is written out, so
that it does not read as part of a longer number. -/
def escaped : List Char → List Char
  | [] => []
  | c :: cs =>
    let nullBeforeDigit := c == '\x00' && cs.head?.any fun d => '0' ≤ d && d ≤ '7'
    (if nullBeforeDigit then ['\\', 'x', '0', '0'] else Text.Quoted.escape c) ++ escaped cs

/-- A text as a string literal. -/
def ofString (s : String) : String :=
  String.ofList ('"' :: (escaped s.toList ++ ['"']))

end WireContract.Rust.Literal
