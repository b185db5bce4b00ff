import WireContract.Json.Text
import WireContract.Yaml.Chars
import WireContract.Yaml.Meaning

/-!
# Writing YAML

A value is written in block style, two columns to a level; a list under a key stands at the column
of the key, and empty lists and objects are written in brackets.  Scalars are plain where that
reads back, else between single quotes.  Texts of several lines become literal blocks, and texts
with characters that have to be escaped stand between double quotes.

The page under the pen knows its column, whether the last thing written separates words, and
whether only indentation and list marks stand in the line so far; these decide where a line has to
be broken.
-/

namespace WireContract.Yaml

/-! ## The page -/

/-- What has been written, in reverse, and where the pen is. -/
structure Page where
  written : List Char
  column : Nat
  /-- The last character separates words. -/
  spaced : Bool
  /-- Nothing but indentation and list marks stands in the line. -/
  indenting : Bool

namespace Page

/-- The page before anything is written. -/
def blank : Page := ⟨[], 0, true, true⟩

/-- Writes a character. -/
def put (p : Page) (c : Char) : Page :=
  { p with written := c :: p.written, column := p.column + 1 }

/-- Writes a line break. -/
def newline (p : Page) (c : Char) : Page :=
  { p with written := c :: p.written, column := 0 }

/-- Writes characters. -/
def puts (p : Page) (cs : List Char) : Page :=
  cs.foldl put p

/-- Writes spaces up to a column. -/
def padTo (p : Page) (column : Nat) : Page :=
  p.puts (List.replicate (column - p.column) ' ')

/-- Moves to a column, on a new line unless the pen may still reach it. -/
def indentTo (p : Page) (column : Nat) : Page :=
  let broken :=
    if !p.indenting || column < p.column || (p.column == column && !p.spaced) then p.newline '\n'
    else p
  { broken.padTo column with spaced := true, indenting := true }

/-- Writes a mark, after a space if it needs one.  A list mark keeps the line open for more. -/
def mark (p : Page) (text : String) (needsSpace spaces listMark : Bool) : Page :=
  let p := if needsSpace && !p.spaced then p.put ' ' else p
  { p.puts text.toList with spaced := spaces, indenting := p.indenting && listMark }

/-- The page after a scalar. -/
def endScalar (p : Page) : Page :=
  { p with spaced := false, indenting := false }

/-- All that has been written. -/
def text (p : Page) : String :=
  String.ofList p.written.reverse

end Page

/-! ## Styles of scalars -/

/-- How a scalar is written. -/
inductive ScalarStyle where
  | plain
  | singleQuoted
  | doubleQuoted
  | literal
deriving DecidableEq, Repr

/-- Characters that have a meaning at the start of a scalar. -/
def isLeadingMark (c : Char) : Bool :=
  isFlowMark c || c.toNat == 0x60 ||
    ['#', '&', '*', '!', '|', '>', '\'', '"', '%', '@'].contains c

/-- Whether a mark inside a text, or one that starts it, would end or change a plain scalar.
`before` is the character before. -/
def holdsMark (before : Option Char) : List Char → Bool
  | [] => false
  | c :: rest =>
    let own := match before with
      | none =>
        isLeadingMark c || ((c == '?' || c == ':' || c == '-') && endsWord rest.head?)
      | some b => (c == ':' && endsWord rest.head?) || (c == '#' && endsWord (some b))
    own || holdsMark (some c) rest

/-- Whether a text starts like a line between documents. -/
def startsLikeDocument (cs : List Char) : Bool :=
  cs.take 3 == ['-', '-', '-'] || cs.take 3 == ['.', '.', '.']

/-- Whether a space and a line break stand side by side, in that order. -/
def hasSpaceBeforeBreak : List Char → Bool
  | a :: b :: rest => (a == ' ' && isBreak b) || hasSpaceBeforeBreak (b :: rest)
  | _ => false

/-- Whether a line break and a space stand side by side, in that order. -/
def hasBreakBeforeSpace : List Char → Bool
  | a :: b :: rest => (isBreak a && b == ' ') || hasBreakBeforeSpace (b :: rest)
  | _ => false

/-- Whether a character is a space or ends a line. -/
def isSpaceOrBreak (c : Char) : Bool :=
  c == ' ' || isBreak c

/-- Whether a text can only be written with escapes. -/
def needsEscapes (cs : List Char) : Bool :=
  hasSpaceBeforeBreak cs || cs.any fun c => !isPrintable c

/-- Whether a text can be written without quotes. -/
def allowsPlain (cs : List Char) : Bool :=
  !(needsEscapes cs || cs.any isBreak || startsLikeDocument cs || holdsMark none cs ||
    cs.head?.any isSpaceOrBreak || cs.getLast?.any isSpaceOrBreak)

/-- Whether a text can be written between single quotes. -/
def allowsSingleQuotes (cs : List Char) : Bool :=
  !(needsEscapes cs || hasBreakBeforeSpace cs)

/-- Whether a text can be written as a literal block. -/
def allowsLiteral (cs : List Char) : Bool :=
  !(cs.isEmpty || needsEscapes cs || cs.getLast? == some ' ')

/-- The style of a text; a key has to stay on its line. -/
def styleOf (isKey : Bool) (s : String) : ScalarStyle :=
  let cs := s.toList
  let quoted := if allowsSingleQuotes cs then ScalarStyle.singleQuoted else .doubleQuoted
  if isKey && cs.any isBreak then .doubleQuoted
  else if cs.contains '\n' then
    if allowsLiteral cs && !isKey then .literal else .doubleQuoted
  else if isAmbiguous s || !allowsPlain cs then quoted
  else .plain

/-! ## Scalars -/

/-- The letter of an escape that has one. -/
def escapeLetter? (c : Char) : Option Char :=
  [(0x00, '0'), (0x07, 'a'), (0x08, 'b'), (0x09, 't'), (0x0A, 'n'), (0x0B, 'v'), (0x0C, 'f'),
    (0x0D, 'r'), (0x1B, 'e'), (0x22, '"'), (0x5C, '\\'), (0x85, 'N'), (0xA0, '_'),
    (0x2028, 'L'), (0x2029, 'P')].lookup c.toNat

/-- A number in upper-case hexadecimal digits, at least `width` of them. -/
def hexText (width n : Nat) : List Char :=
  let digits := (Nat.toDigits 16 n).map Char.toUpper
  List.replicate (width - digits.length) '0' ++ digits

/-- The escape of a character. -/
def escaped (c : Char) : List Char :=
  match escapeLetter? c with
  | some letter => ['\\', letter]
  | none =>
    let n := c.toNat
    if n ≤ 0xFF then '\\' :: 'x' :: hexText 2 n
    else if n ≤ 0xFFFF then '\\' :: 'u' :: hexText 4 n
    else '\\' :: 'U' :: hexText 8 n

/-- A character between double quotes. -/
def doubleQuotedChar (c : Char) : List Char :=
  if !isPrintable c || isBreak c || c == '"' || c == '\\' then escaped c else [c]

/-- Writes a text between double quotes. -/
def Page.doubleQuoted (p : Page) (cs : List Char) : Page :=
  let opened := p.mark "\"" true false false
  ((opened.puts (cs.flatMap doubleQuotedChar)).mark "\"" false false false).endScalar

/-- Writes the inside of single quotes.  `broken` says that a line has just ended. -/
def Page.singleQuotedFrom (p : Page) (indent : Nat) (broken : Bool) : List Char → Page
  | [] => if broken then p.indentTo indent else p
  | c :: rest =>
    if isBreak c then
      let p := if !broken && c == '\n' then p.newline '\n' else p
      Page.singleQuotedFrom { p.newline c with indenting := true } indent true rest
    else if c == ' ' then Page.singleQuotedFrom (p.put c) indent broken rest
    else
      let p := if broken then p.indentTo indent else p
      let p := if c == '\'' then p.put c else p
      Page.singleQuotedFrom { p.put c with indenting := false } indent false rest

/-- Writes a text between single quotes. -/
def Page.singleQuoted (p : Page) (indent : Nat) (cs : List Char) : Page :=
  let opened := p.mark "'" true false false
  ((opened.singleQuotedFrom indent false cs).mark "'" false false false).endScalar

/-- Writes a text without quotes. -/
def Page.plain (p : Page) (cs : List Char) : Page :=
  let p := if !p.spaced && !cs.isEmpty then p.put ' ' else p
  (p.puts cs).endScalar

/-- Writes the lines of a literal block.  `broken` says that a line has just ended. -/
def Page.literalFrom (p : Page) (indent : Nat) (broken : Bool) : List Char → Page
  | [] => p
  | c :: rest =>
    if isBreak c then
      Page.literalFrom { p.newline c with indenting := true } indent true rest
    else
      let p := if broken then p.indentTo indent else p
      Page.literalFrom { p.put c with indenting := false } indent false rest

/-- The number that tells the indentation of a block whose text starts with a blank or a break. -/
def indentHint (cs : List Char) : String :=
  if cs.head?.any isSpaceOrBreak then "2" else ""

/-- What a block says about the line breaks at its end: none, one, or all are kept. -/
def chompHint (cs : List Char) : String :=
  match cs.reverse with
  | [] => "-"
  | [a] => if isBreak a then "+" else "-"
  | a :: b :: _ =>
    if !isBreak a then "-"
    else if isBreak b then "+"
    else ""

/-- Writes a literal block. -/
def Page.literal (p : Page) (indent : Nat) (cs : List Char) : Page :=
  let opened := p.mark ("|" ++ indentHint cs ++ chompHint cs) true false false
  let started := { opened.newline '\n' with spaced := true, indenting := true }
  started.literalFrom indent true cs

/-- Writes a text in its style. -/
def Page.scalarText (p : Page) (indent : Nat) (isKey : Bool) (s : String) : Page :=
  let cs := s.toList
  match styleOf isKey s with
  | .plain => p.plain cs
  | .singleQuoted => p.singleQuoted indent cs
  | .doubleQuoted => p.doubleQuoted cs
  | .literal => p.literal indent cs

/-! ## Values -/

/-- How doubles are written. -/
def doubleStyle : Double.Style := ⟨-5, 15, ""⟩

/-- The number of columns to a level. -/
def step : Nat := 2

/-- The longest key, in bytes, that stands on one line with its value. -/
def longestKey : Nat := 128

/-- Whether a key stands on one line with its value. -/
def isSimpleKey (key : String) : Bool :=
  !(key.toList.any isBreak) && key.utf8ByteSize ≤ longestKey

/-- The column inside a collection; the outermost one starts at the margin. -/
def deeper : Option Nat → Nat
  | none => 0
  | some column => column + step

/-- The column of the lines of a scalar. -/
def scalarColumn : Option Nat → Nat
  | none => step
  | some column => column + step

mutual

/-- Writes a value inside a collection at a column, or at the top.  `underKey` says that it is the
value of a key. -/
def Page.value (p : Page) (column : Option Nat) (underKey : Bool) : Json → Page
  | .null => p.plain "null".toList
  | .bool b => p.plain (if b then "true".toList else "false".toList)
  | .num (.int n) => p.plain (toString n).toList
  | .num (.double x) => p.plain (x.format doubleStyle).toList
  | .str s => p.scalarText (scalarColumn column) false s
  | .arr [] => (p.mark "[" true true false).mark "]" false false false
  | .arr items =>
    let inner := match column with
      | some column => if underKey && !p.indenting then column else column + step
      | none => 0
    Page.items p inner items
  | .obj [] => (p.mark "\x7b" true true false).mark "\x7d" false false false
  | .obj fields => Page.fields p (deeper column) fields

/-- Writes the items of a list. -/
def Page.items (p : Page) (column : Nat) : List Json → Page
  | [] => p
  | x :: xs =>
    let marked := (p.indentTo column).mark "-" true false true
    Page.items (Page.value marked (some column) false x) column xs

/-- Writes the fields of an object. -/
def Page.fields (p : Page) (column : Nat) : List (String × Json) → Page
  | [] => p
  | (key, x) :: rest =>
    let p := p.indentTo column
    let keyed :=
      if isSimpleKey key then
        (p.scalarText (column + step) true key).mark ":" false false false
      else
        let asked := (p.mark "?" true false true).scalarText (column + step) false key
        (asked.indentTo column).mark ":" true false true
    Page.fields (Page.value keyed (some column) true x) column rest

end

/-- The text of a value. -/
def text (v : Json) : String :=
  ((Page.blank.value none false v).indentTo 0).text

end WireContract.Yaml
