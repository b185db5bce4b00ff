import WireContract.Yaml.Chars

/-!
# Places in a YAML text

A `Cursor` is a place in the text with what is left of the text from there on.  A `Gap` is what
lies between two words of a scalar, and what it means: blanks inside a line count as they are, one
line break counts as a space, and of several breaks the first does not count.
-/

namespace WireContract.Yaml

/-! ## Places in the text -/

/-- What is left of the text, and the place where it starts. -/
structure Cursor where
  rest : List Char
  /-- The number of bytes before it. -/
  index : Nat
  line : Nat
  /-- The number of characters before it in its line. -/
  column : Nat

namespace Cursor

/-- The start of a text. -/
def ofText (cs : List Char) : Cursor := ⟨cs, 0, 0, 0⟩

/-- The next character. -/
def next? (c : Cursor) : Option Char := c.rest.head?

/-- The character some places on. -/
def at? (c : Cursor) (n : Nat) : Option Char := c.rest[n]?

/-- The cursor some characters on, in the same line. -/
def skip (c : Cursor) (n : Nat) : Cursor :=
  ⟨c.rest.drop n, c.index + (String.ofList (c.rest.take n)).utf8ByteSize, c.line, c.column + n⟩

/-- The longest run of characters of a kind. -/
def run (c : Cursor) (p : Char → Bool) : List Char := c.rest.takeWhile p

/-- The cursor after the longest run of characters of a kind, in the same line. -/
def skipWhile (c : Cursor) (p : Char → Bool) : Cursor := c.skip (c.run p).length

/-- Takes a line break, if there is one.  Most breaks mean a line feed. -/
def takeBreak (c : Cursor) : List Char × Cursor :=
  match c.rest with
  | '\r' :: '\n' :: rest => (['\n'], ⟨rest, c.index + 2, c.line + 1, 0⟩)
  | b :: rest =>
    if isBreak b then
      let kept := b.toNat == 0x2028 || b.toNat == 0x2029
      ([if kept then b else '\n'], ⟨rest, c.index + b.utf8Size, c.line + 1, 0⟩)
    else ([], c)
  | [] => ([], c)

/-- Skips a comment up to the end of its line. -/
def skipComment (c : Cursor) : Cursor :=
  if c.next? == some '#' then c.skipWhile (!isBreak ·) else c

/-- Whether a line between documents starts here. -/
def atDocumentLine (c : Cursor) : Bool :=
  c.column == 0 && (c.rest.take 3 == ['-', '-', '-'] || c.rest.take 3 == ['.', '.', '.']) &&
    endsWord (c.at? 3)

end Cursor

/-! ## Blanks between the words of a scalar -/

/-- The blanks and line breaks between two words. -/
structure Gap where
  /-- A line has ended. -/
  broken : Bool
  /-- The blanks before a line ends. -/
  blanks : List Char
  /-- The first line break. -/
  first : List Char
  /-- Further line breaks. -/
  more : List Char

namespace Gap

/-- No blanks at all. -/
def none : Gap := ⟨false, [], [], []⟩

/-- The gap after a line break that does not count. -/
def joined : Gap := ⟨true, [], [], []⟩

/-- What the gap means: one line feed is a space, and of several the first does not count. -/
def text (g : Gap) : List Char :=
  if !g.broken then g.blanks
  else if g.first == ['\n'] then (if g.more.isEmpty then [' '] else g.more)
  else g.first ++ g.more

/-- Takes blanks and line breaks.  A tab before column `indent` of a new line is an error. -/
def take (indent : Nat) : (fuel : Nat) → Gap → Cursor → Option (Gap × Cursor)
  | 0, _, _ => Option.none
  | fuel + 1, g, c =>
    match c.next? with
    | some b =>
      if isBlank b then
        if g.broken && c.column < indent && b == '\t' then Option.none
        else
          take indent fuel (if g.broken then g else { g with blanks := g.blanks ++ [b] }) (c.skip 1)
      else if isBreak b then
        let (taken, c) := c.takeBreak
        take indent fuel
          (if g.broken then { g with more := g.more ++ taken }
           else { g with broken := true, blanks := [], first := taken }) c
      else some (g, c)
    | Option.none => some (g, c)

end Gap

end WireContract.Yaml
