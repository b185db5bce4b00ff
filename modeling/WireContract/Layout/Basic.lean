/-!
# Layout documents

A document is a sequence of texts, breaks and boxes.  A break is written flat or as a new line; a
box says how the breaks directly inside it behave when the box does not fit: all of them become new
lines (a consistent box) or only those whose following stretch does not fit (an inconsistent one).

`Doc.width` is the width of everything written flat, and `Doc.lead` the width of the stretch before
the next break that belongs to the sequence or to a box around it.  Both are what `Doc.render` needs
to decide on a box or a break, and both are plain recursions on the document.
-/

namespace WireContract.Layout

/-- A place where a line may end. -/
structure Break where
  /-- Blanks written when the break is flat. -/
  blank : Nat := 0
  /-- Change of the indentation of the new line. -/
  offset : Int := 0
  /-- Character written before the line ends. -/
  before : Option Char := none
  /-- Text written at the start of the new line. -/
  after : String := ""
  /-- Character written when the break is flat. -/
  flat : Option Char := none
  /-- The break is always flat. -/
  never : Bool := false
deriving DecidableEq, Repr

/-- A sequence of layout elements. -/
inductive Doc where
  | nil
  | text (s : String) (rest : Doc)
  | brk (b : Break) (rest : Doc)
  /-- An empty text that fits nowhere: every box around it is broken. -/
  | force (rest : Doc)
  | box (offset : Int) (consistent : Bool) (body rest : Doc)
deriving Repr

/-- A width that exceeds every line. -/
def unbounded : Nat := 65535

/-- The width of a level of indentation. -/
def indentWidth : Int := 4

namespace Doc

/-- The first sequence followed by the second. -/
def append : Doc → Doc → Doc
  | .nil, e => e
  | .text s rest, e => .text s (append rest e)
  | .brk b rest, e => .brk b (append rest e)
  | .force rest, e => .force (append rest e)
  | .box o c body rest, e => .box o c body (append rest e)

instance : Append Doc := ⟨append⟩

/-- The documents one after the other. -/
def concat (docs : List Doc) : Doc :=
  docs.foldr (· ++ ·) .nil

/-- The width of a document written flat. -/
def width : Doc → Nat
  | .nil => 0
  | .text s rest => s.utf8ByteSize + rest.width
  | .brk b rest => b.blank + rest.width
  | .force rest => unbounded + rest.width
  | .box _ _ body rest => body.width + rest.width

/-- The width up to the next break of this sequence, or, if it has none, up to the next break after
it, which is `after` further on. -/
def lead (after : Nat) : Doc → Nat
  | .nil => after
  | .text s rest => s.utf8ByteSize + rest.lead after
  | .brk _ _ => 0
  | .force rest => unbounded + rest.lead after
  | .box _ _ body rest => body.width + rest.lead after

/-! ## Elements -/

/-- A text. -/
def word (s : String) : Doc := .text s .nil

/-- A break with nothing in its place when flat. -/
def zero : Doc := .brk {} .nil

/-- A break with a blank in its place when flat. -/
def space : Doc := .brk { blank := 1 } .nil

/-- A place that is never broken. -/
def fixed : Doc := .brk { never := true } .nil

/-- The end of a line. -/
def hard : Doc := .brk { blank := unbounded } .nil

/-- The end of the last line of an indented part. -/
def hardOut : Doc := .brk { blank := unbounded, offset := -indentWidth } .nil

/-- A box all of whose breaks are broken if it does not fit. -/
def together (offset : Int) (body : Doc) : Doc := .box offset true body .nil

/-- A box whose breaks are broken only where needed. -/
def filled (offset : Int) (body : Doc) : Doc := .box offset false body .nil

/-! ## Lists -/

/-- Each element followed by a comma and a blank or new line; the last one by a break that writes
its comma only when the line ends there. -/
def listed (last : Break) : List Doc → Doc
  | [] => .nil
  | [x] => x ++ .brk last .nil
  | x :: y :: xs => x ++ word "," ++ space ++ listed last (y :: xs)

/-- The break after the last element of a list in brackets. -/
def closing : Break := { offset := -indentWidth, before := some ',' }

/-- A list in a box of its own between brackets, or nothing if it is empty. -/
def elements (offset : Int) : List Doc → Doc
  | [] => .nil
  | x :: xs => together offset (zero ++ listed closing (x :: xs))

/-- A list in angle brackets, or nothing if it is empty. -/
def angled (offset : Int) : List Doc → Doc
  | [] => .nil
  | x :: xs => word "<" ++ elements offset (x :: xs) ++ word ">"

/-- The documents with a comma and a blank or new line between each two. -/
def separated : List Doc → Doc
  | [] => .nil
  | [x] => x
  | x :: y :: xs => x ++ word "," ++ space ++ separated (y :: xs)

/-- Lines of an indented block, each with its end. -/
def block : List Doc → Doc
  | [] => .nil
  | [x] => x ++ hardOut
  | x :: y :: xs => x ++ hard ++ block (y :: xs)

/-- A head, a brace, the lines of the body indented, and a closing brace; the lines are `hard`
breaks, so that a body with no line stays on the line of the head. -/
def braced (head : Doc) (lines : List Doc) : Doc :=
  let opened := head ++ word "\x7b"
  let body :=
    match lines with
    | [] => opened
    | _ => opened ++ hard ++ block lines
  together indentWidth body ++ word "\x7d"

end Doc

end WireContract.Layout
