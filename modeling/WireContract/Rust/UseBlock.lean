import WireContract.Text.Blank

/-!
# Gathering imports

`gatherUses` puts the ordinary imports of a source text into one sorted block.  An ordinary import
starts at the beginning of a line that no attribute line precedes, and runs to the first line that
ends in a semicolon.  The block stands where the first of them stood, holds each statement once and
is sorted by the words of the statements.  Of adjacent blank lines on either side of it only the
first is kept.
-/

namespace WireContract.Rust

/-- A line of text, without its end. -/
abbrev Line := List Char

namespace UseBlock

/-- A part of a source text. -/
inductive Piece where
  /-- The lines of an ordinary import. -/
  | statement (lines : List Line)
  | other (line : Line)
deriving DecidableEq, Repr

/-- Whether an import starts with the line. -/
def starts (line : Line) : Bool := "use ".toList.isPrefixOf line

/-- Whether the line is an attribute of the next one. -/
def guards (line : Line) : Bool := "#[".toList.isPrefixOf line

/-- Whether an import ends with the line. -/
def closes (line : Line) : Bool := (Text.trimRight line).getLast? == some ';'

/-- The parts of a text after the line `previous`; `opened` holds the lines of an import that is
not closed yet. -/
def pieces (previous : Line) : (opened : List Line) → List Line → List Piece
  | [], [] => []
  | opened, [] => [.statement opened]
  | [], l :: ls =>
    if starts l && !guards previous then
      if closes l then .statement [l] :: pieces l [] ls else pieces l [l] ls
    else .other l :: pieces l [] ls
  | opened, l :: ls =>
    if closes l then .statement (opened ++ [l]) :: pieces l [] ls
    else pieces l (opened ++ [l]) ls

/-- The lines outside imports. -/
def others (ps : List Piece) : List Line :=
  ps.filterMap fun
    | .other l => some l
    | .statement _ => none

/-- The imports. -/
def statements (ps : List Piece) : List (List Line) :=
  ps.filterMap fun
    | .other _ => none
    | .statement ls => some ls

/-- Whether the part is an import. -/
def Piece.isStatement : Piece → Bool
  | .statement _ => true
  | .other _ => false

/-- A statement as text. -/
def joined : List Line → List Char
  | [] => []
  | [l] => l
  | l :: m :: ls => l ++ '\n' :: joined (m :: ls)

/-- The text by which statements are sorted: their words, with single blanks between. -/
def key (statement : List Line) : String :=
  Text.join " " ((Text.words (joined statement)).map String.ofList)

/-- The statements of the block. -/
def block (ps : List Piece) : List (List Line) :=
  (statements ps).eraseDups.mergeSort fun a b => decide (key a ≤ key b)

/-- The lines without those blank ones that follow a blank one; `afterBlank` says whether the line
before them is blank. -/
def squeeze (afterBlank : Bool) : List Line → List Line
  | [] => []
  | l :: ls =>
    let blank := l.all Text.isBlank
    if blank && afterBlank then squeeze true ls else l :: squeeze blank ls

end UseBlock

open UseBlock in
/-- The text with its ordinary imports in one block. -/
def gatherUses (source : String) : String :=
  let ps := pieces [] [] (Text.lines source.toList)
  if ps.any Piece.isStatement then
    let before := others (ps.takeWhile (!·.isStatement))
    let after := others (ps.dropWhile (!·.isStatement))
    let lines := squeeze false before ++ (block ps).flatten ++ squeeze false after
    String.ofList (lines.flatMap (· ++ ['\n']))
  else source

end WireContract.Rust
