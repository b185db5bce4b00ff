import WireContract.Layout.Basic

/-!
# Writing a layout document

`Doc.render` writes a document within lines of 89 columns.  A box that fits in the columns left is
written flat.  A box that does not is broken; its breaks then end lines as `Frame` says.  Deep
indentation never leaves fewer than 60 columns.
-/

namespace WireContract.Layout

/-- The columns of a line. -/
def margin : Int := 89

/-- The columns that a line has at least, however deep its indentation. -/
def minSpace : Int := 60

/-- What is written so far. -/
structure Cursor where
  out : String
  /-- Columns left in the line. -/
  space : Int
  /-- Blanks to write before the next text. -/
  pending : Nat

namespace Cursor

/-- The start of the first line. -/
def start : Cursor := ⟨"", margin, 0⟩

/-- The text with blanks before it. -/
private def padded (n : Nat) (s : String) : String :=
  "".pushn ' ' n ++ s

/-- Writes a text, with the blanks that are due before it. -/
def put (c : Cursor) (s : String) : Cursor :=
  { out := c.out ++ padded c.pending s, space := c.space - s.utf8ByteSize, pending := 0 }

/-- Passes a break without ending the line. -/
def putFlat (c : Cursor) (b : Break) : Cursor :=
  let c := { c with space := c.space - b.blank, pending := c.pending + b.blank }
  match b.flat with
  | some ch => { c with out := c.out.push ch, space := c.space - ch.utf8Size }
  | none => c

/-- Ends the line at a break; the next one starts at the indentation. -/
def putLine (c : Cursor) (indent : Int) (b : Break) : Cursor :=
  let out :=
    match b.before with
    | some ch => c.out ++ padded c.pending (String.singleton ch)
    | none => c.out
  let indent := indent + b.offset
  let c : Cursor :=
    { out := out.push '\n', space := max (margin - indent) minSpace, pending := indent.toNat }
  if b.after.isEmpty then c else c.put b.after

end Cursor

/-- How the breaks of a box are written. -/
inductive Frame where
  /-- The box fits: all of them flat. -/
  | fits
  /-- The box is broken and consistent: all of them end a line. -/
  | consistent
  /-- The box is broken: those end a line after which the next stretch does not fit. -/
  | inconsistent
deriving DecidableEq, Repr

/-- Whether a break is written flat. -/
def Frame.isFlat (f : Frame) (b : Break) (size : Nat) (space : Int) : Bool :=
  b.never ||
    match f with
    | .fits => true
    | .consistent => false
    | .inconsistent => size ≤ space

/-- Writes a document inside a box; `after` is the width from its end to the next break. -/
def Doc.write (f : Frame) (indent : Int) (after : Nat) : Doc → Cursor → Cursor
  | .nil, c => c
  | .text s rest, c => rest.write f indent after (c.put s)
  | .force rest, c => rest.write f indent after (c.put "")
  | .brk b rest, c =>
    let c :=
      if f.isFlat b (b.blank + rest.lead after) c.space then c.putFlat b else c.putLine indent b
    rest.write f indent after c
  | .box offset consistent body rest, c =>
    let next := rest.lead after
    let c :=
      if (body.width + next : Nat) > c.space then
        body.write (if consistent then .consistent else .inconsistent) (indent + offset) next c
      else body.write .fits indent next c
    rest.write f indent after c

/-- The text of a document. -/
def Doc.render (d : Doc) : String :=
  (d.write .inconsistent 0 0 .start).out

end WireContract.Layout
