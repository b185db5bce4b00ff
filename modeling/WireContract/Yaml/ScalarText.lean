import WireContract.Yaml.Cursor

/-!
# Scalars as they are written

A scalar stands without quotes, between single or double quotes, or as a block of lines.  Each
reader here gives the text that a scalar means and the place after it, or nothing where the scalar
is not well formed.
-/

namespace WireContract.Yaml

/-! ## Plain scalars -/

/-- The word of a plain scalar that starts here; none if a colon stands where it cannot. -/
def plainWord (inFlow : Bool) : List Char → Option (List Char)
  | [] => some []
  | c :: rest =>
    let after := rest.head?
    if endsWord (some c) then some []
    else if inFlow && c == ':' && after.any (fun d => isFlowMark d || d == '?') then none
    else if (c == ':' && endsWord after) || (inFlow && isFlowMark c) then some []
    else (c :: ·) <$> plainWord inFlow rest

/-- A plain scalar, word by word.  Lines that go on have to start at column `indent` or later.
Gives the text, the cursor after it and whether a line has ended since. -/
def plainScalar (inFlow : Bool) (indent : Nat) :
    (fuel : Nat) → (text : List Char) → Gap → Cursor → Option (List Char × Cursor × Bool)
  | 0, _, _, _ => none
  | fuel + 1, text, gap, c =>
    if c.atDocumentLine || c.next? == some '#' then some (text, c, gap.broken)
    else do
      let word ← plainWord inFlow c.rest
      if word.isEmpty then some (text, c, gap.broken)
      else
        let text := text ++ gap.text ++ word
        let c := c.skip word.length
        let (gap, c) ← Gap.take indent (c.rest.length + 1) Gap.none c
        if gap.blanks.isEmpty && !gap.broken then some (text, c, false)
        else if !inFlow && c.column < indent then some (text, c, gap.broken)
        else plainScalar inFlow indent fuel text gap c

/-! ## Quoted scalars -/

/-- The value of some hexadecimal digits. -/
def hexNumber? (cs : List Char) : Option Nat :=
  cs.foldlM (fun n c =>
    if '0' ≤ c && c ≤ '9' then some (n * 16 + (c.toNat - 48))
    else if 'a' ≤ c && c ≤ 'f' then some (n * 16 + (c.toNat - 87))
    else if 'A' ≤ c && c ≤ 'F' then some (n * 16 + (c.toNat - 55))
    else none) 0

/-- The character of an escape with one letter. -/
def escapeValue? (c : Char) : Option Nat :=
  [('0', 0x00), ('a', 0x07), ('b', 0x08), ('t', 0x09), ('\t', 0x09), ('n', 0x0A), ('v', 0x0B),
    ('f', 0x0C), ('r', 0x0D), ('e', 0x1B), (' ', 0x20), ('"', 0x22), ('/', 0x2F), ('\\', 0x5C),
    ('N', 0x85), ('_', 0xA0), ('L', 0x2028), ('P', 0x2029)].lookup c

/-- The number of digits of an escape that gives a code. -/
def escapeWidth? (c : Char) : Option Nat :=
  [('x', 2), ('u', 4), ('U', 8)].lookup c

/-- The character that an escape after its backslash stands for, and the length of the escape. -/
def escape? : List Char → Option (Char × Nat)
  | [] => none
  | c :: rest =>
    match escapeValue? c with
    | some n => some (Char.ofNat n, 1)
    | none => do
      let width ← escapeWidth? c
      let digits := rest.take width
      if digits.length < width then none
      let n ← hexNumber? digits
      if (0xD800 ≤ n && n ≤ 0xDFFF) || 0x10FFFF < n then none
      some (Char.ofNat n, width + 1)

/-- A word between quotes, added to `text`; the gap says whether an escaped line break ends it. -/
def quotedWord (quote : Char) :
    (fuel : Nat) → (text : List Char) → Cursor → Option (List Char × Gap × Cursor)
  | 0, _, _ => none
  | fuel + 1, text, c =>
    match c.next? with
    | none => some (text, Gap.none, c)
    | some a =>
      if endsWord (some a) then some (text, Gap.none, c)
      else if quote == '\'' && a == quote && c.at? 1 == some quote then
        quotedWord quote fuel (text ++ [a]) (c.skip 2)
      else if a == quote then some (text, Gap.none, c)
      else if quote == '"' && a == '\\' then
        if (c.at? 1).any isBreak then some (text, Gap.joined, (c.skip 1).takeBreak.2)
        else do
          let (d, length) ← escape? (c.rest.drop 1)
          quotedWord quote fuel (text ++ [d]) (c.skip (length + 1))
      else quotedWord quote fuel (text ++ [a]) (c.skip 1)

/-- The rest of a scalar after its opening quote. -/
def quotedScalar (quote : Char) :
    (fuel : Nat) → (text : List Char) → Cursor → Option (List Char × Cursor)
  | 0, _, _ => none
  | fuel + 1, text, c =>
    if c.atDocumentLine || c.rest.isEmpty then none
    else do
      let (text, gap, c) ← quotedWord quote (c.rest.length + 1) text c
      if c.next? == some quote && !gap.broken then some (text, c.skip 1)
      else
        let (gap, c) ← Gap.take 0 (c.rest.length + 1) gap c
        quotedScalar quote fuel (text ++ gap.text) c

/-! ## Block scalars -/

/-- What a block does with the line breaks at its end. -/
inductive Chomp where
  | strip
  | clip
  | keep
deriving DecidableEq, Repr

/-- The chomping mark, if there is one. -/
def chompMark? (c : Cursor) : Option Chomp :=
  if c.next? == some '+' then some .keep
  else if c.next? == some '-' then some .strip
  else none

/-- The indentation that a block states, if it does; it cannot be zero. -/
def indentMark? (c : Cursor) : Option (Option Nat) :=
  match c.next? with
  | some d =>
    if d == '0' then none
    else if '1' ≤ d && d ≤ '9' then some (some (d.toNat - 48))
    else some none
  | none => some none

/-- The marks after `|` or `>`, in either order. -/
def blockHeader (c : Cursor) : Option (Chomp × Option Nat × Cursor) :=
  match chompMark? c with
  | some chomp => do
    let c := c.skip 1
    let increment ← indentMark? c
    return (chomp, increment, if increment.isSome then c.skip 1 else c)
  | none => do
    let increment ← indentMark? c
    let c := if increment.isSome then c.skip 1 else c
    match if increment.isSome then chompMark? c else none with
    | some chomp => return (chomp, increment, c.skip 1)
    | none => return (.clip, increment, c)

/-- Takes indentation and empty lines.  `indent` is the indentation, if it is known; `widest` is the
greatest column met.  Gives the breaks, the greatest column and the cursor. -/
def blockBreaks (indent : Option Nat) :
    (fuel : Nat) → (breaks : List Char) → (widest : Nat) → Cursor →
    Option (List Char × Nat × Cursor)
  | 0, _, _, _ => none
  | fuel + 1, breaks, widest, c =>
    let spaces := (c.run (· == ' ')).length
    let c := c.skip (match indent with
      | some n => min spaces (n - c.column)
      | none => spaces)
    let widest := max widest c.column
    let inIndent := match indent with
      | some n => decide (c.column < n)
      | none => true
    if inIndent && c.next? == some '\t' then none
    else if c.next?.any isBreak then
      let (taken, c) := c.takeBreak
      blockBreaks indent fuel (breaks ++ taken) widest c
    else some (breaks, widest, c)

/-- The lines of a block.  `ended` is the break that ended the line before, `breaks` the empty lines
since, and `spaced` whether the line before started with a blank. -/
def blockLines (literal : Bool) (indent : Nat) :
    (fuel : Nat) → (text ended breaks : List Char) → (spaced : Bool) → Cursor →
    Option (List Char × List Char × List Char × Cursor)
  | 0, _, _, _, _, _ => none
  | fuel + 1, text, ended, breaks, spaced, c =>
    if c.column == indent && !c.rest.isEmpty then do
      let blank := c.next?.any isBlank
      let folded := !literal && ended == ['\n'] && !spaced && !blank
      let joint := if folded then (if breaks.isEmpty then [' '] else []) else ended
      let line := c.run (!isBreak ·)
      let (ended, c) := (c.skip line.length).takeBreak
      let text := text ++ joint ++ breaks ++ line
      let (breaks, _, c) ← blockBreaks (some indent) (c.rest.length + 1) [] 0 c
      blockLines literal indent fuel text ended breaks blank c
    else some (text, ended, breaks, c)

/-- The rest of a block scalar after its mark; `parent` is the column of the block around it. -/
def blockScalar (literal : Bool) (parent : Int) (c : Cursor) : Option (List Char × Cursor) := do
  let (chomp, increment, c) ← blockHeader c
  let c := (c.skipWhile isBlank).skipComment
  if !endsLine c.next? then none
  let (_, c) := c.takeBreak
  let stated := increment.map fun n => if 0 ≤ parent then parent.toNat + n else n
  let (breaks, widest, c) ← blockBreaks stated (c.rest.length + 1) [] 0 c
  let indent := stated.getD (max (max widest (parent + 1).toNat) 1)
  let (text, ended, breaks, c) ←
    blockLines literal indent (c.rest.length + 1) [] [] breaks false c
  return (match chomp with
    | .strip => text
    | .clip => text ++ ended
    | .keep => text ++ ended ++ breaks, c)

end WireContract.Yaml
