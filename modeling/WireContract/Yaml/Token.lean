import WireContract.Yaml.ScalarText

/-!
# Tokens of YAML text

A text is a row of tokens: marks, scalars, and the starts and ends of block collections, which only
indentation shows.  Tags, anchors and directives are read here; which token stands where is found
in `Token.scan`.
-/

namespace WireContract.Yaml

/-- A token. -/
inductive Token where
  | streamEnd
  | versionDirective (major minor : Nat)
  | tagDirective (handle stem : String)
  | documentStart
  | documentEnd
  | blockSequenceStart
  | blockMappingStart
  | blockEnd
  | flowSequenceStart
  | flowSequenceEnd
  | flowMappingStart
  | flowMappingEnd
  | blockEntry
  | flowEntry
  | key
  | value
  | alias (name : String)
  | anchor (name : String)
  | tag (handle suffix : String)
  | scalar (text : String) (plain : Bool)
deriving DecidableEq, Repr, Inhabited

/-! ## Tags, anchors and directives -/

/-- Characters of tags besides letters and digits. -/
def isTagMark (c : Char) : Bool :=
  [';', '/', '?', ':', '@', '&', '=', '+', '$', '.', '%', '!', '~', '*', '\'', '(', ')'].contains c

/-- The characters of a tag with its escapes replaced. -/
def unescapedTag (fuel : Nat) (bytes : List UInt8) (cs : List Char) : Option (List UInt8) :=
  match fuel, cs with
  | _, [] => some bytes
  | 0, _ => none
  | fuel + 1, '%' :: a :: b :: rest => do
    unescapedTag fuel (bytes ++ [UInt8.ofNat (← hexNumber? [a, b])]) rest
  | _, '%' :: _ => none
  | fuel + 1, c :: rest => unescapedTag fuel (bytes ++ c.toString.toUTF8.toList) rest

/-- A part of a tag.  Inside angle brackets, and in a directive, it may hold flow marks. -/
def tagText (verbatim : Bool) (c : Cursor) : Option (String × Cursor) := do
  let run := c.run fun a =>
    isNameChar a || isTagMark a || (verbatim && (a == ',' || a == '[' || a == ']'))
  let bytes ← unescapedTag run.length [] run
  let text ← String.fromUTF8? ⟨bytes.toArray⟩
  return (text, c.skip run.length)

/-- A handle: an exclamation mark, letters, and an exclamation mark if there is one. -/
def tagHandle (c : Cursor) : Option (List Char × Cursor) :=
  if c.next? == some '!' then
    let name := (c.skip 1).run isNameChar
    let c := c.skip (name.length + 1)
    if c.next? == some '!' then some ('!' :: name ++ ['!'], c.skip 1)
    else some ('!' :: name, c)
  else none

/-- A tag: verbatim in angle brackets, a handle and a suffix, or a suffix alone. -/
def tagToken (inFlow : Bool) (c : Cursor) : Option (Token × Cursor) := do
  let (token, c) ←
    if c.at? 1 == some '<' then do
      let (suffix, c) ← tagText true (c.skip 2)
      if suffix.isEmpty || c.next? != some '>' then none
      some (Token.tag "" suffix, c.skip 1)
    else do
      let (handle, after) ← tagHandle c
      if 1 < handle.length && handle.getLast? == some '!' then do
        let (suffix, c) ← tagText false after
        if suffix.isEmpty then none
        some (Token.tag (String.ofList handle) suffix, c)
      else do
        let (suffix, c) ← tagText false (c.skip 1)
        some (if suffix.isEmpty then Token.tag "" "!" else Token.tag "!" suffix, c)
  if endsWord c.next? || (inFlow && c.next? == some ',') then some (token, c) else none

/-- Whether the name of an anchor may end here. -/
def endsAnchor (c : Cursor) : Bool :=
  endsWord c.next? ||
    c.next?.any fun a => a.toNat == 0x60 || ['?', ':', ',', ']', '\x7d', '%', '@'].contains a

/-- The name after `&` or `*`. -/
def anchorName (c : Cursor) : Option (String × Cursor) :=
  let name := c.run isNameChar
  let c := c.skip name.length
  if name.isEmpty || !endsAnchor c then none else some (String.ofList name, c)

/-- A number of up to nine digits in a directive. -/
def directiveNumber (c : Cursor) : Option (Nat × Cursor) :=
  let digits := c.run fun a => '0' ≤ a && a ≤ '9'
  if digits.isEmpty || 9 < digits.length then none
  else some (digits.foldl (fun n a => n * 10 + (a.toNat - 48)) 0, c.skip digits.length)

/-- A directive, after its percent sign. -/
def directive (c : Cursor) : Option (Token × Cursor) := do
  let name := c.run isNameChar
  let c := c.skip name.length
  if name.isEmpty || !endsWord c.next? then none
  let (token, c) ←
    if name == ['Y', 'A', 'M', 'L'] then do
      let (major, c) ← directiveNumber (c.skipWhile isBlank)
      if c.next? != some '.' then none
      let (minor, c) ← directiveNumber (c.skip 1)
      some (Token.versionDirective major minor, c)
    else if name == ['T', 'A', 'G'] then do
      let (handle, c) ← tagHandle (c.skipWhile isBlank)
      if handle != ['!'] && (handle.length < 2 || handle.getLast? != some '!') then none
      if !c.next?.any isBlank then none
      let (stem, c) ← tagText true (c.skipWhile isBlank)
      if stem.isEmpty || !endsWord c.next? then none
      some (Token.tagDirective (String.ofList handle) stem, c)
    else none
  let c := (c.skipWhile isBlank).skipComment
  if endsLine c.next? then some (token, c.takeBreak.2) else none

end WireContract.Yaml
