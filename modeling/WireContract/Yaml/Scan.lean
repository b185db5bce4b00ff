import WireContract.Yaml.Token

/-!
# Finding the tokens of a text

That a scalar or a flow collection is a key shows only at the colon after it.  Until then its place
is kept as a `PossibleKey`, and the key mark is put in there when the colon comes.  A possible key
ends with its line, and after 1024 bytes.

`Token.scan` gives the tokens of a text, or nothing if the text is not YAML.
-/

namespace WireContract.Yaml

/-! ## Possible keys -/

/-- A place where a key may turn out to start. -/
structure PossibleKey where
  /-- The number of tokens before it. -/
  token : Nat
  /-- Nothing else can stand in its place. -/
  required : Bool
  index : Nat
  line : Nat
  column : Nat

/-- The text scanned so far. -/
structure Scanner where
  cursor : Cursor
  tokens : List Token
  /-- The columns of the open block collections, the innermost first. -/
  indents : List Int
  /-- A key may start here. -/
  keyAllowed : Bool
  /-- The possible key of each open flow collection, the innermost first, and of the block around
  them. -/
  keys : List (Option PossibleKey)

namespace Scanner

/-- The scanner before a text. -/
def ofText (cs : List Char) : Scanner := ⟨.ofText cs, [], [], true, [none]⟩

/-- Whether a flow collection is open. -/
def inFlow (s : Scanner) : Bool := 1 < s.keys.length

/-- The column of the innermost block collection; outside of all it is `-1`. -/
def indent (s : Scanner) : Int := s.indents.headD (-1)

/-- Adds a token. -/
def push (s : Scanner) (t : Token) : Scanner :=
  { s with tokens := s.tokens ++ [t] }

/-- Adds a token before those from some place on. -/
def insert (s : Scanner) (place : Nat) (t : Token) : Scanner :=
  { s with tokens := s.tokens.take place ++ t :: s.tokens.drop place }

/-- Whether a possible key can be one no longer. -/
def isStale (c : Cursor) (k : PossibleKey) : Bool :=
  k.line < c.line || k.index + 1024 < c.index

/-- Gives up the possible keys that have ended; one that had to be a key is an error. -/
def dropStaleKeys (s : Scanner) : Option Scanner :=
  if s.keys.any fun k => k.any fun k => k.required && isStale s.cursor k then none
  else some { s with keys := s.keys.map fun k => k.filter fun k => !isStale s.cursor k }

/-- Gives up the innermost possible key; one that had to be a key is an error. -/
def dropKey (s : Scanner) : Option Scanner :=
  match s.keys with
  | some k :: rest => if k.required then none else some { s with keys := none :: rest }
  | _ => some s

/-- Notes that a key may start here. -/
def saveKey (s : Scanner) : Option Scanner :=
  if s.keyAllowed then do
    let s ← s.dropKey
    let c := s.cursor
    let key : PossibleKey :=
      ⟨s.tokens.length, !s.inFlow && s.indent == c.column, c.index, c.line, c.column⟩
    return { s with keys := some key :: s.keys.tail }
  else some s

/-- Opens a block collection at a column, unless it is open already; its token goes to a place
among the tokens, or to their end. -/
def openBlock (s : Scanner) (column : Nat) (place : Option Nat) (t : Token) : Scanner :=
  if s.inFlow || column ≤ s.indent then s
  else
    let s := { s with indents := (column : Int) :: s.indents }
    match place with
    | some n => s.insert n t
    | none => s.push t

/-- Closes the block collections that are further to the right than a column. -/
def closeBlocks (s : Scanner) (column : Int) : Scanner :=
  if s.inFlow then s
  else
    let closed := s.indents.takeWhile fun n => column < n
    { s with
      indents := s.indents.drop closed.length
      tokens := s.tokens ++ closed.map fun _ => .blockEnd }

/-! ## Tokens -/

/-- Skips blanks, comments and line breaks up to a token.  A tab does not count as a blank where a
key may start.  A byte order mark at the start of a line is skipped, but takes up its column. -/
def skipToToken : (fuel : Nat) → Scanner → Scanner
  | 0, s => s
  | fuel + 1, s =>
    let c := s.cursor
    let c := if c.column == 0 && c.next?.any (·.toNat == 0xFEFF) then c.skip 1 else c
    let c := c.skipWhile fun a => a == ' ' || (a == '\t' && (s.inFlow || !s.keyAllowed))
    let c := c.skipComment
    if c.next?.any isBreak then
      skipToToken fuel
        { s with cursor := c.takeBreak.2, keyAllowed := s.keyAllowed || !s.inFlow }
    else { s with cursor := c }

/-- Takes a mark of some characters. -/
def takeMark (s : Scanner) (length : Nat) (t : Token) : Scanner :=
  { s with cursor := s.cursor.skip length }.push t

/-- A mark between documents. -/
def documentMark (s : Scanner) (t : Token) : Option Scanner := do
  let s ← (s.closeBlocks (-1)).dropKey
  return { s with keyAllowed := false }.takeMark 3 t

/-- A directive. -/
def takeDirective (s : Scanner) : Option Scanner := do
  let s ← (s.closeBlocks (-1)).dropKey
  let (t, c) ← directive (s.cursor.skip 1)
  return { s with keyAllowed := false, cursor := c }.push t

/-- The start of a flow collection. -/
def openFlow (s : Scanner) (t : Token) : Option Scanner := do
  let s ← s.saveKey
  return { s with keys := none :: s.keys, keyAllowed := true }.takeMark 1 t

/-- The end of a flow collection. -/
def closeFlow (s : Scanner) (t : Token) : Option Scanner := do
  let s ← s.dropKey
  let keys := if s.inFlow then s.keys.tail else s.keys
  return { s with keys := keys, keyAllowed := false }.takeMark 1 t

/-- A comma. -/
def takeFlowEntry (s : Scanner) : Option Scanner := do
  let s ← s.dropKey
  return { s with keyAllowed := true }.takeMark 1 .flowEntry

/-- A dash. -/
def takeBlockEntry (s : Scanner) : Option Scanner := do
  if !s.inFlow && !s.keyAllowed then none
  let s ← (s.openBlock s.cursor.column none .blockSequenceStart).dropKey
  return { s with keyAllowed := true }.takeMark 1 .blockEntry

/-- A question mark. -/
def takeKey (s : Scanner) : Option Scanner := do
  if !s.inFlow && !s.keyAllowed then none
  let s ← (s.openBlock s.cursor.column none .blockMappingStart).dropKey
  return { s with keyAllowed := !s.inFlow }.takeMark 1 .key

/-- A colon: the possible key before it is one, or else it follows a key with a question mark. -/
def takeValue (s : Scanner) : Option Scanner :=
  match s.keys with
  | some k :: rest =>
    let s := (s.insert k.token .key).openBlock k.column (some k.token) .blockMappingStart
    some ({ s with keys := none :: rest, keyAllowed := false }.takeMark 1 .value)
  | _ =>
    if !s.inFlow && !s.keyAllowed then none
    else
      let s := s.openBlock s.cursor.column none .blockMappingStart
      some ({ s with keyAllowed := !s.inFlow }.takeMark 1 .value)

/-- A token that may start a key. -/
def takeNode (s : Scanner) (read : Cursor → Option (Token × Cursor)) : Option Scanner := do
  let s ← s.saveKey
  let (t, c) ← read s.cursor
  return { s with keyAllowed := false, cursor := c }.push t

/-- A name after its mark. -/
def takeName (s : Scanner) (make : String → Token) : Option Scanner :=
  s.takeNode fun c => do
    let (name, c) ← anchorName (c.skip 1)
    return (make name, c)

/-- A scalar between quotes. -/
def takeQuoted (s : Scanner) (quote : Char) : Option Scanner :=
  s.takeNode fun c => do
    let c := c.skip 1
    let (text, c) ← quotedScalar quote (c.rest.length + 1) [] c
    return (.scalar (String.ofList text) false, c)

/-- A block scalar. -/
def takeBlock (s : Scanner) (literal : Bool) : Option Scanner := do
  let s ← s.dropKey
  let (text, c) ← blockScalar literal s.indent (s.cursor.skip 1)
  return { s with keyAllowed := true, cursor := c }.push (.scalar (String.ofList text) false)

/-- A plain scalar; a key may start after it if its line has ended. -/
def takePlain (s : Scanner) : Option Scanner := do
  let s ← s.saveKey
  let c := s.cursor
  let (text, c, broken) ←
    plainScalar s.inFlow (s.indent + 1).toNat (c.rest.length + 1) [] Gap.none c
  return { s with keyAllowed := broken, cursor := c }.push (.scalar (String.ofList text) true)

/-- Whether a plain scalar may start with a character. -/
def startsPlain (inFlow : Bool) (a : Char) (after : Option Char) : Bool :=
  if a == '-' then !after.any isBlank
  else if a == '?' || a == ':' then !inFlow && !endsWord after
  else !(endsWord (some a) || isFlowMark a || a.toNat == 0x60 ||
    ['#', '&', '*', '!', '|', '>', '\'', '"', '%', '@'].contains a)

/-- Takes the token that starts with a character. -/
def takeToken (s : Scanner) (a : Char) : Option Scanner :=
  let c := s.cursor
  let after := c.at? 1
  let loose := s.inFlow || endsWord after
  if c.column == 0 && a == '%' then s.takeDirective
  else if c.atDocumentLine then
    s.documentMark (if a == '-' then .documentStart else .documentEnd)
  else if a == '[' then s.openFlow .flowSequenceStart
  else if a == '\x7b' then s.openFlow .flowMappingStart
  else if a == ']' then s.closeFlow .flowSequenceEnd
  else if a == '\x7d' then s.closeFlow .flowMappingEnd
  else if a == ',' then s.takeFlowEntry
  else if a == '-' && endsWord after then s.takeBlockEntry
  else if a == '?' && loose then s.takeKey
  else if a == ':' && loose then s.takeValue
  else if a == '*' then s.takeName .alias
  else if a == '&' then s.takeName .anchor
  else if a == '!' then s.takeNode (tagToken s.inFlow)
  else if a == '|' && !s.inFlow then s.takeBlock true
  else if a == '>' && !s.inFlow then s.takeBlock false
  else if a == '\'' || a == '"' then s.takeQuoted a
  else if startsPlain s.inFlow a after then s.takePlain
  else none

/-- Takes tokens up to the end of the text. -/
def run : (fuel : Nat) → Scanner → Option (List Token)
  | 0, _ => none
  | fuel + 1, s => do
    let s ← (skipToToken (s.cursor.rest.length + 1) s).dropStaleKeys
    match s.cursor.next? with
    | none =>
      let s ← (s.closeBlocks (-1)).dropKey
      return s.tokens ++ [.streamEnd]
    | some a => run fuel (← (s.closeBlocks s.cursor.column).takeToken a)

end Scanner

/-- The tokens of a text. -/
def Token.scan (text : String) : Option (List Token) :=
  let cs := text.toList
  if cs.all isAllowed then (Scanner.ofText cs).run (cs.length + 1) else none

end WireContract.Yaml
