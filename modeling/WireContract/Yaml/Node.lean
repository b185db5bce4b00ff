import WireContract.Yaml.Token

/-!
# Nodes of a YAML document

A document is a tree of scalars, sequences and mappings.  A node can carry an anchor, and an alias
stands for the node that its anchor is on.  Anchors are numbered by how many names are in use when
they appear, so that an anchor whose name is used again shares its number with the one after it.

`Node.ofTokens?` gives the one document of a text, or nothing if the tokens do not make one.
-/

namespace WireContract.Yaml

/-- A node of a document.  Anchors are numbers, tags are written out. -/
inductive Node where
  | scalar (anchor : Option Nat) (tag : Option String) (plain : Bool) (text : String)
  | sequence (anchor : Option Nat) (tag : Option String) (items : List Node)
  | mapping (anchor : Option Nat) (tag : Option String) (entries : List (Node × Node))
  | alias (anchor : Nat)
deriving Inhabited

namespace Node

/-- The node that stands where nothing is written. -/
def empty : Node := .scalar none none true ""

mutual

/-- The number of starts, ends, scalars and aliases that a node is made of. -/
def events : Node → Nat
  | .scalar _ _ _ _ | .alias _ => 1
  | .sequence _ _ items => 2 + eventsOfItems items
  | .mapping _ _ entries => 2 + eventsOfEntries entries

/-- The number of events of items. -/
def eventsOfItems : List Node → Nat
  | [] => 0
  | x :: xs => events x + eventsOfItems xs

/-- The number of events of entries. -/
def eventsOfEntries : List (Node × Node) → Nat
  | [] => 0
  | (k, v) :: rest => events k + events v + eventsOfEntries rest

end

mutual

/-- The anchored nodes, in the order in which they start. -/
def anchored : Node → List (Nat × Node)
  | .scalar anchor tag plain text => anchor.toList.map (·, .scalar anchor tag plain text)
  | .sequence anchor tag items =>
    anchor.toList.map (·, .sequence anchor tag items) ++ anchoredItems items
  | .mapping anchor tag entries =>
    anchor.toList.map (·, .mapping anchor tag entries) ++ anchoredEntries entries
  | .alias _ => []

/-- The anchored nodes among items. -/
def anchoredItems : List Node → List (Nat × Node)
  | [] => []
  | x :: xs => anchored x ++ anchoredItems xs

/-- The anchored nodes among entries. -/
def anchoredEntries : List (Node × Node) → List (Nat × Node)
  | [] => []
  | (k, v) :: rest => anchored k ++ anchored v ++ anchoredEntries rest

end

end Node

/-! ## Reading nodes off tokens -/

/-- The tokens that are left, and the anchors met with their numbers, the latest first. -/
structure Feed where
  tokens : List Token
  anchors : List (String × Nat)

namespace Feed

/-- The next token. -/
def next (f : Feed) : Token := f.tokens.headD .streamEnd

/-- The feed after its next token. -/
def skip (f : Feed) : Feed := { f with tokens := f.tokens.tail }

/-- Numbers an anchor. -/
def anchor (f : Feed) (name : String) : Nat × Feed :=
  let number := ((f.anchors.map (·.1)).eraseDups).length
  (number, { f with anchors := (name, number) :: f.anchors })

/-- Takes an anchor, if one is next. -/
def anchor? (f : Feed) : Option Nat × Feed :=
  match f.next with
  | .anchor name =>
    let (number, f) := f.skip.anchor name
    (some number, f)
  | _ => (none, f)

/-- Takes a tag, if one is next. -/
def tag? (f : Feed) : Option (String × String) × Feed :=
  match f.next with
  | .tag handle suffix => (some (handle, suffix), f.skip)
  | _ => (none, f)

/-- Takes an anchor and a tag, in either order. -/
def properties (f : Feed) : Option Nat × Option (String × String) × Feed :=
  match f.anchor? with
  | (some number, f) =>
    let (tag, f) := f.tag?
    (some number, tag, f)
  | (none, f) =>
    match f.tag? with
    | (some tag, f) =>
      let (number, f) := f.anchor?
      (number, some tag, f)
    | (none, f) => (none, none, f)

end Feed

/-- The stems of tag handles. -/
abbrev Handles := List (String × String)

/-- The tag that a handle and a suffix write out; the handle has to be known. -/
def writtenOut (handles : Handles) : Option (String × String) → Option (Option String)
  | none => some none
  | some ("", suffix) => some (some suffix)
  | some (handle, suffix) => (handles.lookup handle).map fun stem => some (stem ++ suffix)

/-- Where a node may stand. -/
inductive Place where
  /-- Inside a flow collection. -/
  | flow
  /-- In a block, where a list has to be indented. -/
  | block
  /-- In a block, where a list may start without indentation. -/
  | blockOrEntry
deriving DecidableEq, Repr

/-- Whether a token ends an entry of a block mapping. -/
def endsBlockEntry : Token → Bool
  | .key | .value | .blockEnd => true
  | _ => false

/-- Whether a token ends an item of a flow sequence. -/
def endsFlowItem : Token → Bool
  | .flowEntry | .flowSequenceEnd => true
  | _ => false

/-- Whether a token ends an entry of a flow mapping. -/
def endsFlowEntry : Token → Bool
  | .flowEntry | .flowMappingEnd => true
  | _ => false

/-- The way from a feed to a node and the feed after it. -/
abbrev ReadNode := Place → Feed → Option (Node × Feed)

/-- The node before an end, or the empty node. -/
def nodeUnless (read : ReadNode) (ends : Token → Bool) (place : Place) (f : Feed) :
    Option (Node × Feed) :=
  if ends f.next then some (.empty, f) else read place f

/-- The node after a value mark, or the empty node. -/
def valueNode (read : ReadNode) (ends : Token → Bool) (place : Place) (f : Feed) :
    Option (Node × Feed) :=
  if f.next == .value then nodeUnless read ends place f.skip else some (.empty, f)

/-- The items of a block sequence, up to its end. -/
def blockItems (read : ReadNode) : (fuel : Nat) → Feed → Option (List Node × Feed)
  | 0, _ => none
  | fuel + 1, f =>
    match f.next with
    | .blockEntry => do
      let (x, f) ← nodeUnless read (fun t => t == .blockEntry || t == .blockEnd) .block f.skip
      let (xs, f) ← blockItems read fuel f
      return (x :: xs, f)
    | .blockEnd => some ([], f.skip)
    | _ => none

/-- The items of a sequence that is not indented. -/
def flushItems (read : ReadNode) : (fuel : Nat) → Feed → Option (List Node × Feed)
  | 0, _ => none
  | fuel + 1, f =>
    if f.next == .blockEntry then do
      let (x, f) ← nodeUnless read (fun t => t == .blockEntry || endsBlockEntry t) .block f.skip
      let (xs, f) ← flushItems read fuel f
      return (x :: xs, f)
    else some ([], f)

/-- The entries of a block mapping, up to its end. -/
def blockEntries (read : ReadNode) : (fuel : Nat) → Feed → Option (List (Node × Node) × Feed)
  | 0, _ => none
  | fuel + 1, f =>
    match f.next with
    | .key => do
      let (k, f) ← nodeUnless read endsBlockEntry .blockOrEntry f.skip
      let (v, f) ← valueNode read endsBlockEntry .blockOrEntry f
      let (rest, f) ← blockEntries read fuel f
      return ((k, v) :: rest, f)
    | .blockEnd => some ([], f.skip)
    | _ => none

/-- Skips the comma before each item but the first. -/
def afterComma (first : Bool) (f : Feed) : Option Feed :=
  if first then some f
  else if f.next == .flowEntry then some f.skip
  else none

/-- The mapping of one entry that a key mark starts inside a flow sequence.  A key mark with nothing
after it takes the token after it along. -/
def singleEntry (read : ReadNode) (f : Feed) : Option (Node × Feed) := do
  let (k, f) ←
    if f.next == .value || endsFlowItem f.next then some (.empty, f.skip) else read .flow f
  let (v, f) ← valueNode read endsFlowItem .flow f
  return (.mapping none none [(k, v)], f)

/-- The items of a flow sequence, up to its end. -/
def flowItems (read : ReadNode) :
    (fuel : Nat) → (first : Bool) → Feed → Option (List Node × Feed)
  | 0, _, _ => none
  | fuel + 1, first, f =>
    if f.next == .flowSequenceEnd then some ([], f.skip)
    else do
      let f ← afterComma first f
      if f.next == .flowSequenceEnd then some ([], f.skip)
      else do
        let (x, f) ← if f.next == .key then singleEntry read f.skip else read .flow f
        let (xs, f) ← flowItems read fuel false f
        return (x :: xs, f)

/-- The entries of a flow mapping, up to its end.  A node without a key mark is a key without a
value. -/
def flowEntries (read : ReadNode) :
    (fuel : Nat) → (first : Bool) → Feed → Option (List (Node × Node) × Feed)
  | 0, _, _ => none
  | fuel + 1, first, f =>
    if f.next == .flowMappingEnd then some ([], f.skip)
    else do
      let f ← afterComma first f
      if f.next == .flowMappingEnd then some ([], f.skip)
      else do
        let ((k, v), f) ←
          if f.next == .key then do
            let (k, f) ← nodeUnless read (fun t => t == .value || endsFlowEntry t) .flow f.skip
            let (v, f) ← valueNode read endsFlowEntry .flow f
            some ((k, v), f)
          else do
            let (k, f) ← read .flow f
            some ((k, Node.empty), f)
        let (rest, f) ← flowEntries read fuel false f
        return ((k, v) :: rest, f)

/-- Reads a node. -/
def readNode (handles : Handles) : (fuel : Nat) → ReadNode
  | 0, _, _ => none
  | fuel + 1, place, f =>
    match f.next with
    | .alias name => do
      let number ← f.anchors.lookup name
      return (.alias number, f.skip)
    | _ => do
      let (anchor, written, f) := f.properties
      let tag ← writtenOut handles written
      let read := readNode handles fuel
      let fuel := f.tokens.length + 1
      match f.next with
      | .scalar text plain =>
        return (.scalar anchor tag plain text, f.skip)
      | .flowSequenceStart => do
        let (items, f) ← flowItems read fuel true f.skip
        return (.sequence anchor tag items, f)
      | .flowMappingStart => do
        let (entries, f) ← flowEntries read fuel true f.skip
        return (.mapping anchor tag entries, f)
      | .blockSequenceStart => do
        if place == .flow then none
        let (items, f) ← blockItems read fuel f.skip
        return (.sequence anchor tag items, f)
      | .blockMappingStart => do
        if place == .flow then none
        let (entries, f) ← blockEntries read fuel f.skip
        return (.mapping anchor tag entries, f)
      | t =>
        if t == .blockEntry && place == .blockOrEntry then do
          let (items, f) ← flushItems read fuel f
          return (.sequence anchor tag items, f)
        else if anchor.isSome || tag.isSome then some (.scalar anchor tag true "", f)
        else none

/-! ## Documents -/

/-- The handles that every document knows. -/
def defaultHandles : Handles := [("!", "!"), ("!!", "tag:yaml.org,2002:")]

/-- Takes directives: one version of the language that is known, and handles once each. -/
def directives : (versioned : Bool) → Handles → List Token → Option (Handles × List Token)
  | versioned, handles, .versionDirective major minor :: rest =>
    if versioned || major != 1 || (minor != 1 && minor != 2) then none
    else directives true handles rest
  | versioned, handles, .tagDirective handle stem :: rest =>
    if (handles.lookup handle).isSome then none
    else directives versioned ((handle, stem) :: handles) rest
  | _, handles, rest => some (handles, rest)

/-- Whether a document without a mark can start with a token. -/
def startsBare : Token → Bool
  | .versionDirective _ _ | .tagDirective _ _ | .documentStart | .streamEnd => false
  | _ => true

/-- Whether a document ends before a token. -/
def endsDocument : Token → Bool
  | .versionDirective _ _ | .tagDirective _ _ | .documentStart | .documentEnd | .streamEnd => true
  | _ => false

/-- The node of one document from the tokens of its content. -/
def Node.ofContent? (handles : Handles) (place : Token → Bool) (tokens : List Token) :
    Option Node := do
  let (node, f) ←
    nodeUnless (readNode handles (tokens.length + 1)) place .block ⟨tokens, []⟩
  if (f.tokens.dropWhile (· == .documentEnd)) == [.streamEnd] then some node else none

/-- The node of the only document of some tokens; without any document it is the empty node. -/
def Node.ofTokens? (tokens : List Token) : Option Node :=
  match tokens with
  | [.streamEnd] => some .empty
  | first :: _ =>
    if startsBare first then Node.ofContent? defaultHandles (fun _ => false) tokens
    else do
      let (handles, rest) ← directives false [] tokens
      match rest with
      | .documentStart :: content =>
        Node.ofContent? (handles ++ defaultHandles) endsDocument content
      | _ => none
  | [] => none

end WireContract.Yaml
