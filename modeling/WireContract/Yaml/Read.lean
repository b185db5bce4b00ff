import WireContract.Yaml.Meaning
import WireContract.Yaml.Node
import WireContract.Yaml.Scan

/-!
# Reading YAML

A document is read as a JSON value.  The text of a scalar key is the key, whatever its tag, and of
equal keys the last counts.  The tags of the standard scalars decide what a scalar is read as; a
node with a tag of one's own is refused.  Collections may nest to a depth of 128, and aliases may
be followed a hundred times for each event of the document.
-/

namespace WireContract.Yaml

/-- The depth to which collections may nest. -/
def nestingLimit : Nat := 128

/-- How often aliases may be followed for each event. -/
def jumpsPerEvent : Nat := 100

/-- Whether a tag is one's own. -/
def isOwnTag : Option String → Bool
  | some tag => tag.toList.head? == some '!'
  | none => false

/-- The tag of a standard scalar. -/
def standardTag (name : String) : String :=
  "tag:yaml.org,2002:" ++ name

/-- The value of a scalar. -/
def scalarValue (tag : Option String) (plain : Bool) (text : String) : Option Json :=
  match tag with
  | none => if plain then (meaning text).toJson text else some (.str text)
  | some tag =>
    if tag == standardTag "bool" then (boolWord? text).map .bool
    else if tag == standardTag "int" then do (← integer? text.toList).toJson text
    else if tag == standardTag "float" then do (← double? text.toList).toJson text
    else if tag == standardTag "null" then (if isNullWord text then some .null else none)
    else some (.str text)

/-- What is known while a document is read: its anchored nodes, and how many jumps it allows. -/
structure Context where
  anchored : List (Nat × Node)
  jumps : Nat

/-- A result that counts the jumps made so far. -/
abbrev Jumping := StateT Nat Option

namespace Context

/-- The context of a document. -/
def ofNode (root : Node) : Context :=
  ⟨root.anchored.reverse, root.events * jumpsPerEvent⟩

/-- The node itself, or the one that an alias stands for. -/
def follow (ctx : Context) : Node → Jumping Node
  | .alias number => do
    let made ← get
    if ctx.jumps ≤ made then failure
    set (made + 1)
    match ctx.anchored.lookup number with
    | some node => return node
    | none => failure
  | node => return node

/-- The text of a node that is a key. -/
def keyOf (ctx : Context) (node : Node) : Jumping String := do
  match ← ctx.follow node with
  | .scalar _ _ _ text => return text
  | _ => failure

/-- The value of a node, with some levels of nesting left. -/
def valueOf (ctx : Context) : (depth : Nat) → Node → Jumping Json
  | depth, node => do
    match depth, ← ctx.follow node with
    | _, .scalar _ tag plain text =>
      if isOwnTag tag then failure
      match scalarValue tag plain text with
      | some v => return v
      | none => failure
    | depth + 1, .sequence _ tag items =>
      if isOwnTag tag then failure
      return .arr (← items.mapM (ctx.valueOf depth))
    | depth + 1, .mapping _ tag entries =>
      if isOwnTag tag then failure
      let fields ← entries.foldlM (fun fields (k, v) => do
        let key ← ctx.keyOf k
        let value ← ctx.valueOf depth v
        return Json.insert fields key value) []
      return .obj fields
    | _, _ => failure

end Context

/-- The value of a text. -/
def parse? (text : String) : Option Json := do
  let tokens ← Token.scan text
  let root ← Node.ofTokens? tokens
  let (value, _) ← ((Context.ofNode root).valueOf nestingLimit root).run 0
  return value

end WireContract.Yaml
