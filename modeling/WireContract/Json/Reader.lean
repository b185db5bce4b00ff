import WireContract.Json.Draft

/-!
# Reading records, lists and scalars off a draft

The readers here give typed values to drafts and say what was expected where a draft has another
form.  A record may be written as an object, its fields in any order, or as an array of its fields
in order.  In an object unknown keys are skipped, faults come in the order of the keys, and a field
that is missing is reported after all that are there.

A few answers depend on where the draft comes from (`Source`): straight from text, from a value
that was whole before, or from below a tagged alternative, whose content is set aside before its
form is known.
-/

namespace WireContract.Json

/-- Where a draft comes from. -/
inductive Source where
  | text
  | value
  | setAside
deriving DecidableEq, Repr

/-- How a draft is read: its source, and how deep it may still nest. -/
structure Reader where
  source : Source
  limit : Nat

namespace Reader

/-- The reader for the inside of an array or object. -/
def enter (r : Reader) : Except Fault Reader :=
  if r.limit ≤ 1 then .error .malformed else .ok { r with limit := r.limit - 1 }

/-- The same reader for content that is set aside. -/
def setAside (r : Reader) : Reader :=
  { r with source := .setAside }

end Reader

/-- What a draft shows itself to be, or the fault met in finding that out. -/
def Draft.found : Draft → Except Fault Found
  | .null => .ok .null
  | .bool b => .ok (.bool b)
  | .num n => n.map .num
  | .str s => s.map .str
  | .arr _ _ => .ok .sequence
  | .obj _ _ => .ok .map
  | .broken _ stop => .error stop.reading
  | .misplaced _ => .error .malformed

/-- The fault of a draft that has another form than expected. -/
def unexpected {α : Type} (expected : String) (d : Draft) : Except Fault α := do
  let found ← d.found
  .error (.mismatch (.invalidType found expected))

/-! ## Scalars -/

/-- A string. -/
def readString (expected : String) : Draft → Except Fault String
  | .str s => s
  | d => unexpected expected d

/-- A boolean. -/
def readBool : Draft → Except Fault Bool
  | .bool b => .ok b
  | d => unexpected "a boolean" d

/-- An integer within bounds; doubles are never integers. -/
def readInt (least greatest : Int) (expected : String) : Draft → Except Fault Int
  | .num (.ok (.int n)) =>
    if least ≤ n && n ≤ greatest then .ok n
    else .error (.mismatch (.invalidValue (.num (.int n)) expected))
  | d => unexpected expected d

/-- A double; an integer stands for the double nearest to it. -/
def readDouble : Draft → Except Fault Double
  | .num (.ok (.double x)) => .ok x
  | .num (.ok (.int n)) =>
    match Double.ofInt? n with
    | some x => .ok x
    | none => .error .malformed
  | d => unexpected "f64" d

/-- Nothing but null. -/
def readUnit : Draft → Except Fault Unit
  | .null => .ok ()
  | d => unexpected "unit" d

/-- Null or a value. -/
def readOption {α : Type} (read : Draft → Except Fault α) : Draft → Except Fault (Option α)
  | .null => .ok none
  | d => some <$> read d

/-! ## Lists and maps -/

/-- An array, item by item. -/
def readList {α : Type} (r : Reader) (read : Reader → Draft → Except Fault α) :
    Draft → Except Fault (List α)
  | .arr items stop => do
    let inner ← r.enter
    let xs ← items.mapM (read inner)
    Draft.closed stop
    return xs
  | d => unexpected "a sequence" d

/-- An object as a list of entries, in the order of the text. -/
def readEntries {α : Type} (r : Reader) (read : Reader → String → Draft → Except Fault α) :
    Draft → Except Fault (List α)
  | .obj fields stop => do
    let inner ← r.enter
    let xs ← fields.mapM fun (key, d) => do read inner (← key) d
    Draft.closed stop
    return xs
  | d => unexpected "a map" d

/-! ## Records -/

/-- Whether a field has to be there.  A field may be left out of either form of the record, of the
object only, or of neither. -/
inductive Presence where
  | required
  | absentInObject
  | defaulted
deriving DecidableEq, Repr

/-- A field of a record `ρ`: reading it sets its part of the record. -/
structure RecordField (ρ : Type) where
  name : String
  presence : Presence
  read : Reader → Draft → ρ → Except Fault ρ

/-- A field whose part of the record is set to what is read. -/
def RecordField.setting {ρ α : Type} (name : String) (presence : Presence)
    (read : Reader → Draft → Except Fault α) (set : α → ρ → ρ) : RecordField ρ :=
  ⟨name, presence, fun r d x => return set (← read r d) x⟩

/-- `1 element` or `n elements`. -/
def elements (n : Nat) : String :=
  if n == 1 then "1 element" else toString n ++ " elements"

/-- Reads the entries of an object into a record; `seen` holds the fields read before. -/
def readFields {ρ : Type} (r : Reader) (rules : List (RecordField ρ)) (record : ρ)
    (seen : List String) : List (Except Fault String × Draft) → Except Fault (ρ × List String)
  | [] => .ok (record, seen)
  | (key, d) :: rest => do
    let key ← key
    match rules.find? (·.name == key) with
    | none =>
      match d.skip with
      | some fault => .error fault
      | none => readFields r rules record seen rest
    | some rule =>
      if seen.contains key then .error (.mismatch (.duplicateField key))
      let record ← rule.read r d record
      readFields r rules record (key :: seen) rest

/-- Reads the elements of an array into a record, from the field with the given index on; gives the
elements left over. -/
def readElements {ρ : Type} (r : Reader) (expected : String) (stop : Option Stop) (record : ρ)
    (index : Nat) : List (RecordField ρ) → List Draft → Except Fault (ρ × List Draft)
  | [], items => .ok (record, items)
  | rule :: rules, [] => do
    Draft.closed stop
    if rule.presence == .defaulted then
      readElements r expected stop record (index + 1) rules []
    else .error (.mismatch (.invalidLength index expected))
  | rule :: rules, d :: items => do
    let record ← rule.read r d record
    readElements r expected stop record (index + 1) rules items

/-- Checks that an array of fields has come to its end. -/
def noMoreElements (source : Source) (expected total : Nat) (stop : Option Stop)
    (left : List Draft) : Except Fault Unit :=
  if left.isEmpty then Draft.closed stop
  else
    match source with
    | .text => .error .malformed
    | .value => .error (.mismatch (.invalidLength total "fewer elements in array"))
    | .setAside => .error (.mismatch (.invalidLength total (elements expected ++ " in sequence")))

/-- A record, from its object or its array form.  `label` names it in messages. -/
def readRecord {ρ : Type} (r : Reader) (label : String) (rules : List (RecordField ρ))
    (empty : ρ) : Draft → Except Fault ρ
  | .obj fields stop => do
    let inner ← r.enter
    let (record, seen) ← readFields inner rules empty [] fields
    Draft.closed stop
    match rules.find? fun rule => rule.presence == .required && !seen.contains rule.name with
    | some rule => .error (.mismatch (.missingField rule.name))
    | none => return record
  | .arr items stop => do
    let inner ← r.enter
    let expected := label ++ " with " ++ elements rules.length
    let (record, left) ← readElements inner expected stop empty 0 rules items
    noMoreElements r.source rules.length items.length stop left
    return record
  | d => unexpected label d

/-! ## Alternatives -/

/-- The alternative that a tag names: by its name, or, in content set aside, by its index. -/
def readVariant {α : Type} (source : Source) (variants : List (String × α)) :
    Draft → Except Fault α
  | .str s => do
    let s ← s
    match variants.lookup s with
    | some v => .ok v
    | none => .error (.mismatch (.unknownVariant s (variants.map (·.1))))
  | .num (.ok (.int n)) =>
    if source == .setAside && 0 ≤ n then
      match variants[n.toNat]? with
      | some (_, v) => .ok v
      | none =>
        .error (.mismatch (.invalidValue (.num (.int n))
          ("variant index 0 <= i < " ++ toString variants.length)))
    else unexpected "variant identifier" (.num (.ok (.int n)))
  | d => unexpected "variant identifier" d

/-- Whether an entry has the given key. -/
def hasKey (key : String) (entry : Except Fault String × Draft) : Bool :=
  match entry.1 with
  | .ok k => k == key
  | .error _ => false

/-- A tagged alternative: the tag stands under a key of the object or first in the array, and what
remains is read as the alternative that the tag names. -/
def readTagged {α : Type} (r : Reader) (label key : String)
    (variants : List (String × (Reader → Draft → Except Fault α))) : Draft → Except Fault α
  | .obj fields stop =>
    match fields.find? (hasKey key) with
    | none => .error (.mismatch (.missingField key))
    | some (_, tag) => do
      let read ← readVariant r.source variants tag
      read r.setAside (.obj (fields.filter fun entry => !hasKey key entry) stop)
  | .arr [] _ => .error (.mismatch (.missingField key))
  | .arr (tag :: items) stop => do
    let read ← readVariant r.source variants tag
    read r.setAside (.arr items stop)
  | d => unexpected ("internally tagged enum " ++ label) d

/-! ## Whole texts and values -/

/-- Reads a text to its end. -/
def readText {α : Type} (read : Reader → Draft → Except Fault α) (s : String) :
    Except Fault α := do
  let (draft, after) := Draft.ofText s.toList
  let a ← read ⟨.text, nestingLimit⟩ draft
  match after with
  | none => return a
  | some fault => .error fault

/-- Reads a value that is already whole; its own depth is the only limit. -/
def readValue {α : Type} (read : Reader → Draft → Except Fault α) (v : Json) : Except Fault α :=
  read ⟨.value, v.depth + 1⟩ (Draft.ofJson v)

end WireContract.Json
