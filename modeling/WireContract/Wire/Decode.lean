import WireContract.Text.Case
import WireContract.Wire.Base64
import WireContract.Wire.Form
import WireContract.Wire.Tagged
import WireContract.Wire.Value

/-!
# Reading values of a contract

`decode` reads a value of a referenced type.  What a missing field means is the field's rule, the
one that the emitted code is pinned to.  A union is read whole before its member is.  The depth to
which a draft may nest bounds the recursion.
-/

namespace WireContract.Wire

open Json Schema

/-! ## Scalars -/

/-- A text that a grammar has to accept. -/
def readGrammar {α : Type} (expected : String) (parse : String → Option α) (d : Draft) :
    Except Fault α := do
  match parse (← readString expected d) with
  | some a => .ok a
  | none => .error (.mismatch .refusedText)

/-- A binary payload. -/
def readBytes (d : Draft) : Except Fault (List UInt8) :=
  readGrammar "a string" Base64.decode? d

/-- An identifier. -/
def readUuid (d : Draft) : Except Fault Uuid :=
  readGrammar "a formatted UUID string" Uuid.parse? d

/-- A point in time. -/
def readInstant (d : Draft) : Except Fault Instant :=
  readGrammar "an RFC 3339 formatted date and time string" Instant.parse? d

/-- A value of a primitive type. -/
def readPrimitive (r : Reader) (d : Draft) : Primitive → Except Fault Value
  | .string | .rid | .bearertoken => .text <$> readString "a string" d
  | .datetime => .instant <$> readInstant d
  | .integer => .int <$> readInt (-2147483648) 2147483647 "i32" d
  | .safelong => .int <$> readInt (-9223372036854775808) 9223372036854775807 "i64" d
  | .double => .double <$> readDouble d
  | .boolean => .bool <$> readBool d
  | .uuid => .uuid <$> readUuid d
  | .any => .any <$> d.complete r.limit

/-- The value of an enumeration that a text names, whatever its case. -/
def Value.ofEnumText (e : Enum) (s : String) : Value :=
  let name := Text.upper s
  match e.values.findIdx? (·.value == name) with
  | some index => .known index name
  | none => .unknown name

/-! ## Records -/

/-- The value of a field that is missing or null, where its rule allows that. -/
def defaultOf (reg : Registry) (t : TypeRef) : Value :=
  match form? reg t with
  | some ⟨0, .list _⟩ | some ⟨0, .set _⟩ => .list []
  | some ⟨0, .map _ _⟩ => .map []
  | _ => .absent

/-- Whether a field has to be there. -/
def presenceOf (reg : Registry) (t : TypeRef) : Presence :=
  match reg.fieldRule t with
  | .required => if isNullable reg t then .absentInObject else .required
  | .emptyDefault | .omitted => .defaulted

/-- Whether a draft is null. -/
def isNull : Draft → Bool
  | .null => true
  | _ => false

/-- How the values inside a value are read. -/
abbrev ReadInside := Source → TypeRef → Draft → Except Fault Value

/-- The rule for a field of a record. -/
def recordField (reg : Registry) (inside : ReadInside) (f : Field) :
    RecordField (List (String × Value)) :=
  ⟨f.name, presenceOf reg f.type, fun r d found => do
    if reg.fieldRule f.type == .emptyDefault && isNull d then
      return (f.name, defaultOf reg f.type) :: found
    else
      return (f.name, ← inside r.source f.type d) :: found⟩

/-- The fields found, in the order of declaration. -/
def inOrder (reg : Registry) (fields : List Field) (found : List (String × Value)) : List Value :=
  fields.map fun f => (found.lookup f.name).getD (defaultOf reg f.type)

/-- A record. -/
def readObject (reg : Registry) (inside : ReadInside) (r : Reader) (o : Object) (d : Draft) :
    Except Fault Value := do
  let found ← readRecord r ("struct " ++ o.name.name) (o.fields.map (recordField reg inside)) [] d
  return .record (inOrder reg o.fields found)

/-! ## Unions and maps -/

/-- A union; the member is read from the object as a whole. -/
def readUnion (inside : ReadInside) (r : Reader) (u : Union) (d : Draft) : Except Fault Value := do
  let m ← Tagged.read r d
  match u.members.find? (·.tag == m.tag) with
  | some declared => .member m.tag <$> inside .value declared.type (Draft.ofJson m.value)
  | none => return .unknownMember m.tag m.value

/-- The draft that stands for a key of an object.  Numbers and booleans are written as text. -/
def keyDraft (reg : Registry) (t : TypeRef) (key : String) : Draft :=
  match form? reg t with
  | some ⟨_, .primitive .integer⟩ | some ⟨_, .primitive .safelong⟩
  | some ⟨_, .primitive .boolean⟩ =>
    match Draft.ofText key.toList with
    | (d, none) => d
    | (_, some fault) => .broken false ⟨fault, fault⟩
  | _ => .str (.ok key)

/-- An entry of a map. -/
def readEntry (reg : Registry) (inside : ReadInside) (keyType valueType : TypeRef) (r : Reader)
    (key : String) (d : Draft) : Except Fault (Value × Value) := do
  let k ← inside r.source keyType (keyDraft reg keyType key)
  let v ← inside r.source valueType d
  return (k, v)

/-! ## Values -/

/-- A value with no optional around it. -/
def readBase (reg : Registry) (inside : ReadInside) (r : Reader) (d : Draft) :
    Base → Except Fault Value
  | .primitive p => readPrimitive r d p
  | .binary => .bytes <$> readBytes d
  | .list item => .list <$> readList r (fun r d => inside r.source item d) d
  | .set item => do
    let items ← readList r (fun r d => inside r.source item d) d
    return .list (Value.collect items)
  | .map key value => do
    let entries ← readEntries r (readEntry reg inside key value) d
    return .map (entries.foldl (fun sorted e => Value.insertEntry e sorted) [])
  | .enum e => Value.ofEnumText e <$> readString "a string" d
  | .object o => readObject reg inside r o d
  | .union u => readUnion inside r u d

/-- The value inside a number of optionals. -/
def Value.wrapped : (optionals : Nat) → Value → Value
  | 0, v => v
  | n + 1, v => .present (wrapped n v)

/-- Reads a value of a form. -/
def decodeForm (reg : Registry) : (limit : Nat) → Source → Form → Draft → Except Fault Value
  | 0, _, _, _ => .error .malformed
  | n + 1, source, f, d =>
    if 0 < f.optionals && isNull d then .ok .absent
    else
      let inside : ReadInside := fun source t d =>
        match form? reg t with
        | some f => decodeForm reg n source f d
        | none => .error .malformed
      Value.wrapped f.optionals <$> readBase reg inside ⟨source, n + 1⟩ d f.base

/-- Reads a value of a referenced type. -/
def decode (reg : Registry) (t : TypeRef) (r : Reader) (d : Draft) : Except Fault Value :=
  match form? reg t with
  | some f => decodeForm reg r.limit r.source f d
  | none => .error .malformed

end WireContract.Wire
