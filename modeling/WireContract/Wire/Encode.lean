import WireContract.Wire.Base64
import WireContract.Wire.Form
import WireContract.Wire.Tagged
import WireContract.Wire.Value

/-!
# Writing values of a contract

Fields are written in the order of declaration, and a field whose rule says so is left out when it
has no value.  Map keys come in their order.  A member with the tag `type` writes that key twice;
`Json.distinct` keeps the last of them.
-/

namespace WireContract.Wire

open Schema

/-- What a reference is inside its optionals. -/
def baseOf (reg : Registry) (t : TypeRef) : Base :=
  match form? reg t with
  | some f => f.base
  | none => .binary

/-- What the value of a member is inside its optionals. -/
def memberBase (reg : Registry) (u : Union) (tag : String) : Base :=
  match u.members.find? (·.tag == tag) with
  | some m => baseOf reg m.type
  | none => .binary

/-- A value as a key of an object. -/
def keyText : Value → String
  | .text s | .known _ s | .unknown s => s
  | .int n => toString n
  | .bool b => if b then "true" else "false"
  | .instant t => t.text
  | .uuid u => u.text
  | .bytes bs => Base64.encode bs
  | _ => ""

/-- Whether a field is left out for its value. -/
def isOmitted (reg : Registry) (t : TypeRef) : Value → Bool
  | .absent => reg.fieldRule t == .omitted
  | _ => false

mutual

/-- The JSON of a value of a form. -/
def encodeBase (reg : Registry) : Base → Value → Json
  | _, .text s => .str s
  | _, .int n => .num (.int n)
  | _, .double x => .num (.double x)
  | _, .bool b => .bool b
  | _, .instant t => .str t.text
  | _, .uuid u => .str u.text
  | _, .bytes bs => .str (Base64.encode bs)
  | _, .any v => v
  | _, .absent => .null
  | b, .present v => encodeBase reg b v
  | .list item, .list items => .arr (encodeItems reg (baseOf reg item) items)
  | .set item, .list items => .arr (encodeItems reg (baseOf reg item) items)
  | .map _ value, .map entries => .obj (encodeEntries reg (baseOf reg value) entries)
  | _, .known _ name => .str name
  | _, .unknown name => .str name
  | .object o, .record fields => .obj (encodeFields reg o.fields fields)
  | .union u, .member tag v =>
    Tagged.toJson ⟨tag, encodeBase reg (memberBase reg u tag) v⟩
  | _, .unknownMember tag v => Tagged.toJson ⟨tag, v⟩
  | _, _ => .null

/-- The JSON of items. -/
def encodeItems (reg : Registry) (b : Base) : List Value → List Json
  | [] => []
  | v :: vs => encodeBase reg b v :: encodeItems reg b vs

/-- The JSON of map entries. -/
def encodeEntries (reg : Registry) (b : Base) : List (Value × Value) → List (String × Json)
  | [] => []
  | (k, v) :: rest => (keyText k, encodeBase reg b v) :: encodeEntries reg b rest

/-- The JSON of fields. -/
def encodeFields (reg : Registry) : List Field → List Value → List (String × Json)
  | f :: fs, v :: vs =>
    let rest := encodeFields reg fs vs
    if isOmitted reg f.type v then rest
    else (f.name, encodeBase reg (baseOf reg f.type) v) :: rest
  | _, _ => []

end

/-- The JSON of a value of a referenced type. -/
def encode (reg : Registry) (t : TypeRef) (v : Value) : Json :=
  encodeBase reg (baseOf reg t) v

end WireContract.Wire
