import WireContract.Emit.Imports
import WireContract.Schema.TypeRef

/-!
# Types of slots

A slot of a generated type (a field, a variant, the content of an alias, a parameter) stores a value
of its reference.  `TypeRef.stored` gives the form of the stored type, with declared types by name;
`Stored.type` spells it for a file.  A boxed slot holds the declared type it would hold in place
behind a pointer.
-/

namespace WireContract

/-- The form of a stored type. -/
inductive Emit.Stored where
  | primitive (p : Schema.Primitive)
  | binary
  | option (content : Stored)
  | vec (item : Stored)
  | set (item : Stored)
  | map (key value : Stored)
  | boxed (content : Stored)
  | named (name : Schema.QualifiedName)
deriving DecidableEq, Repr

open Emit

namespace Schema.TypeRef

/-- The form in which a slot stores values of a reference. -/
def stored (boxed : Bool) : TypeRef → Stored
  | .primitive p => .primitive p
  | .binary => .binary
  | .optional inner => .option (inner.stored boxed)
  | .list item => .vec (item.stored false)
  | .set item => .set (item.stored false)
  | .map key value => .map (key.stored false) (value.stored false)
  | .declared name => if boxed then .boxed (.named name) else .named name
  | .external _ fallback => fallback.stored boxed

/-- The form that a visitor is given for a slot: a pointer around the whole value is removed. -/
def viewed (boxed : Bool) : TypeRef → Stored
  | .declared name => .named name
  | .external _ fallback => fallback.viewed boxed
  | r => r.stored boxed

end Schema.TypeRef

namespace Emit.Stored

open Rust

/-- The Rust type of a primitive. -/
def primitiveType (runtime : Path) : Schema.Primitive → Ty
  | .string | .rid | .bearertoken => .ofWord "String"
  | .integer => .ofWord "i32"
  | .safelong => .ofWord "i64"
  | .double => .ofWord "f64"
  | .boolean => .ofWord "bool"
  | .datetime =>
    .named (runtime.join ["chrono", "DateTime"]) [] [.ofPath (runtime.join ["chrono", "Utc"])]
  | .uuid => .ofPath (runtime.join ["uuid", "Uuid"])
  | .any => .ofPath (.ofWords ["serde_json", "Value"])

/-- The Rust type of a stored form, in a file with the given imports. -/
def type (imports : Imports) (runtime : Path) : Stored → Ty
  | .primitive p => primitiveType runtime p
  | .binary => .ofPath (runtime.join ["Binary"])
  | .option t => .apply "Option" [t.type imports runtime]
  | .vec t => .apply "Vec" [t.type imports runtime]
  | .set t => .named (.std ["collections", "BTreeSet"]) [] [t.type imports runtime]
  | .map k v =>
    .named (.std ["collections", "BTreeMap"]) [] [k.type imports runtime, v.type imports runtime]
  | .boxed t => .apply "Box" [t.type imports runtime]
  | .named q => .ofPath (imports.pathTo q)

/-- The declared types that occur in a stored form. -/
def mentions : Stored → List Schema.QualifiedName
  | .primitive _ | .binary => []
  | .option t | .vec t | .set t | .boxed t => t.mentions
  | .map k v => k.mentions ++ v.mentions
  | .named q => [q]

end Emit.Stored

end WireContract
