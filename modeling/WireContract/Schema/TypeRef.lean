import WireContract.Schema.Name

/-!
# Type references

A reference is what a field, a member, a parameter or an alias says about its type: a primitive or
binary leaf, a container or optional around another reference, a declared type by name, or an
external type with the reference that represents it.
-/

namespace WireContract.Schema

/-- The primitive leaf types. -/
inductive Primitive where
  | string
  | datetime
  | integer
  | double
  | safelong
  | any
  | boolean
  | uuid
  | rid
  | bearertoken
deriving DecidableEq, Repr, Inhabited

namespace Primitive

/-- All primitives. -/
def all : List Primitive :=
  [string, datetime, integer, double, safelong, any, boolean, uuid, rid, bearertoken]

/-- The word for the primitive in a document. -/
def word : Primitive → String
  | string => "STRING"
  | datetime => "DATETIME"
  | integer => "INTEGER"
  | double => "DOUBLE"
  | safelong => "SAFELONG"
  | any => "ANY"
  | boolean => "BOOLEAN"
  | uuid => "UUID"
  | rid => "RID"
  | bearertoken => "BEARERTOKEN"

/-- The primitive that a word names. -/
def ofWord? (w : String) : Option Primitive :=
  all.find? (·.word == w)

/-- Whether the values have a total order. -/
def isOrderable : Primitive → Bool
  | double | any => false
  | _ => true

/-- Whether the values can be keys of a JSON object. -/
def canBeKey : Primitive → Bool
  | double | any => false
  | _ => true

end Primitive

/-- A reference to a type. -/
inductive TypeRef where
  | primitive (p : Primitive)
  | binary
  | optional (inner : TypeRef)
  | list (item : TypeRef)
  | set (item : TypeRef)
  | map (key value : TypeRef)
  | declared (name : QualifiedName)
  | external (name : QualifiedName) (fallback : TypeRef)
deriving DecidableEq, Repr, Inhabited

namespace TypeRef

/-- The declared types that the reference mentions, in order of mention. -/
def mentions : TypeRef → List QualifiedName
  | primitive _ | binary => []
  | optional inner | list inner | set inner => inner.mentions
  | map key value => key.mentions ++ value.mentions
  | declared name => [name]
  | external _ fallback => fallback.mentions

/-- The declared type that a value of the reference holds in place.  Optionals and external
fallbacks hold their content in place; lists, sets and maps do not. -/
def heldByValue : TypeRef → Option QualifiedName
  | declared name => some name
  | optional inner => inner.heldByValue
  | external _ fallback => fallback.heldByValue
  | _ => none

/-- The reference as messages write it. -/
def text : TypeRef → String
  | primitive p => p.word
  | binary => "BINARY"
  | optional inner => "optional<" ++ inner.text ++ ">"
  | list item => "list<" ++ item.text ++ ">"
  | set item => "set<" ++ item.text ++ ">"
  | map key value => "map<" ++ key.text ++ ", " ++ value.text ++ ">"
  | declared name => name.text
  | external name _ => "external " ++ name.text

/-- The outermost optional around an optional, in order of mention. -/
def nestedOptional? : TypeRef → Option TypeRef
  | optional (optional inner) => some (optional (optional inner))
  | optional inner | list inner | set inner => inner.nestedOptional?
  | map key value => key.nestedOptional?.or value.nestedOptional?
  | external _ fallback => fallback.nestedOptional?
  | _ => none

end TypeRef

end WireContract.Schema
