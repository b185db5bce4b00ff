import WireContract.Schema.TypeRef
import WireContract.Wire.ErrorCode

/-!
# Declarations

A contract declares aliases, open enumerations, objects, tagged unions and errors.  A `Document` is
a version and a list of declarations in the order of writing.
-/

namespace WireContract.Schema

open Wire (ErrorCode)

/-- Whether a value may be logged in clear text. -/
inductive Safety where
  | safe
  | sensitive
deriving DecidableEq, Repr, Inhabited

/-- A field of an object; its name is also its wire name. -/
structure Field where
  name : String
  type : TypeRef
  docs : Option String
  safety : Option Safety
deriving DecidableEq, Repr, Inhabited

/-- A member of a union. -/
structure Member where
  tag : String
  type : TypeRef
  docs : Option String
deriving DecidableEq, Repr, Inhabited

/-- A parameter of an error. -/
structure Param where
  name : String
  type : TypeRef
  safety : Safety
  docs : Option String
deriving DecidableEq, Repr, Inhabited

/-- A known value of an enumeration. -/
structure EnumValue where
  value : String
  docs : Option String
deriving DecidableEq, Repr, Inhabited

/-- A named wrapper around another type. -/
structure Alias where
  name : QualifiedName
  target : TypeRef
  docs : Option String
deriving DecidableEq, Repr, Inhabited

/-- An enumeration that keeps values it does not know. -/
structure Enum where
  name : QualifiedName
  values : List EnumValue
  docs : Option String
deriving DecidableEq, Repr, Inhabited

/-- A record. -/
structure Object where
  name : QualifiedName
  fields : List Field
  docs : Option String
deriving DecidableEq, Repr, Inhabited

/-- A tagged union. -/
structure Union where
  name : QualifiedName
  members : List Member
  docs : Option String
deriving DecidableEq, Repr, Inhabited

/-- A declared error. -/
structure ErrorDecl where
  name : QualifiedName
  namespaceName : String
  code : ErrorCode
  params : List Param
  docs : Option String
deriving DecidableEq, Repr, Inhabited

namespace ErrorDecl

/-- The wire name, `Namespace:Name`. -/
def fullName (e : ErrorDecl) : String :=
  e.namespaceName ++ ":" ++ e.name.name

/-- The names of the parameters with the given safety, in order. -/
def argsWith (safety : Safety) (e : ErrorDecl) : List String :=
  (e.params.filter (·.safety == safety)).map (·.name)

end ErrorDecl

/-- A declaration of a contract. -/
inductive Declaration where
  | alias (d : Alias)
  | enum (d : Enum)
  | object (d : Object)
  | union (d : Union)
  | error (d : ErrorDecl)
deriving DecidableEq, Repr, Inhabited

/-- The kind of a declaration. -/
inductive Kind where
  | alias
  | enum
  | object
  | union
  | error
deriving DecidableEq, Repr, Inhabited

/-- The word for the kind. -/
def Kind.word : Kind → String
  | .alias => "alias"
  | .enum => "enum"
  | .object => "object"
  | .union => "union"
  | .error => "error"

namespace Declaration

/-- The qualified name. -/
def name : Declaration → QualifiedName
  | .alias d => d.name
  | .enum d => d.name
  | .object d => d.name
  | .union d => d.name
  | .error d => d.name

/-- The documentation. -/
def docs : Declaration → Option String
  | .alias d => d.docs
  | .enum d => d.docs
  | .object d => d.docs
  | .union d => d.docs
  | .error d => d.docs

/-- The kind. -/
def kind : Declaration → Kind
  | .alias _ => .alias
  | .enum _ => .enum
  | .object _ => .object
  | .union _ => .union
  | .error _ => .error

/-- The references of the declaration with the member each belongs to; the member of an alias
target is empty. -/
def references : Declaration → List (String × TypeRef)
  | .alias d => [("", d.target)]
  | .enum _ => []
  | .object d => d.fields.map fun f => (f.name, f.type)
  | .union d => d.members.map fun m => (m.tag, m.type)
  | .error d => d.params.map fun p => (p.name, p.type)

/-- Every declared type that the declaration mentions, in order of mention. -/
def mentions (d : Declaration) : List QualifiedName :=
  d.references.flatMap fun (_, r) => r.mentions

end Declaration

/-- A contract document: its version and its declarations. -/
structure Document where
  version : Nat
  declarations : List Declaration
deriving DecidableEq, Repr, Inhabited

end WireContract.Schema
