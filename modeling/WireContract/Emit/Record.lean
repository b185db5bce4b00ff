import WireContract.Emit.Scope

/-!
# Objects

An object becomes a record with public fields.  Each field is pinned to its wire name, and its
attribute says what a missing value means.
-/

namespace WireContract.Emit

open Rust Schema

/-- The attribute that says how a field is encoded. -/
def fieldAttr (scope : Scope) (key : String) (r : TypeRef) : Attr :=
  let rename := AttrArg.keyed "rename" key
  let default := AttrArg.path (.ofWords ["default"])
  .ofArgs "serde"
    (match scope.contract.registry.fieldRule r with
     | .required => [rename]
     | .emptyDefault =>
       [rename, default,
        .keyed "deserialize_with" (scope.lib ["collections", "null_as_default"]).text]
     | .omitted => [rename, default, .keyed "skip_serializing_if" "Option::is_none"])

/-- A public field. -/
def fieldOf (scope : Scope) (key : String) (r : TypeRef) (docs : Option String)
    (boxed : Bool) : RecordField :=
  ⟨docLines docs ++ [fieldAttr scope key r], true, Ident.field key,
    scope.stored r boxed⟩

/-- The fields of an object. -/
def objectFields (scope : Scope) (o : Object) : List RecordField :=
  o.fields.map fun f =>
    fieldOf scope f.name f.type f.docs (scope.contract.isBoxed o.name f.name)

/-- The item of an object. -/
def objectItems (scope : Scope) (o : Object) : List Item :=
  [.struct (docLines o.docs ++ [deriveAttr (scope.contract.isOrderable o.name) false true]) true
    (Ident.ofName o.name.name) (.named (objectFields scope o))]

end WireContract.Emit
