import WireContract.Emit.Record

/-!
# Errors

An error becomes a record of its parameters and a holder that carries the record, if there is one,
with an instance identifier.  The holder is encoded as the common error envelope.  The names of
safe and of sensitive parameters are listed apart, for logging only.
-/

namespace WireContract.Emit

open Rust Schema

/-- The suffix of the parameter record. -/
def parametersSuffix : String := "Parameters"

/-- The number of arguments above which a constructor says that it has many. -/
def manyArguments : Nat := 7

/-- The fields of the parameter record. -/
def paramFields (scope : Scope) (e : ErrorDecl) : List RecordField :=
  e.params.map fun p => fieldOf scope p.name p.type p.docs false

/-- The parameter record. -/
def parametersItem (scope : Scope) (e : ErrorDecl) : Item :=
  let orderable := e.params.all fun p => p.type.isOrderable scope.contract.orderable
  .struct (notes ["Parameters of `" ++ e.fullName ++ "`, safe ones first."] ++
      [deriveAttr orderable false true]) true
    (Ident.companion e.name.name parametersSuffix) (.named (paramFields scope e))

/-- The type of instance identifiers. -/
def instanceType (scope : Scope) : Ty := scope.libType ["uuid", "Uuid"]

/-- The type of JSON objects. -/
def objectType : Ty :=
  .named (.ofWords ["serde_json", "Map"]) []
    [.ofWord "String", .ofPath (.ofWords ["serde_json", "Value"])]

/-- The type of lists of parameter names. -/
def namesType : Ty := .refStatic (.slice (.refStatic strType))

/-- The constants of a holder. -/
def holderConstants (scope : Scope) (e : ErrorDecl) : List ImplMember :=
  let names (s : Safety) : Expr := .reference false (.literals (e.argsWith s))
  [ .const (notes ["Error category."]) "CODE" (scope.libType ["ErrorCode"])
      (.path ((scope.lib ["ErrorCode"]).push (Ident.ofName e.code.variantName))),
    .const (notes ["Namespaced error name."]) "NAME" (.refStatic strType) (.literal e.fullName),
    .const (notes ["Parameters that may be logged in cleartext."]) "SAFE_ARGS" namesType
      (names .safe),
    .const (notes ["Parameters that must not be logged in cleartext."]) "UNSAFE_ARGS" namesType
      (names .sensitive) ]

/-- The constructors and accessors of a holder. -/
def holderFunctions (scope : Scope) (e : ErrorDecl) : List ImplMember :=
  let parameters := Path.ofIdent (Ident.companion e.name.name parametersSuffix)
  let args := e.params.map fun p => Ident.field p.name
  let argTypes := e.params.map fun p => (Ident.field p.name, scope.stored p.type false)
  let many :=
    if e.params.length > manyArguments then
      [Attr.ofArgs "allow" [.path (.ofWords ["clippy", "too_many_arguments"])]]
    else []
  let select (names : String) : Body :=
    .ofExpr (.method (.var "self") "select" [.path (selfItem ⟨names⟩)])
  let isNamed : Expr :=
    .method (.var "names") "contains" [.reference false (.method (.var "key") "as_str" [])]
  let selected : Expr :=
    .method
      (.method
        (.method (.call (.path (scope.lib ["ErrorType", "parameters"])) [.var "self"])
          "into_iter" [])
        "filter" [.closure (.tuple [.bind ⟨"key"⟩, .wild]) isNamed])
      "collect" []
  [ .function
      (notes ["Creates the error with a fresh instance identifier."] ++ many ++ [Attr.mustUse]) true
      ⟨⟨"new"⟩, none, none, argTypes, some selfType⟩
      (.ofExpr (.call (.path (selfItem ⟨"from_parameters"⟩)) [.record parameters args false])),
    getter ["Creates the error from its parameter record with a fresh", "instance identifier."]
      (signature "from_parameters" none [("parameters", .ofPath parameters)] (some selfType))
      ⟨[], .make (.ofWords ["Self"])
        [ (⟨"error_instance_id"⟩, .call (.path (scope.lib ["uuid", "Uuid", "new_v4"])) []),
          (⟨"parameters"⟩, .call (.var "Some") [.var "parameters"]) ]⟩,
    getter ["Returns the instance identifier."]
      (signature "error_instance_id" (some .byRef) [] (some (instanceType scope)))
      (.ofExpr (.field (.var "self") "error_instance_id")),
    getter ["Returns the typed parameters, if they were present and well formed."]
      (signature "params" (some .byRef) [] (some (.apply "Option" [.ref (.ofPath parameters)])))
      (.ofExpr (.method (.field (.var "self") "parameters") "as_ref" [])),
    getter ["Returns the parameters that may be logged in cleartext."]
      (signature "safe_params" (some .byRef) [] (some objectType)) (select "SAFE_ARGS"),
    getter ["Returns the parameters that must not be logged in cleartext."]
      (signature "unsafe_params" (some .byRef) [] (some objectType)) (select "UNSAFE_ARGS"),
    .function [] false
      (signature "select" (some .byRef) [("names", .ref (.slice (.ref strType)))]
        (some objectType))
      (.ofExpr selected) ]

/-- The common interface of errors, implemented for a holder. -/
def holderInterface (scope : Scope) (self : Ty) : Item :=
  let constant (name : String) : Body := .ofExpr (.path (selfItem ⟨name⟩))
  let getterOf (name : String) (result : Ty) (b : Body) : ImplMember :=
    .function [] false (signature name (some .byRef) [] (some result)) b
  let value : Expr :=
    .method (.method (.field (.var "self") "parameters") "as_ref" []) "map"
      [.path (.ofWords ["serde_json", "to_value"])]
  let object : Pat :=
    .make (.ofWords ["Some"]) [.make (.ofWords ["Ok"])
      [.make (.ofWords ["serde_json", "Value", "Object"]) [.bind ⟨"map"⟩]]]
  .impl [] (some (scope.libType ["ErrorType"])) self
    [ getterOf "code" (scope.libType ["ErrorCode"]) (constant "CODE"),
      getterOf "name" (.ref strType) (constant "NAME"),
      getterOf "instance_id" (instanceType scope)
        (.ofExpr (.field (.var "self") "error_instance_id")),
      getterOf "safe_args" namesType (constant "SAFE_ARGS"),
      getterOf "parameters" objectType
        ⟨[], .choose value
          [ ⟨object, .var "map"⟩,
            ⟨.wild, .call (.path (.ofWords ["serde_json", "Map", "new"])) []⟩ ]⟩ ]

/-- The encoding and decoding of a holder through the envelope. -/
def holderCodec (scope : Scope) (self : Ty) : List Item :=
  let envelope := scope.lib ["SerializableError"]
  [ serializeImpl self
      (.ofExpr (.call (.path (.ofWords ["serde", "Serialize", "serialize"]))
        [ .reference false (.call (.path (envelope.join ["from_error"])) [.var "self"]),
          .var "serializer" ])),
    deserializeImpl self
      ⟨[ (⟨"envelope"⟩, decodeWhole (.ofPath envelope)),
         (⟨"error_instance_id"⟩, .method (.var "envelope") "error_instance_id" []),
         (⟨"parameters"⟩,
           .method (.call (.path (.ofWords ["serde_json", "from_value"]))
             [.method (.var "envelope") "into_parameters" []]) "ok" []) ],
        .expr (.call (.var "Ok")
          [.record (.ofWords ["Self"]) [⟨"error_instance_id"⟩, ⟨"parameters"⟩] true])⟩ ]

/-- What servers need of a holder: its status and its envelope. -/
def serverItems (scope : Scope) (self : Ty) : List Item :=
  [ .impl [] none self
      [ getter ["Returns the HTTP status code of the error category."]
          (signature "status_code" (some .byRef) [] (some (.ofWord "u16")))
          (.ofExpr (.method (.path (selfItem ⟨"CODE"⟩)) "status_code" [])) ],
    .impl [] (some (.named (.std ["convert", "From"]) [] [self]))
      (scope.libType ["SerializableError"])
      [ .function [] false (signature "from" none [("error", self)] (some selfType))
          (.ofExpr (.call (.path (selfItem ⟨"from_error"⟩))
            [.reference false (.var "error")])) ] ]

/-- The items of an error; `server` adds what servers need. -/
def errorItems (scope : Scope) (server : Bool) (e : ErrorDecl) : List Item :=
  let self := ownType e.name.name
  let parameters := Ty.ofPath (.ofIdent (Ident.companion e.name.name parametersSuffix))
  [ parametersItem scope e,
    .struct (docLines e.docs ++ [deriveAttr false false false]) true (Ident.ofName e.name.name)
      (.named
        [ ⟨[], false, ⟨"error_instance_id"⟩, instanceType scope⟩,
          ⟨[], false, ⟨"parameters"⟩, .apply "Option" [parameters]⟩ ]),
    .impl [] none self (holderConstants scope e ++ holderFunctions scope e),
    holderInterface scope self,
    displayImpl self
      (.call (.path (scope.lib ["errors", "fmt_error"])) [.var "self", .var "f"]),
    .impl [] (some (.ofPath (.std ["error", "Error"]))) self [] ] ++
    holderCodec scope self ++
    if server then serverItems scope self else []

end WireContract.Emit
