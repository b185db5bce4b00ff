import WireContract.Emit.Attributes
import WireContract.Emit.Slot
import WireContract.Schema.Contract
import WireContract.Schema.FieldRule

/-!
# The scope of a generated file

What emission has to know about the file it writes: the contract, the path of the runtime library
that generated code uses, and the imports of the file.
-/

namespace WireContract.Emit

open Rust Schema

/-- The scope of a generated file. -/
structure Scope where
  contract : Contract
  runtime : Path
  imports : Imports

namespace Scope

/-- An item of the runtime library. -/
def lib (scope : Scope) (words : List String) : Path := scope.runtime.join words

/-- A type of the runtime library. -/
def libType (scope : Scope) (words : List String) : Ty := .ofPath (scope.lib words)

/-- The type of a slot of a declaration. -/
def stored (scope : Scope) (r : TypeRef) (boxed : Bool) : Ty :=
  (r.stored boxed).type scope.imports scope.runtime

/-- The type of a slot as a visitor is given it. -/
def viewed (scope : Scope) (r : TypeRef) (boxed : Bool) : Ty :=
  (r.viewed boxed).type scope.imports scope.runtime

end Scope

/-! ## Names and forms that generated code repeats -/

/-- The type being implemented. -/
def selfType : Ty := .ofWord "Self"

/-- An item of the type being implemented. -/
def selfItem (name : Ident) : Path := ⟨false, [⟨"Self"⟩, name], []⟩

/-- The variant for values that the contract does not know. -/
def unknownItem : Path := selfItem ⟨Ident.unknownVariant⟩

/-- The type of a declared name, inside the file that declares it. -/
def ownType (name : String) : Ty := .ofPath (.ofIdent (Ident.ofName name))

/-- The type of string slices. -/
def strType : Ty := .ofWord "str"

/-- A function without type parameters. -/
def signature (name : String) (receiver : Option Receiver) (args : List (String × Ty))
    (result : Option Ty) : Signature :=
  ⟨⟨name⟩, none, receiver, args.map fun (n, t) => (⟨n⟩, t), result⟩

/-- A public function that is documented and whose result has to be used. -/
def getter (docs : List String) (s : Signature) (b : Body) : ImplMember :=
  .function (notes docs ++ [Attr.mustUse]) true s b

/-- The implementation of encoding for a type. -/
def serializeImpl (self : Ty) (body : Body) : Item :=
  let result : Ty :=
    .apply "Result" [.ofPath (.ofWords ["S", "Ok"]), .ofPath (.ofWords ["S", "Error"])]
  let bound : Ty := .ofPath (.ofWords ["serde", "Serializer"])
  .impl [] (some (.ofPath (.ofWords ["serde", "Serialize"]))) self
    [.function [] false
      ⟨⟨"serialize"⟩, some ⟨"S", bound, true⟩, some .byRef, [(⟨"serializer"⟩, .ofWord "S")],
        some result⟩ body]

/-- The implementation of decoding for a type. -/
def deserializeImpl (self : Ty) (body : Body) : Item :=
  let result : Ty := .apply "Result" [selfType, .ofPath (.ofWords ["D", "Error"])]
  let bound : Ty := .named (.ofWords ["serde", "Deserializer"]) ["de"] []
  .impl ["de"] (some (.named (.ofWords ["serde", "Deserialize"]) ["de"] [])) self
    [.function [] false
      ⟨⟨"deserialize"⟩, some ⟨"D", bound, true⟩, none, [(⟨"deserializer"⟩, .ofWord "D")],
        some result⟩ body]

/-- Decodes a type from the decoder of the function being written. -/
def decodeWhole (t : Ty) : Expr :=
  .orReturn (.call (.qualified t (.ofWords ["serde", "Deserialize"]) ⟨"deserialize"⟩)
    [.var "deserializer"])

/-- The implementation of display for a type, by an expression that writes to `f`. -/
def displayImpl (self : Ty) (value : Expr) : Item :=
  .impl [] (some (.ofPath (.std ["fmt", "Display"]))) self
    [.function [] false
      (signature "fmt" (some .byRef)
        [("f", .refMut (.named (.std ["fmt", "Formatter"]) ["_"] []))]
        (some (.ofPath (.std ["fmt", "Result"]))))
      (.ofExpr value)]

end WireContract.Emit
