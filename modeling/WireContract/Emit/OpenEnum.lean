import WireContract.Emit.Scope

/-!
# Enumerations

An enumeration becomes an open set of variants: one for each declared value, and one that keeps the
text of any other.  Decoding takes the text in upper case.  `readArms` and `writeArms` are the two
matches that connect wire values and variants.
-/

namespace WireContract.Emit

open Rust Schema

/-- The declared values with their variants. -/
def wireVariants (e : Enum) : List (String × Ident) :=
  e.values.map fun v => (v.value, Ident.enumVariant v.value)

/-- The match from wire value to variant. -/
def readArms (scope : Scope) (e : Enum) : List Arm :=
  let unmatched := scope.lib ["enums", "UnknownValue", "from_unmatched"]
  (wireVariants e).map (fun (wire, v) => ⟨.literal wire, .path (selfItem v)⟩) ++
    [⟨.wild, .call (.path unknownItem) [.call (.path unmatched) [.var "value"]]⟩]

/-- The match from variant to wire value. -/
def writeArms (e : Enum) : List Arm :=
  (wireVariants e).map (fun (wire, v) => ⟨.path (selfItem v), .literal wire⟩) ++
    [⟨.make unknownItem [.bind ⟨"value"⟩], .method (.var "value") "as_str" []⟩]

/-- The variants of the emitted type. -/
def enumVariants (scope : Scope) (e : Enum) : List Variant :=
  e.values.map (fun v => ⟨docLines v.docs, Ident.enumVariant v.value, none⟩) ++
    [⟨notes ["A value unknown to this version of the schema, uppercased."],
      ⟨Ident.unknownVariant⟩, some (scope.libType ["enums", "UnknownValue"])⟩]

/-- The items of an enumeration. -/
def enumItems (scope : Scope) (e : Enum) : List Item :=
  let self := ownType e.name.name
  let text := Expr.method (.var "self") "as_str" []
  let wire (arg : Expr) := Expr.call (.path (selfItem ⟨"from_wire"⟩)) [arg]
  [ .enum (docLines e.docs ++ [deriveAttr (scope.contract.isOrderable e.name) false false])
      (Ident.ofName e.name.name) (enumVariants scope e),
    .impl [] none self
      [ getter ["Returns every known value, in declaration order."]
          (signature "values" none [] (some (.apply "Vec" [selfType])))
          (.ofExpr (.vec ((wireVariants e).map fun (_, v) => selfItem v))),
        getter ["Decodes a wire value; the input is uppercased first."]
          (signature "from_wire" none [("value", .ref strType)] (some selfType))
          ⟨[(⟨"value"⟩, .method (.var "value") "to_uppercase" [])],
            .choose (.method (.var "value") "as_str" []) (readArms scope e)⟩,
        getter ["Returns the canonical wire value."]
          (signature "as_str" (some .byRef) [] (some (.ref strType)))
          ⟨[], .choose (.var "self") (writeArms e)⟩,
        getter ["Returns true if the value is not one of the known values."]
          (signature "is_unknown" (some .byRef) [] (some (.ofWord "bool")))
          (.ofExpr (.test ⟨"self"⟩ (.make unknownItem [.wild]))) ],
    displayImpl self (.method (.var "f") "write_str" [text]),
    .impl [] (some (.ofPath (.std ["str", "FromStr"]))) self
      [ .type "Err" (.ofPath (.std ["convert", "Infallible"])),
        .function [] false
          (signature "from_str" none [("value", .ref strType)]
            (some (.apply "Result" [selfType, .ofPath (.ofWords ["Self", "Err"])])))
          (.ofExpr (.call (.var "Ok") [wire (.var "value")])) ],
    serializeImpl self (.ofExpr (.method (.var "serializer") "serialize_str" [text])),
    deserializeImpl self
      ⟨[(⟨"value"⟩, decodeWhole (.ofWord "String"))],
        .expr (.call (.var "Ok") [wire (.reference false (.var "value"))])⟩ ]

end WireContract.Emit
