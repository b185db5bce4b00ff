import WireContract.Emit.Scope

/-!
# Unions

A union becomes an enumeration with a variant for each member and one that keeps a member it does
not know.  Two visitors go with it: one whose methods return nothing, and one, in a file of its own,
whose methods return a value.  The five matches of a union (`tagArms`, `visitArms` for both
visitors, `encodeArms` and `decodeArms`) all run over `memberCases`.
-/

namespace WireContract.Emit

open Rust Schema

/-- The suffix of the visitor that returns nothing. -/
def visitorSuffix : String := "Visitor"

/-- The suffix of the visitor that returns values. -/
def outputVisitorSuffix : String := "VisitorWithOutput"

/-- A member as the matches see it. -/
structure MemberCase where
  tag : String
  variant : Ident
  method : Ident
deriving DecidableEq, Repr

/-- The members of a union, in order. -/
def memberCases (u : Union) : List MemberCase :=
  u.members.map fun m => ⟨m.tag, Ident.memberVariant m.tag, Ident.visitMethod m.tag⟩

/-- The pattern of a member, with a name for its value. -/
def memberPat (c : MemberCase) (value : Pat) : Pat := .make (selfItem c.variant) [value]

/-- The pattern of a member that the union does not know. -/
def unknownPat : Pat := .make unknownItem [.bind ⟨"unknown"⟩]

/-- The tag of a member that the union does not know. -/
def unknownTag : Expr := .method (.var "unknown") "tag" []

/-- The match from variant to tag. -/
def tagArms (u : Union) : List Arm :=
  (memberCases u).map (fun c => ⟨memberPat c .wild, .literal c.tag⟩) ++ [⟨unknownPat, unknownTag⟩]

/-- The match from variant to visitor method. -/
def visitArms (u : Union) : List Arm :=
  (memberCases u).map (fun c =>
    ⟨memberPat c (.bind ⟨"value"⟩), .method (.var "visitor") c.method.text [.var "value"]⟩) ++
    [⟨unknownPat, .method (.var "visitor") Ident.unknownVisitor [unknownTag]⟩]

/-- The match that encodes each variant under its tag. -/
def encodeArms (scope : Scope) (u : Union) : List Arm :=
  (memberCases u).map (fun c =>
    ⟨memberPat c (.bind ⟨"value"⟩),
      .call (.path (scope.lib ["union", "serialize_member"]))
        [.var "serializer", .literal c.tag, .var "value"]⟩) ++
    [⟨unknownPat, .call (.path (.ofWords ["serde", "Serialize", "serialize"]))
      [.var "unknown", .var "serializer"]⟩]

/-- The match that decodes the variant of each tag. -/
def decodeArms (scope : Scope) (u : Union) : List Arm :=
  let decode := Expr.call (.path (scope.lib ["union", "decode_member"]))
    [.method (.var "member") "into_value" []]
  let unmatched := scope.lib ["union", "UnknownMember", "from_unmatched"]
  (memberCases u).map (fun c =>
    ⟨.literal c.tag, .method decode "map" [.path (selfItem c.variant)]⟩) ++
    [⟨.wild, .call (.var "Ok")
      [.call (.path unknownItem) [.call (.path unmatched) [.var "member"]]]⟩]

/-- The variants of the emitted type. -/
def unionVariants (scope : Scope) (u : Union) : List Variant :=
  u.members.map (fun m =>
    ⟨docLines m.docs, Ident.memberVariant m.tag,
      some (scope.stored m.type (scope.contract.isBoxed u.name m.tag))⟩) ++
    [⟨notes ["A member unknown to this version of the schema."], ⟨Ident.unknownVariant⟩,
      some (scope.libType ["union", "UnknownMember"])⟩]

/-- The methods of a visitor that return the given type. -/
def visitMethods (scope : Scope) (u : Union) (result : Option Ty) : List TraitMember :=
  u.members.map (fun m =>
    .function (notes ["Visits the member."])
      (signature (Ident.visitMethod m.tag).text (some .byRefMut)
        [("value", .ref (scope.viewed m.type (scope.contract.isBoxed u.name m.tag)))] result)) ++
    [.function (notes ["Receives the raw tag of a member unknown to this schema version."])
      (signature Ident.unknownVisitor (some .byRefMut) [("tag", .ref strType)] result)]

/-- The items of a union in the file of unions. -/
def unionItems (scope : Scope) (u : Union) : List Item :=
  let self := ownType u.name.name
  let visitor := Ident.companion u.name.name visitorSuffix
  let visitorType := Ty.ofPath (.ofIdent visitor)
  [ .enum (docLines u.docs ++ [deriveAttr false false false]) (Ident.ofName u.name.name)
      (unionVariants scope u),
    .impl [] none self
      [ getter ["Returns the discriminant tag."]
          (signature "tag" (some .byRef) [] (some (.ref strType)))
          ⟨[], .choose (.var "self") (tagArms u)⟩,
        getter ["Returns true if the member is not one of the known members."]
          (signature "is_unknown" (some .byRef) [] (some (.ofWord "bool")))
          (.ofExpr (.test ⟨"self"⟩ (.make unknownItem [.wild]))),
        .function (notes ["Dispatches to the visitor method of the populated member."]) true
          (signature "accept" (some .byRef) [("visitor", .refMut (.dyn visitorType))] none)
          ⟨[], .choose (.var "self") (visitArms u)⟩ ],
    .trait (notes ["Dynamic visitor over [`" ++ u.name.name ++ "`]."]) visitor
      (visitMethods scope u none),
    serializeImpl self ⟨[], .choose (.var "self") (encodeArms scope u)⟩,
    deserializeImpl self
      ⟨[(⟨"member"⟩, decodeWhole (scope.libType ["union", "TaggedMember"]))],
        .choose (.method (.var "member") "tag" []) (decodeArms scope u)⟩ ]

/-- The items of a union in the file of visitors that return values. -/
def visitorItems (scope : Scope) (u : Union) : List Item :=
  let visitor := Ident.companion u.name.name outputVisitorSuffix
  let visitorType := Ty.ofPath (.ofIdent visitor)
  let output := Ty.ofPath (.ofWords ["Self", "Output"])
  [ .trait
      (notes ["Visitor over `" ++ u.name.name ++ "` returning a value from every method."]) visitor
      (.type (notes ["Value produced by the visit."]) "Output" ::
        visitMethods scope u (some output)),
    .impl [] none (.ofPath (scope.imports.pathTo u.name))
      [ .function
          (notes ["Dispatches to the visitor method of the populated member and",
            "returns its output."]) true
          ⟨⟨"accept_with"⟩, some ⟨"V", visitorType, false⟩, some .byRef,
            [(⟨"visitor"⟩, .refMut (.ofWord "V"))], some (.ofPath (.ofWords ["V", "Output"]))⟩
          ⟨[], .choose (.var "self") (visitArms u)⟩ ] ]

end WireContract.Emit
