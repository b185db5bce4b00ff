import WireContract.Rust.Ident
import WireContract.Schema.Registry

/-!
# Rules of a contract

`Declaration.check` looks at one declaration: the names in it, its list of members, and nested
optionals.  `Registry.check` looks at what needs the whole registry: every mentioned name is
declared and no error, set items and map keys have an order, map keys are texts on the wire, aliases
end, and no declaration has the name of a type that is generated for another.  Each reports the
first broken rule.
-/

namespace WireContract.Schema

open Text

/-- Type names that emitted code needs for itself. -/
def reservedTypeNames : List String :=
  ["Box", "Err", "None", "Ok", "Option", "Result", "Some", "String", "Vec"]

/-- Whether a text has a first character and all its characters are of some kind. -/
def isSpelled (first rest : Char → Bool) : List Char → Bool
  | [] => false
  | c :: cs => first c && (c :: cs).all rest

/-- A capital, then letters and digits. -/
def isTypeCase (s : String) : Bool :=
  isSpelled isAsciiUpper isAsciiAlphanumeric s.toList

/-- A small letter, then small letters, digits and underscores. -/
def isPackageSegment (s : String) : Bool :=
  isSpelled isAsciiLower (fun c => isAsciiLower c || isAsciiDigit c || c == '_') s.toList

/-- A letter, then letters, digits, underscores and hyphens. -/
def isMemberName (s : String) : Bool :=
  isSpelled isAsciiAlpha (fun c => isAsciiAlphanumeric c || c == '_' || c == '-') s.toList

/-- Whether two underscores stand side by side. -/
def hasDoubleUnderscore : List Char → Bool
  | '_' :: '_' :: _ => true
  | _ :: cs => hasDoubleUnderscore cs
  | [] => false

/-- A capital, then capitals and digits in words joined by single underscores. -/
def isConstantCase (s : String) : Bool :=
  isSpelled isAsciiUpper (fun c => isAsciiUpper c || isAsciiDigit c || c == '_') s.toList &&
    s.toList.getLast? != some '_' && !hasDoubleUnderscore s.toList

/-- Refuses with a violation unless the condition holds. -/
def require (condition : Bool) (v : Violation) : Except Violation Unit :=
  if condition then .ok () else .error v

/-- The place of a reference in messages. -/
def site (owner : QualifiedName) (member : String) : String :=
  if member == "" then owner.text else owner.text ++ "." ++ member

namespace QualifiedName

/-- The rules for names of declarations. -/
def check (q : QualifiedName) : Except Violation Unit := do
  require (q.module != "") (.emptyPackage q.name)
  q.segments.forM fun s =>
    require (isPackageSegment s && !Rust.isKeyword s) (.packageSegment s q)
  require (isTypeCase q.name) (.typeNameCase q)
  require (!reservedTypeNames.contains q.name) (.reservedTypeName q)

end QualifiedName

/-- Names of members are identifiers, and stay apart when respelled by `convert`; `seen` holds the
respelled names before, with what they were. -/
def checkMembers (owner : QualifiedName) (what : String) (convert : String → String)
    (seen : List (String × String)) : List String → Except Violation Unit
  | [] => .ok ()
  | name :: names => do
    require (isMemberName name) (.invalidMemberName what name owner)
    match seen.lookup (convert name) with
    | some previous =>
      if previous == name then .error (.duplicateMember what name owner)
      else .error (.sameIdentifier what previous name owner)
    | none => checkMembers owner what convert ((convert name, name) :: seen) names

namespace Declaration

/-- The rules for the members of a declaration. -/
def checkContent : Declaration → Except Violation Unit
  | .alias _ => .ok ()
  | .enum d => do
    require (!d.values.isEmpty) (.emptyEnum d.name)
    checkMembers d.name "enum value" variant [] (d.values.map (·.value))
    d.values.forM fun v => require (isConstantCase v.value) (.enumValueCase v.value d.name)
  | .object d => checkMembers d.name "field" Rust.fieldName [] (d.fields.map (·.name))
  | .union d => do
    require (!d.members.isEmpty) (.emptyUnion d.name)
    checkMembers d.name "member tag" pascal [] (d.members.map (·.tag))
    checkMembers d.name "member tag" snake [] (d.members.map (·.tag))
    require (!d.members.any (·.tag == tagKey)) (.tagIsDiscriminant d.name)
  | .error d => do
    require (isTypeCase d.namespaceName) (.namespaceCase d.namespaceName d.name)
    checkMembers d.name "parameter" Rust.fieldName [] (d.params.map (·.name))

/-- No optional stands directly inside another. -/
def checkOptionals (d : Declaration) : Except Violation Unit :=
  d.references.forM fun (member, r) =>
    match r.nestedOptional? with
    | some nested => .error (.nestedOptional (site d.name member) nested)
    | none => .ok ()

/-- The rules for one declaration. -/
def check (d : Declaration) : Except Violation Unit := do
  d.name.check
  d.checkContent
  d.checkOptionals

/-- The names of the types that are generated beside the declared one. -/
def companions : Declaration → List QualifiedName
  | .union d =>
    [⟨d.name.module, d.name.name ++ "Visitor"⟩, ⟨d.name.module, d.name.name ++ "VisitorWithOutput"⟩]
  | .error d => [⟨d.name.module, d.name.name ++ "Parameters"⟩]
  | _ => []

end Declaration

/-- The rules for the declarations of a document, each by itself. -/
def Document.check (doc : Document) : Except Violation Unit :=
  doc.declarations.forM Declaration.check

namespace Registry

/-- Set items and map keys have an order, and map keys are texts on the wire. -/
def checkKeys (reg : Registry) (orderable : List QualifiedName) (place : String) :
    TypeRef → Except Violation Unit
  | .set item => do
    require (item.isOrderable orderable) (.unorderedItem place item)
    reg.checkKeys orderable place item
  | .map key value => do
    require (key.isOrderable orderable) (.unorderedKey place key)
    require (reg.canBeKey key) (.keyNotText place key)
    reg.checkKeys orderable place key
    reg.checkKeys orderable place value
  | .optional inner | .list inner => reg.checkKeys orderable place inner
  | .external _ fallback => reg.checkKeys orderable place fallback
  | .primitive _ | .binary | .declared _ => .ok ()

/-- Whether a name is declared as an error. -/
def isError (reg : Registry) (name : QualifiedName) : Bool :=
  match reg.get? name with
  | some d => d.kind == .error
  | none => false

/-- The rules for one reference. -/
def checkReference (reg : Registry) (orderable : List QualifiedName) (place : String)
    (r : TypeRef) : Except SchemaError Unit := do
  match reg.resolve r with
  | .error name => .error (.unresolvedType name place)
  | .ok _ =>
    match r.mentions.find? reg.isError with
    | some target => .error (.violation (.errorAsType place target))
    | none => (reg.checkKeys orderable place r).mapError .violation

/-- The rules for one declaration within the registry. -/
def checkDeclaration (reg : Registry) (orderable : List QualifiedName) (d : Declaration) :
    Except SchemaError Unit := do
  d.references.forM fun (member, r) => reg.checkReference orderable (site d.name member) r
  match d with
  | .alias a =>
    let _ ← reg.aliasEnd a.name
    return ()
  | _ => return ()

/-- No declaration has the name of a type that is generated for another. -/
def checkCompanions (reg : Registry) (d : Declaration) : Except SchemaError Unit :=
  match d.companions.find? reg.contains with
  | some other => .error (.violation (.generatedName other d.name))
  | none => .ok ()

/-- The rules for a registry, given the declarations with ordered values. -/
def check (reg : Registry) (orderable : List QualifiedName) : Except SchemaError Unit := do
  reg.declarations.forM (reg.checkDeclaration orderable)
  reg.declarations.forM reg.checkCompanions

end Registry

end WireContract.Schema
