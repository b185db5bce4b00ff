import WireContract.Json.Fault
import WireContract.Schema.Declaration

/-!
# Why a document is refused

The causes are grouped as the readers of the messages see them: loading the text, the version, and
the rules of the contract.  `SchemaError.message` gives the wording of each.
-/

namespace WireContract.Schema

/-- A group of modules that depend on one another, and the references that close the circle. -/
structure ModuleCycle where
  modules : List String
  chain : List (QualifiedName × QualifiedName)
deriving DecidableEq, Repr

/-- The chain as text, one `from -> to` for each dependency. -/
def ModuleCycle.chainText (c : ModuleCycle) : List String :=
  c.chain.map fun (source, target) => source.text ++ " -> " ++ target.text

/-- The message for a cycle of modules. -/
def ModuleCycle.message (c : ModuleCycle) : String :=
  let via := if c.chain.isEmpty then "" else " via " ++ Text.join ", " c.chainText
  "cyclic dependency between modules [" ++ Text.join ", " c.modules ++ "]" ++ via

/-- The rules of a contract that a document can break, with what broke them.  A `site` is a
declaration or one of its members. -/
inductive Violation where
  | misshapen (cause : Json.Fault)
  | unknownPrimitive (word : String)
  | unknownSafety (word : String)
  | unknownCode (error : QualifiedName) (code : String)
  | emptyPackage (name : String)
  | packageSegment (segment : String) (name : QualifiedName)
  | typeNameCase (name : QualifiedName)
  | reservedTypeName (name : QualifiedName)
  | emptyEnum (name : QualifiedName)
  | enumValueCase (value : String) (owner : QualifiedName)
  | emptyUnion (name : QualifiedName)
  | tagIsDiscriminant (owner : QualifiedName)
  | namespaceCase (namespaceName : String) (owner : QualifiedName)
  | invalidMemberName (what name : String) (owner : QualifiedName)
  | duplicateMember (what name : String) (owner : QualifiedName)
  | sameIdentifier (what first second : String) (owner : QualifiedName)
  | nestedOptional (site : String) (reference : TypeRef)
  | errorAsType (site : String) (target : QualifiedName)
  | unorderedItem (site : String) (item : TypeRef)
  | unorderedKey (site : String) (key : TypeRef)
  | keyNotText (site : String) (key : TypeRef)
  | generatedName (other name : QualifiedName)
deriving Repr

/-- The key that holds the tag of a union on the wire. -/
def tagKey : String := "type"

/-- The message for a broken rule. -/
def Violation.message : Violation → String
  | .misshapen cause =>
    "invalid IR structure: " ++
      (match cause with
      | .mismatch m => m.message?.getD ""
      | _ => "")
  | .unknownPrimitive word => "unknown primitive type '" ++ word ++ "'"
  | .unknownSafety word => "unknown safety annotation '" ++ word ++ "'"
  | .unknownCode error code => "error '" ++ error.text ++ "' has unknown code '" ++ code ++ "'"
  | .emptyPackage name => "declaration '" ++ name ++ "' has an empty package"
  | .packageSegment segment name =>
    "package segment '" ++ segment ++ "' of '" ++ name.text ++
      "' must be a lowercase identifier and not a keyword"
  | .typeNameCase name => "type name '" ++ name.text ++ "' must be PascalCase"
  | .reservedTypeName name => "type name '" ++ name.text ++ "' is reserved"
  | .emptyEnum name => "enum '" ++ name.text ++ "' has no values"
  | .enumValueCase value owner =>
    "enum value '" ++ value ++ "' of '" ++ owner.text ++ "' must be UPPER_SNAKE_CASE"
  | .emptyUnion name => "union '" ++ name.text ++ "' has no members"
  | .tagIsDiscriminant owner =>
    "member tag '" ++ tagKey ++ "' of '" ++ owner.text ++
      "' collides with the union discriminant key"
  | .namespaceCase namespaceName owner =>
    "error namespace '" ++ namespaceName ++ "' of '" ++ owner.text ++ "' must be PascalCase"
  | .invalidMemberName what name owner =>
    what ++ " '" ++ name ++ "' of '" ++ owner.text ++ "' is not a valid identifier"
  | .duplicateMember what name owner =>
    "duplicate " ++ what ++ " '" ++ name ++ "' in '" ++ owner.text ++ "'"
  | .sameIdentifier what first second owner =>
    what ++ "s '" ++ first ++ "' and '" ++ second ++ "' of '" ++ owner.text ++
      "' map to the same identifier"
  | .nestedOptional site reference =>
    "'" ++ site ++ "' nests optional types (" ++ reference.text ++
      "), which the wire format cannot distinguish"
  | .errorAsType site target =>
    "'" ++ site ++ "' references error '" ++ target.text ++ "', errors cannot be used as types"
  | .unorderedItem site item =>
    "'" ++ site ++ "' uses set item type " ++ item.text ++ ", which has no total order"
  | .unorderedKey site key =>
    "'" ++ site ++ "' uses map key type " ++ key.text ++ ", which has no total order"
  | .keyNotText site key =>
    "'" ++ site ++ "' uses map key type " ++ key.text ++
      ", which does not encode as a JSON object key"
  | .generatedName other name =>
    "'" ++ other.text ++ "' collides with a type generated for '" ++ name.text ++ "'"

/-- Why a document is refused. -/
inductive SchemaError where
  | json (fault : Json.Fault)
  | unreadable (path : String)
  | unsupportedExtension (path : String)
  | unsupportedVersion (found : Option Nat)
  | duplicateDeclaration (name : QualifiedName)
  | unresolvedType (name : QualifiedName) (site : String)
  | aliasCycle (path : List QualifiedName)
  | moduleCycle (cycle : ModuleCycle)
  | violation (v : Violation)
deriving Repr

/-- The message for a name that is not declared. -/
def unresolvedMessage (name : QualifiedName) : String :=
  "unresolved type reference '" ++ name.text ++ "'"

/-- The message, where its wording is fixed. -/
def SchemaError.message? : SchemaError → Option String
  | .json _ | .unreadable _ => none
  | .unsupportedExtension path =>
    some ("load error: unsupported IR file extension for '" ++ path ++ "', expected '.json'")
  | .unsupportedVersion found =>
    let shown :=
      match found with
      | none => "None"
      | some n => "Some(" ++ toString n ++ ")"
    some ("unsupported IR version " ++ shown ++ ", supported versions: [1]")
  | .duplicateDeclaration name => some ("duplicate declaration of '" ++ name.text ++ "'")
  | .unresolvedType name site =>
    some ("unresolved type '" ++ name.text ++ "' referenced from '" ++ site ++ "'")
  | .aliasCycle path =>
    some ("alias cycle detected: " ++ Text.join " -> " (path.map (·.text)))
  | .moduleCycle cycle => some cycle.message
  | .violation v => some ("validation error: " ++ v.message)

end WireContract.Schema
