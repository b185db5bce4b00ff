import WireContract.Json.Reader
import WireContract.Schema.Error

/-!
# The outline of a document

Reading a document has two steps.  The first, here, checks its structure: which keys and
alternatives stand where.  Its result, an outline, keeps the words for primitives, safety and error
codes as they are written.  The second step gives those words their meaning.  A fault of structure
anywhere in the document thus comes before a wrong word.
-/

namespace WireContract.Schema.Outline

open Json

/-- A type as it is written. -/
inductive TypeExpr where
  | primitive (word : String)
  | optional (item : TypeExpr)
  | list (item : TypeExpr)
  | set (item : TypeExpr)
  | map (key value : TypeExpr)
  | reference (name : QualifiedName)
  | external (name : QualifiedName) (fallback : TypeExpr)
deriving Repr, Inhabited

/-- A field, member or argument as it is written. -/
structure Field where
  name : String := ""
  type : TypeExpr := .primitive ""
  docs : Option String := none
  safety : Option String := none
deriving Repr, Inhabited

/-- An alias as it is written. -/
structure Alias where
  name : QualifiedName := ⟨"", ""⟩
  target : TypeExpr := .primitive ""
  docs : Option String := none
deriving Repr, Inhabited

/-- An enumeration as it is written. -/
structure Enum where
  name : QualifiedName := ⟨"", ""⟩
  values : List EnumValue := []
  docs : Option String := none
deriving Repr, Inhabited

/-- An object or union as it is written. -/
structure Fields where
  name : QualifiedName := ⟨"", ""⟩
  fields : List Field := []
  docs : Option String := none
deriving Repr, Inhabited

/-- An error as it is written. -/
structure ErrorDecl where
  name : QualifiedName := ⟨"", ""⟩
  namespaceName : String := ""
  code : String := ""
  safeArgs : List Field := []
  sensitiveArgs : List Field := []
  docs : Option String := none
deriving Repr, Inhabited

/-- A declaration of a type as it is written. -/
inductive TypeDecl where
  | alias (d : Alias)
  | enum (d : Enum)
  | object (d : Fields)
  | union (d : Fields)
deriving Repr, Inhabited

/-- A document as it is written; services and extensions are only checked for their form. -/
structure Document where
  types : List TypeDecl := []
  errors : List ErrorDecl := []
deriving Repr, Inhabited

/-! ## Names, texts and types -/

/-- The text of a required or optional field. -/
def text : Draft → Except Fault String :=
  readString "a string"

/-- The documentation field shared by all declarations. -/
def docsField {ρ : Type} (set : Option String → ρ → ρ) : RecordField ρ :=
  .setting "docs" .defaulted (fun _ => readOption text) set

/-- The fields of a qualified name. -/
def nameRules : List (RecordField QualifiedName) := [
  .setting "name" .required (fun _ => text) fun name q => { q with name },
  .setting "package" .required (fun _ => text) fun package q => { q with module := package }]

/-- A qualified name: an object with `name` and `package`. -/
def readName (r : Reader) : Draft → Except Fault QualifiedName :=
  readRecord r "struct RawTypeName" nameRules ⟨"", ""⟩

/-- A record with one field, which is its whole content. -/
def readOnly {α : Type} [Inhabited α] (label key : String)
    (read : Reader → Draft → Except Fault α) (r : Reader) : Draft → Except Fault α :=
  readRecord r label [.setting key .required read fun content _ => content] default

/-- An alternative of a type that holds one item type. -/
def itemVariant (variantName key : String) (wrap : TypeExpr → TypeExpr)
    (readItem : Reader → Draft → Except Fault TypeExpr) :
    String × (Reader → Draft → Except Fault TypeExpr) :=
  (key, fun r d => wrap <$>
    readOnly ("struct variant RawType::" ++ variantName) key
      (readOnly "struct RawItem" "itemType" readItem) r d)

/-- The fields of a map: the types of its keys and values. -/
def mapRules (readItem : Reader → Draft → Except Fault TypeExpr) :
    List (RecordField (TypeExpr × TypeExpr)) := [
  .setting "keyType" .required readItem fun key p => (key, p.2),
  .setting "valueType" .required readItem fun value p => (p.1, value)]

/-- The types of keys and values of a map. -/
def readMap (readItem : Reader → Draft → Except Fault TypeExpr) (r : Reader) :
    Draft → Except Fault (TypeExpr × TypeExpr) :=
  readRecord r "struct RawMap" (mapRules readItem) (.primitive "", .primitive "")

/-- The fields of an external type. -/
def externalRules (readItem : Reader → Draft → Except Fault TypeExpr) :
    List (RecordField (QualifiedName × TypeExpr)) := [
  .setting "externalReference" .required readName fun name p => (name, p.2),
  .setting "fallback" .required readItem fun fallback p => (p.1, fallback)]

/-- The name of an external type and the type that represents it. -/
def readExternal (readItem : Reader → Draft → Except Fault TypeExpr) (r : Reader) :
    Draft → Except Fault (QualifiedName × TypeExpr) :=
  readRecord r "struct RawExternal" (externalRules readItem) (⟨"", ""⟩, .primitive "")

/-- A type, nested at most `fuel` deep. -/
def readTypeWithin (fuel : Nat) (r : Reader) (d : Draft) : Except Fault TypeExpr :=
  match fuel with
  | 0 => .error .malformed
  | fuel + 1 =>
    let inner := readTypeWithin fuel
    readTagged r "RawType" "type" [
      ("primitive", fun r d => .primitive <$>
        readOnly "struct variant RawType::Primitive" "primitive" (fun _ => text) r d),
      itemVariant "Optional" "optional" .optional inner,
      itemVariant "List" "list" .list inner,
      itemVariant "Set" "set" .set inner,
      ("map", fun r d => (fun p => .map p.1 p.2) <$>
        readOnly "struct variant RawType::Map" "map" (readMap inner) r d),
      ("reference", fun r d => .reference <$>
        readOnly "struct variant RawType::Reference" "reference" readName r d),
      ("external", fun r d => (fun p => .external p.1 p.2) <$>
        readOnly "struct variant RawType::External" "external" (readExternal inner) r d)] d

/-! ## Declarations -/

/-- The fields of a field, member or argument. -/
def fieldRules (fuel : Nat) : List (RecordField Field) := [
  .setting "fieldName" .required (fun _ => text) fun name f => { f with name },
  .setting "type" .required (readTypeWithin fuel) fun type f => { f with type },
  docsField fun docs f => { f with docs },
  .setting "safety" .defaulted (fun _ => readOption text) fun safety f => { f with safety }]

/-- A field, member or argument. -/
def readField (fuel : Nat) (r : Reader) : Draft → Except Fault Field :=
  readRecord r "struct RawField" (fieldRules fuel) {}

/-- The fields of an alias. -/
def aliasRules (fuel : Nat) : List (RecordField Alias) := [
  .setting "typeName" .required readName fun name a => { a with name },
  .setting "alias" .required (readTypeWithin fuel) fun target a => { a with target },
  docsField fun docs a => { a with docs }]

/-- An alias. -/
def readAlias (fuel : Nat) (r : Reader) : Draft → Except Fault Alias :=
  readRecord r "struct RawAlias" (aliasRules fuel) {}

/-- The fields of a value of an enumeration. -/
def enumValueRules : List (RecordField EnumValue) := [
  .setting "value" .required (fun _ => text) fun value v => { v with value },
  docsField fun docs v => { v with docs }]

/-- A value of an enumeration. -/
def readEnumValue (r : Reader) : Draft → Except Fault EnumValue :=
  readRecord r "struct RawEnumValue" enumValueRules ⟨"", none⟩

/-- The fields of an enumeration. -/
def enumRules : List (RecordField Enum) := [
  .setting "typeName" .required readName fun name e => { e with name },
  .setting "values" .defaulted (fun r => readList r readEnumValue)
    fun values e => { e with values },
  docsField fun docs e => { e with docs }]

/-- An enumeration. -/
def readEnum (r : Reader) : Draft → Except Fault Enum :=
  readRecord r "struct RawEnum" enumRules {}

/-- The fields of an object or union; its own fields or members stand under `key`. -/
def fieldsRules (fuel : Nat) (key : String) : List (RecordField Fields) := [
  .setting "typeName" .required readName fun name o => { o with name },
  .setting key .defaulted (fun r => readList r (readField fuel)) fun fields o => { o with fields },
  docsField fun docs o => { o with docs }]

/-- An object or union; its list of fields stands under `key`. -/
def readFieldsUnder (fuel : Nat) (label key : String) (r : Reader) : Draft → Except Fault Fields :=
  readRecord r label (fieldsRules fuel key) {}

/-- A declaration of a type. -/
def readTypeDecl (fuel : Nat) (r : Reader) : Draft → Except Fault TypeDecl :=
  readTagged r "RawTypeDefinition" "type" [
    ("alias", fun r d => .alias <$>
      readOnly "struct variant RawTypeDefinition::Alias" "alias" (readAlias fuel) r d),
    ("enum", fun r d => .enum <$>
      readOnly "struct variant RawTypeDefinition::Enum" "enum" readEnum r d),
    ("object", fun r d => .object <$>
      readOnly "struct variant RawTypeDefinition::Object" "object"
        (readFieldsUnder fuel "struct RawObject" "fields") r d),
    ("union", fun r d => .union <$>
      readOnly "struct variant RawTypeDefinition::Union" "union"
        (readFieldsUnder fuel "struct RawUnion" "union") r d)]

/-- The fields of an error. -/
def errorRules (fuel : Nat) : List (RecordField ErrorDecl) := [
  .setting "errorName" .required readName fun name e => { e with name },
  .setting "namespace" .required (fun _ => text) fun namespaceName e => { e with namespaceName },
  .setting "code" .required (fun _ => text) fun code e => { e with code },
  .setting "safeArgs" .defaulted (fun r => readList r (readField fuel))
    fun safeArgs e => { e with safeArgs },
  .setting "unsafeArgs" .defaulted (fun r => readList r (readField fuel))
    fun sensitiveArgs e => { e with sensitiveArgs },
  docsField fun docs e => { e with docs }]

/-- An error. -/
def readError (fuel : Nat) (r : Reader) : Draft → Except Fault ErrorDecl :=
  readRecord r "struct RawErrorDefinition" (errorRules fuel) {}

/-- A value of any form. -/
def readAnything (_ : Reader) (d : Draft) : Except Fault Unit :=
  match d.skip with
  | some fault => .error fault
  | none => .ok ()

/-- The fields of a document. -/
def documentRules (fuel : Nat) : List (RecordField Document) := [
  .setting "types" .defaulted (fun r => readList r (readTypeDecl fuel))
    fun types o => { o with types },
  .setting "errors" .defaulted (fun r => readList r (readError fuel))
    fun errors o => { o with errors },
  .setting "services" .defaulted (fun r => readList r readAnything) fun _ o => o,
  .setting "extensions" .defaulted readAnything fun _ o => o]

/-- A document. -/
def readDocument (fuel : Nat) (r : Reader) : Draft → Except Fault Document :=
  readRecord r "struct RawDocument" (documentRules fuel) {}

/-- The outline of a document that is given as a value. -/
def ofJson (v : Json) : Except Fault Document :=
  readDocument (v.depth + 1) ⟨.value, v.depth + 2⟩ (Draft.ofJson v)

end WireContract.Schema.Outline
