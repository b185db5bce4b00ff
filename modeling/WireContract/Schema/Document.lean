import WireContract.Schema.Outline

/-!
# Reading a contract document

A document is JSON text with `version` 1.  After its outline is known, the words in it get their
meaning: primitives, safety annotations and error codes.  Types come before errors, and the safe
parameters of an error before the sensitive ones.
-/

namespace WireContract.Schema

open Wire (ErrorCode)

/-- The one version of documents that is supported. -/
def supportedVersion : Nat := 1

/-- Why the words of an outline have no meaning. -/
abbrev Checked (α : Type) := Except Violation α

/-- The reference that a written type stands for. -/
def Outline.TypeExpr.check : Outline.TypeExpr → Checked TypeRef
  | .primitive word =>
    if word == "BINARY" then .ok .binary
    else
      match Primitive.ofWord? word with
      | some p => .ok (.primitive p)
      | none => .error (.unknownPrimitive word)
  | .optional item => return .optional (← item.check)
  | .list item => return .list (← item.check)
  | .set item => return .set (← item.check)
  | .map key value => return .map (← key.check) (← value.check)
  | .reference name => .ok (.declared name)
  | .external name fallback => return .external name (← fallback.check)

/-- The meaning of a safety annotation. -/
def Safety.ofWord (word : String) : Checked Safety :=
  if word == "SAFE" then .ok .safe
  else if word == "UNSAFE" || word == "DO_NOT_LOG" then .ok .sensitive
  else .error (.unknownSafety word)

namespace Outline

/-- A field of an object. -/
def Field.check (f : Field) : Checked Schema.Field := do
  let safety ← f.safety.mapM Safety.ofWord
  let type ← f.type.check
  return ⟨f.name, type, f.docs, safety⟩

/-- A member of a union; a safety annotation on it is not looked at. -/
def Field.checkMember (f : Field) : Checked Member := do
  let type ← f.type.check
  return ⟨f.name, type, f.docs⟩

/-- A parameter of an error, with the safety of the list that it stands in. -/
def Field.checkParam (safety : Safety) (f : Field) : Checked Param := do
  let type ← f.type.check
  return ⟨f.name, type, safety, f.docs⟩

/-- A declaration of a type. -/
def TypeDecl.check : TypeDecl → Checked Declaration
  | .alias d => do
    let target ← d.target.check
    return .alias ⟨d.name, target, d.docs⟩
  | .enum d => .ok (.enum ⟨d.name, d.values, d.docs⟩)
  | .object d => do
    let fields ← d.fields.mapM Field.check
    return .object ⟨d.name, fields, d.docs⟩
  | .union d => do
    let members ← d.fields.mapM Field.checkMember
    return .union ⟨d.name, members, d.docs⟩

/-- A declaration of an error. -/
def ErrorDecl.check (e : ErrorDecl) : Checked Declaration := do
  match ErrorCode.ofName? e.code with
  | none => .error (.unknownCode e.name e.code)
  | some code =>
    let safe ← e.safeArgs.mapM (Field.checkParam .safe)
    let sensitive ← e.sensitiveArgs.mapM (Field.checkParam .sensitive)
    return .error ⟨e.name, e.namespaceName, code, safe ++ sensitive, e.docs⟩

/-- The declarations of a document: types, then errors. -/
def Document.check (d : Document) : Checked (List Declaration) := do
  let types ← d.types.mapM TypeDecl.check
  let errors ← d.errors.mapM ErrorDecl.check
  return types ++ errors

end Outline

namespace Document

/-- The version of a document value, if it is the supported one. -/
def readVersion (v : Json) : Except SchemaError Nat :=
  let found := (v.get? "version").bind Json.asNat?
  if found == some supportedVersion then .ok supportedVersion
  else .error (.unsupportedVersion found)

/-- The document that a value describes. -/
def ofJson (v : Json) : Except SchemaError Document := do
  let version ← readVersion v
  match Outline.ofJson v with
  | .error fault => .error (.violation (.misshapen fault))
  | .ok outline =>
    match outline.check with
    | .error violation => .error (.violation violation)
    | .ok declarations => return ⟨version, declarations⟩

/-- The document that a text describes. -/
def parse (text : String) : Except SchemaError Document :=
  match Json.parse text with
  | .error fault => .error (.json fault)
  | .ok v => ofJson v

end Document

end WireContract.Schema
