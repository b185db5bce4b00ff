import WireContract.Wire.Decode
import WireContract.Wire.Encode

/-!
# Error envelopes

Every error travels in an envelope of four keys: its category, its name, the identifier of this
occurrence and its parameters.  A declared error writes its own category and name, whatever the
envelope it was read from said, and parameters that do not fit its declaration are dropped.
-/

namespace WireContract.Wire

open Json Schema

/-! ## Categories -/

/-- The category with a name, in a place where one is read. -/
def categoryNamed (name : String) : Except Fault ErrorCode :=
  match ErrorCode.ofName? name with
  | some code => .ok code
  | none => .error (.mismatch (.unknownVariant name (ErrorCode.all.map (·.name))))

/-- The name of a category as a key; something else that stands there is no name. -/
def readCodeKey (key : Except Fault String) : Draft → Except Fault String
  | .misplaced d => unexpected "variant identifier" d
  | _ => key

/-- A category: its name, or an object with the name as its only key and null under it.  In a text
any other value is refused at its first character. -/
def readCode (r : Reader) : Draft → Except Fault ErrorCode
  | .str name => do categoryNamed (← name)
  | .obj fields stop =>
    match r.source, fields with
    | .text, (name, d) :: rest => do
      let _ ← r.enter
      let code ← categoryNamed (← readCodeKey name d)
      readUnit d
      if !rest.isEmpty then .error .malformed
      Draft.closed stop
      return code
    | .text, [] => do
      let _ ← r.enter
      Draft.closed stop
      .error .malformed
    | _, [(name, d)] => do
      let code ← categoryNamed (← name)
      readUnit d
      return code
    | _, _ => .error (.mismatch (.invalidValue .map "map with a single key"))
  | .broken bare stop => .error (if bare then .malformed else stop.reading)
  | d =>
    match r.source with
    | .text => .error .malformed
    | _ => unexpected "string or map" d

/-! ## Envelopes -/

/-- An error on the wire. -/
structure Envelope where
  code : ErrorCode
  name : String
  id : Uuid
  parameters : Json

namespace Envelope

/-- An envelope of which some keys have been read. -/
structure Gathered where
  code : Option ErrorCode
  name : Option String
  id : Option Uuid
  parameters : Option Json

/-- The rules for the keys. -/
def rules : List (RecordField Gathered) := [
  ⟨"errorCode", .required, fun r d e => return { e with code := ← readCode r d }⟩,
  ⟨"errorName", .required, fun _ d e => return { e with name := ← readString "a string" d }⟩,
  ⟨"errorInstanceId", .required, fun _ d e => return { e with id := ← readUuid d }⟩,
  ⟨"parameters", .defaulted, fun r d e => return { e with parameters := ← d.complete r.limit }⟩]

/-- The envelope of keys that were all read; missing parameters are null. -/
def ofGathered : Gathered → Except Fault Envelope
  | ⟨some code, some name, some id, parameters⟩ => .ok ⟨code, name, id, parameters.getD .null⟩
  | _ => .error .malformed

/-- Reads an envelope. -/
def read (r : Reader) (d : Draft) : Except Fault Envelope := do
  ofGathered (← readRecord r "struct SerializableError" rules ⟨none, none, none, none⟩ d)

/-- The object of an envelope. -/
def toJson (e : Envelope) : Json :=
  .obj [
    ("errorCode", .str e.code.name),
    ("errorName", .str e.name),
    ("errorInstanceId", .str e.id.text),
    ("parameters", e.parameters)]

end Envelope

/-! ## Declared errors -/

/-- An occurrence of a declared error. -/
structure Occurrence where
  id : Uuid
  params : Option Value

/-- Two occurrences are equal if their parts are. -/
instance : BEq Occurrence := ⟨fun a b => a.id == b.id && a.params == b.params⟩

/-- The record of the parameters of an error. -/
def paramsObject (e : ErrorDecl) : Object where
  name := { e.name with name := e.name.name ++ "Parameters" }
  fields := e.params.map fun p => ⟨p.name, p.type, p.docs, some p.safety⟩
  docs := none

/-- Reads the parameters of an error. -/
def readParams (reg : Registry) (e : ErrorDecl) (r : Reader) (d : Draft) : Except Fault Value :=
  decodeForm reg r.limit r.source ⟨0, .object (paramsObject e)⟩ d

/-- The JSON of the parameters of an error. -/
def paramsJson (reg : Registry) (e : ErrorDecl) (v : Value) : Json :=
  encodeBase reg (.object (paramsObject e)) v

namespace Occurrence

/-- The occurrence that an envelope carries. -/
def ofEnvelope (reg : Registry) (e : ErrorDecl) (envelope : Envelope) : Occurrence :=
  ⟨envelope.id, (readValue (readParams reg e) envelope.parameters).toOption⟩

/-- Reads an occurrence. -/
def read (reg : Registry) (e : ErrorDecl) (r : Reader) (d : Draft) : Except Fault Occurrence :=
  ofEnvelope reg e <$> Envelope.read r d

/-- The parameters by name; none if the parameters are unknown. -/
def parameters (reg : Registry) (e : ErrorDecl) (o : Occurrence) : List (String × Json) :=
  match o.params.map fun v => (paramsJson reg e v).distinct with
  | some (.obj fields) => fields
  | _ => []

/-- The parameters with the given safety. -/
def parametersWith (reg : Registry) (e : ErrorDecl) (safety : Safety) (o : Occurrence) :
    List (String × Json) :=
  (o.parameters reg e).filter fun (name, _) => (e.argsWith safety).contains name

/-- The envelope that carries the occurrence. -/
def envelope (reg : Registry) (e : ErrorDecl) (o : Occurrence) : Envelope :=
  ⟨e.code, e.fullName, o.id, .obj (o.parameters reg e)⟩

/-- The occurrence in one line. -/
def describe (e : ErrorDecl) (o : Occurrence) : String :=
  e.code.name ++ " " ++ e.fullName ++ " (" ++ o.id.text ++ ")"

end Occurrence

end WireContract.Wire
