import WireContract.Emit.Package
import WireContract.Files.Storage

/-!
# Generating into a directory
-/

namespace WireContract.Emit

open Files Schema

section

variable {m : Type → Type} [Monad m] [Storage m]

/-- Writes the files of a tree into a directory, all or none, and gives their paths. -/
def Forest.writeUnder (f : Forest) (dir : String) : m (Except EmitError (List String)) := do
  let files := f.render.map fun r => (Files.join dir r.path, r.contents.toUTF8)
  match ← writeFiles files with
  | some path => return .error (.unwritable path)
  | none => return .ok (files.map (·.1))

/-- The text of a document file. -/
def readDocument (path : String) : m (Except SchemaError String) := do
  if !isJson path then return .error (.unsupportedExtension path)
  match ← Storage.read (m := m) path with
  | .bytes contents =>
    match String.fromUTF8? contents with
    | some text => return .ok text
    | none => return .error (.unreadable path)
  | _ => return .error (.unreadable path)

/-- Reads a document, emits its contract and writes the files into a directory. -/
def generate (input output : String) (o : Options) : m (Except EmitError (List String)) := do
  match ← readDocument input with
  | .error e => return .error (.schema e)
  | .ok text =>
    match emitText text o with
    | .error e => return .error e
    | .ok f => f.writeUnder output

end

end WireContract.Emit
