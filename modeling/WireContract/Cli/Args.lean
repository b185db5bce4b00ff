/-!
# Arguments of the command line

One document to read, and the options `-o`/`--output` with a value, `--server` and `--debug`.  An
argument with a value is checked only when the next argument begins or the arguments end, so that of
two mistakes the one is reported that is met first in this order.
-/

namespace WireContract.Cli

/-- Why the arguments do not start a run. -/
inductive Usage where
  | missingInput
  | unknownArgument
  /-- A value is missing or empty. -/
  | badValue
  /-- A flag was given a value. -/
  | tooManyValues
  /-- An option was given twice. -/
  | repeated
  | help
  | version
deriving DecidableEq, Repr

/-- What a run does. -/
structure Args where
  input : String
  output : String
  server : Bool
  debug : Bool
deriving DecidableEq, Repr

/-- An argument whose value is not checked yet. -/
inductive Pending where
  | nothing
  | input (value : String)
  | output (value : Option String)
deriving DecidableEq, Repr

/-- What the arguments so far say. -/
structure Reading where
  input : Option String
  output : Option String
  server : Bool
  debug : Bool
  pending : Pending
  /-- Whether the document was named. -/
  named : Bool
  /-- Whether options have ended. -/
  trailing : Bool
deriving DecidableEq, Repr

namespace Reading

/-- Before the first argument. -/
def start : Reading := ⟨none, none, false, false, .nothing, false, false⟩

/-- Takes the output directory. -/
def takeOutput (r : Reading) (value : String) : Except Usage Reading :=
  if r.output.isSome then .error .repeated
  else if value.isEmpty then .error .badValue
  else .ok { r with output := some value }

/-- Checks the argument that is not checked yet. -/
def settle (r : Reading) : Except Usage Reading :=
  let done := { r with pending := .nothing }
  match r.pending with
  | .nothing => .ok r
  | .input value =>
    if value.isEmpty then .error .badValue else .ok { done with input := some value }
  | .output none => .error .badValue
  | .output (some value) => done.takeOutput value

/-- An argument that is no option. -/
def positional (r : Reading) (value : String) : Except Usage Reading :=
  if r.named then .error .unknownArgument
  else do
    let r ← r.settle
    return { r with pending := .input value, named := true }

/-- The output option, with its value if it is attached. -/
def outputOption (r : Reading) (value : Option String) : Except Usage Reading := do
  let r ← r.settle
  match value with
  | some value => r.takeOutput value
  | none => return { r with pending := .output none }

/-- A flag without effect on later arguments. -/
def flag (r : Reading) (given : Bool) (set : Reading → Reading) : Except Usage Reading := do
  let r ← r.settle
  if given then throw .repeated else return set r

/-- A long option, with its value if it is attached. -/
def longOption (r : Reading) (name : String) (value : Option String) : Except Usage Reading :=
  if name == "output" then r.outputOption value
  else if !(["server", "debug", "help", "version"].contains name) then .error .unknownArgument
  else if value.isSome then .error .tooManyValues
  else if name == "server" then r.flag r.server fun r => { r with server := true }
  else if name == "debug" then r.flag r.debug fun r => { r with debug := true }
  else do
    let _ ← r.settle
    throw (if name == "help" then .help else .version)

/-- Short options after a single dash. -/
def shortOptions (r : Reading) : List Char → Except Usage Reading
  | [] => .ok r
  | 'o' :: rest =>
    match rest with
    | [] => r.outputOption none
    | '=' :: value => r.outputOption (some (String.ofList value))
    | value => r.outputOption (some (String.ofList value))
  | 'h' :: _ => do
    let _ ← r.settle
    throw .help
  | 'V' :: _ => do
    let _ ← r.settle
    throw .version
  | _ => .error .unknownArgument

/-- An argument before the end of options. -/
def option (r : Reading) (arg : String) : Except Usage Reading :=
  match arg.toList with
  | ['-', '-'] => .ok { r with trailing := true }
  | '-' :: '-' :: long =>
    let name := String.ofList (long.takeWhile (· != '='))
    let value :=
      match long.dropWhile (· != '=') with
      | '=' :: value => some (String.ofList value)
      | _ => none
    r.longOption name value
  | '-' :: c :: short => r.shortOptions (c :: short)
  | _ =>
    if r.pending == .output none then .ok { r with pending := .output (some arg) }
    else r.positional arg

/-- The next argument. -/
def step (r : Reading) (arg : String) : Except Usage Reading :=
  if r.trailing then r.positional arg else r.option arg

end Reading

namespace Args

/-- The directory written to if none is named. -/
def defaultOutput : String := "."

/-- Reads the arguments. -/
def parse (args : List String) : Except Usage Args := do
  let r ← args.foldlM Reading.step .start
  let r ← r.settle
  match r.input with
  | some input => return ⟨input, r.output.getD defaultOutput, r.server, r.debug⟩
  | none => throw .missingInput

/-- The level of messages. -/
def logLevel (args : Args) : String := if args.debug then "debug" else "info"

end Args

end WireContract.Cli
