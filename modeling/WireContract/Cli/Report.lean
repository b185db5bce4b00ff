import WireContract.Cli.Run

/-!
# What the command line says

The texts for help, version and misuse, the report of a run, and the exit code that goes with each.
-/

namespace WireContract.Cli

/-- A text for the user, where it goes, and the exit code. -/
structure Report where
  text : String
  isError : Bool
  exitCode : UInt32

/-- The help text. -/
def helpText : String :=
  "Generate typed Rust wire models from a wiregen IR document\n\n" ++
  "Usage: wiregen [OPTIONS] <INPUT>\n\n" ++
  "Arguments:\n" ++
  "  <INPUT>  Path to the IR document (`*.json`)\n\n" ++
  "Options:\n" ++
  "  -o, --output <OUTPUT>  Directory the generated module tree is written to [default: .]\n" ++
  "      --server           Also emit the server integration hooks on errors\n" ++
  "      --debug            Log at debug level unless `RUST_LOG` says otherwise\n" ++
  "  -h, --help             Print help\n" ++
  "  -V, --version          Print version\n"

/-- What is wrong with the arguments. -/
def Usage.problem : Usage → String
  | .missingInput => "the following required arguments were not provided:\n  <INPUT>"
  | .unknownArgument => "unexpected argument found"
  | .badValue => "a value is required but none was supplied"
  | .tooManyValues => "unexpected value for a flag found; no more were expected"
  | .repeated => "an argument cannot be used multiple times"
  | .help => ""
  | .version => ""

/-- The report for arguments that do not start a run. -/
def Usage.report (u : Usage) : Report :=
  match u with
  | .help => ⟨helpText, false, 0⟩
  | .version => ⟨"wiregen 0.3.0\n", false, 0⟩
  | u =>
    ⟨"error: " ++ u.problem ++
      "\n\nUsage: wiregen [OPTIONS] <INPUT>\n\nFor more information, try '--help'.\n", true, 2⟩

/-- The report of a run. -/
def Args.report (args : Args) : Except Emit.EmitError (List String) → Report
  | .ok written =>
    ⟨"Generated " ++ toString written.length ++ " files under " ++ args.output ++ "\n", true, 0⟩
  | .error e =>
    ⟨"Error: " ++ args.context ++ "\n\nCaused by:\n    " ++
      e.message?.getD "the file system or the text of the document is at fault" ++ "\n", true, 1⟩

end WireContract.Cli
