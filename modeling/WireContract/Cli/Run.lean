import WireContract.Cli.Args
import WireContract.Emit.Write

/-!
# A run of the command line
-/

namespace WireContract.Cli

open Emit Files

namespace Args

/-- What a run emits. -/
def options (args : Args) : Options := { server := args.server }

/-- What a failed run says it was doing. -/
def context (args : Args) : String :=
  "failed to generate code from '" ++ args.input ++ "' into '" ++ args.output ++ "'"

/-- Runs a generation and gives the paths of the files written. -/
def run {m : Type → Type} [Monad m] [Storage m] (args : Args) :
    m (Except EmitError (List String)) :=
  generate args.input args.output args.options

end Args

end WireContract.Cli
