import WireContract.Cli.Report

/-!
# The command line

Runs the generator on the file system of the machine.
-/

namespace WireContract

open Files

/-- Whether an action succeeds. -/
def succeeds {α : Type} (action : IO α) : IO Bool := do
  try
    let _ ← action
    return true
  catch _ => return false

/-- The file system of the machine. -/
instance : Storage IO where
  hasEntry path := succeeds (IO.FS.realPath path)
  read path := do
    try
      return .bytes (← IO.FS.readBinFile path)
    catch e =>
      match e with
      | .noFileOrDirectory _ _ _ => return .missing
      | _ => return .failed
  write path contents := succeeds (IO.FS.writeBinFile path contents)
  createDir path := succeeds (IO.FS.createDir path)
  removeFile path := succeeds (IO.FS.removeFile path)
  removeDir path := succeeds (IO.FS.removeDir path)

/-- Prints a report and gives its exit code. -/
def Cli.Report.print (r : Cli.Report) : IO UInt32 := do
  if r.isError then IO.eprint r.text else IO.print r.text
  return r.exitCode

end WireContract

open WireContract in
/-- The program. -/
def main (arguments : List String) : IO UInt32 := do
  match Cli.Args.parse arguments with
  | .error usage => usage.report.print
  | .ok args =>
    let outcome ← Cli.Args.run args
    (args.report outcome).print
