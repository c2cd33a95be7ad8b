import Offside.Command.Run

/-!
# The command-line program
-/

namespace Offside.Command

def reasonOf : IO.Error → String
  | .noFileOrDirectory .. => FileError.missing.message
  | .inappropriateType _ 20 _ => FileError.notDirectory.message
  | .inappropriateType .. => FileError.isDirectory.message
  | .invalidArgument _ 36 _ => FileError.nameTooLong.message
  | .permissionDenied .. => "Permission denied (os error 13)"
  | error => toString error

def reasonOfOutcome {α : Type} (action : IO α) : IO (Except String α) := do
  return (← action.toBaseIO).mapError reasonOf

def diskAccess : FileAccess IO where
  read path := reasonOfOutcome do return (← IO.FS.readBinFile path).toList
  openFile path := reasonOfOutcome do
    let _ ← IO.FS.Handle.mk path .append

end Offside.Command

def main (arguments : List String) : IO UInt32 := do
  let output ← Offside.Command.perform Offside.Command.diskAccess arguments
  IO.print output.out
  IO.eprint output.err
  return UInt32.ofNat output.exitCode
