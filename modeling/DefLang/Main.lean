import DefLang.Command

namespace DefLang

def readReason : IO.Error → String
  | .noFileOrDirectory _ code details | .permissionDenied _ code details
  | .inappropriateType _ code details | .invalidArgument _ code details
  | .resourceExhausted _ code details => s!"{details} (os error {code})"
  | .otherError code details | .hardwareFault code details | .unsupportedOperation code details =>
    s!"{details} (os error {code})"
  | e => e.toString

def readContent (path : String) : IO (Except String Source) := do
  match ← (IO.FS.Handle.mk path .read).toBaseIO with
  | .error e => return .error (readReason e)
  | .ok handle =>
    match ← handle.readBinToEnd.toBaseIO with
    | .error e => return .ok [.failure (readReason e)]
    | .ok bytes => return .ok (Source.ofBytes bytes.data.toList)

end DefLang

open DefLang in
def main (arguments : List String) : IO UInt32 := do
  let stdout ← IO.getStdout
  let stderr ← IO.getStderr
  match Command.ofArguments? arguments with
  | none =>
    stderr.putStr "Usage: deflang [--ast] [--quiet-tokens] [--strict] [--fail-on-truncation] FILE\n"
    return 2
  | some command =>
    match command.run (← readContent command.path) with
    | .ok result =>
      stdout.putStr result.output
      stderr.putStr result.errors
      return if result.success then 0 else 1
    | .error far =>
      stderr.putStr s!"the caret of the error would stand at place {far.caret}\n"
      return 101
