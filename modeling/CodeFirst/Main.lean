import CodeFirst.Command.Run

/-! The program: it reads the files that the command line names, runs the command and carries out
what it comes to. -/

namespace CodeFirst

def failureReason (e : IO.Error) : String :=
  match e with
  | .noFileOrDirectory _ code details | .inappropriateType _ code details
  | .permissionDenied _ code details | .invalidArgument _ code details
  | .resourceExhausted _ code details | .otherError code details =>
    details ++ " (os error " ++ toString code ++ ")"
  | e => toString e

def readFile (path : String) : IO (Except String String) := do
  try
    return decodeText (← IO.FS.readBinFile path)
  catch e => return .error (failureReason e)

def finish (exit : Command.Exit) : IO UInt32 := do
  IO.print exit.output.out
  IO.eprint exit.output.err
  return exit.code.toUInt32

end CodeFirst

open CodeFirst in
def main (words : List String) : IO UInt32 := do
  let contents ← (Command.reads words).mapM fun path => do return (path, ← readFile path)
  let read : Reader := fun path => (lookupEntry path contents).getD (.error "not read")
  match Command.run read words with
  | .done exit => finish exit
  | .write path content exit =>
    try
      IO.FS.writeFile path content
      finish exit
    catch e => finish (Command.unwritten (failureReason e))
