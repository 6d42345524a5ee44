import CodeFirst.Command.Arguments
import CodeFirst.Sdl.Printer

/-! What a command prints, what it writes, and its exit code. -/

namespace CodeFirst

namespace Command

/-- Output so far: to the standard stream, and to the error stream. -/
structure Output where
  out : String
  err : String
  deriving DecidableEq, Repr

namespace Output

def none : Output := ⟨"", ""⟩
def print (o : Output) (text : String) : Output := { o with out := o.out ++ text }
def complain (o : Output) (text : String) : Output := { o with err := o.err ++ text }

end Output

structure Exit where
  code : Nat
  output : Output
  deriving DecidableEq, Repr

/-- What a command comes to: an end, or a file to write with the end to follow. -/
inductive Outcome where
  | done (exit : Exit)
  | write (path content : String) (exit : Exit)
  deriving DecidableEq, Repr

def reportError (file : String) (e : DocumentError) : String :=
  "Error " ++ file ++ "\n" ++
    match e with
    | .build (.invalidSchema _ findings) =>
      String.join (findings.map fun f =>
        "  --> [" ++ f.code ++ "] " ++ f.title ++ "\n" ++
          String.join (f.labels.map fun l =>
            "      at " ++ l.location.text ++ ": " ++ l.message ++ "\n"))
    | e =>
      match e.code with
      | some code => "  --> [" ++ code.text ++ "] " ++ e.message ++ "\n"
      | none => "  --> " ++ e.message ++ "\n"

def versionText : String := "tgql 0.1.0\n"

def usageText : String :=
  "Usage: tgql [-v|--verbose] [-q|--quiet] <command>\n\n" ++
  "  build <input> [-o <file>] [--federation] [--federation-directives <file>]" ++
  " [--skip-check] [--sort]\n" ++
  "  check <file>...\n" ++
  "  version\n"

def runBuild (read : Reader) (quiet : Bool) (input : String) (output : Option String)
    (job : Document.Job) (sorted : Bool) : Outcome :=
  match (Document.build read input job).outcome with
  | .error e => .done ⟨1, Output.none.complain (reportError input e)⟩
  | .ok schema =>
    let sdl := Sdl.print { PrintOptions.standard with sortTypes := sorted } schema
    match output with
    | none => .done ⟨0, Output.none.print sdl⟩
    | some path =>
      .write path (Sdl.fileHeader ++ sdl) ⟨0, if quiet then .none else
        Output.none.print
          ("Success: " ++ toString schema.size ++ " type(s) written to " ++ path ++ "\n")⟩

/-- Checks one file; also says whether it failed. -/
def checkFile (read : Reader) (verbose : Bool) (o : Output) (file : String) : Output × Bool :=
  let o := if verbose then o.print ("Checking " ++ file ++ "\n") else o
  match (Document.build read file .plain).outcome with
  | .error e => (o.complain (reportError file e), true)
  | .ok schema =>
    (if verbose then
        o.print ("OK " ++ file ++ " (" ++ toString schema.size ++ " types)\n")
      else o, false)

def checkFiles (read : Reader) (verbose : Bool) (files : List String) : Exit :=
  let (o, failed) := files.foldl (fun (o, failed) file =>
    let (o, bad) := checkFile read verbose o file
    (o, failed || bad)) (Output.none, false)
  if failed then ⟨1, o⟩
  else ⟨0, o.print ("Success: " ++ toString files.length ++ " file(s) checked\n")⟩

def runInvocation (read : Reader) (i : Invocation) : Outcome :=
  match i.action with
  | .build input output job sorted => runBuild read i.quiet input output job sorted
  | .check files => .done (checkFiles read i.verbose files)
  | .version => .done ⟨0, Output.none.print versionText⟩

def run (read : Reader) (words : List String) : Outcome :=
  match Command.read words with
  | .invocation i => runInvocation read i
  | .misuse => .done ⟨2, Output.none.complain usageText⟩
  | .help => .done ⟨0, Output.none.print usageText⟩
  | .version => .done ⟨0, Output.none.print versionText⟩

/-- The end of a command whose file could not be written. -/
def unwritten (reason : String) : Exit := ⟨1, Output.none.complain ("Error: " ++ reason ++ "\n")⟩

def reads (words : List String) : List String :=
  match Command.read words with
  | .invocation ⟨_, _, .build input _ job _⟩ => input :: job.federationFile.toList
  | .invocation ⟨_, _, .check files⟩ => files
  | _ => []

end Command

end CodeFirst
