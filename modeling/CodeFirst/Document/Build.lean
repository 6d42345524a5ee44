import CodeFirst.Build.Builder
import CodeFirst.Document.Declared

/-! From document files to schemas. -/

namespace CodeFirst

/-- How files are read: the text of a file, or the reason why there is none. -/
abbrev Reader := String → Except String String

def decodeText (bytes : ByteArray) : Except String String :=
  match String.fromUTF8? bytes with
  | some s => .ok s
  | none => .error "stream did not contain valid UTF-8"

namespace Document

def load (read : Reader) (path : String) : Except DocumentError Document :=
  match read path with
  | .ok source => ofText source
  | .error reason => .error (.unreadable path reason)

/-- How the schema of a document is to be built, beside what its own options say. -/
structure Job where
  federation : Bool
  /-- Adds the federation directives of a file instead. -/
  federationFile : Option String
  skipCheck : Bool
  deriving DecidableEq, Repr

def Job.plain : Job := ⟨false, none, false⟩

/-- The source of federation directives; a file comes before the built-in set. -/
def Job.source (j : Job) (read : Reader) : Option DirectiveSource :=
  match j.federationFile with
  | some path => some (.file path (read path))
  | none => if j.federation then some .apollo else none

def build (read : Reader) (path : String) (j : Job) : Trial DocumentError Schema := do
  let d ← Trial.ofExcept (load read path)
  let declared ← d.declare
  let options :=
    { declared.options with skipCheck := declared.options.skipCheck || j.skipCheck }
  let request : BuildRequest := ⟨options, none, declared.orphaned⟩
  ofBuild (request.buildFrom declared.registry (j.source read))

end Document

end CodeFirst
