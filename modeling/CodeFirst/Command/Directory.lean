import CodeFirst.Document.Build

/-! A working directory with its files, for running commands without touching a disk. A path is
followed name by name to a place: a folder, or a name in a folder that holds a file or is free.
Places are written relative to the directory; of what lies outside it only the folders above are
known. -/

namespace CodeFirst

/-- Why a path cannot be followed, or what it leads to cannot be used. -/
inductive PathError where
  | noEntry | notDirectory | isDirectory | nameTooLong
  deriving DecidableEq, Repr

def PathError.text : PathError → String
  | .noEntry => "No such file or directory (os error 2)"
  | .notDirectory => "Not a directory (os error 20)"
  | .isDirectory => "Is a directory (os error 21)"
  | .nameTooLong => "File name too long (os error 36)"

/-- The bytes that one name may have. -/
def longestName : Nat := 255

def longestPath : Nat := 4095

structure Directory where
  files : OrderedMap (List String) String

namespace Directory

def components (path : String) : List String := path.splitOn "/"

inductive Place where
  | folder
  /-- A name in a folder that is there. -/
  | entry (place : List String)
  deriving DecidableEq, Repr

def above (place : List String) : List String :=
  match place.getLast? with
  | none | some ".." => place ++ [".."]
  | some "/" => place
  | some _ => place.dropLast

/-- Whether a place is a folder: one that the directory lies in, the root, or one with a file. -/
def isFolder (d : Directory) (place : List String) : Bool :=
  place.all (· == "..") || place == ["/"] ||
    d.files.keys.any fun k => place.isPrefixOf k && place.length < k.length

/-- Follows names from a folder. A file that is to be made cannot have a name that ends in a
slash. -/
def follow (d : Directory) (making : Bool) (folder : List String) :
    List String → Except PathError Place
  | [] => .ok .folder
  | name :: rest =>
    if name = "" ∨ name = "." then d.follow making folder rest
    else if name = ".." then d.follow making (above folder) rest
    else
      let place := folder ++ [name]
      if making && !rest.isEmpty && rest.all String.isEmpty then .error .isDirectory
      else if name.utf8ByteSize > longestName then .error .nameTooLong
      else if d.isFolder place then d.follow making place rest
      else if rest.isEmpty then .ok (.entry place)
      else if d.files.contains place then .error .notDirectory
      else .error .noEntry

/-- What a path leads to, for reading a file or for making one. -/
def locate (d : Directory) (making : Bool) (path : String) : Except PathError Place :=
  if path.isEmpty then .error .noEntry
  else if path.utf8ByteSize > longestPath then .error .nameTooLong
  else d.follow making (if path.startsWith "/" then ["/"] else []) (components path)

def get (d : Directory) (path : String) : Except PathError String := do
  match ← d.locate false path with
  | .folder => throw .isDirectory
  | .entry place =>
    match d.files.get? place with
    | some content => return content
    | none => throw .noEntry

def put (d : Directory) (path content : String) : Except PathError Directory := do
  match ← d.locate true path with
  | .folder => throw .isDirectory
  | .entry place => return ⟨d.files.insert place content⟩

def reader (d : Directory) : Reader := fun path => (d.get path).mapError PathError.text

end Directory

end CodeFirst
