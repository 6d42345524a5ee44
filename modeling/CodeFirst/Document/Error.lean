import CodeFirst.Report.BuildError

/-! Errors of documents. -/

namespace CodeFirst

inductive DocumentError where
  | unreadable (path reason : String)
  | malformed
  | unknownParent (entity parent : String)
  | inheritanceCycle (names : List String)
  | unknownType (name : String)
  | invalidType (text : String)
  | build (error : BuildError)
  deriving DecidableEq, Repr

namespace DocumentError

def message : DocumentError → String
  | .unreadable path reason => "cannot read `" ++ path ++ "`: " ++ reason
  | .malformed => "malformed declaration document: not JSON of the expected shape"
  | .unknownParent entity parent =>
    "`" ++ entity ++ "` extends `" ++ parent ++ "`, which is not declared"
  | .inheritanceCycle names =>
    "inheritance cycle between " ++ String.intercalate ", " (names.map fun n => "`" ++ n ++ "`")
  | .unknownType name => "`" ++ name ++ "` is not a declared type"
  | .invalidType text => "invalid type `" ++ text ++ "`"
  | .build e => e.message

/-- Only errors of the build itself have codes. -/
def code : DocumentError → Option Code
  | .build e => e.code
  | _ => none

end DocumentError

end CodeFirst
