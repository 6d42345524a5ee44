import CodeFirst.Report.Location

/-! What validation reports: a code, a title and the sites concerned, in order of discovery. -/

namespace CodeFirst

structure Label where
  location : Location
  message : String
  deriving DecidableEq, Repr, Inhabited

structure Finding where
  code : String
  title : String
  /-- The first label is the primary site. -/
  labels : List Label
  deriving DecidableEq, Repr, Inhabited

namespace Finding

def ofSite (code title : String) (location : Location) (message : String) : Finding :=
  ⟨code, title, [⟨location, message⟩]⟩

def text (f : Finding) : String :=
  "[" ++ f.code ++ "] " ++ f.title ++
    match f.labels with
    | [] => ""
    | l :: _ => " at `" ++ l.location.text ++ "`: " ++ l.message

end Finding

/-- The codes of fatal errors, of findings and of logged conflicts. -/
inductive Code where
  | undeterminedType | undefinedReturnType | undefinedResolverType | cannotDetermineInputType
  | namingConflict | duplicateField | missingArgsType
  | emptyFields | invalidName | missingInterfaceField
  | unknownDirective | missingDirectiveSource
  | defaultValueConflict
  deriving DecidableEq, Repr

def Code.text : Code → String
  | .undeterminedType => "E0010"
  | .undefinedReturnType => "E0011"
  | .undefinedResolverType => "E0012"
  | .cannotDetermineInputType => "E0013"
  | .namingConflict => "E0014"
  | .duplicateField => "E0015"
  | .missingArgsType => "E0016"
  | .emptyFields => "E0020"
  | .invalidName => "E0021"
  | .missingInterfaceField => "E0022"
  | .unknownDirective => "E0030"
  | .missingDirectiveSource => "E0031"
  | .defaultValueConflict => "W0001"

end CodeFirst
