import CodeFirst.Report.Finding

/-! Fatal errors: a build stops at the first one, and no partial schema comes out of it. -/

namespace CodeFirst

inductive BuildError where
  /-- A field, return or argument type is neither a scalar nor a declared class. -/
  | undeterminedType (location : Location)
  | undefinedReturnType (kind : String) (location : Location)
  /-- A resolver class has field resolvers but names no object type for them. -/
  | undefinedResolverType (resolver : String)
  /-- A type in input position is neither a scalar nor a declared input type. -/
  | cannotDetermineInputType (location : Location)
  /-- An argument bundle refers to a class that is none. -/
  | missingArgsType (location : Location) (bundle : String)
  | namingConflict (name first second : String)
  /-- Two fields of one type share a schema name. -/
  | duplicateField (typeName field : String)
  | deferred (owner : String) (source : BuildError)
  | invalidSchema (count : Nat) (findings : List Finding)
  | missingDirectiveSource (sourceName reason : String)
  deriving DecidableEq, Repr, Inhabited

namespace BuildError

def message : BuildError → String
  | .undeterminedType l =>
    "undetermined type at `" ++ l.text ++
      "`: make sure an explicit type is provided and the referenced class is declared"
  | .undefinedReturnType kind l =>
    "undefined return type for " ++ kind ++ " handler `" ++ l.text ++ "`"
  | .undefinedResolverType r => "undefined resolver type for `" ++ r ++ "`"
  | .cannotDetermineInputType l =>
    "cannot determine input type at `" ++ l.text ++
      "`: only scalars and declared input types are allowed"
  | .missingArgsType l bundle =>
    "`" ++ l.text ++ "` references `" ++ bundle ++ "`, which is not a declared arguments type"
  | .namingConflict name first second =>
    "schema name `" ++ name ++ "` is declared by both `" ++ first ++ "` and `" ++ second ++ "`"
  | .duplicateField typeName field =>
    "field `" ++ field ++ "` is declared more than once on `" ++ typeName ++ "`"
  | .deferred owner _ => "deferred registration for `" ++ owner ++ "` failed"
  | .invalidSchema count findings =>
    "schema validation failed with " ++ toString count ++ " error(s): " ++
      String.intercalate "; " (findings.map Finding.text)
  | .missingDirectiveSource name reason =>
    "directive source `" ++ name ++ "` is unavailable: " ++ reason

def rootCause : BuildError → BuildError
  | .deferred _ source => source.rootCause
  | e => e

/-- The texts of the errors behind this one, outermost first. -/
def sources : BuildError → List String
  | .deferred _ source => source.message :: source.sources
  | _ => []

/-- The code of this error alone; failed validations carry codes in their findings. -/
def ownCode : BuildError → Option Code
  | .undeterminedType _ => some .undeterminedType
  | .undefinedReturnType .. => some .undefinedReturnType
  | .undefinedResolverType _ => some .undefinedResolverType
  | .cannotDetermineInputType _ => some .cannotDetermineInputType
  | .missingArgsType .. => some .missingArgsType
  | .namingConflict .. => some .namingConflict
  | .duplicateField .. => some .duplicateField
  | .missingDirectiveSource .. => some .missingDirectiveSource
  | .invalidSchema .. | .deferred .. => none

def code (e : BuildError) : Option Code := e.rootCause.ownCode

def help : BuildError → Option String
  | .undefinedReturnType .. => some "pass an explicit return type to the handler declaration"
  | .undefinedResolverType _ =>
    some "declare the resolver class with the object type it resolves fields for"
  | .invalidSchema .. => some "fix the reported declarations or build with `skip_check`"
  | .missingDirectiveSource .. => some "install or point to the federation directive definitions"
  | _ => none

def symbol : BuildError → String
  | .undeterminedType _ => "tgql::undetermined_type"
  | .undefinedReturnType .. => "tgql::undefined_return_type"
  | .undefinedResolverType _ => "tgql::undefined_resolver_type"
  | .cannotDetermineInputType _ => "tgql::cannot_determine_input_type"
  | .missingArgsType .. => "tgql::missing_args_type"
  | .namingConflict .. => "tgql::naming_conflict"
  | .duplicateField .. => "tgql::duplicate_field"
  | .deferred .. => "tgql::deferred_registration"
  | .invalidSchema .. => "tgql::invalid_schema"
  | .missingDirectiveSource .. => "tgql::missing_directive_source"

end BuildError

end CodeFirst
