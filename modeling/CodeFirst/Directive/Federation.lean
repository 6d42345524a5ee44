import CodeFirst.Directive.Standard
import CodeFirst.Options
import CodeFirst.Report.BuildError
import CodeFirst.Report.Event

/-! The definitions that a federated build adds to a schema, and where they come from. -/

namespace CodeFirst

structure FederationSet where
  directives : List DirectiveDefinition
  scalars : List ScalarType
  /-- Directives that keep the type they are applied to in the schema. -/
  orphanDirectives : List String

namespace FederationSet

def key : DirectiveDefinition :=
  .make "key" "Designates an object type as an entity and specifies its key fields."
    [⟨"fields", none, "_FieldSet!", none⟩] [.object, .interface]

def extending : DirectiveDefinition :=
  .make "extends" "Marks a type as an extension of a type defined by another service."
    [] [.object, .interface]

def external : DirectiveDefinition :=
  .make "external" "Marks a field as owned by another service." [] [.fieldDefinition]

def requires : DirectiveDefinition :=
  .make "requires" "Lists the external fields a resolver depends on."
    [⟨"fields", none, "_FieldSet!", none⟩] [.fieldDefinition]

def provides : DirectiveDefinition :=
  .make "provides" "Lists the fields of a returned entity this service can resolve."
    [⟨"fields", none, "_FieldSet!", none⟩] [.fieldDefinition]

def apollo : FederationSet :=
  ⟨[key, extending, external, requires, provides], [.named "_FieldSet"], ["key", "extends"]⟩

def shape : Shape FederationSet := fun t => do
  let fs ← Shape.record ["directives", "scalars", "orphanDirectives"] false t
  return ⟨← fs.defaulted "directives" [] (.list DirectiveDefinition.shape),
    ← fs.defaulted "scalars" [] (.list ScalarType.shape),
    ← fs.defaulted "orphanDirectives" [] (.list .string)⟩

def toJson (s : FederationSet) : Json :=
  .obj [("directives", .arr (s.directives.map DirectiveDefinition.toJson)),
    ("scalars", .arr (s.scalars.map ScalarType.toJson)),
    ("orphanDirectives", .arr (s.orphanDirectives.map .str))]

end FederationSet

/-- Where federation directives are loaded from: the built-in set, or a JSON file of this name that
was read or could not be. -/
inductive DirectiveSource where
  | apollo
  | file (path : String) (content : Except String String)

namespace DirectiveSource

def name : DirectiveSource → String
  | .apollo => "apollo-federation"
  | .file path _ => path

def malformed : String := "not a set of directive definitions in JSON"

def load : DirectiveSource → Trial BuildError FederationSet
  | .apollo => pure .apollo
  | .file path (.error reason) => throw (.missingDirectiveSource path reason)
  | .file path (.ok content) =>
    match FederationSet.shape.ofText content with
    | none => throw (.missingDirectiveSource path malformed)
    | some set => do
      Trial.tell (.directivesLoaded path set.directives.length)
      return set

end DirectiveSource

end CodeFirst
