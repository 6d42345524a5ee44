import CodeFirst.Directive.Definition

/-! How scalars are realized, which directives a schema gets and which of them keep a type in the
schema, with the JSON form of it all. -/

namespace CodeFirst

/-- How `Date` is realized: as `DateTime` texts or as `Timestamp` numbers. -/
inductive DateMode where
  | isoDate | timestamp
  deriving DecidableEq, Repr, Inhabited

def DateMode.text : DateMode → String
  | .isoDate => "isoDate"
  | .timestamp => "timestamp"

def DateMode.shape : Shape DateMode :=
  .name [("isoDate", .isoDate), ("timestamp", .timestamp)]

inductive NumberMode where
  | float | integer
  deriving DecidableEq, Repr, Inhabited

def NumberMode.text : NumberMode → String
  | .float => "float"
  | .integer => "integer"

def NumberMode.shape : Shape NumberMode := .name [("float", .float), ("integer", .integer)]

structure ScalarType where
  name : String
  description : Option String
  specifiedByUrl : Option String
  deriving DecidableEq, Repr, Inhabited

namespace ScalarType

def named (name : String) : ScalarType := ⟨name, none, none⟩

def shape : Shape ScalarType := fun t => do
  let fs ← Shape.record ["name", "description", "specifiedByUrl"] false t
  return ⟨← fs.required "name" .string, ← fs.defaulted "description" none (.nullable .string),
    ← fs.defaulted "specifiedByUrl" none (.nullable .string)⟩

def toJson (s : ScalarType) : Json :=
  .obj [("name", .str s.name), ("description", s.description.elim .null .str),
    ("specifiedByUrl", s.specifiedByUrl.elim .null .str)]

end ScalarType

structure BuildOptions where
  /-- Custom scalars by reference name; they come before the built-in ones. -/
  scalarsMap : OrderedMap String ScalarType
  dateMode : DateMode
  numberMode : NumberMode
  directives : List DirectiveDefinition
  skipCheck : Bool
  /-- Directives that keep a type in the schema even when nothing refers to it. -/
  orphanDirectives : List String

namespace BuildOptions

def standard : BuildOptions := ⟨∅, .isoDate, .float, [], false, []⟩

instance : Inhabited BuildOptions := ⟨standard⟩

def isOrphanDirective (o : BuildOptions) (name : String) : Bool := o.orphanDirectives.contains name

def shape : Shape BuildOptions := fun t => do
  let fs ← Shape.record ["scalarsMap", "dateScalarMode", "numberScalarMode", "directives",
    "skipCheck", "orphanDirectives"] false t
  return ⟨← fs.defaulted "scalarsMap" ∅ (.map ScalarType.shape),
    ← fs.defaulted "dateScalarMode" .isoDate DateMode.shape,
    ← fs.defaulted "numberScalarMode" .float NumberMode.shape,
    ← fs.defaulted "directives" [] (.list DirectiveDefinition.shape),
    ← fs.defaulted "skipCheck" false .bool,
    ← fs.defaulted "orphanDirectives" [] (.list .string)⟩

def toJson (o : BuildOptions) : Json :=
  .obj [("scalarsMap", .ofMap (o.scalarsMap.map ScalarType.toJson)),
    ("dateScalarMode", .str o.dateMode.text), ("numberScalarMode", .str o.numberMode.text),
    ("directives", .arr (o.directives.map DirectiveDefinition.toJson)),
    ("skipCheck", .bool o.skipCheck),
    ("orphanDirectives", .arr (o.orphanDirectives.map .str))]

end BuildOptions

end CodeFirst
