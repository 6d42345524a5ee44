import CodeFirst.Json.Shape
import CodeFirst.Newcomers

/-! Directive definitions. -/

namespace CodeFirst

inductive DirectiveLocation where
  | query | mutation | subscription | field
  | fragmentDefinition | fragmentSpread | inlineFragment | variableDefinition
  | schema | scalar | object | fieldDefinition | argumentDefinition | interface
  | union | enum | enumValue | inputObject | inputFieldDefinition
  deriving DecidableEq, Repr, Inhabited

namespace DirectiveLocation

def all : List DirectiveLocation :=
  [.query, .mutation, .subscription, .field, .fragmentDefinition, .fragmentSpread,
    .inlineFragment, .variableDefinition, .schema, .scalar, .object, .fieldDefinition,
    .argumentDefinition, .interface, .union, .enum, .enumValue, .inputObject,
    .inputFieldDefinition]

def text : DirectiveLocation → String
  | .query => "QUERY"
  | .mutation => "MUTATION"
  | .subscription => "SUBSCRIPTION"
  | .field => "FIELD"
  | .fragmentDefinition => "FRAGMENT_DEFINITION"
  | .fragmentSpread => "FRAGMENT_SPREAD"
  | .inlineFragment => "INLINE_FRAGMENT"
  | .variableDefinition => "VARIABLE_DEFINITION"
  | .schema => "SCHEMA"
  | .scalar => "SCALAR"
  | .object => "OBJECT"
  | .fieldDefinition => "FIELD_DEFINITION"
  | .argumentDefinition => "ARGUMENT_DEFINITION"
  | .interface => "INTERFACE"
  | .union => "UNION"
  | .enum => "ENUM"
  | .enumValue => "ENUM_VALUE"
  | .inputObject => "INPUT_OBJECT"
  | .inputFieldDefinition => "INPUT_FIELD_DEFINITION"

def choices : List (String × DirectiveLocation) := all.map fun l => (l.text, l)

theorem lookup_text (l : DirectiveLocation) : lookupEntry l.text choices = some l := by
  cases l <;> decide

def shape : Shape DirectiveLocation := .name choices

end DirectiveLocation

structure DirectiveArgument where
  name : String
  description : Option String
  /-- The type in schema notation, such as `[String!]!`. -/
  type : String
  default : Option Json

namespace DirectiveArgument

def shape : Shape DirectiveArgument := fun t => do
  let fs ← Shape.record ["name", "description", "type", "defaultValue"] false t
  return ⟨← fs.required "name" .string, ← fs.defaulted "description" none (.nullable .string),
    ← fs.required "type" .string, ← fs.defaulted "defaultValue" none (.nullable .value)⟩

def toJson (a : DirectiveArgument) : Json :=
  .obj [("name", .str a.name), ("description", a.description.elim .null .str),
    ("type", .str a.type), ("defaultValue", a.default.getD .null)]

end DirectiveArgument

structure DirectiveDefinition where
  name : String
  description : Option String
  arguments : OrderedMap String DirectiveArgument
  locations : List DirectiveLocation
  repeatable : Bool

namespace DirectiveDefinition

def shape : Shape DirectiveDefinition := fun t => do
  let fs ← Shape.record ["name", "description", "arguments", "locations", "repeatable"] false t
  return ⟨← fs.required "name" .string, ← fs.defaulted "description" none (.nullable .string),
    ← fs.defaulted "arguments" ∅ (.map DirectiveArgument.shape),
    ← fs.required "locations" (.list DirectiveLocation.shape),
    ← fs.defaulted "repeatable" false .bool⟩

def toJson (d : DirectiveDefinition) : Json :=
  .obj [("name", .str d.name), ("description", d.description.elim .null .str),
    ("arguments", .ofMap (d.arguments.map DirectiveArgument.toJson)),
    ("locations", .arr (d.locations.map fun l => .str l.text)),
    ("repeatable", .bool d.repeatable)]

end DirectiveDefinition

/-- Appends definitions; of several with one name the first stays. -/
def mergeDirectives (target extra : List DirectiveDefinition) : List DirectiveDefinition :=
  appendNew (fun old new => old.name == new.name) target extra

theorem mergeDirectives_append (target l m : List DirectiveDefinition) :
    mergeDirectives target (l ++ m) = mergeDirectives (mergeDirectives target l) m :=
  appendNew_append target l m

theorem nodup_mergeDirectives {target l : List DirectiveDefinition}
    (h : (target.map (·.name)).Nodup) : ((mergeDirectives target l).map (·.name)).Nodup :=
  nodup_appendNew (fun _ _ hk => by simpa using hk) h

end CodeFirst
