import CodeFirst.Catalog
import CodeFirst.Entity
import CodeFirst.Kind
import CodeFirst.Options
import CodeFirst.Directive.Usage
import CodeFirst.Schema.TypeNode

/-! Named types in the order in which they were realized. Types refer to each other by their places,
so a cycle of references is no cycle of values. An object, interface or input type starts as a
shell, and is wired when it gets its fields. -/

namespace CodeFirst

structure ResolverSlot where
  /-- The resolver class that exposes the method. -/
  target : EntityId
  method : String
  deriving DecidableEq, Repr

structure FieldNode where
  name : String
  type : TypeNode
  directives : List Directive

structure TypeDefinitionNode where
  name : String
  directives : List Directive

/-- An argument, or a field of an input type. -/
structure InputValue where
  name : String
  description : Option String
  type : TypeNode
  default : Option Json

abbrev InputValues := OrderedMap String InputValue

def InputValues.records (m : InputValues) : List InputValue := m.values

structure Field where
  name : String
  description : Option String
  deprecation : Option String
  type : TypeNode
  arguments : InputValues
  /-- Plain properties have no resolver. -/
  resolver : Option ResolverSlot
  node : Option FieldNode
  extensions : OrderedMap String Json

abbrev Fields := OrderedMap String Field

def Fields.records (m : Fields) : List Field := m.values

structure CompositeType where
  name : String
  description : Option String
  interfaces : List TypeId
  node : Option TypeDefinitionNode
  /-- The declared entity behind the type; roots have none. -/
  origin : Option EntityId
  /-- None before the type is wired. -/
  fields? : Option Fields

structure InputType where
  name : String
  description : Option String
  origin : Option EntityId
  fields? : Option InputValues

inductive NamedType where
  | scalar (t : ScalarType)
  | object (t : CompositeType)
  | interface (t : CompositeType)
  | input (t : InputType)

inductive TypeKind where
  | scalar | object | interface | input
  deriving DecidableEq, Repr

def TypeKind.text : TypeKind → String
  | .scalar => "scalar"
  | .object => "object type"
  | .interface => "interface"
  | .input => "input type"

namespace CompositeType

def fields (t : CompositeType) : List Field := (t.fields?.map Fields.records).getD []
def field? (t : CompositeType) (name : String) : Option Field := t.fields?.bind (·.get? name)
def isWired (t : CompositeType) : Bool := t.fields?.isSome

end CompositeType

namespace InputType

def fields (t : InputType) : List InputValue := (t.fields?.map InputValues.records).getD []
def field? (t : InputType) (name : String) : Option InputValue := t.fields?.bind (·.get? name)
def isWired (t : InputType) : Bool := t.fields?.isSome

end InputType

namespace NamedType

def name : NamedType → String
  | .scalar t => t.name
  | .object t => t.name
  | .interface t => t.name
  | .input t => t.name

def description : NamedType → Option String
  | .scalar t => t.description
  | .object t => t.description
  | .interface t => t.description
  | .input t => t.description

def kind : NamedType → TypeKind
  | .scalar _ => .scalar
  | .object _ => .object
  | .interface _ => .interface
  | .input _ => .input

def object? : NamedType → Option CompositeType
  | .object t => some t
  | _ => none

def interface? : NamedType → Option CompositeType
  | .interface t => some t
  | _ => none

def input? : NamedType → Option InputType
  | .input t => some t
  | _ => none

def declaration? : NamedType → Option (TypeCategory × EntityId)
  | .scalar _ => none
  | .object t => t.origin.map ((.object, ·))
  | .interface t => t.origin.map ((.interface, ·))
  | .input t => t.origin.map ((.input, ·))

/-- Whether a type has all it will ever have. -/
def isWired : NamedType → Bool
  | .scalar _ => true
  | .object t => t.isWired
  | .interface t => t.isWired
  | .input t => t.isWired

end NamedType

structure Schema where
  types : List NamedType
  names : OrderedMap String TypeId
  query : Option TypeId
  mutation : Option TypeId
  subscription : Option TypeId
  directives : List DirectiveDefinition

namespace Schema

def get? (s : Schema) (id : TypeId) : Option NamedType := s.types[id]?
def size (s : Schema) : Nat := s.types.length

def typeId? (s : Schema) (name : String) : Option TypeId := s.names.get? name

def type? (s : Schema) (name : String) : Option NamedType := (s.typeId? name).bind s.get?

def typeName (s : Schema) (id : TypeId) : String := ((s.get? id).map NamedType.name).getD ""

def rootId? (s : Schema) : RootKind → Option TypeId
  | .query => s.query
  | .mutation => s.mutation
  | .subscription => s.subscription

def root? (s : Schema) (kind : RootKind) : Option CompositeType :=
  ((s.rootId? kind).bind s.get?).bind NamedType.object?

def directive? (s : Schema) (name : String) : Option DirectiveDefinition :=
  s.directives.find? (·.name == name)

def typeText (s : Schema) (t : TypeNode) : String := t.text s.typeName

end Schema

end CodeFirst
