import CodeFirst.Directive.Usage
import CodeFirst.Options
import CodeFirst.Wrapping

/-! A JSON document that lists types and resolver classes by name. The records of a document are
closed: a key they do not know is refused. -/

namespace CodeFirst

namespace Document

inductive EntryKind where
  | object | interface | input | args | scalar
  deriving DecidableEq, Repr

def EntryKind.shape : Shape EntryKind :=
  .name [("object", .object), ("interface", .interface), ("input", .input), ("args", .args),
    ("scalar", .scalar)]

structure FieldEntry where
  name : String
  type : Option String
  schemaName : Option String
  nullable : Bool
  arrayNullable : Option ItemNullability
  description : Option String
  deprecation : Option String
  default : Option Json
  /-- What a new instance assigns. -/
  instanceDefault : Option Json
  directives : List Directive

def FieldEntry.shape : Shape FieldEntry := fun t => do
  let fs ← Shape.record ["name", "type", "schemaName", "nullable", "arrayNullable", "description",
    "deprecationReason", "default", "instanceDefault", "directives"] true t
  return ⟨← fs.required "name" .string, ← fs.optional "type" .string,
    ← fs.optional "schemaName" .string, ← fs.defaulted "nullable" false .bool,
    ← fs.optional "arrayNullable" ItemNullability.shape, ← fs.optional "description" .string,
    ← fs.optional "deprecationReason" .string, ← fs.optional "default" .value,
    ← fs.optional "instanceDefault" .value, ← fs.defaulted "directives" [] (.list Directive.shape)⟩

structure TypeEntry where
  /-- The entity's name. Entries of different kinds may share an entity. -/
  name : String
  kind : EntryKind
  schemaName : Option String
  description : Option String
  parent : Option String
  isAbstract : Bool
  interfaces : List String
  fields : List FieldEntry
  directives : List Directive

def TypeEntry.shape : Shape TypeEntry := fun t => do
  let fs ← Shape.record ["name", "kind", "schemaName", "description", "extends", "abstract",
    "implements", "fields", "directives"] true t
  return ⟨← fs.required "name" .string, ← fs.required "kind" EntryKind.shape,
    ← fs.optional "schemaName" .string, ← fs.optional "description" .string,
    ← fs.optional "extends" .string, ← fs.defaulted "abstract" false .bool,
    ← fs.defaulted "implements" [] (.list .string),
    ← fs.defaulted "fields" [] (.list FieldEntry.shape),
    ← fs.defaulted "directives" [] (.list Directive.shape)⟩

inductive ArgumentEntry where
  | bundle (args : String)
  | named (name type : String) (nullable : Bool) (arrayNullable : Option ItemNullability)
      (description : Option String) (default : Option Json)

namespace ArgumentEntry

/-- Only an object is a bundle; other keys beside `args` are passed over. -/
def bundleShape : Shape ArgumentEntry := fun t => do
  let fs ← Shape.record ["args"] false t
  if fs.positional then none
  return .bundle (← fs.required "args" .string)

def namedShape : Shape ArgumentEntry := fun t => do
  let fs ← Shape.record ["name", "type", "nullable", "arrayNullable", "description", "default"]
    true t
  return .named (← fs.required "name" .string) (← fs.required "type" .string)
    (← fs.defaulted "nullable" false .bool) (← fs.optional "arrayNullable" ItemNullability.shape)
    (← fs.optional "description" .string) (← fs.optional "default" .value)

/-- A bundle if it can be one. Every part of the entry must stand for a value, even one that is
passed over. -/
def shape : Shape ArgumentEntry := fun t =>
  t.value?.bind fun _ => bundleShape t <|> namedShape t

end ArgumentEntry

structure HandlerEntry where
  name : String
  schemaName : Option String
  type : Option String
  nullable : Bool
  arrayNullable : Option ItemNullability
  description : Option String
  deprecation : Option String
  complexity : Option Nat
  args : List ArgumentEntry
  directives : List Directive
  extensions : OrderedMap String Json

def HandlerEntry.shape : Shape HandlerEntry := fun t => do
  let fs ← Shape.record ["name", "schemaName", "type", "nullable", "arrayNullable", "description",
    "deprecationReason", "complexity", "args", "directives", "extensions"] true t
  return ⟨← fs.required "name" .string, ← fs.optional "schemaName" .string,
    ← fs.optional "type" .string, ← fs.defaulted "nullable" false .bool,
    ← fs.optional "arrayNullable" ItemNullability.shape, ← fs.optional "description" .string,
    ← fs.optional "deprecationReason" .string,
    ← fs.optional "complexity" (.natBelow (powerOfTwo 32)),
    ← fs.defaulted "args" [] (.list ArgumentEntry.shape),
    ← fs.defaulted "directives" [] (.list Directive.shape),
    ← fs.defaulted "extensions" ∅ (.map .value)⟩

structure ResolverEntry where
  name : String
  parent : Option String
  /-- The object type that field resolvers attach to. -/
  of : Option String
  isAbstract : Bool
  queries : List HandlerEntry
  mutations : List HandlerEntry
  subscriptions : List HandlerEntry
  fields : List HandlerEntry

def ResolverEntry.shape : Shape ResolverEntry := fun t => do
  let fs ← Shape.record ["name", "extends", "of", "abstract", "queries", "mutations",
    "subscriptions", "fields"] true t
  let handlers := Shape.list HandlerEntry.shape
  return ⟨← fs.required "name" .string, ← fs.optional "extends" .string,
    ← fs.optional "of" .string, ← fs.defaulted "abstract" false .bool,
    ← fs.defaulted "queries" [] handlers, ← fs.defaulted "mutations" [] handlers,
    ← fs.defaulted "subscriptions" [] handlers, ← fs.defaulted "fields" [] handlers⟩

end Document

structure Document where
  types : List Document.TypeEntry
  resolvers : List Document.ResolverEntry
  /-- Types to realize even if nothing refers to them. -/
  orphanedTypes : List String
  options : BuildOptions

def Document.shape : Shape Document := fun t => do
  let fs ← Shape.record ["types", "resolvers", "orphanedTypes", "options"] true t
  return ⟨← fs.defaulted "types" [] (.list Document.TypeEntry.shape),
    ← fs.defaulted "resolvers" [] (.list Document.ResolverEntry.shape),
    ← fs.defaulted "orphanedTypes" [] (.list .string),
    ← fs.defaulted "options" .standard BuildOptions.shape⟩

end CodeFirst
