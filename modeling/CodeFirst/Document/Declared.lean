import CodeFirst.Document.Lineage

/-! The entries of a document become declarations, types before resolver classes, each in the order
of the document; then the declarations are finished. -/

namespace CodeFirst

structure DeclaredDocument where
  registry : Registry
  entities : Document.Scope
  orphaned : List EntityId
  options : BuildOptions

namespace Document

def Scope.entity (scope : Scope) (name : String) : Except DocumentError EntityId :=
  match scope.get? name with
  | some id => .ok id
  | none => .error (.unknownType name)

def Scope.reference (scope : Scope) (text : String) : Except DocumentError Reference :=
  readType scope text.toList

def Scope.reference? (scope : Scope) : Option String → Except DocumentError (Option Reference)
  | none => .ok none
  | some text => (scope.reference text).map some

/-- The wrapping of an entry. Lists come from the type text alone. -/
def wrapping (nullable : Bool) (arrayNullable : Option ItemNullability) : Wrapping :=
  { Wrapping.plain with nullable, arrayNullable := arrayNullable.getD (.all false) }

def FieldEntry.declaration (scope : Scope) (e : FieldEntry) :
    Except DocumentError PropertyDeclaration := do
  let type ← scope.reference? e.type
  return ⟨e.name, e.schemaName, type, wrapping e.nullable e.arrayNullable, e.description,
    e.deprecation, e.default, e.directives⟩

def TypeEntry.defaults (e : TypeEntry) : Defaults :=
  .ofList (e.fields.filterMap fun f => f.instanceDefault.map (f.name, ·))

def TypeEntry.classDeclaration (scope : Scope) (target : EntityId) (e : TypeEntry) :
    Except DocumentError ClassDeclaration := do
  let interfaces ← e.interfaces.mapM fun name => (scope.entity name).map Reference.declared
  let properties ← e.fields.mapM (FieldEntry.declaration scope)
  return ⟨target, e.schemaName, e.description, e.isAbstract, properties, interfaces, e.directives⟩

def EntryKind.classKind? : EntryKind → Option ClassKind
  | .object => some .object
  | .interface => some .interface
  | .input => some .input
  | .args => some .args
  | .scalar => none

/-- Adds the declarations of one type entry. An entry with instance defaults replaces those of
earlier entries of the same entity. -/
def TypeEntry.declare (scope : Scope) (ds : Declarations) (e : TypeEntry) :
    Except DocumentError Declarations := do
  let target ← scope.entity e.name
  match e.kind.classKind? with
  | none => return ds.add (.scalar target e.schemaName e.description)
  | some kind =>
    let ds := if e.defaults.isEmpty then ds else ds.setDefaults target e.defaults
    return ds.add (.class kind (← e.classDeclaration scope target))

def ArgumentEntry.declaration (scope : Scope) :
    ArgumentEntry → Except DocumentError ParameterDeclaration
  | .bundle args => (scope.entity args).map fun id => .bundle (some (.declared id))
  | .named name type nullable arrayNullable description default => do
    let type ← scope.reference type
    return .named name (some type) (wrapping nullable arrayNullable) description default

def HandlerEntry.declaration (scope : Scope) (target : EntityId) (e : HandlerEntry) :
    Except DocumentError HandlerDeclaration := do
  let type ← scope.reference? e.type
  let parameters ← e.args.mapM (ArgumentEntry.declaration scope)
  return ⟨target, e.name, e.schemaName, type, wrapping e.nullable e.arrayNullable, parameters,
    e.description, e.deprecation, e.directives, e.complexity, e.extensions⟩

def declareHandlers (scope : Scope) (target : EntityId) (kind : HandlerKind) (ds : Declarations)
    (es : List HandlerEntry) : Except DocumentError Declarations :=
  es.foldlM (fun ds e => do return ds.add (.handler kind (← e.declaration scope target))) ds

def ResolverEntry.declare (scope : Scope) (ds : Declarations) (e : ResolverEntry) :
    Except DocumentError Declarations := do
  let target ← scope.entity e.name
  let object ← match e.of with
    | none => pure none
    | some name => (scope.entity name).map (some ∘ Reference.declared)
  let ds := ds.add (.resolver ⟨target, object, e.isAbstract⟩)
  let ds ← declareHandlers scope target (.root .query) ds e.queries
  let ds ← declareHandlers scope target (.root .mutation) ds e.mutations
  let ds ← declareHandlers scope target (.root .subscription) ds e.subscriptions
  declareHandlers scope target .field ds e.fields

/-- All declarations of a document, with the names and the entities to keep. -/
def declarations (d : Document) :
    Except DocumentError (Declarations × Scope × List EntityId) := do
  let ⟨ds, scope⟩ ← d.declareEntities
  let ds ← d.types.foldlM (TypeEntry.declare scope) ds
  let ds ← d.resolvers.foldlM (ResolverEntry.declare scope) ds
  let orphaned ← d.orphanedTypes.mapM scope.entity
  return (ds, scope, orphaned)

/-- Carries a step of the build over into documents. -/
def ofBuild {α : Type} (x : Trial BuildError α) : Trial DocumentError α :=
  ExceptT.adapt DocumentError.build x

def declare (d : Document) : Trial DocumentError DeclaredDocument := do
  let (ds, scope, orphaned) ← Trial.ofExcept d.declarations
  let registry ← ofBuild ds.finish
  Trial.tell (.documentDeclared scope.size)
  return ⟨registry, scope, orphaned, d.options⟩

def ofText (source : String) : Except DocumentError Document :=
  match Document.shape.ofText source with
  | some d => .ok d
  | none => .error .malformed

end Document

end CodeFirst
