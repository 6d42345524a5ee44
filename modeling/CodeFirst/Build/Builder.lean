import CodeFirst.Build.Wiring
import CodeFirst.Directive.Federation
import CodeFirst.Schema.Validation

/-! From a registry to a schema: names are checked, roots are built from the exposed handlers,
orphans are realized, and the result is validated. A federated build is a plain one with other
options. -/

namespace CodeFirst

/-- A declaration that claims a schema name: its category (none for scalars) and entity. -/
structure Claim where
  name : String
  owner : Option TypeCategory × EntityId
  label : String
  deriving DecidableEq, Repr

namespace Claim

def ofClass (r : Registry) (category : TypeCategory) (c : ClassRecord) : Claim :=
  ⟨c.name, (some category, c.target),
    declarationLabel category.classKind c.name (r.entityName c.target)⟩

def ofScalar (s : ScalarRecord) : Claim := ⟨s.name, (none, s.target), scalarLabel s.name⟩

/-- All claims of a registry. Abstract classes claim nothing. -/
def all (r : Registry) : List Claim :=
  ([.object, .interface, .input] : List TypeCategory).flatMap (fun k =>
      ((r.classes k.classKind).records.filter (!·.isAbstract)).map (ofClass r k)) ++
    r.scalars.records.map ofScalar

def check (made : List Claim) : List Claim → Except BuildError Unit
  | [] => .ok ()
  | c :: rest =>
    match made.find? (·.name == c.name) with
    | none => check (made ++ [c]) rest
    | some first =>
      if first.owner = c.owner then check made rest
      else .error (.namingConflict c.name first.label c.label)

end Claim

/-- Refuses a registry in which two declarations claim one schema name. -/
def Registry.checkNames (r : Registry) : Except BuildError Unit := Claim.check [] (Claim.all r)

def RootKind.shell (kind : RootKind) : NamedType :=
  .object ⟨kind.typeName, none, [], none, none, none⟩

namespace Setting

variable (set : Setting)

/-- The field of a root that shows a binding. The entity that it returns is registered as an
orphan. -/
def rootField (kind : RootKind) (fields : Fields) (b : Binding) : Realize set.registry Field := do
  let type ← Realize.ofOption
    (.undefinedReturnType kind.typeName (b.handler.location set.registry)) b.handler.type
  if fields.contains b.handler.schemaName then
    Realize.fail (.duplicateField kind.typeName b.handler.schemaName)
  else do
    Realize.registerReference type
    Realize.handlerField set.options b type b.handler.wrapping

def rootFields (kind : RootKind) (fields : Fields) :
    List Binding → Realize set.registry Fields
  | [] => pure fields
  | b :: rest => do
    let f ← set.rootField kind fields b
    rootFields kind (fields.insert f.name f) rest

def addRoot (kind : RootKind) : Construction TypeId := fun s =>
  match s.typeId? kind.typeName with
  | some i => (.error (nameClash set.registry s i kind.shell), s)
  | none => (.ok s.types.length, s.addType kind.shell)

/-- Builds the root of one operation; without handlers there is none. -/
def buildRoot (kind : RootKind) : Construction (Option TypeId) := do
  let exposed := Exposure.exposed set.registry set.filter (.root kind)
  exposed.events.forM Construction.report
  match exposed.result with
  | [] =>
    Construction.report (.rootOmitted kind)
    return none
  | bindings =>
    let place ← set.addRoot kind
    let fields ← (set.rootFields kind ∅ bindings).run
    Construction.report (.rootBuilt kind fields.size)
    Construction.modify (·.wire place (.composite ⟨[], fields⟩))
    return some place

/-- The declared object types and interfaces with a directive that keeps them in the schema. -/
def kept (r : Registry) (o : BuildOptions) : List EntityId :=
  ((r.objects.records ++ r.interfaces.records).filter fun c =>
    c.directives.any fun d => o.isOrphanDirective d.name).map (·.target)

/-- Realizes scalars that no declaration needs to mention. -/
def addScalars : List ScalarType → Realize set.registry Unit
  | [] => pure ()
  | t :: rest => do
    let _ ← Realize.scalar t
    addScalars rest

structure Roots where
  query : Option TypeId
  mutation : Option TypeId
  subscription : Option TypeId

/-- Realizes everything a schema consists of; also counts the types that only orphans brought. -/
def construct (orphaned : List EntityId) (scalars : List ScalarType) :
    Construction (Roots × Nat) := do
  let query ← set.buildRoot .query
  let mutation ← set.buildRoot .mutation
  let subscription ← set.buildRoot .subscription
  Construction.modify fun s =>
    { s with orphans := s.orphans.registerMany (orphaned ++ kept set.registry set.options) }
  let orphans ← (set.realizeOrphans 0 : Construction Nat)
  (set.addScalars scalars).run
  return (⟨query, mutation, subscription⟩, orphans)

/-- The directive definitions of a schema: the specified ones, then the configured ones. -/
def directives (o : BuildOptions) : List DirectiveDefinition :=
  mergeDirectives DirectiveDefinition.specified o.directives

end Setting

structure BuildRequest where
  options : BuildOptions
  resolvers : ResolverFilter
  /-- Types to realize even if nothing refers to them. -/
  orphaned : List EntityId

/-- Everything that a schema consists of, before it is validated. -/
structure Built where
  roots : Setting.Roots
  /-- The number of types that only orphans brought. -/
  orphanCount : Nat
  final : Realization

def Built.schema (b : Built) (o : BuildOptions) : Schema :=
  ⟨b.final.types, b.final.index.names, b.roots.query, b.roots.mutation, b.roots.subscription,
    Setting.directives o⟩

namespace BuildRequest

def realize (q : BuildRequest) (r : Registry) (o : BuildOptions) (scalars : List ScalarType) :
    Trial BuildError Built := do
  Trial.ofExcept r.checkNames
  let set ← Setting.prepare r o q.resolvers
  let (result, s) := set.construct q.orphaned scalars .empty
  s.log.forM Trial.tell
  let (roots, orphanCount) ← Trial.ofExcept result
  return ⟨roots, orphanCount, s⟩

def buildWith (q : BuildRequest) (r : Registry) (o : BuildOptions) (scalars : List ScalarType) :
    Trial BuildError Schema := do
  let b ← q.realize r o scalars
  if !o.skipCheck then Trial.ofExcept (b.schema o).check
  Trial.tell (.built b.final.types.length b.orphanCount b.roots.query.isSome
    b.roots.mutation.isSome b.roots.subscription.isSome)
  return b.schema o

def build (q : BuildRequest) (r : Registry) : Trial BuildError Schema := q.buildWith r q.options []

/-- The options of a federated build: the federation definitions come before the configured ones,
and validation is left out. -/
def federatedOptions (o : BuildOptions) (f : FederationSet) : BuildOptions :=
  { o with
    directives := mergeDirectives (mergeDirectives DirectiveDefinition.specified f.directives)
      o.directives
    skipCheck := true
    orphanDirectives := appendNew (· == ·) o.orphanDirectives f.orphanDirectives }

def buildFederated (q : BuildRequest) (r : Registry) (source : DirectiveSource) :
    Trial BuildError Schema := do
  let f ← source.load
  Trial.tell (.federated source.name f.directives.length)
  q.buildWith r (federatedOptions q.options f) f.scalars

def buildFrom (q : BuildRequest) (r : Registry) : Option DirectiveSource → Trial BuildError Schema
  | none => q.build r
  | some source => q.buildFederated r source

end BuildRequest

end CodeFirst
