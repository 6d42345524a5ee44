import CodeFirst.Registry.Queue

/-! What a program declares about its classes, handlers, scalars and resolver classes. A declaration
may lack a type; it is refused only when its registration runs. -/

namespace CodeFirst

structure PropertyDeclaration where
  name : String
  /-- The name in the schema, if it differs. -/
  schemaName : Option String
  type : Option Reference
  wrapping : Wrapping
  description : Option String
  deprecation : Option String
  default : Option Json
  directives : List Directive

def PropertyDeclaration.compile (d : PropertyDeclaration) (owner : String) :
    Except BuildError Property :=
  match d.type with
  | none => .error (.undeterminedType (.ofMember owner d.name))
  | some type =>
    .ok ⟨d.name, d.schemaName.getD d.name, type, d.wrapping, d.description, d.deprecation,
      d.default, d.directives⟩

structure ClassDeclaration where
  target : EntityId
  /-- The name in the schema, if it is not the entity's name. -/
  name : Option String
  description : Option String
  isAbstract : Bool
  properties : List PropertyDeclaration
  interfaces : List Reference
  directives : List Directive

def ClassDeclaration.compile (d : ClassDeclaration) (r : Registry) :
    Except BuildError ClassRecord := do
  let name := d.name.getD (r.entityName d.target)
  let properties ← d.properties.mapM (·.compile name)
  return ⟨d.target, name, d.description, d.isAbstract, properties, d.interfaces, d.directives⟩

inductive ParameterDeclaration where
  | named (name : String) (type : Option Reference) (wrapping : Wrapping)
      (description : Option String) (default : Option Json)
  | bundle (type : Option Reference)

def ParameterDeclaration.compile (d : ParameterDeclaration) (handler : Location) (index : Nat) :
    Except BuildError Parameter :=
  match d with
  | .named name (some type) wrapping description default =>
    .ok ⟨index, .named name type wrapping description default⟩
  | .bundle (some type) => .ok ⟨index, .bundle type⟩
  | _ => .error (.undeterminedType (handler.withIndex index))

def ParameterDeclaration.compileAll (handler : Location) :
    Nat → List ParameterDeclaration → Except BuildError (List Parameter)
  | _, [] => .ok []
  | index, d :: rest => do
    let p ← d.compile handler index
    return p :: (← compileAll handler (index + 1) rest)

structure HandlerDeclaration where
  target : EntityId
  method : String
  /-- The name in the schema, if it is not the method's name. -/
  name : Option String
  type : Option Reference
  wrapping : Wrapping
  parameters : List ParameterDeclaration
  description : Option String
  deprecation : Option String
  directives : List Directive
  complexity : Option Nat
  extensions : OrderedMap String Json

/-- Root handlers must name their return type. -/
def HandlerDeclaration.compile (d : HandlerDeclaration) (kind : HandlerKind) (r : Registry) :
    Except BuildError Handler := do
  let location := Location.ofMember (r.entityName d.target) d.method
  if d.type.isNone && kind != .field then
    throw (.undefinedReturnType kind.title location)
  let parameters ← ParameterDeclaration.compileAll location 0 d.parameters
  return ⟨d.method, d.name.getD d.method, d.target, d.type, d.wrapping, parameters,
    d.description, d.deprecation, d.directives, d.complexity, d.extensions⟩

inductive Declaration where
  | class (kind : ClassKind) (d : ClassDeclaration)
  | scalar (target : EntityId) (name description : Option String)
  | resolver (record : ResolverRecord)
  | handler (kind : HandlerKind) (d : HandlerDeclaration)

namespace Declaration

def target : Declaration → EntityId
  | .class _ d => d.target
  | .scalar target .. => target
  | .resolver record => record.target
  | .handler _ d => d.target

/-- A declaration that is refused changes nothing. -/
def register (d : Declaration) : Registration := fun r =>
  match d with
  | .class kind d =>
    match d.compile r with
    | .error e => pure (r, .error e)
    | .ok c => return (← r.addClass kind c, .ok ())
  | .scalar target name description =>
    return (← r.addScalar ⟨target, name.getD (r.entityName target), description, none⟩, .ok ())
  | .resolver record => pure (r.addResolver record, .ok ())
  | .handler kind d =>
    match d.compile kind r with
    | .error e => pure (r, .error e)
    | .ok h => return (← r.addHandler kind h, .ok ())

end Declaration

/-- Everything declared for one build so far. Entities are there at once, the rest when the
declarations are finished. -/
structure Declarations where
  registry : Registry
  queue : Queue

namespace Declarations

def empty : Declarations := ⟨∅, ∅⟩

instance : EmptyCollection Declarations := ⟨empty⟩

def entity (ds : Declarations) (name : String) (parent : Option EntityId) : Declarations :=
  { ds with registry := ds.registry.declare name parent }

def setDefaults (ds : Declarations) (id : EntityId) (values : Defaults) : Declarations :=
  { ds with registry := ds.registry.setDefaults id values }

def add (ds : Declarations) (d : Declaration) : Declarations :=
  { ds with queue := ds.queue.enqueue ⟨some d.target, d.register⟩ }

def finish (ds : Declarations) : Trial BuildError Registry := do
  let (_, r, result) ← Trial.ofLogged (ds.queue.drain ds.registry)
  match result with
  | .error e => throw e
  | .ok _ => return r

end Declarations

end CodeFirst
