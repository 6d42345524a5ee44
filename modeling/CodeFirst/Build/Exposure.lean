import CodeFirst.Registry.Basic
import CodeFirst.Report.BuildError

/-! Which resolver class exposes which handler. A class exposes its own handlers, and inherits those
of abstract classes that it extends; a nearer handler hides a farther one of the same schema name.
-/

namespace CodeFirst

/-- A handler as exposed by a resolver class, which may have inherited it. -/
structure Binding where
  owner : EntityId
  handler : Handler

/-- The resolver classes of a build; without a list, all of them. -/
abbrev ResolverFilter := Option (List EntityId)

def ResolverFilter.includes (f : ResolverFilter) (id : EntityId) : Bool :=
  match f with
  | none => true
  | some ids => ids.contains id

namespace Exposure

variable (r : Registry) (filter : ResolverFilter)

/-- Handlers bound to the classes that declare them, abstract classes left out. -/
def direct (handlers : List Handler) : List Binding :=
  (handlers.filter fun h => !r.isAbstractResolver h.target && filter.includes h.target).map
    fun h => ⟨h.target, h⟩

/-- Keeps the first handler of each schema name that is not taken already. -/
def unhidden (taken : List String) : List Handler → List Handler
  | [] => []
  | h :: rest =>
    if h.schemaName ∈ taken then unhidden taken rest
    else h :: unhidden (h.schemaName :: taken) rest

/-- Whether a class takes over handlers of abstract ancestors. -/
def inherits (id : EntityId) : Bool :=
  !r.isAbstractResolver id && (r.resolver? id).isSome && filter.includes id

def candidates (handlers : List Handler) (id : EntityId) : List Handler :=
  (r.entities.ancestors id).reverse.flatMap fun a =>
    handlers.filter fun h => h.target == a && r.isAbstractResolver h.target

/-- What a class inherits: handlers whose names it does not declare itself. -/
def inheritedBy (handlers : List Handler) (id : EntityId) : List Binding :=
  (unhidden ((handlers.filter (·.target == id)).map (·.schemaName)) (candidates r handlers id)).map
    fun h => ⟨id, h⟩

def inherited (handlers : List Handler) : List Binding :=
  (r.entities.ids.filter (inherits r filter)).flatMap (inheritedBy r handlers)

/-- Own handlers in order of registration, then the inherited ones. -/
def bindings (handlers : List Handler) : List Binding :=
  direct r filter handlers ++ inherited r filter handlers

def events (handlers : List Handler) : List Event :=
  (inherited r filter handlers).map fun b =>
    .handlerInherited (r.entityName b.owner) b.handler.method

def exposed (kind : HandlerKind) : Logged (List Binding) :=
  ⟨bindings r filter (r.handlers kind).records, events r filter (r.handlers kind).records⟩

/-- The reference to the object type that a class augments: the nearest one named by the class or
its ancestors. -/
def objectReference? (id : EntityId) : Option Reference :=
  (r.entities.nearestFirst id).findSome? fun c => (r.resolver? c).bind (·.of)

def augmented? (id : EntityId) : Option ClassRecord :=
  ((objectReference? r id).bind Reference.entity?).bind (r.class? .object)

end Exposure

structure Attachment where
  object : EntityId
  binding : Binding

namespace Attachment

/-- Adds field resolvers in order. The first resolver of a field stays: another one is passed over
if its class is the same, and refused if it is not. -/
def attach (r : Registry) (attached : List Attachment) :
    List Binding → Except BuildError (List Attachment)
  | [] => .ok attached
  | b :: rest =>
    match Exposure.augmented? r b.owner with
    | none => .error (.undefinedResolverType (r.entityName b.owner))
    | some object =>
      match attached.find? fun a =>
          a.object == object.target && a.binding.handler.schemaName == b.handler.schemaName with
      | none => attach r (attached ++ [⟨object.target, b⟩]) rest
      | some a =>
        if a.binding.owner = b.owner then attach r attached rest
        else .error (.duplicateField object.name b.handler.schemaName)

end Attachment

end CodeFirst
