import CodeFirst.Registry.Record
import CodeFirst.Report.Event

/-! Entities and the records about them. Each category of records is a catalog keyed by what the
record is about, so a second record about the same thing is merged into the first, and the order is
that of first registration. -/

namespace CodeFirst

abbrev ClassCatalog := Catalog ClassRecord.target
abbrev HandlerCatalog := Catalog Handler.key

structure Registry where
  entities : EntityTable
  objects : ClassCatalog
  inputs : ClassCatalog
  interfaces : ClassCatalog
  args : ClassCatalog
  scalars : Catalog ScalarRecord.target
  resolvers : Catalog ResolverRecord.target
  queries : HandlerCatalog
  mutations : HandlerCatalog
  subscriptions : HandlerCatalog
  fieldResolvers : HandlerCatalog

namespace Registry

def empty : Registry := ⟨∅, ∅, ∅, ∅, ∅, ∅, ∅, ∅, ∅, ∅, ∅⟩

instance : EmptyCollection Registry := ⟨empty⟩
instance : Inhabited Registry := ⟨empty⟩

def classes (r : Registry) : ClassKind → ClassCatalog
  | .object => r.objects
  | .input => r.inputs
  | .interface => r.interfaces
  | .args => r.args

def setClasses (r : Registry) (kind : ClassKind) (c : ClassCatalog) : Registry :=
  match kind with
  | .object => { r with objects := c }
  | .input => { r with inputs := c }
  | .interface => { r with interfaces := c }
  | .args => { r with args := c }

theorem classes_setClasses (r : Registry) (kind k : ClassKind) (c : ClassCatalog) :
    (r.setClasses kind c).classes k = if k = kind then c else r.classes k := by
  cases kind <;> cases k <;> rfl

def handlers (r : Registry) : HandlerKind → HandlerCatalog
  | .root .query => r.queries
  | .root .mutation => r.mutations
  | .root .subscription => r.subscriptions
  | .field => r.fieldResolvers

def setHandlers (r : Registry) (kind : HandlerKind) (c : HandlerCatalog) : Registry :=
  match kind with
  | .root .query => { r with queries := c }
  | .root .mutation => { r with mutations := c }
  | .root .subscription => { r with subscriptions := c }
  | .field => { r with fieldResolvers := c }

theorem handlers_setHandlers (r : Registry) (kind k : HandlerKind) (c : HandlerCatalog) :
    (r.setHandlers kind c).handlers k = if k = kind then c else r.handlers k := by
  rcases kind with (_ | _ | _) | _ <;> rcases k with (_ | _ | _) | _ <;> rfl

def entityName (r : Registry) (id : EntityId) : String := r.entities.name id
def class? (r : Registry) (kind : ClassKind) (id : EntityId) : Option ClassRecord :=
  (r.classes kind).get? id
def scalar? (r : Registry) (id : EntityId) : Option ScalarRecord := r.scalars.get? id
def resolver? (r : Registry) (id : EntityId) : Option ResolverRecord := r.resolvers.get? id

def isAbstractResolver (r : Registry) (id : EntityId) : Bool :=
  ((r.resolver? id).map (·.isAbstract)).getD false

def ancestorClasses (r : Registry) (kind : ClassKind) (id : EntityId) : List ClassRecord :=
  (r.entities.ancestors id).filterMap (r.class? kind)

def classChain (r : Registry) (kind : ClassKind) (id : EntityId) : List ClassRecord :=
  (r.entities.lineage id).filterMap (r.class? kind)

theorem classChain_eq (r : Registry) (kind : ClassKind) (id : EntityId) :
    r.classChain kind id = r.ancestorClasses kind id ++ (r.class? kind id).toList := by
  simp only [classChain, ancestorClasses, EntityTable.lineage, List.filterMap_append,
    List.filterMap_cons, List.filterMap_nil]
  cases r.class? kind id <;> rfl

theorem target_of_class? {r : Registry} {kind : ClassKind} {id : EntityId} {c : ClassRecord}
    (h : r.class? kind id = some c) : c.target = id := Catalog.key_of_get? h

def declare (r : Registry) (name : String) (parent : Option EntityId) : Registry :=
  { r with entities := r.entities.declare name parent }

def setDefaults (r : Registry) (id : EntityId) (values : Defaults) : Registry :=
  { r with entities := r.entities.setDefaults id values }

/-- Adds a class record. Properties that are passed over are reported one by one. -/
def addClass (r : Registry) (kind : ClassKind) (c : ClassRecord) : Logged Registry :=
  match r.class? kind c.target with
  | some old =>
    ⟨r.setClasses kind ((r.classes kind).put (old.merge c)),
      (old.skipped c).map (.skippedField kind old.name ·) ++ [.classMerged kind old.name]⟩
  | none => ⟨r.setClasses kind ((r.classes kind).put c), [.classRegistered kind c.name]⟩

def addHandler (r : Registry) (kind : HandlerKind) (h : Handler) : Logged Registry :=
  match (r.handlers kind).get? h.key with
  | some old =>
    ⟨r.setHandlers kind ((r.handlers kind).put (old.merge h)),
      [.handlerMerged kind old.method (old.skipped h)]⟩
  | none => ⟨r.setHandlers kind ((r.handlers kind).put h), [.handlerRegistered kind h.method]⟩

/-- Adds a scalar record in the place of an earlier one about the same entity. -/
def addScalar (r : Registry) (s : ScalarRecord) : Logged Registry :=
  ⟨{ r with scalars := r.scalars.put s }, [.scalarRegistered s.name]⟩

def addResolver (r : Registry) (x : ResolverRecord) : Registry :=
  match r.resolver? x.target with
  | some old => { r with resolvers := r.resolvers.put (old.merge x) }
  | none => { r with resolvers := r.resolvers.put x }

end Registry

end CodeFirst
