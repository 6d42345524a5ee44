import CodeFirst.Catalog
import CodeFirst.Newcomers
import CodeFirst.Kind
import CodeFirst.Reference
import CodeFirst.Wrapping
import CodeFirst.Directive.Usage

/-! What the registry knows about a class, a handler, a scalar or a resolver class, and how a record
of something already known is merged into the first one. -/

namespace CodeFirst

structure Property where
  name : String
  schemaName : String
  type : Reference
  wrapping : Wrapping
  description : Option String
  deprecation : Option String
  /-- The explicit default, for instances that assign none. -/
  default : Option Json
  directives : List Directive

structure ClassRecord where
  target : EntityId
  name : String
  description : Option String
  /-- An abstract class lends its fields to others. -/
  isAbstract : Bool
  properties : List Property
  interfaces : List Reference
  directives : List Directive

namespace ClassRecord

def property? (c : ClassRecord) (schemaName : String) : Option Property :=
  c.properties.find? (·.schemaName == schemaName)

def sameProperty (known new : Property) : Bool := known.schemaName == new.schemaName

/-- Merges a later record of the same class: new properties, interfaces and directives are
appended, and what only one of the two says is kept. -/
def merge (c other : ClassRecord) : ClassRecord where
  target := c.target
  name := c.name
  description := c.description <|> other.description
  isAbstract := c.isAbstract || other.isAbstract
  properties := appendNew sameProperty c.properties other.properties
  interfaces := appendNew Reference.same c.interfaces other.interfaces
  directives := appendNew Directive.same c.directives other.directives

def skipped (c other : ClassRecord) : List String :=
  (leftOut sameProperty c.properties other.properties).map (·.schemaName)

@[simp] theorem target_merge (c other : ClassRecord) : (c.merge other).target = c.target := rfl
@[simp] theorem name_merge (c other : ClassRecord) : (c.merge other).name = c.name := rfl

end ClassRecord

inductive ParameterKind where
  | named (name : String) (type : Reference) (wrapping : Wrapping)
      (description : Option String) (default : Option Json)
  /-- All the fields of an arguments type. -/
  | bundle (type : Reference)

structure Parameter where
  /-- The place in the handler's signature. -/
  index : Nat
  kind : ParameterKind

/-- Named parameters are the same by name, all others by place. -/
def Parameter.same (a b : Parameter) : Bool :=
  match a.kind, b.kind with
  | .named x .., .named y .. => x == y
  | _, _ => a.index == b.index

structure Handler where
  method : String
  schemaName : String
  target : EntityId
  /-- Field resolvers may leave their type to the property they replace. -/
  type : Option Reference
  wrapping : Wrapping
  parameters : List Parameter
  description : Option String
  deprecation : Option String
  directives : List Directive
  complexity : Option Nat
  extensions : OrderedMap String Json

namespace Handler

def key (h : Handler) : EntityId × String := (h.target, h.method)

/-- Merges a later record of the same handler: new parameters, directives and extensions are
appended. -/
def merge (h other : Handler) : Handler :=
  { h with
    parameters := appendNew Parameter.same h.parameters other.parameters
    directives := appendNew Directive.same h.directives other.directives
    extensions := other.extensions.entries.foldl (fun m e => m.insertIfNew e.1 e.2) h.extensions }

def skipped (h other : Handler) : Nat :=
  (leftOut Parameter.same h.parameters other.parameters).length

@[simp] theorem key_merge (h other : Handler) : (h.merge other).key = h.key := rfl

end Handler

structure ScalarRecord where
  target : EntityId
  name : String
  description : Option String
  specifiedByUrl : Option String
  deriving DecidableEq, Repr

structure ResolverRecord where
  target : EntityId
  /-- The object type whose fields the class resolves. -/
  of : Option Reference
  isAbstract : Bool
  deriving DecidableEq, Repr

/-- Merges a later record of the same resolver class; a type that it names replaces the old one. -/
def ResolverRecord.merge (r other : ResolverRecord) : ResolverRecord :=
  ⟨r.target, other.of <|> r.of, r.isAbstract || other.isAbstract⟩

end CodeFirst
