import CodeFirst.Build.Arguments

/-! The interfaces and fields of an object or interface type. As with arguments, the contributions
are listed first and then realized in turn: the fields of implemented interfaces, of ancestors, the
type's own, and for objects the field resolvers. -/

namespace CodeFirst

/-- One contribution to an object or interface type. -/
inductive Contribution where
  | interface (host : Location) (id : EntityId)
  /-- An implemented reference with no entity behind it. -/
  | noInterface (host : Location)
  | property (declaring : ClassRecord) (p : Property)
  /-- A field resolver, with the type and wrapping of its field if there are any. -/
  | resolver (b : Binding) (type : Option (Reference × Wrapping))

namespace Contribution

def ofClass (c : ClassRecord) : List Contribution := c.properties.map (.property c)

/-- The interfaces among some references, each once, with the fields that come with it. -/
def ofInterfaces (r : Registry) (host : Location) (seen : List EntityId) :
    List Reference → List Contribution
  | [] => []
  | ref :: rest =>
    match ref.entity? with
    | none => .noInterface host :: ofInterfaces r host seen rest
    | some id =>
      if id ∈ seen then ofInterfaces r host seen rest
      else
        .interface host id :: (r.classChain .interface id).flatMap ofClass ++
          ofInterfaces r host (id :: seen) rest

/-- The type of a field resolver: its own, or that of the nearest property it replaces. -/
def resolverType (chain : List ClassRecord) (h : Handler) : Option (Reference × Wrapping) :=
  match h.type with
  | some type => some (type, h.wrapping)
  | none =>
    (chain.reverse.findSome? (·.property? h.schemaName)).map fun p => (p.type, p.wrapping)

def ofType (r : Registry) (c : ClassRecord) (chain : List ClassRecord)
    (resolvers : List Binding) : List Contribution :=
  ofInterfaces r (.ofOwner c.name) [] (chain.flatMap (·.interfaces)) ++ chain.flatMap ofClass ++
    resolvers.map fun b => .resolver b (resolverType chain b.handler)

end Contribution

inductive CompositeCategory where
  | object | interface
  deriving DecidableEq, Repr

def CompositeCategory.classKind : CompositeCategory → ClassKind
  | .object => .object
  | .interface => .interface

namespace Setting

def contributions (s : Setting) (category : CompositeCategory) (target : EntityId) :
    List Contribution :=
  match s.registry.class? category.classKind target with
  | none => []
  | some c =>
    Contribution.ofType s.registry c (s.registry.classChain category.classKind target)
      (if category = .object then s.fieldResolvers target else [])

end Setting

structure Composition where
  interfaces : List TypeId
  fields : Fields

instance : EmptyCollection Composition := ⟨⟨[], ∅⟩⟩

def fieldNode (name : String) (type : TypeNode) (directives : List Directive) : FieldNode :=
  ⟨name, type, directives⟩

/-- The extensions of a handler's field; its complexity comes first. -/
def Handler.fieldExtensions (h : Handler) : OrderedMap String Json :=
  let start := match h.complexity with
    | some n => OrderedMap.insert ∅ "complexity" (Json.ofNat n)
    | none => ∅
  start.insertMany h.extensions.entries

def Property.field (p : Property) (type : TypeNode) : Field where
  name := p.schemaName
  description := p.description
  deprecation := p.deprecation
  type
  arguments := ∅
  resolver := none
  node := if p.directives.isEmpty then none else some (fieldNode p.schemaName type p.directives)
  extensions := ∅

def Binding.field (b : Binding) (type : TypeNode) (arguments : InputValues) : Field where
  name := b.handler.schemaName
  description := b.handler.description
  deprecation := b.handler.deprecation
  type
  arguments
  resolver := some ⟨b.owner, b.handler.method⟩
  node := some (fieldNode b.handler.schemaName type b.handler.directives)
  extensions := b.handler.fieldExtensions

def Handler.location (r : Registry) (h : Handler) : Location :=
  .ofMember (r.entityName h.target) h.method

namespace Realize

variable {r : Registry}

def propertyField (o : BuildOptions) (declaring : ClassRecord) (p : Property) :
    Realize r Field := do
  return p.field (← output o (.ofMember declaring.name p.name) p.type p.wrapping)

def handlerField (o : BuildOptions) (b : Binding) (ref : Reference) (w : Wrapping) :
    Realize r Field := do
  let type ← output o (b.handler.location r) ref w
  return b.field type (← arguments o (b.handler.location r) b.handler.parameters)

def contribute (o : BuildOptions) (c : Composition) : Contribution → Realize r Composition
  | .interface host id => do
    let place ← ofOption (.undeterminedType host) (← declared? .interface id)
    return { c with interfaces := c.interfaces ++ [place] }
  | .noInterface host => fail (.undeterminedType host)
  | .property declaring p => do
    let f ← propertyField o declaring p
    return { c with fields := c.fields.insert f.name f }
  | .resolver b type =>
    match type with
    | none =>
      fail (.undefinedReturnType HandlerKind.field.title (b.handler.location r))
    | some (ref, w) => do
      let f ← handlerField o b ref w
      return { c with fields := c.fields.insert f.name f }

def compose (o : BuildOptions) (c : Composition) : List Contribution → Realize r Composition
  | [] => pure c
  | x :: rest => do
    let c ← contribute o c x
    compose o c rest

end Realize

namespace Setting

def composition (s : Setting) (category : CompositeCategory) (target : EntityId) :
    Realize s.registry Composition :=
  Realize.compose s.options ∅ (s.contributions category target)

end Setting

end CodeFirst
