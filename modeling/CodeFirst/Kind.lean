/-! Kinds of declarations. -/

namespace CodeFirst

inductive ClassKind where
  | object | input | interface | args
  deriving DecidableEq, Repr, Inhabited

def ClassKind.text : ClassKind → String
  | .object => "object type"
  | .input => "input type"
  | .interface => "interface"
  | .args => "arguments type"

/-- The categories that become schema types; arguments types only lend their fields. -/
inductive TypeCategory where
  | object | interface | input
  deriving DecidableEq, Repr, Inhabited

namespace TypeCategory

def classKind : TypeCategory → ClassKind
  | .object => .object
  | .interface => .interface
  | .input => .input

def all : List TypeCategory := [.object, .interface, .input]

theorem mem_all (c : TypeCategory) : c ∈ all := by cases c <;> decide

end TypeCategory

inductive RootKind where
  | query | mutation | subscription
  deriving DecidableEq, Repr, Inhabited

namespace RootKind

def all : List RootKind := [.query, .mutation, .subscription]

def typeName : RootKind → String
  | .query => "Query"
  | .mutation => "Mutation"
  | .subscription => "Subscription"

theorem mem_all (k : RootKind) : k ∈ all := by cases k <;> decide

theorem typeName_injective {a b : RootKind} (h : a.typeName = b.typeName) : a = b := by
  cases a <;> cases b <;> first | rfl | (exact absurd h (by decide))

end RootKind

/-- What a handler serves: a field of a root, or a field of the object type its class augments. -/
inductive HandlerKind where
  | root (kind : RootKind)
  | field
  deriving DecidableEq, Repr, Inhabited

namespace HandlerKind

def label : HandlerKind → String
  | .root .query => "query"
  | .root .mutation => "mutation"
  | .root .subscription => "subscription"
  | .field => "field resolver"

def title : HandlerKind → String
  | .root kind => kind.typeName
  | .field => "field resolver"

end HandlerKind

end CodeFirst
