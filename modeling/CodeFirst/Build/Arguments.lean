import CodeFirst.Build.Setting

/-! The arguments of a handler and the fields of an input type are merged from contributions: first
it is listed who contributes what, then each contribution is realized in turn. A later contribution
replaces an earlier one of the same name in place. -/

namespace CodeFirst

/-- One contribution to an argument list or to the fields of an input type. -/
inductive InputContribution where
  | parameter (host : Location) (name : String) (type : Reference) (wrapping : Wrapping)
      (description : Option String) (default : Option Json)
  | property (declaring : ClassRecord) (p : Property)
  /-- A bundle that is no declared arguments type. -/
  | noBundle (host : Location) (bundle : String)

namespace InputContribution

def ofClass (c : ClassRecord) : List InputContribution := c.properties.map (.property c)

def key : InputContribution → String
  | .parameter _ name .. => name
  | .property _ p => p.schemaName
  | .noBundle .. => ""

def ofChain (chain : List ClassRecord) : List InputContribution := chain.flatMap ofClass

def ofParameter (r : Registry) (handler : Location) (p : Parameter) : List InputContribution :=
  let host := handler.withIndex p.index
  match p.kind with
  | .named name type wrapping description default =>
    [.parameter host name type wrapping description default]
  | .bundle type =>
    match type.base with
    | .declared id =>
      match r.classChain .args id with
      | [] => [.noBundle host (r.entityName id)]
      | chain => ofChain chain
    | base => [.noBundle host base.debugText]

/-- Parameters in the order of their places; those at one place stay as they were registered. -/
def inOrder (ps : List Parameter) : List Parameter :=
  ps.mergeSort fun a b => decide (a.index ≤ b.index)

def ofParameters (r : Registry) (handler : Location) (ps : List Parameter) :
    List InputContribution :=
  (inOrder ps).flatMap (ofParameter r handler)

end InputContribution

/-- The default of a property: what a new instance assigns, else the explicit default. -/
def Property.resolvedDefault (p : Property) (assigned : Option Defaults) : Option Json :=
  (assigned.bind (·.get? p.name)) <|> p.default

theorem Property.resolvedDefault_eq_or (p : Property) (assigned : Option Defaults) :
    p.resolvedDefault assigned = (assigned.bind (·.get? p.name)).or p.default := by
  rw [resolvedDefault, Option.orElse_eq_orElse, Option.orElse_eq_or]

/-- The event for an explicit default that the instance overrides with another value. -/
def Property.defaultConflict? (p : Property) (className : String) (assigned : Option Defaults) :
    Option Event :=
  match assigned.bind (·.get? p.name), p.default with
  | some value, some explicit =>
    if value.same explicit then none
    else some (.conflictingDefaults className p.name value explicit)
  | _, _ => none

def Property.inputValue (p : Property) (assigned : Option Defaults) (type : TypeNode) :
    InputValue :=
  ⟨p.schemaName, p.description, type, p.resolvedDefault assigned⟩

namespace Realize

variable {r : Registry}

def reportIfAny : Option Event → Realize r Unit
  | some e => report e
  | none => pure ()

/-- Realizes one contribution. Defaults of a property are read from an instance of the class that
declares it. -/
def inputValue (o : BuildOptions) : InputContribution → Realize r InputValue
  | .parameter host name type wrapping description default => do
    let type ← input o host type wrapping
    return ⟨name, description, type, default⟩
  | .property declaring p => do
    let type ← input o (.ofMember declaring.name p.name) p.type p.wrapping
    let assigned := r.entities.instantiate declaring.target
    reportIfAny (p.defaultConflict? declaring.name assigned)
    return p.inputValue assigned type
  | .noBundle host bundle => fail (.missingArgsType host bundle)

def inputValues (o : BuildOptions) (values : InputValues) :
    List InputContribution → Realize r InputValues
  | [] => pure values
  | c :: rest => do
    let v ← inputValue o c
    inputValues o (values.insert c.key v) rest

def arguments (o : BuildOptions) (handler : Location) (ps : List Parameter) :
    Realize r InputValues :=
  inputValues o ∅ (InputContribution.ofParameters r handler ps)

def inputFields (o : BuildOptions) (target : EntityId) : Realize r InputValues :=
  inputValues o ∅ (InputContribution.ofChain (r.classChain .input target))

end Realize

end CodeFirst
