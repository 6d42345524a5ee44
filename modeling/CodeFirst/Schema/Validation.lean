import CodeFirst.Schema.Basic
import CodeFirst.Schema.Name
import CodeFirst.Report.BuildError

/-! Everything that is structurally wrong with a schema, type by type in the order of the schema. -/

namespace CodeFirst

namespace Schema

def nameFindings (location : Location) (name : String) : List Finding :=
  if !isValidName name then
    [.ofSite Code.invalidName.text "invalid name" location
      ("`" ++ name ++ "` is not a valid GraphQL name")]
  else if isReservedName name then
    [.ofSite Code.invalidName.text "reserved name" location
      ("`" ++ name ++ "` starts with `__`, which is reserved for introspection")]
  else []

def emptyFindings (what name : String) (fieldCount : Nat) : List Finding :=
  if fieldCount = 0 then
    [.ofSite Code.emptyFields.text "empty field set" (.ofOwner name)
      (what ++ " `" ++ name ++ "` must define one or more fields")]
  else []

def directiveFindings (s : Schema) (location : Location) (directives : List Directive) :
    List Finding :=
  (directives.filter fun d => (s.directive? d.name).isNone).map fun d =>
    .ofSite Code.unknownDirective.text "unknown directive" location
      ("directive `@" ++ d.name ++ "` is not defined")

def argumentFindings (location : Location) (arguments : List InputValue) : List Finding :=
  arguments.zipIdx.flatMap fun (a, i) => nameFindings (location.withIndex i) a.name

def fieldFindings (s : Schema) (owner : String) (f : Field) : List Finding :=
  let location := Location.ofMember owner f.name
  nameFindings location f.name ++ argumentFindings location f.arguments.records ++
    (f.node.map fun n => s.directiveFindings location n.directives).getD []

def compositeFindings (s : Schema) (t : CompositeType) : List Finding :=
  emptyFindings "type" t.name t.fields.length ++
    (t.node.map fun n => s.directiveFindings (.ofOwner t.name) n.directives).getD [] ++
    t.fields.flatMap (s.fieldFindings t.name)

def implementationFindings (s : Schema) (t : CompositeType) : List Finding :=
  t.interfaces.flatMap fun id =>
    match (s.get? id).bind NamedType.interface? with
    | none => []
    | some i =>
      (i.fields.filter fun f => (t.field? f.name).isNone).map fun f =>
        .ofSite Code.missingInterfaceField.text "missing interface field" (.ofOwner t.name)
          ("`" ++ t.name ++ "` implements `" ++ i.name ++ "` but has no field `" ++ f.name ++ "`")

def inputFindings (t : InputType) : List Finding :=
  emptyFindings "input type" t.name t.fields.length ++
    t.fields.flatMap fun f => nameFindings (.ofMember t.name f.name) f.name

def typeFindings (s : Schema) (t : NamedType) : List Finding :=
  nameFindings (.ofOwner t.name) t.name ++
    match t with
    | .scalar _ => []
    | .object t => s.compositeFindings t ++ s.implementationFindings t
    | .interface t => s.compositeFindings t
    | .input t => inputFindings t

def findings (s : Schema) : List Finding := s.types.flatMap s.typeFindings

/-- Refuses a schema with findings. -/
def check (s : Schema) : Except BuildError Unit :=
  match s.findings with
  | [] => .ok ()
  | fs => .error (.invalidSchema fs.length fs)

theorem check_eq_ok_iff (s : Schema) : s.check = .ok () ↔ s.findings = [] := by
  unfold check
  cases s.findings <;> simp

end Schema

end CodeFirst
