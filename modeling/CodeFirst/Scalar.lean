import CodeFirst.Options
import CodeFirst.Registry.Basic

/-! Which scalar a reference denotes. -/

namespace CodeFirst

/-- Scalars that every schema has; they are never printed. -/
def builtinScalars : List String := ["String", "Int", "Float", "Boolean", "ID"]

def dateTimeDescription : String :=
  "A date-time string at UTC, such as 2019-12-03T09:54:33Z, compliant with the date-time format."

def timestampDescription : String :=
  "`Date` type as integer. Type represents date and time as number of milliseconds from start of UNIX epoch."

namespace BuildOptions

def builtinScalar? (o : BuildOptions) (name : String) : Option ScalarType :=
  match name with
  | "String" | "string" => some (.named "String")
  | "Boolean" | "boolean" => some (.named "Boolean")
  | "Int" => some (.named "Int")
  | "Float" => some (.named "Float")
  | "ID" => some (.named "ID")
  | "Number" | "number" =>
    match o.numberMode with
    | .float => some (.named "Float")
    | .integer => some (.named "Int")
  | "Date" =>
    match o.dateMode with
    | .isoDate => some ⟨"DateTime", some dateTimeDescription, none⟩
    | .timestamp => some ⟨"Timestamp", some timestampDescription, none⟩
  | _ => none

/-- The scalar with a reference name: custom scalars come before built-in ones. -/
def namedScalar? (o : BuildOptions) (name : String) : Option ScalarType :=
  o.scalarsMap.get? name <|> o.builtinScalar? name

end BuildOptions

def ScalarRecord.type (s : ScalarRecord) : ScalarType := ⟨s.name, s.description, s.specifiedByUrl⟩

def scalarOf? (o : BuildOptions) (r : Registry) (ref : Reference) : Option ScalarType :=
  match ref.base with
  | .scalar name => o.namedScalar? name
  | .declared id => (r.scalar? id).map ScalarRecord.type
  | _ => none

@[simp] theorem scalarOf?_force (o : BuildOptions) (r : Registry) (ref : Reference) :
    scalarOf? o r ref.force = scalarOf? o r ref := by simp [scalarOf?]

end CodeFirst
