import CodeFirst.Json.Shape

/-! Applied directives. -/

namespace CodeFirst

structure Directive where
  name : String
  arguments : OrderedMap String Json

namespace Directive

instance : Inhabited Directive := ⟨⟨"", ∅⟩⟩

/-- Equality: the arguments may come in any order. -/
def same (a b : Directive) : Bool :=
  a.name == b.name && Json.same (.ofMap a.arguments) (.ofMap b.arguments)

def shape : Shape Directive := fun t => do
  let fs ← Shape.record ["name", "arguments"] false t
  return ⟨← fs.required "name" .string, ← fs.defaulted "arguments" ∅ (.map .value)⟩

def toJson (d : Directive) : Json :=
  .obj [("name", .str d.name), ("arguments", .ofMap d.arguments)]

end Directive

end CodeFirst
