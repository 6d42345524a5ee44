import CodeFirst.Json.Shape

/-! How a named type is wrapped in lists and nullability. -/

namespace CodeFirst

/-- Whether list items may be null: one answer for all lists, or one per list from the outermost
inwards. -/
inductive ItemNullability where
  | all (nullable : Bool)
  | perDepth (layers : List Bool)
  deriving DecidableEq, Repr, Inhabited

namespace ItemNullability

/-- Whether the items of the list at `layer` may be null, the outermost being `0`. Beyond the given
layers they may not. -/
def at? : ItemNullability → Nat → Bool
  | .all nullable, _ => nullable
  | .perDepth layers, layer => layers[layer]?.getD false

def shape : Shape ItemNullability
  | .bool b => some (.all b)
  | t => (Shape.list .bool t).map .perDepth

def toJson : ItemNullability → Json
  | .all b => .bool b
  | .perDepth layers => .arr (layers.map .bool)

end ItemNullability

structure Wrapping where
  nullable : Bool
  isArray : Bool
  arrayDepth : Nat
  arrayNullable : ItemNullability
  deriving DecidableEq, Repr

namespace Wrapping

def plain : Wrapping := ⟨false, false, 0, .all false⟩

instance : Inhabited Wrapping := ⟨plain⟩

def list (w : Wrapping) (depth : Nat) : Wrapping :=
  { w with isArray := decide (0 < depth), arrayDepth := depth }

def depth (w : Wrapping) : Nat := if w.isArray then max w.arrayDepth 1 else 0

/-- Lists found in a reference take the place of declared ones. -/
def withReferenceDepth (w : Wrapping) (depth : Nat) : Wrapping :=
  if depth = 0 then w else w.list depth

@[simp] theorem depth_list (w : Wrapping) (n : Nat) : (w.list n).depth = n := by
  simp only [depth, list, decide_eq_true_eq]; split <;> omega

@[simp] theorem nullable_withReferenceDepth (w : Wrapping) (n : Nat) :
    (w.withReferenceDepth n).nullable = w.nullable := by
  simp only [withReferenceDepth]; split <;> rfl

@[simp] theorem arrayNullable_withReferenceDepth (w : Wrapping) (n : Nat) :
    (w.withReferenceDepth n).arrayNullable = w.arrayNullable := by
  simp only [withReferenceDepth]; split <;> rfl

theorem depth_withReferenceDepth (w : Wrapping) (n : Nat) :
    (w.withReferenceDepth n).depth = if n = 0 then w.depth else n := by
  simp only [withReferenceDepth]; split <;> simp_all

def shape : Shape Wrapping := fun t => do
  let fs ← Shape.record ["nullable", "isArray", "arrayDepth", "arrayNullable"] false t
  return ⟨← fs.defaulted "nullable" false .bool, ← fs.defaulted "isArray" false .bool,
    ← fs.defaulted "arrayDepth" 0 (.natBelow (powerOfTwo 32)),
    ← fs.defaulted "arrayNullable" (.all false) ItemNullability.shape⟩

def toJson (w : Wrapping) : Json :=
  .obj [("nullable", .bool w.nullable), ("isArray", .bool w.isArray),
    ("arrayDepth", .ofNat w.arrayDepth), ("arrayNullable", w.arrayNullable.toJson)]

end Wrapping

end CodeFirst
