import CodeFirst.Wrapping

/-! A use of a named type: the type itself, below lists and non-null marks. -/

namespace CodeFirst

/-- The place of a named type in its schema. -/
abbrev TypeId := Nat

inductive TypeNode where
  | named (id : TypeId)
  | list (item : TypeNode)
  | nonNull (inner : TypeNode)
  deriving DecidableEq, Repr, Inhabited

namespace TypeNode

def base : TypeNode → TypeId
  | .named id => id
  | .list t => t.base
  | .nonNull t => t.base

def isNonNull : TypeNode → Bool
  | .nonNull _ => true
  | _ => false

def text (name : TypeId → String) : TypeNode → String
  | .named id => name id
  | .list t => "[" ++ t.text name ++ "]"
  | .nonNull t => t.text name ++ "!"

def requireIf (nonNull : Bool) (t : TypeNode) : TypeNode := if nonNull then .nonNull t else t

@[simp] theorem base_requireIf (b : Bool) (t : TypeNode) : (requireIf b t).base = t.base := by
  cases b <;> rfl

/-- `count` lists around a type, the innermost at layer `first + count - 1`; the items of a layer
are non-null unless they may be null. -/
def inLists (items : ItemNullability) (t : TypeNode) : Nat → Nat → TypeNode
  | _, 0 => t
  | first, count + 1 =>
    .list (requireIf (!items.at? first) (inLists items t (first + 1) count))

@[simp] theorem base_inLists (items : ItemNullability) (t : TypeNode) (first count : Nat) :
    (inLists items t first count).base = t.base := by
  induction count generalizing first with
  | zero => rfl
  | succ n ih => simp [inLists, base, ih]

def wrap (id : TypeId) (w : Wrapping) : TypeNode :=
  requireIf (!w.nullable) (inLists w.arrayNullable (.named id) 0 w.depth)

@[simp] theorem base_wrap (id : TypeId) (w : Wrapping) : (wrap id w).base = id := by
  simp [wrap, base]

end TypeNode

end CodeFirst
