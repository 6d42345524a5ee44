import CodeFirst.Json.Tree

/-! A shape reads a tree as a value of some type, or refuses it. A record is an object with known
keys, or an array with the fields in their declared order; an array may stop early only where every
missing field has a default. -/

namespace CodeFirst

abbrev Shape (α : Type) := Tree → Option α

namespace Shape

variable {α : Type}

def value : Shape Json := Tree.value?

def string : Shape String
  | .str s => some s
  | _ => none

def bool : Shape Bool
  | .bool b => some b
  | _ => none

def natBelow (bound : Nat) : Shape Nat
  | .num (.int n) => if 0 ≤ n ∧ n < bound then some n.toNat else none
  | _ => none

def nullable (shape : Shape α) : Shape (Option α)
  | .null => some none
  | t => (shape t).map some

def items (shape : Shape α) : List Tree → Option (List α)
  | [] => some []
  | t :: rest => do return (← shape t) :: (← items shape rest)

def list (shape : Shape α) : Shape (List α)
  | .arr ts => items shape ts
  | _ => none

def members (shape : Shape α) : List (Option String × Tree) → Option (List (String × α))
  | [] => some []
  | (key, t) :: rest => do return (← key, ← shape t) :: (← members shape rest)

/-- An object of any keys; of a repeated key the first place and the last value count. -/
def map (shape : Shape α) : Shape (OrderedMap String α)
  | .obj ms => (members shape ms).map OrderedMap.ofList
  | _ => none

/-- One of a few names, written as a text or as an object with the name over `null`. -/
def name (choices : List (String × α)) : Shape α
  | .str s => lookupEntry s choices
  | .obj [(some s, .null)] => lookupEntry s choices
  | _ => none

structure Fields where
  /-- The record was written as an array. -/
  positional : Bool
  found : List (String × Tree)

/-- The known members of an object. A known key may not repeat; an unknown one is passed over, or
refused in a closed record. -/
def knownMembers (names : List String) (closed : Bool) :
    List (Option String × Tree) → Option (List (String × Tree))
  | [] => some []
  | (none, _) :: _ => none
  | (some k, t) :: rest =>
    match knownMembers names closed rest with
    | none => none
    | some found =>
      if k ∈ names then
        if (lookupEntry k found).isSome then none else some ((k, t) :: found)
      else if closed then none else some found

def record (names : List String) (closed : Bool) : Shape Fields
  | .obj ms => (knownMembers names closed ms).map (⟨false, ·⟩)
  | .arr ts => if ts.length ≤ names.length then some ⟨true, names.zip ts⟩ else none
  | _ => none

namespace Fields

def required (fs : Fields) (key : String) (shape : Shape α) : Option α :=
  (lookupEntry key fs.found).bind shape

def defaulted (fs : Fields) (key : String) (default : α) (shape : Shape α) : Option α :=
  match lookupEntry key fs.found with
  | none => some default
  | some t => shape t

/-- A field that may be `null`, and may be left out of an object but not of an array. -/
def optional (fs : Fields) (key : String) (shape : Shape α) : Option (Option α) :=
  match lookupEntry key fs.found with
  | none => if fs.positional then none else some none
  | some t => nullable shape t

end Fields

def ofText (shape : Shape α) (source : String) : Option α := (Tree.ofText? source).bind shape

def ofJson (shape : Shape α) (v : Json) : Option α := shape (.ofJson v)

end Shape

end CodeFirst
