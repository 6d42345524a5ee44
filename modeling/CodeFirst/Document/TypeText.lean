import CodeFirst.Document.Error
import CodeFirst.Reference
import CodeFirst.Text.Blank

/-! A document writes a type as a name in any number of square brackets, with white space allowed
around every layer. A declared name stands for its entity, any other name for a scalar. -/

namespace CodeFirst

namespace Document

abbrev Scope := OrderedMap String EntityId

def isForbidden (c : Char) : Bool := c == ']' || c == '!' || c == ' '

/-- What is left in front of a closing bracket. -/
def beforeClosing? (cs : List Char) : Option (List Char) :=
  if cs.getLast? = some ']' then some cs.dropLast else none

theorem length_beforeClosing? {cs inner : List Char} (h : beforeClosing? cs = some inner) :
    inner.length ≤ cs.length := by
  unfold beforeClosing? at h
  split at h
  · rw [Option.some.injEq] at h; subst h; simp
  · simp at h

def nameReference (scope : Scope) (name : String) : Reference :=
  match scope.get? name with
  | some id => .declared id
  | none => .scalar name

def readType (scope : Scope) (cs : List Char) : Except DocumentError Reference :=
  match _ht : Text.trim cs with
  | '[' :: rest =>
    match _hb : beforeClosing? rest with
    | none => .error (.invalidType (String.ofList ('[' :: rest)))
    | some inner => (readType scope inner).map .list
  | text =>
    if text.isEmpty || text.any isForbidden then .error (.invalidType (String.ofList text))
    else .ok (nameReference scope (String.ofList text))
termination_by cs.length
decreasing_by
  have h₁ := Text.length_trim_le cs
  have h₂ := length_beforeClosing? _hb
  rw [_ht, List.length_cons] at h₁
  omega

end Document

end CodeFirst
