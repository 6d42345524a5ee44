import CodeFirst.Json.Shape

/-! Declarations have no source text, so a report points at the declaring type or resolver class, at
one of its members, or at a parameter of a member. -/

namespace CodeFirst

structure Location where
  owner : String
  member : Option String
  index : Option Nat
  deriving DecidableEq, Repr, Inhabited

namespace Location

def ofOwner (owner : String) : Location := ⟨owner, none, none⟩
def ofMember (owner member : String) : Location := ⟨owner, some member, none⟩
def withIndex (l : Location) (index : Nat) : Location := { l with index := some index }

/-- Written `owner.member#index`. -/
def text (l : Location) : String :=
  l.owner ++ (match l.member with
    | some m => "." ++ m
    | none => "") ++ (match l.index with
    | some i => "#" ++ toString i
    | none => "")

def shape : Shape Location := fun t => do
  let fs ← Shape.record ["owner", "member", "index"] false t
  return ⟨← fs.required "owner" .string, ← fs.optional "member" .string,
    ← fs.optional "index" (.natBelow (powerOfTwo 64))⟩

def toJson (l : Location) : Json :=
  .obj [("owner", .str l.owner), ("member", l.member.elim .null .str),
    ("index", l.index.elim .null .ofNat)]

end Location

end CodeFirst
