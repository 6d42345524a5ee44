import CodeFirst.Declaration
import CodeFirst.Document.Entry
import CodeFirst.Document.TypeText

/-! Every name of a document becomes one entity. Entries may come in any order, but a parent is
declared before its children, so the names are declared in rounds: each round declares, in order of
first appearance, the names without a parent and those whose parent is there. -/

namespace CodeFirst

namespace Document

/-- A name that is to be declared, and the name it extends. -/
abbrev Wanted := String × Option String

/-- The names of the entries with what they extend, types before resolver classes. -/
def mentions (d : Document) : List Wanted :=
  d.types.map (fun t => (t.name, t.parent)) ++ d.resolvers.map fun r => (r.name, r.parent)

/-- Adds a mention: the first parent that a name is given stays. -/
def mention (wanted : OrderedMap String (Option String)) (w : Wanted) :
    OrderedMap String (Option String) :=
  wanted.insert w.1 ((wanted.get? w.1).join <|> w.2)

def wanted (d : Document) : List Wanted := (d.mentions.foldl mention ∅).entries

structure Progress where
  declarations : Declarations
  scope : Scope

def Progress.declare (p : Progress) (name : String) (parent : Option EntityId) : Progress :=
  ⟨p.declarations.entity name parent, p.scope.insert name p.declarations.registry.entities.size⟩

/-- One round over the names that are left; also returns those that still have to wait. -/
def round (p : Progress) : List Wanted → Progress × List Wanted
  | [] => (p, [])
  | (name, none) :: rest => round (p.declare name none) rest
  | (name, some parent) :: rest =>
    match p.scope.get? parent with
    | some id => round (p.declare name (some id)) rest
    | none =>
      let (p, waiting) := round p rest
      (p, (name, some parent) :: waiting)

/-- Why a round declares nothing: a name extends one that is not in the document, or all that is
left goes round in circles or hangs on one. -/
def stuck (waiting : List Wanted) : DocumentError :=
  let missing? (w : Wanted) : Option DocumentError :=
    w.2.bind fun parent =>
      if (waiting.map Prod.fst).contains parent then none else some (.unknownParent w.1 parent)
  (waiting.findSome? missing?).getD (.inheritanceCycle (waiting.map Prod.fst))

def declareAll (p : Progress) (waiting : List Wanted) : Except DocumentError Progress :=
  match waiting with
  | [] => .ok p
  | w :: rest =>
    let (p, left) := round p (w :: rest)
    if _h : left.length < (w :: rest).length then declareAll p left else .error (stuck left)
termination_by waiting.length
decreasing_by exact _h

def declareEntities (d : Document) : Except DocumentError Progress := declareAll ⟨∅, ∅⟩ d.wanted

end Document

end CodeFirst
