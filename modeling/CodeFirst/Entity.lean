import CodeFirst.Json.Value

/-! An entity is the identity of a class-like declaration. Its handle is its place in the table, and
the entity it extends was declared before it, so every chain of ancestors ends. -/

namespace CodeFirst

/-- A handle: the number of entities declared before. -/
abbrev EntityId := Nat

/-- The values a new instance gives to its properties. -/
abbrev Defaults := OrderedMap String Json

structure Entity where
  name : String
  parent : Option EntityId
  /-- What this entity's own part of the construction assigns, if it has one. -/
  defaults : Option Defaults

structure EntityTable where
  entities : List Entity
  parent_lt : ∀ (i : Nat) (e : Entity) (p : Nat),
    entities[i]? = some e → e.parent = some p → p < i

namespace EntityTable

def empty : EntityTable := ⟨[], by simp⟩

instance : EmptyCollection EntityTable := ⟨empty⟩
instance : Inhabited EntityTable := ⟨empty⟩

def size (t : EntityTable) : Nat := t.entities.length
def isEmpty (t : EntityTable) : Bool := t.entities.isEmpty
def get? (t : EntityTable) (id : EntityId) : Option Entity := t.entities[id]?

def name (t : EntityTable) (id : EntityId) : String :=
  ((t.get? id).map Entity.name).getD "<unknown>"

def parent? (t : EntityTable) (id : EntityId) : Option EntityId := (t.get? id).bind Entity.parent

def defaults? (t : EntityTable) (id : EntityId) : Option Defaults :=
  (t.get? id).bind Entity.defaults

def ids (t : EntityTable) : List EntityId := List.range t.size

theorem parent?_lt {t : EntityTable} {id p : Nat} (h : t.parent? id = some p) : p < id := by
  obtain ⟨e, he, hp⟩ := Option.bind_eq_some_iff.1 h
  exact t.parent_lt id e p he hp

/-- Appends an entity; it can only extend one that is already there. -/
def declare (t : EntityTable) (name : String) (parent : Option EntityId) : EntityTable :=
  ⟨t.entities ++ [⟨name, parent.filter (· < t.size), none⟩], by
    intro i e p he hp
    rw [List.getElem?_append] at he
    split at he
    · exact t.parent_lt i e p he hp
    · next hi =>
      have h := List.getElem?_eq_some_iff.1 he
      obtain ⟨hlt, hget⟩ := h
      simp only [List.length_singleton] at hlt
      have he' : e = ⟨name, parent.filter (· < t.size), none⟩ := by
        rw [← hget]; simp
      subst he'
      have hp' : p < t.size := of_decide_eq_true (Option.filter_eq_some_iff.1 hp).2
      simp only [size] at hp'
      omega⟩

def setDefaults (t : EntityTable) (id : EntityId) (values : Defaults) : EntityTable :=
  ⟨t.entities.modify id fun e => { e with defaults := some values }, by
    intro i e p he hp
    rw [List.getElem?_modify] at he
    split at he
    · obtain ⟨e', he', rfl⟩ := Option.map_eq_some_iff.1 he
      exact t.parent_lt i e' p he' hp
    · exact t.parent_lt i e p (by simpa using he) hp⟩

/-- The ancestors of an entity, most-base first. -/
def ancestors (t : EntityTable) (id : EntityId) : List EntityId :=
  match h : t.parent? id with
  | none => []
  | some p =>
    have := parent?_lt h
    ancestors t p ++ [p]
termination_by id

def lineage (t : EntityTable) (id : EntityId) : List EntityId := t.ancestors id ++ [id]

/-- The entity, then its ancestors from the nearest to the most base. -/
def nearestFirst (t : EntityTable) (id : EntityId) : List EntityId := id :: (t.ancestors id).reverse

theorem ancestors_of_parent?_eq_none {t : EntityTable} {id : EntityId} (h : t.parent? id = none) :
    t.ancestors id = [] := by
  rw [ancestors]; split <;> simp_all

theorem ancestors_of_parent? {t : EntityTable} {id p : EntityId} (h : t.parent? id = some p) :
    t.ancestors id = t.lineage p := by
  rw [ancestors]; split <;> simp_all [lineage]

def construct (values : Option Defaults) (own : Option Defaults) : Option Defaults :=
  match own with
  | none => values
  | some d => some ((values.getD ∅).insertMany d.entries)

/-- What a new instance assigns: the ancestors construct first, most-base first, then the entity.
`none` if nobody along the way assigns anything. -/
def instantiate (t : EntityTable) (id : EntityId) : Option Defaults :=
  (t.lineage id).foldl (fun values e => construct values (t.defaults? e)) none

end EntityTable

end CodeFirst
