import CodeFirst.Build.Orphans
import CodeFirst.Report.BuildError
import CodeFirst.Schema.Basic

/-! A schema under construction: the types realized so far, the shells that wait for their fields,
the orphans and the log. `Grows` relates a realization to those that come out of it by realizing
types, registering orphans and logging; it is what every resolution step is bound to. -/

namespace CodeFirst

structure TypeIndex where
  /-- The place that each schema name is claimed for. -/
  names : OrderedMap String TypeId
  declared : OrderedMap (TypeCategory × EntityId) TypeId

structure Realization where
  types : List NamedType
  index : TypeIndex
  /-- The places of shells to be wired, first come first served. -/
  pending : List TypeId
  orphans : Orphans
  log : List Event

namespace Realization

def empty : Realization := ⟨[], ⟨∅, ∅⟩, [], ∅, []⟩

def typeId? (s : Realization) (name : String) : Option TypeId := s.index.names.get? name

def place? (s : Realization) (category : TypeCategory) (target : EntityId) : Option TypeId :=
  s.index.declared.get? (category, target)

end Realization

def declarationLabel (kind : ClassKind) (name entity : String) : String :=
  kind.text ++ " `" ++ name ++ "`" ++
    if name = entity then "" else " (declared by `" ++ entity ++ "`)"

def scalarLabel (name : String) : String := "scalar `" ++ name ++ "`"

def typeLabel (r : Registry) (t : NamedType) : String :=
  match t with
  | .scalar t => scalarLabel t.name
  | t =>
    match t.declaration? with
    | some (category, target) => declarationLabel category.classKind t.name (r.entityName target)
    | none => t.name ++ " root"

/-- The definition node of a class, if directives are applied to it. -/
def ClassRecord.node (c : ClassRecord) : Option TypeDefinitionNode :=
  if c.directives.isEmpty then none else some ⟨c.name, c.directives⟩

/-- The shell of a declared type: all but its interfaces and fields. -/
def ClassRecord.shell (c : ClassRecord) : TypeCategory → NamedType
  | .object => .object ⟨c.name, c.description, [], c.node, some c.target, none⟩
  | .interface => .interface ⟨c.name, c.description, [], c.node, some c.target, none⟩
  | .input => .input ⟨c.name, c.description, some c.target, none⟩

@[simp] theorem ClassRecord.name_shell (c : ClassRecord) (k : TypeCategory) :
    (c.shell k).name = c.name := by cases k <;> rfl

@[simp] theorem ClassRecord.declaration?_shell (c : ClassRecord) (k : TypeCategory) :
    (c.shell k).declaration? = some (k, c.target) := by cases k <;> rfl

namespace Realization

/-- Appends a type, which claims its name. -/
def addType (s : Realization) (t : NamedType) : Realization :=
  { s with
    types := s.types ++ [t]
    index := { s.index with names := s.index.names.insert t.name s.types.length } }

def remember (s : Realization) (category : TypeCategory) (id : EntityId) (place : TypeId) :
    Realization :=
  { s with index := { s.index with declared := s.index.declared.insert (category, id) place } }

def addShell (s : Realization) (category : TypeCategory) (c : ClassRecord) : Realization :=
  { (s.addType (c.shell category)).remember category c.target s.types.length with
    pending := s.pending ++ [s.types.length] }

def addOrphan (s : Realization) (id : EntityId) : Realization :=
  { s with orphans := s.orphans.register id }

/-- Appends the shell of a declared type. An interface is registered as an orphan, so that its
implementers follow. -/
def addDeclared (s : Realization) (category : TypeCategory) (c : ClassRecord) : Realization :=
  if category = .interface then (s.addShell category c).addOrphan c.target
  else s.addShell category c

def addEvent (s : Realization) (e : Event) : Realization := { s with log := s.log ++ [e] }

@[simp] theorem types_addDeclared (s : Realization) (k : TypeCategory) (c : ClassRecord) :
    (s.addDeclared k c).types = s.types ++ [c.shell k] := by
  unfold addDeclared; split <;> rfl

@[simp] theorem pending_addDeclared (s : Realization) (k : TypeCategory) (c : ClassRecord) :
    (s.addDeclared k c).pending = s.pending ++ [s.types.length] := by
  unfold addDeclared; split <;> rfl

theorem typeId?_addType (s : Realization) (t : NamedType) (name : String) :
    (s.addType t).typeId? name = if t.name = name then some s.types.length else s.typeId? name :=
  OrderedMap.get?_insert ..

theorem typeId?_addDeclared (s : Realization) (k : TypeCategory) (c : ClassRecord)
    (name : String) : (s.addDeclared k c).typeId? name = (s.addType (c.shell k)).typeId? name := by
  unfold addDeclared; split <;> rfl

theorem place?_addDeclared (s : Realization) (k k' : TypeCategory) (c : ClassRecord)
    (id : EntityId) : (s.addDeclared k c).place? k' id =
      if (k, c.target) = (k', id) then some s.types.length else s.place? k' id := by
  unfold addDeclared
  split <;> exact OrderedMap.get?_insert ..

theorem orphans_addDeclared (s : Realization) (k : TypeCategory) (c : ClassRecord) :
    (s.addDeclared k c).orphans =
      if k = .interface then s.orphans.register c.target else s.orphans := by
  unfold addDeclared; split <;> rfl

inductive Step (r : Registry) : Realization → Realization → Prop where
  | scalar (s : Realization) (t : ScalarType) (fresh : s.typeId? t.name = none) :
    Step r s (s.addType (.scalar t))
  | declared (s : Realization) (category : TypeCategory) (c : ClassRecord)
    (known : r.class? category.classKind c.target = some c)
    (new : s.place? category c.target = none) (fresh : s.typeId? c.name = none) :
    Step r s (s.addDeclared category c)
  | orphan (s : Realization) (id : EntityId) : Step r s (s.addOrphan id)
  | event (s : Realization) (e : Event) : Step r s (s.addEvent e)

inductive Grows (r : Registry) : Realization → Realization → Prop where
  | refl (s : Realization) : Grows r s s
  | tail {s t u : Realization} : Grows r s t → Step r t u → Grows r s u

theorem Step.grows {r : Registry} {s t : Realization} (h : Step r s t) : Grows r s t :=
  .tail (.refl s) h

theorem Grows.trans {r : Registry} {s t u : Realization} (h₁ : Grows r s t) (h₂ : Grows r t u) :
    Grows r s u := by
  induction h₂ with
  | refl => exact h₁
  | tail _ h ih => exact .tail ih h

end Realization

def Registry.declarations (r : Registry) : List (TypeCategory × EntityId) :=
  TypeCategory.all.flatMap fun k => (r.classes k.classKind).keys.map ((k, ·))

theorem Registry.mem_declarations {r : Registry} {k : TypeCategory} {id : EntityId}
    {c : ClassRecord} (h : r.class? k.classKind id = some c) : (k, id) ∈ r.declarations := by
  refine List.mem_flatMap.2 ⟨k, TypeCategory.mem_all k, List.mem_map.2 ⟨id, ?_, rfl⟩⟩
  obtain ⟨hm, rfl⟩ := Catalog.get?_eq_some_iff.1 h
  exact List.mem_map_of_mem hm

theorem countP_lt_countP {α : Type} {p q : α → Bool} {l : List α} {x : α} (hx : x ∈ l)
    (hp : p x = false) (hq : q x = true) (h : ∀ y ∈ l, p y = true → q y = true) :
    l.countP p < l.countP q := by
  induction l with
  | nil => simp at hx
  | cons a rest ih =>
    rw [List.countP_cons, List.countP_cons]
    have hle : rest.countP p ≤ rest.countP q :=
      List.countP_mono_left fun y hy => h y (List.mem_cons_of_mem _ hy)
    rcases List.mem_cons.1 hx with rfl | hr
    · simp only [hp, hq]; simp; omega
    · have hlt := ih hr fun y hy => h y (List.mem_cons_of_mem _ hy)
      have ha := h a (List.mem_cons_self ..)
      cases hpa : p a with
      | false => simp; omega
      | true => simp [ha hpa]; omega

namespace Realization

variable {r : Registry}

def unrealized (r : Registry) (s : Realization) : Nat :=
  r.declarations.countP fun d => (s.place? d.1 d.2).isNone

/-- What bounds the wiring still to come. -/
def workload (r : Registry) (s : Realization) : Nat := s.unrealized r + s.pending.length

theorem unrealized_addDeclared_lt {s : Realization} {k : TypeCategory} {c : ClassRecord}
    (known : r.class? k.classKind c.target = some c) (new : s.place? k c.target = none) :
    (s.addDeclared k c).unrealized r < s.unrealized r := by
  refine countP_lt_countP (Registry.mem_declarations known) ?_ (by simp [new])
    fun d _ hd => ?_
  · simp [place?_addDeclared]
  · rw [place?_addDeclared] at hd
    split at hd
    · simp at hd
    · exact hd

theorem Step.workload_le {s t : Realization} (h : Step r s t) : t.workload r ≤ s.workload r := by
  cases h with
  | scalar t fresh => exact Nat.le_refl _
  | declared k c known new fresh =>
    have := unrealized_addDeclared_lt known new
    simp only [workload, pending_addDeclared, List.length_append, List.length_singleton] at *; omega
  | orphan id => exact Nat.le_refl _
  | event e => exact Nat.le_refl _

theorem Grows.workload_le {s t : Realization} (h : Grows r s t) : t.workload r ≤ s.workload r := by
  induction h with
  | refl => exact Nat.le_refl _
  | tail _ h ih => exact Nat.le_trans h.workload_le ih

theorem Step.settled {s t : Realization} {id : EntityId} (h : Step r s t)
    (hs : s.orphans.Settled id) : t.orphans.Settled id := by
  cases h with
  | orphan id => exact hs.register
  | declared k c known new fresh =>
    rw [orphans_addDeclared]
    split
    · exact hs.register
    · exact hs
  | _ => exact hs

theorem Grows.settled {s t : Realization} {id : EntityId} (h : Grows r s t)
    (hs : s.orphans.Settled id) : t.orphans.Settled id := by
  induction h with
  | refl => exact hs
  | tail _ h ih => exact h.settled ih

end Realization

end CodeFirst
