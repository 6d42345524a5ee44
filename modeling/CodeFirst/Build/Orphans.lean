import CodeFirst.Registry.Basic

/-! Declared types that must be in the schema even if no field refers to them: implementers of an
interface, and types kept from outside. Each entity is registered once, and waits until the next
drain. -/

namespace CodeFirst

structure Orphans where
  /-- Every entity ever registered, in order. -/
  seen : List EntityId
  waiting : List EntityId
  waiting_seen : ∀ id ∈ waiting, id ∈ seen

namespace Orphans

def empty : Orphans := ⟨[], [], by simp⟩

instance : EmptyCollection Orphans := ⟨empty⟩
instance : Inhabited Orphans := ⟨empty⟩

def contains (o : Orphans) (id : EntityId) : Bool := o.seen.contains id
def size (o : Orphans) : Nat := o.seen.length

def register (o : Orphans) (id : EntityId) : Orphans :=
  if id ∈ o.seen then o
  else ⟨o.seen ++ [id], o.waiting ++ [id], by
    intro x hx
    rcases List.mem_append.1 hx with h | h
    · exact List.mem_append_left _ (o.waiting_seen x h)
    · exact List.mem_append_right _ h⟩

def registerReference (o : Orphans) (ref : Reference) : Orphans :=
  match ref.entity? with
  | some id => o.register id
  | none => o

def registerMany (o : Orphans) (ids : List EntityId) : Orphans := ids.foldl register o

/-- An entity that was registered and drained. -/
def Settled (o : Orphans) (id : EntityId) : Prop := id ∈ o.seen ∧ id ∉ o.waiting

instance (o : Orphans) (id : EntityId) : Decidable (o.Settled id) :=
  inferInstanceAs (Decidable (_ ∧ _))

theorem mem_seen_register {o : Orphans} {id x : EntityId} :
    x ∈ (o.register id).seen ↔ x ∈ o.seen ∨ x = id := by
  unfold register
  split
  · next h => exact ⟨.inl, fun hx => hx.elim (fun hx => hx) (fun hx => hx ▸ h)⟩
  · simp

theorem Settled.register {o : Orphans} {id x : EntityId} (h : o.Settled x) :
    (o.register id).Settled x := by
  unfold Orphans.register
  split
  · exact h
  · next hid =>
    refine ⟨List.mem_append_left _ h.1, fun hx => ?_⟩
    rcases List.mem_append.1 hx with hx | hx
    · exact h.2 hx
    · rw [List.mem_singleton] at hx
      exact hid (hx ▸ h.1)

theorem Settled.registerMany {o : Orphans} {ids : List EntityId} {x : EntityId}
    (h : o.Settled x) : (o.registerMany ids).Settled x := by
  induction ids generalizing o with
  | nil => exact h
  | cons id rest ih => exact ih h.register

/-- The object types that list an interface and are not abstract. -/
def implementers (r : Registry) (interface : EntityId) : List ClassRecord :=
  r.objects.records.filter fun c =>
    c.interfaces.any (·.entity? == some interface) && !c.isAbstract

def concrete? (r : Registry) (category : TypeCategory) (id : EntityId) :
    Option (TypeCategory × ClassRecord) :=
  ((r.class? category.classKind id).filter (!·.isAbstract)).map ((category, ·))

/-- What one drained entity contributes: its records that are not abstract. -/
def records (r : Registry) (id : EntityId) : List (TypeCategory × ClassRecord) :=
  [TypeCategory.interface, .object, .input].filterMap (concrete? r · id)

def followers (r : Registry) (id : EntityId) : List EntityId :=
  if (r.class? .interface id).isSome then (implementers r id).map (·.target) else []

/-- Hands out the records of every waiting entity. Implementers of a drained interface wait for the
next drain. -/
def drain (o : Orphans) (r : Registry) : Orphans × List (TypeCategory × ClassRecord) :=
  ((⟨o.seen, [], by simp⟩ : Orphans).registerMany (o.waiting.flatMap (followers r)),
    o.waiting.flatMap (records r))

theorem settled_drain_of_waiting {o : Orphans} {r : Registry} {id : EntityId}
    (h : id ∈ o.waiting) : (o.drain r).1.Settled id :=
  Settled.registerMany (o := ⟨o.seen, [], by simp⟩) ⟨o.waiting_seen id h, by simp⟩

theorem Settled.drain {o : Orphans} {r : Registry} {id : EntityId} (h : o.Settled id) :
    (o.drain r).1.Settled id :=
  Settled.registerMany (o := ⟨o.seen, [], by simp⟩) ⟨h.1, by simp⟩

end Orphans

end CodeFirst
