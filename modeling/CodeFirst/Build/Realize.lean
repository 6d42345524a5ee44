import CodeFirst.Build.Realization
import CodeFirst.Scalar

/-! Computations that may realize types, register orphans and log, and do nothing else to a
realization: each carries the proof that what it leaves has grown out of what it found. -/

namespace CodeFirst

/-- A computation on a realization that may fail. -/
def Construction (α : Type) := Realization → Except BuildError α × Realization

namespace Construction

variable {α β : Type}

protected def pure (a : α) : Construction α := fun s => (.ok a, s)

protected def bind (x : Construction α) (f : α → Construction β) : Construction β := fun s =>
  match x s with
  | (.ok a, t) => f a t
  | (.error e, t) => (.error e, t)

instance : Monad Construction where
  pure := Construction.pure
  bind := Construction.bind

theorem bind_eq_ok {x : Construction α} {f : α → Construction β} {s u : Realization} {b : β}
    (h : (x >>= f) s = (.ok b, u)) : ∃ a t, x s = (.ok a, t) ∧ f a t = (.ok b, u) := by
  change (match x s with
    | (.ok a, t) => f a t
    | (.error e, t) => (.error e, t)) = (.ok b, u) at h
  split at h
  · next a t ht => exact ⟨a, t, ht, h⟩
  · next e t ht => simp at h

def fail (e : BuildError) : Construction α := fun s => (.error e, s)

def modify (f : Realization → Realization) : Construction Unit := fun s => (.ok (), f s)

def report (e : Event) : Construction Unit := modify (·.addEvent e)

end Construction

structure Realize (r : Registry) (α : Type) where
  run : Construction α
  grows : ∀ s, Realization.Grows r s (run s).2

namespace Realize

variable {r : Registry} {α β : Type}

protected def pure (a : α) : Realize r α := ⟨fun s => (.ok a, s), fun s => .refl s⟩

protected def bind (x : Realize r α) (f : α → Realize r β) : Realize r β where
  run s :=
    match x.run s with
    | (.ok a, t) => (f a).run t
    | (.error e, t) => (.error e, t)
  grows s := by
    have h := x.grows s
    split
    · next a t ht => rw [ht] at h; exact h.trans ((f a).grows t)
    · next e t ht => rw [ht] at h; exact h

instance : Monad (Realize r) where
  pure := Realize.pure
  bind := Realize.bind

@[ext] theorem ext {x y : Realize r α} (h : ∀ s, x.run s = y.run s) : x = y := by
  cases x; cases y
  simp only [mk.injEq]
  exact funext h

@[simp] theorem run_pure (a : α) (s : Realization) :
    (pure a : Realize r α).run s = (.ok a, s) := rfl

theorem run_bind (x : Realize r α) (f : α → Realize r β) (s : Realization) :
    (x >>= f).run s = match x.run s with
      | (.ok a, t) => (f a).run t
      | (.error e, t) => (.error e, t) := rfl

theorem run_bind_ok {x : Realize r α} {f : α → Realize r β} {s t : Realization} {a : α}
    (h : x.run s = (.ok a, t)) : (x >>= f).run s = (f a).run t := by rw [run_bind, h]

theorem run_bind_error {x : Realize r α} {f : α → Realize r β} {s t : Realization} {e : BuildError}
    (h : x.run s = (.error e, t)) : (x >>= f).run s = (.error e, t) := by rw [run_bind, h]

theorem run_bind_eq_ok {x : Realize r α} {f : α → Realize r β} {s u : Realization} {b : β}
    (h : (x >>= f).run s = (.ok b, u)) :
    ∃ a t, x.run s = (.ok a, t) ∧ (f a).run t = (.ok b, u) := by
  rw [run_bind] at h
  split at h
  · next a t ht => exact ⟨a, t, ht, h⟩
  · next e t ht => simp at h

instance : LawfulMonad (Realize r) := LawfulMonad.mk' (Realize r)
  (fun x => ext fun s => by
    show (Realize.bind x (fun a => Realize.pure a)).run s = x.run s
    simp only [Realize.bind, Realize.pure]
    split <;> simp_all)
  (fun _ _ => ext fun _ => rfl)
  (fun x f g => ext fun s => by
    simp only [run_bind]
    cases x.run s with
    | mk result t => cases result <;> rfl)

def fail (e : BuildError) : Realize r α := ⟨fun s => (.error e, s), fun s => .refl s⟩

@[simp] theorem run_fail (e : BuildError) (s : Realization) :
    (fail e : Realize r α).run s = (.error e, s) := rfl

def ofOption (e : BuildError) : Option α → Realize r α
  | some a => pure a
  | none => fail e

def report (e : Event) : Realize r Unit :=
  ⟨fun s => (.ok (), s.addEvent e), fun s => (Realization.Step.event s e).grows⟩

def registerOrphan (id : EntityId) : Realize r Unit :=
  ⟨fun s => (.ok (), s.addOrphan id), fun s => (Realization.Step.orphan s id).grows⟩

def registerReference (ref : Reference) : Realize r Unit :=
  match ref.entity? with
  | some id => registerOrphan id
  | none => pure ()

end Realize

def nameClash (r : Registry) (s : Realization) (place : TypeId) (t : NamedType) : BuildError :=
  .namingConflict t.name ((s.types[place]?.map (typeLabel r)).getD "") (typeLabel r t)

def NamedType.isScalar : NamedType → Bool
  | .scalar _ => true
  | _ => false

namespace Realize

variable {r : Registry}

/-- The place of the scalar with this name; it is realized on first use. -/
def scalar (t : ScalarType) : Realize r TypeId where
  run s :=
    match s.typeId? t.name with
    | none => (.ok s.types.length, s.addType (.scalar t))
    | some i =>
      if (s.types[i]?.map NamedType.isScalar).getD false then (.ok i, s)
      else (.error (nameClash r s i (.scalar t)), s)
  grows s := by
    split
    · next h => exact (Realization.Step.scalar s t h).grows
    · split <;> exact .refl s

/-- The place of the type realized from a declaration: a shell on first use, the same place ever
after. `none` if the entity is not declared in this category. -/
def declared? (category : TypeCategory) (id : EntityId) : Realize r (Option TypeId) where
  run s :=
    match s.place? category id with
    | some i => (.ok (some i), s)
    | none =>
      match r.class? category.classKind id with
      | none => (.ok none, s)
      | some c =>
        match s.typeId? c.name with
        | some i => (.error (nameClash r s i (c.shell category)), s)
        | none => (.ok (some s.types.length), s.addDeclared category c)
  grows s := by
    split
    · exact .refl s
    · next hp =>
      split
      · exact .refl s
      · next c hc =>
        split
        · exact .refl s
        · next hn =>
          have ht := Registry.target_of_class? hc
          subst ht
          exact (Realization.Step.declared s category c hc hp hn).grows

def isRealized (category : TypeCategory) (id : EntityId) : Realize r Bool :=
  ⟨fun s => (.ok (s.place? category id).isSome, s), fun s => .refl s⟩

end Realize

end CodeFirst
