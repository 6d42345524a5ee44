import CodeFirst.Proofs.Course

/-! What a construction may do to a realization, move by move: grow, append the shell of a root,
take a place from the queue, wire, register orphans and drain them. Every step of a course is made
of such moves, and so is all that happens within a step. -/

namespace CodeFirst

namespace Realization

/-- Moves from one realization to another, with the places that are taken from the queue and the
records that are drained on the way. -/
inductive Moves (r : Registry) (s : Realization) :
    List TypeId → List (TypeCategory × ClassRecord) → Realization → Prop
  | refl : Moves r s [] [] s
  | grow {places : List TypeId} {drained : List (TypeCategory × ClassRecord)}
    {t u : Realization} (h : Moves r s places drained t) (hg : Step r t u) :
    Moves r s places drained u
  | addRoot {places : List TypeId} {drained : List (TypeCategory × ClassRecord)}
    {t : Realization} (h : Moves r s places drained t) (kind : RootKind)
    (fresh : t.typeId? kind.typeName = none) : Moves r s places drained (t.addType kind.shell)
  | take {places : List TypeId} {drained : List (TypeCategory × ClassRecord)}
    {t : Realization} (h : Moves r s places drained t) {place : TypeId} {rest : List TypeId}
    (ht : t.pending = place :: rest) :
    Moves r s (places ++ [place]) drained { t with pending := rest }
  | wire {places : List TypeId} {drained : List (TypeCategory × ClassRecord)}
    {t : Realization} (h : Moves r s places drained t) (place : TypeId) (w : Wiring) :
    Moves r s places drained (t.wire place w)
  | register {places : List TypeId} {drained : List (TypeCategory × ClassRecord)}
    {t : Realization} (h : Moves r s places drained t) (ids : List EntityId) :
    Moves r s places drained { t with orphans := t.orphans.registerMany ids }
  | drain {places : List TypeId} {drained : List (TypeCategory × ClassRecord)}
    {t : Realization} (h : Moves r s places drained t) :
    Moves r s places (drained ++ (t.orphans.drain r).2)
      { t with orphans := (t.orphans.drain r).1 }

namespace Moves

variable {r : Registry} {s t u : Realization} {places : List TypeId}
  {drained : List (TypeCategory × ClassRecord)}

theorem grows (h : Moves r s places drained t) (hg : Grows r t u) : Moves r s places drained u := by
  induction hg with
  | refl => exact h
  | tail _ hstep ih => exact ih.grow hstep

theorem coherent (h : Moves r s places drained t) (hs : s.Coherent r) : t.Coherent r := by
  induction h with
  | refl => exact hs
  | grow _ hg ih => exact hg.coherent ih
  | addRoot _ kind fresh ih => exact ih.addType fresh (.root kind) (by simp)
  | take _ _ ih => exact ih.of_shells rfl rfl fun _ hid => hid
  | wire _ place w ih => exact ih.of_shells (shells_wire _ place w) rfl fun _ hid => hid
  | register _ ids ih =>
    exact ih.of_shells rfl rfl fun _ hid => Orphans.mem_seen_registerMany.2 (.inl hid)
  | drain _ ih => exact ih.of_shells rfl rfl fun _ hid => Orphans.mem_seen_drain.2 (.inl hid)

theorem origins (h : Moves r s places drained t) : s.origins <+: t.origins := by
  induction h with
  | refl => exact List.prefix_refl _
  | grow _ hg ih => exact ih.trans hg.grows.origins
  | addRoot _ kind fresh ih => exact ih.trans (extend_addType _ _).origins
  | wire _ place w ih => rwa [origins_wire]
  | _ => assumption

end Moves

end Realization

namespace Setting

/-- The place that a step takes from the queue. -/
def Act.places : Act → List TypeId
  | .wireShell place _ _ => [place]
  | _ => []

/-- The records that a step drains. -/
def Act.drained : Act → List (TypeCategory × ClassRecord)
  | .drain records => records
  | _ => []

variable {set : Setting} {orphaned : List EntityId} {scalars : List ScalarType}
  {s t u : Realization} {stage stage' : Stage} {a : Act} {places : List TypeId}
  {drained : List (TypeCategory × ClassRecord)}

theorem Transition.moves (h : set.Transition orphaned scalars stage s a stage' t)
    (hu : Realization.Moves set.registry u places drained s) :
    Realization.Moves set.registry u (places ++ a.places) (drained ++ a.drained) t := by
  have hannounce : ∀ kind, Realization.Moves set.registry u places drained (set.announce kind s) :=
    fun kind => hu.grows (set.announce_grows kind s)
  have hdrain : ∀ {orphans : Orphans} {l : List (TypeCategory × ClassRecord)},
      s.orphans.drain set.registry = (orphans, l) →
        Realization.Moves set.registry u places (drained ++ l) { s with orphans } := by
    intro orphans l hd
    have hmoves := hu.drain
    rwa [hd] at hmoves
  cases h <;> simp only [Act.places, Act.drained, List.append_nil]
  case omitted hb => exact (hannounce _).grow (.event _ _)
  case opened hb hr =>
    obtain ⟨fresh, -, rfl⟩ := addRoot_eq_ok hr
    exact (hannounce _).addRoot _ fresh
  case refused hb hr =>
    rw [addRoot_eq_error hr]
    exact hannounce _
  case wiredRoot hr => exact ((hu.grows (Realize.grows_run hr)).grow (.event _ _)).wire _ _
  case failedRoot hr => exact hu.grows (Realize.grows_run hr)
  case requested => exact hu.register _
  case began => exact hu
  case wiredShell hp hr => exact ((hu.take hp).grows (Realize.grows_run hr)).wire _ _
  case skippedShell hp hr => exact (hu.take hp).grows (Realize.grows_run hr)
  case failedShell hp hr => exact (hu.take hp).grows (Realize.grows_run hr)
  case realized hp hd hr => exact (hdrain hd).grows (Realize.grows_run hr)
  case failedRound hp hd hr => exact (hdrain hd).grows (Realize.grows_run hr)
  case settled hp hd => simpa only [List.append_nil] using hdrain hd
  case added hr => exact hu.grows (Realize.grows_run hr)
  case failedScalars hr => exact hu.grows (Realize.grows_run hr)

theorem Course.moves {l : List Act} (h : set.Course orphaned scalars l stage s) :
    Realization.Moves set.registry .empty (l.flatMap Act.places) (l.flatMap Act.drained) s := by
  induction h with
  | start => exact .refl
  | step _ ht ih =>
    rw [List.flatMap_append, List.flatMap_append, List.flatMap_singleton, List.flatMap_singleton]
    exact ht.moves ih

end Setting

end CodeFirst
