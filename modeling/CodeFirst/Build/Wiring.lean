import CodeFirst.Build.Composite

/-! Shells get their fields one after the other; shells that come up on the way are wired later.
Orphans are realized in rounds until a round brings none. Both loops end because every round uses up
declarations that were not realized, or entities that were not drained. -/

namespace CodeFirst

inductive Wiring where
  | composite (c : Composition)
  | input (fields : InputValues)

namespace NamedType

/-- Gives a shell its fields. Fields that are there stay. -/
def wire : NamedType → Wiring → NamedType
  | .object t, .composite c =>
    .object { t with interfaces := c.interfaces, fields? := t.fields? <|> some c.fields }
  | .interface t, .composite c =>
    .interface { t with interfaces := c.interfaces, fields? := t.fields? <|> some c.fields }
  | .input t, .input fields => .input { t with fields? := t.fields? <|> some fields }
  | t, _ => t

@[simp] theorem name_wire (t : NamedType) (w : Wiring) : (t.wire w).name = t.name := by
  cases t <;> cases w <;> rfl

@[simp] theorem declaration?_wire (t : NamedType) (w : Wiring) :
    (t.wire w).declaration? = t.declaration? := by
  cases t <;> cases w <;> rfl

end NamedType

namespace Realization

def wire (s : Realization) (place : TypeId) (w : Wiring) : Realization :=
  { s with types := s.types.modify place (·.wire w) }

@[simp] theorem place?_wire (s : Realization) (i : TypeId) (w : Wiring) (k : TypeCategory)
    (id : EntityId) : (s.wire i w).place? k id = s.place? k id := rfl

@[simp] theorem typeId?_wire (s : Realization) (i : TypeId) (w : Wiring) (name : String) :
    (s.wire i w).typeId? name = s.typeId? name := rfl

@[simp] theorem orphans_wire (s : Realization) (i : TypeId) (w : Wiring) :
    (s.wire i w).orphans = s.orphans := rfl

@[simp] theorem pending_wire (s : Realization) (i : TypeId) (w : Wiring) :
    (s.wire i w).pending = s.pending := rfl

@[simp] theorem workload_wire (r : Registry) (s : Realization) (i : TypeId) (w : Wiring) :
    (s.wire i w).workload r = s.workload r := by
  simp only [workload, unrealized, place?_wire, pending_wire]

end Realization

namespace Setting

variable (set : Setting)

def wiring (category : TypeCategory) (target : EntityId) : Realize set.registry Wiring :=
  match category with
  | .object => return .composite (← set.composition .object target)
  | .interface => return .composite (← set.composition .interface target)
  | .input => return .input (← Realize.inputFields set.options target)

def wiringAt (s : Realization) (place : TypeId) : Realize set.registry (Option Wiring) :=
  match (s.types[place]?).bind NamedType.declaration? with
  | some (category, target) => return some (← set.wiring category target)
  | none => return none

/-- Wires every pending shell, and every shell that is realized on the way. -/
def wirePending (s : Realization) : Except BuildError Unit × Realization :=
  match _hs : s.pending with
  | [] => (.ok (), s)
  | place :: rest =>
    let start := { s with pending := rest }
    match _ht : (set.wiringAt s place).run start with
    | (.error e, t) => (.error e, t)
    | (.ok none, t) => wirePending t
    | (.ok (some w), t) => wirePending (t.wire place w)
termination_by s.workload set.registry
decreasing_by
  all_goals
    have hg := ((set.wiringAt s place).grows start).workload_le
    rw [_ht] at hg
    have hlt : start.workload set.registry < s.workload set.registry := by
      simp only [Realization.workload, start, _hs, List.length_cons]
      exact Nat.lt_succ_self _
  · exact Nat.lt_of_le_of_lt hg hlt
  · rw [Realization.workload_wire]
    exact Nat.lt_of_le_of_lt hg hlt

theorem wirePending_nil {s : Realization} (h : s.pending = []) :
    set.wirePending s = (.ok (), s) := by
  rw [wirePending]
  split
  · rfl
  · next hs => simp [h] at hs

theorem wirePending_cons {s : Realization} {place : TypeId} {rest : List TypeId}
    (h : s.pending = place :: rest) :
    set.wirePending s =
      match (set.wiringAt s place).run { s with pending := rest } with
      | (.error e, t) => (.error e, t)
      | (.ok none, t) => set.wirePending t
      | (.ok (some w), t) => set.wirePending (t.wire place w) := by
  rw [wirePending]
  split
  · next hs => simp [h] at hs
  · next place' rest' hs =>
    obtain ⟨rfl, rfl⟩ := List.cons.inj (h.symm.trans hs)
    dsimp only
    generalize (set.wiringAt s place).run _ = result
    rcases result with ⟨e | w | w, t⟩ <;> rfl

theorem wirePending_settled (s : Realization) {id : EntityId} (h : s.orphans.Settled id) :
    (set.wirePending s).2.orphans.Settled id := by
  fun_induction wirePending set s with
  | case1 => exact h
  | case2 s place rest hs start e t ht =>
    have hg := (set.wiringAt s place).grows start
    rw [ht] at hg
    exact hg.settled h
  | case3 s place rest hs start t ht ih =>
    have hg := (set.wiringAt s place).grows start
    rw [ht] at hg
    exact ih (hg.settled h)
  | case4 s place rest hs start w t ht ih =>
    have hg := (set.wiringAt s place).grows start
    rw [ht] at hg
    exact ih (hg.settled h)

/-- Realizes drained declarations; counts those that had no type before. -/
def realizeDrained (realized : Nat) :
    List (TypeCategory × ClassRecord) → Realize set.registry Nat
  | [] => pure realized
  | (category, c) :: rest => do
    let known ← Realize.isRealized category c.target
    let place ← Realize.declared? category c.target
    realizeDrained (if !known && place.isSome then realized + 1 else realized) rest

def unsettled (o : Orphans) : Nat :=
  set.registry.declarations.countP fun d => decide (¬ o.Settled d.2)

theorem unsettled_le {o o' : Orphans} (h : ∀ id, o.Settled id → o'.Settled id) :
    set.unsettled o' ≤ set.unsettled o :=
  List.countP_mono_left fun d _ hd => by
    simp only [decide_eq_true_eq] at *
    exact fun hs => hd (h _ hs)

theorem unsettled_lt {o o' : Orphans} {d : TypeCategory × EntityId}
    (hd : d ∈ set.registry.declarations) (hs : ¬ o.Settled d.2) (hs' : o'.Settled d.2)
    (h : ∀ id, o.Settled id → o'.Settled id) : set.unsettled o' < set.unsettled o :=
  countP_lt_countP hd (by simp [hs']) (by simp [hs]) fun d _ hd => by
    simp only [decide_eq_true_eq] at *
    exact fun hs => hd (h _ hs)

theorem exists_of_mem_drain {o : Orphans} {x : TypeCategory × ClassRecord}
    (h : x ∈ (o.drain set.registry).2) :
    ∃ d ∈ set.registry.declarations, d.2 ∈ o.waiting := by
  obtain ⟨id, hid, hx⟩ := List.mem_flatMap.1 h
  obtain ⟨k, _, hk⟩ := List.mem_filterMap.1 hx
  obtain ⟨c, hc, _⟩ := Option.map_eq_some_iff.1 hk
  exact ⟨(k, id), Registry.mem_declarations (Option.filter_eq_some_iff.1 hc).1, hid⟩

/-- Wires what is pending and realizes orphans, round by round, until a round drains nothing. The
result is the number of types that only this brought into the schema. -/
def realizeOrphans (realized : Nat) (s : Realization) : Except BuildError Nat × Realization :=
  match _hw : set.wirePending s with
  | (.error e, t) => (.error e, t)
  | (.ok (), t) =>
    match _hd : t.orphans.drain set.registry with
    | (orphans, []) => (.ok realized, { t with orphans })
    | (orphans, x :: drained) =>
      match _hr : (set.realizeDrained realized (x :: drained)).run { t with orphans } with
      | (.error e, u) => (.error e, u)
      | (.ok n, u) => realizeOrphans n u
termination_by set.unsettled s.orphans
decreasing_by
  have ht : ∀ id, s.orphans.Settled id → t.orphans.Settled id := fun id h => by
    have := set.wirePending_settled s h
    rwa [_hw] at this
  have ho : ∀ id, t.orphans.Settled id → orphans.Settled id := fun id h => by
    have := Orphans.Settled.drain (r := set.registry) h
    rwa [_hd] at this
  have hu : ∀ id, orphans.Settled id → u.orphans.Settled id := fun id h => by
    have := (set.realizeDrained realized (x :: drained)).grows { t with orphans }
    rw [_hr] at this
    exact this.settled h
  obtain ⟨d, hmem, hwait⟩ := set.exists_of_mem_drain (o := t.orphans) (x := x) (by rw [_hd]; simp)
  have hset : orphans.Settled d.2 := by
    have := Orphans.settled_drain_of_waiting (r := set.registry) hwait
    rwa [_hd] at this
  exact Nat.lt_of_le_of_lt (set.unsettled_le hu)
    (Nat.lt_of_lt_of_le (set.unsettled_lt hmem (fun h => h.2 hwait) hset ho)
      (set.unsettled_le ht))

theorem realizeOrphans_eq (n : Nat) (s : Realization) :
    set.realizeOrphans n s =
      match set.wirePending s with
      | (.error e, t) => (.error e, t)
      | (.ok (), t) =>
        match t.orphans.drain set.registry with
        | (orphans, []) => (.ok n, { t with orphans })
        | (orphans, x :: drained) =>
          match (set.realizeDrained n (x :: drained)).run { t with orphans } with
          | (.error e, u) => (.error e, u)
          | (.ok m, u) => set.realizeOrphans m u := by
  rw [realizeOrphans]
  generalize set.wirePending s = wired
  rcases wired with ⟨e | _, t⟩
  · rfl
  · dsimp only
    generalize t.orphans.drain set.registry = drain
    rcases drain with ⟨orphans, _ | ⟨x, drained⟩⟩
    · rfl
    · dsimp only
      generalize (set.realizeDrained n (x :: drained)).run _ = result
      rcases result with ⟨e | m, u⟩ <;> rfl

end Setting

end CodeFirst
