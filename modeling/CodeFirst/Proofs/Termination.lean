import CodeFirst.Proofs.Moves
import Mathlib.Data.List.Nodup

/-! Constructions end. No place is taken from the queue twice and no record is drained twice, so
both are bounded by what is declared. Every step uses up a stage, a declaration that was not
realized, a place of the queue or an entity that was not drained. -/

namespace CodeFirst

namespace Orphans

theorem nodup_register {o : Orphans} (h : o.waiting.Nodup) (id : EntityId) :
    (o.register id).waiting.Nodup := by
  rw [register]
  split
  · exact h
  · next hid =>
    refine List.nodup_append.2 ⟨h, by simp, ?_⟩
    intro x hx y hy hxy
    rw [List.mem_singleton] at hy
    exact hid (hy ▸ hxy ▸ o.waiting_seen x hx)

theorem nodup_registerMany {o : Orphans} (h : o.waiting.Nodup) (ids : List EntityId) :
    (o.registerMany ids).waiting.Nodup := by
  induction ids generalizing o with
  | nil => exact h
  | cons id rest ih => exact ih (nodup_register h id)

variable {r : Registry}

theorem target_of_mem_records {id : EntityId} {x : TypeCategory × ClassRecord}
    (h : x ∈ records r id) : x.2.target = id :=
  Registry.target_of_class? (mem_records_iff.1 h).1

theorem nodup_records (id : EntityId) : (records r id).Nodup := by
  refine List.Nodup.filterMap ?_ (by decide)
  intro k k' x hx hx'
  obtain ⟨c, -, rfl⟩ := Option.map_eq_some_iff.1 hx
  obtain ⟨c', -, he⟩ := Option.map_eq_some_iff.1 hx'
  exact (congrArg Prod.fst he).symm

theorem nodup_drained {o : Orphans} (h : o.waiting.Nodup) : (o.drain r).2.Nodup := by
  refine List.nodup_flatMap.2 ⟨fun id _ => nodup_records id, h.imp ?_⟩
  intro id id' hne x hx hx'
  exact hne ((target_of_mem_records hx).symm.trans (target_of_mem_records hx'))

theorem mem_waiting_of_mem_drained {o : Orphans} {x : TypeCategory × ClassRecord}
    (h : x ∈ (o.drain r).2) : x.2.target ∈ o.waiting ∧ x.2.isAbstract = false := by
  obtain ⟨id, hid, hx⟩ := List.mem_flatMap.1 h
  exact ⟨target_of_mem_records hx ▸ hid, (mem_records_iff.1 hx).2⟩

end Orphans

namespace Realization

variable {r : Registry} {s t : Realization} {places : List TypeId}
  {drained : List (TypeCategory × ClassRecord)}

theorem Step.nodup_waiting (h : Step r s t) (hs : s.orphans.waiting.Nodup) :
    t.orphans.waiting.Nodup := by
  cases h with
  | declared k c known new fresh =>
    rw [orphans_addDeclared]
    split
    · exact Orphans.nodup_register hs c.target
    · exact hs
  | orphan id => exact Orphans.nodup_register hs id
  | _ => exact hs

/-- Records are drained once each, none of them abstract. -/
structure Drains (r : Registry) (drained : List (TypeCategory × ClassRecord)) (t : Realization) :
    Prop where
  waiting : t.orphans.waiting.Nodup
  nodup : drained.Nodup
  settled : ∀ x ∈ drained, t.orphans.Settled x.2.target
  known : ∀ x ∈ drained, r.class? x.1.classKind x.2.target = some x.2
  concrete : ∀ x ∈ drained, x.2.isAbstract = false

theorem Moves.drains (h : Moves r .empty places drained t) : Drains r drained t := by
  induction h with
  | refl => exact ⟨List.nodup_nil, List.nodup_nil, by simp, by simp, by simp⟩
  | grow _ hg ih =>
    exact ⟨hg.nodup_waiting ih.waiting, ih.nodup, fun x hx => hg.settled (ih.settled x hx),
      ih.known, ih.concrete⟩
  | register _ ids ih =>
    exact ⟨Orphans.nodup_registerMany ih.waiting ids, ih.nodup,
      fun x hx => (ih.settled x hx).registerMany, ih.known, ih.concrete⟩
  | @drain places drained t _ ih =>
    have hold : ∀ x ∈ drained, x ∉ (t.orphans.drain r).2 := by
      intro x hx hnew
      exact (ih.settled x hx).2 (Orphans.mem_waiting_of_mem_drained hnew).1
    refine ⟨Orphans.nodup_registerMany List.nodup_nil _, ?_, ?_, ?_, ?_⟩
    · refine List.nodup_append.2 ⟨ih.nodup, Orphans.nodup_drained ih.waiting, ?_⟩
      rintro x hx _ hy rfl
      exact hold x hx hy
    · intro x hx
      rcases List.mem_append.1 hx with hx | hx
      · exact (ih.settled x hx).drain
      · exact Orphans.settled_drain_of_waiting (Orphans.mem_waiting_of_mem_drained hx).1
    · intro x hx
      rcases List.mem_append.1 hx with hx | hx
      · exact ih.known x hx
      · exact Orphans.known_of_mem_drained hx
    · intro x hx
      rcases List.mem_append.1 hx with hx | hx
      · exact ih.concrete x hx
      · exact (Orphans.mem_waiting_of_mem_drained hx).2
  | addRoot _ _ _ ih => exact ⟨ih.waiting, ih.nodup, ih.settled, ih.known, ih.concrete⟩
  | take _ _ ih => exact ⟨ih.waiting, ih.nodup, ih.settled, ih.known, ih.concrete⟩
  | wire _ _ _ ih => exact ⟨ih.waiting, ih.nodup, ih.settled, ih.known, ih.concrete⟩

/-- Places that were taken from the queue or still are in it hold declared types, each once. -/
structure Takes (places : List TypeId) (t : Realization) : Prop where
  nodup : (places ++ t.pending).Nodup
  declared : ∀ i ∈ places ++ t.pending, ∃ k id, t.origins[i]? = some (.declared k id)

theorem Takes.of_pending {u : Realization} (h : Takes places t) (hp : u.pending = t.pending)
    (ho : t.origins <+: u.origins) : Takes places u := by
  refine ⟨hp ▸ h.nodup, ?_⟩
  intro i hi
  obtain ⟨k, id, hk⟩ := h.declared i (hp ▸ hi)
  exact ⟨k, id, getElem?_of_isPrefix ho hk⟩

theorem Takes.step {u : Realization} (h : Takes places t) (hs : Step r t u) : Takes places u := by
  have ho := hs.grows.origins
  cases hs with
  | declared k c known new fresh =>
    have hlast : (t.addDeclared k c).origins[t.types.length]? = some (.declared k c.target) := by
      rw [getElem?_origins, types_addDeclared]
      simp
    refine ⟨?_, ?_⟩
    · rw [pending_addDeclared, ← List.append_assoc, List.nodup_append]
      refine ⟨h.nodup, by simp, ?_⟩
      intro i hi j hj hij
      obtain ⟨k', id, hk'⟩ := h.declared i hi
      have hlt := (List.getElem?_eq_some_iff.1 hk').1
      rw [origins, List.length_map] at hlt
      rw [List.mem_singleton] at hj
      exact Nat.lt_irrefl _ (hj ▸ hij ▸ hlt)
    · intro i hi
      rw [pending_addDeclared, ← List.append_assoc, List.mem_append, List.mem_singleton] at hi
      rcases hi with hi | rfl
      · obtain ⟨k', id, hk'⟩ := h.declared i hi
        exact ⟨k', id, getElem?_of_isPrefix ho hk'⟩
      · exact ⟨k, c.target, hlast⟩
  | _ => exact h.of_pending rfl ho

theorem Moves.takes (h : Moves r .empty places drained t) : Takes places t := by
  induction h with
  | refl => exact ⟨List.nodup_nil, by simp [empty]⟩
  | grow _ hg ih => exact ih.step hg
  | addRoot _ kind fresh ih => exact ih.of_pending rfl (extend_addType _ _).origins
  | take _ ht ih =>
    refine ⟨?_, ?_⟩
    · have hnodup := ih.nodup
      rwa [ht, List.append_cons] at hnodup
    · intro i hi
      refine ih.declared i ?_
      rwa [ht, List.append_cons]
  | wire _ place w ih => exact ih.of_pending rfl (by simp only [origins_wire, List.prefix_refl])
  | register _ ids ih => exact ih.of_pending rfl (List.prefix_refl _)
  | drain _ ih => exact ih.of_pending rfl (List.prefix_refl _)

end Realization

namespace Setting

variable {set : Setting} {orphaned : List EntityId} {scalars : List ScalarType}
  {s t : Realization} {stage stage' : Stage} {a : Act} {l : List Act}

/-- The number of steps between a stage and the end, if loops are gone through once. -/
def Stage.rank : Stage → Nat
  | .roots left => 4 + 2 * left.length
  | .fields _ _ left => 5 + 2 * left.length
  | .round _ => 3
  | .wiring _ => 2
  | .scalars => 1
  | .finished _ => 0

/-- What is left to wire and to drain. -/
def remaining (set : Setting) (s : Realization) : Nat :=
  s.workload set.registry + 2 * set.unsettled s.orphans

theorem remaining_le_of_grows (h : Realization.Grows set.registry s t) :
    set.remaining t ≤ set.remaining s :=
  Nat.add_le_add h.workload_le (Nat.mul_le_mul_left 2 (set.unsettled_le fun _ => h.settled))

theorem remaining_announce_le (kind : RootKind) (s : Realization) :
    set.remaining (set.announce kind s) ≤ set.remaining s :=
  remaining_le_of_grows (set.announce_grows kind s)

@[simp] theorem remaining_wire (s : Realization) (place : TypeId) (w : Wiring) :
    set.remaining (s.wire place w) = set.remaining s := by
  simp [remaining]

theorem remaining_request_le (s : Realization) :
    set.remaining (set.request orphaned s) ≤ set.remaining s :=
  Nat.add_le_add_left (Nat.mul_le_mul_left 2 (set.unsettled_le fun _ => .registerMany)) _

/-- Taking a place from the queue leaves less to do. -/
theorem remaining_take {place : TypeId} {rest : List TypeId} (h : s.pending = place :: rest) :
    set.remaining { s with pending := rest } + 1 = set.remaining s := by
  simp only [remaining, Realization.workload, h, List.length_cons]
  have hu : ({ s with pending := rest } : Realization).unrealized set.registry =
      s.unrealized set.registry := rfl
  omega

theorem remaining_drain_le {orphans : Orphans} {drained : List (TypeCategory × ClassRecord)}
    (h : s.orphans.drain set.registry = (orphans, drained)) :
    set.remaining { s with orphans } ≤ set.remaining s := by
  have ho : orphans = (s.orphans.drain set.registry).1 := by rw [h]
  subst ho
  exact Nat.add_le_add_left (Nat.mul_le_mul_left 2 (set.unsettled_le fun _ => .drain)) _

/-- Draining a record settles an entity with a declaration. -/
theorem remaining_drain {orphans : Orphans} {x : TypeCategory × ClassRecord}
    {drained : List (TypeCategory × ClassRecord)}
    (h : s.orphans.drain set.registry = (orphans, x :: drained)) :
    set.remaining { s with orphans } + 2 ≤ set.remaining s := by
  have ho : orphans = (s.orphans.drain set.registry).1 := by rw [h]
  obtain ⟨d, hd, hwaiting⟩ := set.exists_of_mem_drain (o := s.orphans) (x := x) (by rw [h]; simp)
  have hlt : set.unsettled orphans < set.unsettled s.orphans := by
    rw [ho]
    exact set.unsettled_lt hd (fun hs => hs.2 hwaiting) (Orphans.settled_drain_of_waiting hwaiting)
      fun _ => .drain
  have hw : ({ s with orphans } : Realization).workload set.registry =
      s.workload set.registry := rfl
  simp only [remaining, hw]
  omega

theorem Transition.remaining_lt (h : set.Transition orphaned scalars stage s a stage' t) :
    stage'.rank + set.remaining t < stage.rank + set.remaining s := by
  cases h <;> simp only [Stage.rank, List.length_cons, List.length_nil, remaining_wire]
  case omitted kind left hb =>
    have hle : set.remaining _ ≤ set.remaining s :=
      remaining_le_of_grows (.tail (set.announce_grows kind s) (.event _ (.rootOmitted kind)))
    omega
  case opened kind left place hb hr =>
    obtain ⟨-, -, rfl⟩ := addRoot_eq_ok hr
    have hle := set.remaining_announce_le kind s
    change _ + set.remaining (set.announce kind s) < _
    omega
  case refused kind left e hb hr =>
    rw [addRoot_eq_error hr]
    have hle := set.remaining_announce_le kind s
    omega
  case wiredRoot kind place left u fields hr =>
    have hle := remaining_le_of_grows
      (.tail (Realize.grows_run hr) (.event _ (.rootBuilt kind fields.size)))
    omega
  case failedRoot hr =>
    have hle := remaining_le_of_grows (Realize.grows_run hr)
    omega
  case requested =>
    have hle : set.remaining (set.request orphaned s) ≤ set.remaining s := remaining_request_le s
    omega
  case began => omega
  case wiredShell hp hr =>
    have hle := remaining_le_of_grows (Realize.grows_run hr)
    have hlt : set.remaining _ + 1 = set.remaining s := remaining_take hp
    omega
  case skippedShell hp hr =>
    have hle := remaining_le_of_grows (Realize.grows_run hr)
    have hlt : set.remaining _ + 1 = set.remaining s := remaining_take hp
    omega
  case failedShell hp hr =>
    have hle := remaining_le_of_grows (Realize.grows_run hr)
    have hlt : set.remaining _ + 1 = set.remaining s := remaining_take hp
    omega
  case realized hp hd hr =>
    have hle := remaining_le_of_grows (Realize.grows_run hr)
    have hlt := remaining_drain hd
    omega
  case failedRound hp hd hr =>
    have hle := remaining_le_of_grows (Realize.grows_run hr)
    have hlt := remaining_drain hd
    omega
  case settled hp hd =>
    have hle := remaining_drain_le hd
    omega
  case added hr =>
    have hle := remaining_le_of_grows (Realize.grows_run hr)
    omega
  case failedScalars hr =>
    have hle := remaining_le_of_grows (Realize.grows_run hr)
    omega

/-- The rounds that a stage still owes. -/
def Stage.credit : Stage → Nat
  | .roots _ | .fields .. | .round _ => 1
  | _ => 0

def Act.beginsRound : Act → Bool
  | .beginRound => true
  | _ => false

/-- A round is paid for by a record that was drained before; the first one is free. -/
theorem Transition.rounds_le (h : set.Transition orphaned scalars stage s a stage' t) :
    [a].countP Act.beginsRound + stage'.credit ≤ a.drained.length + stage.credit := by
  cases h <;> simp [Stage.credit, Act.beginsRound, Act.drained]

namespace Course

theorem length_le (h : set.Course orphaned scalars l stage s) :
    l.length + (stage.rank + set.remaining s) ≤ 10 + set.remaining .empty := by
  induction h with
  | start => exact Nat.le_of_eq (Nat.zero_add _)
  | step _ ht ih =>
    have hlt := ht.remaining_lt
    rw [List.length_append, List.length_singleton]
    omega

theorem rounds_le (h : set.Course orphaned scalars l stage s) :
    l.countP Act.beginsRound + stage.credit ≤ (l.flatMap Act.drained).length + 1 := by
  induction h with
  | start => exact Nat.le_refl 1
  | step _ ht ih =>
    have hle := ht.rounds_le
    rw [List.countP_append, List.flatMap_append, List.flatMap_singleton, List.length_append]
    omega

end Course

theorem remaining_empty_le : set.remaining .empty ≤ 3 * set.registry.declarations.length := by
  have hunrealized : Realization.unrealized set.registry .empty ≤
      set.registry.declarations.length := List.countP_le_length
  have hunsettled : set.unsettled Realization.empty.orphans ≤ set.registry.declarations.length :=
    List.countP_le_length
  have hpending : Realization.empty.pending.length = 0 := rfl
  simp only [remaining, Realization.workload, hpending]
  omega

/-- What is done in a construction, as far as its loops go. -/
structure Bounded (set : Setting) (l : List Act) (final : Realization) : Prop where
  wirings : ((l.flatMap Act.places).map final.declaration?).Nodup
  declared : ∀ i ∈ l.flatMap Act.places, ∃ k c, final.declaration? i = some (k, c.target) ∧
    set.registry.class? k.classKind c.target = some c
  drained_nodup : (l.flatMap Act.drained).Nodup
  drained : ∀ x ∈ l.flatMap Act.drained,
    set.registry.class? x.1.classKind x.2.target = some x.2 ∧ x.2.isAbstract = false
  rounds : l.countP Act.beginsRound ≤ (l.flatMap Act.drained).length + 1
  length : l.length ≤ 10 + 3 * set.registry.declarations.length

theorem Course.bounded (h : set.Course orphaned scalars l stage s) : set.Bounded l s := by
  have hcoherent : s.Coherent set.registry := h.moves.coherent Realization.coherent_empty
  have htakes := h.moves.takes
  have hdrains := h.moves.drains
  refine ⟨?_, ?_, hdrains.nodup, fun x hx => ⟨hdrains.known x hx, hdrains.concrete x hx⟩, ?_, ?_⟩
  · refine List.Nodup.map_on ?_ (List.nodup_append.1 htakes.nodup).1
    intro i hi j hj hij
    obtain ⟨k, id, hk⟩ := htakes.declared i (List.mem_append_left _ hi)
    have hd := Realization.declaration?_eq_some_iff.2 hk
    have hk' := Realization.declaration?_eq_some_iff.1 (hij ▸ hd)
    have hplace := (hcoherent.place?_iff k id i).2 hk
    rw [(hcoherent.place?_iff k id j).2 hk', Option.some.injEq] at hplace
    exact hplace.symm
  · intro i hi
    obtain ⟨k, id, hk⟩ := htakes.declared i (List.mem_append_left _ hi)
    obtain ⟨c, hc⟩ := hcoherent.known (List.mem_of_getElem? hk)
    have ht := Registry.target_of_class? hc
    subst ht
    exact ⟨k, c, Realization.declaration?_eq_some_iff.2 hk, hc⟩
  · exact Nat.le_trans (Nat.le_add_right _ _) h.rounds_le
  · exact Nat.le_trans (Nat.le_add_right _ _)
      (Nat.le_trans h.length_le (Nat.add_le_add_left remaining_empty_le 10))

/-- Every construction ends, after each declaration was wired at most once and after at most one
round more than records that are not abstract were drained. -/
theorem construct_terminates (set : Setting) (orphaned : List EntityId)
    (scalars : List ScalarType) :
    ∃ l, set.Course orphaned scalars l
        (.finished (error? (set.construct orphaned scalars .empty).1))
        (set.construct orphaned scalars .empty).2 ∧
      (∀ l' stage s, set.Course orphaned scalars l' stage s → l' <+: l) ∧
      set.Bounded l (set.construct orphaned scalars .empty).2 := by
  obtain ⟨l, hl⟩ := set.construct_course orphaned scalars
  exact ⟨l, hl, fun _ _ _ hc => hc.isPrefix_of_finished hl, hl.bounded⟩

end Setting

end CodeFirst
