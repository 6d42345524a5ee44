import CodeFirst.Build.Builder
import CodeFirst.Proofs.Denotation

/-! What a build has done and what it still has to do. Between any two of its parts every declared
type is wired as its contributions say, or its place is queued exactly once. The loop over the queue
keeps this and ends with an empty queue. -/

namespace CodeFirst

namespace NamedType

@[simp] theorem isWired_shell (c : ClassRecord) (k : TypeCategory) :
    (c.shell k).isWired = false := by cases k <;> rfl
@[simp] theorem isWired_rootShell (kind : RootKind) : kind.shell.isWired = false := rfl

end NamedType

namespace Setting

variable {set : Setting} {H : List Origin}

/-- Wiring an unwired type is wiring its shell, and gives it its fields. -/
theorem Wires.wire_eq {t : NamedType} {w : Wiring} (hw : set.Wires H t.origin w)
    (ht : t.unwired.IsShell set.registry) (hn : t.isWired = false) :
    t.wire w = t.unwired.wire w ∧ (t.wire w).isWired = true := by
  cases t with
  | scalar t => simp [NamedType.isWired] at hn
  | object t =>
    have hf : t.fields? = none := by simpa [NamedType.isWired, CompositeType.isWired] using hn
    cases w with
    | composite c => simp [NamedType.wire, NamedType.unwired, NamedType.isWired,
        CompositeType.isWired, hf]
    | input values => cases ho : t.origin <;> simp [NamedType.origin, ho, Wires] at hw
  | interface t =>
    have hf : t.fields? = none := by simpa [NamedType.isWired, CompositeType.isWired] using hn
    cases w with
    | composite c => simp [NamedType.wire, NamedType.unwired, NamedType.isWired,
        CompositeType.isWired, hf]
    | input values => cases ho : t.origin <;> simp [NamedType.origin, ho, Wires] at hw
  | input t =>
    have hf : t.fields? = none := by simpa [NamedType.isWired, InputType.isWired] using hn
    cases w with
    | composite c =>
      have hk := ht.kind_eq
      cases ho : t.origin with
      | none => simp [NamedType.kind, NamedType.unwired, NamedType.origin, ho, Origin.kind] at hk
      | some id => simp [NamedType.origin, ho, Wires] at hw
    | input values => simp [NamedType.wire, NamedType.unwired, NamedType.isWired,
        InputType.isWired, hf]

/-- A type that has all it will ever have: a scalar, or a shell wired as it should be. -/
def Fits (set : Setting) (H : List Origin) (t : NamedType) : Prop :=
  t.isScalar = true ∨ ∃ w, set.Wires H t.origin w ∧ t = t.unwired.wire w

theorem Fits.mono {H' : List Origin} (hH : H <+: H') {t : NamedType} (h : set.Fits H t) :
    set.Fits H' t := by
  rcases h with h | ⟨w, hw, ht⟩
  · exact .inl h
  · exact .inr ⟨w, hw.mono hH, ht⟩

/-- The invariant of a build, while the wirings of some places are under way. -/
structure Progress (set : Setting) (held : List TypeId) (s : Realization) : Prop where
  coherent : s.Coherent set.registry
  nodup : (held ++ s.pending).Nodup
  mem_queue : ∀ i, i ∈ held ++ s.pending ↔ ∃ t, s.types[i]? = some t ∧ t.isWired = false
  declared : ∀ i ∈ s.pending, ∃ k id, s.origins[i]? = some (.declared k id)
  fits : ∀ t ∈ s.types, t.isWired = true → set.Fits s.origins t

namespace Progress

variable {held : List TypeId} {s t : Realization}

theorem empty : set.Progress [] .empty := by
  refine ⟨Realization.coherent_empty, List.nodup_nil, ?_, ?_, ?_⟩
  · intro i
    simp [Realization.empty]
  · intro i hi
    exact absurd hi List.not_mem_nil
  · intro t ht
    exact absurd ht List.not_mem_nil

theorem lt_of_mem (h : set.Progress held s) {i : TypeId} (hi : i ∈ held ++ s.pending) :
    i < s.types.length := by
  obtain ⟨t, ht, -⟩ := (h.mem_queue i).1 hi
  exact (List.getElem?_eq_some_iff.1 ht).1

theorem nodup_concat (h : set.Progress held s) :
    (held ++ s.pending ++ [s.types.length]).Nodup := by
  rw [List.nodup_append]
  refine ⟨h.nodup, by simp, ?_⟩
  intro i hi j hj hij
  have hlt := h.lt_of_mem hi
  rw [List.mem_singleton] at hj
  exact Nat.lt_irrefl _ (hj ▸ hij ▸ hlt)

theorem append (h : set.Progress held s) {x : NamedType} (ht : t.types = s.types ++ [x])
    (hc : t.Coherent set.registry) {held' : List TypeId} (hnodup : (held' ++ t.pending).Nodup)
    (hmem : ∀ j, j ∈ held' ++ t.pending ↔
      j ∈ held ++ s.pending ∨ (j = s.types.length ∧ x.isWired = false))
    (hdecl : ∀ j ∈ t.pending, j ∈ s.pending ∨
      (j = s.types.length ∧ ∃ k id, x.origin = .declared k id))
    (hx : x.isWired = true → x.isScalar = true) : set.Progress held' t := by
  have ho : t.origins = s.origins ++ [x.origin] := by
    simp only [Realization.origins, ht, List.map_append, List.map_cons, List.map_nil]
  refine ⟨hc, hnodup, ?_, ?_, ?_⟩
  · intro j
    rw [hmem, h.mem_queue, ht]
    simp only [getElem?_concat_eq_some_iff]
    constructor
    · rintro (⟨y, hy, hw⟩ | ⟨hj, hw⟩)
      · exact ⟨y, .inl hy, hw⟩
      · exact ⟨x, .inr ⟨hj, rfl⟩, hw⟩
    · rintro ⟨y, hy | ⟨hj, rfl⟩, hw⟩
      · exact .inl ⟨y, hy, hw⟩
      · exact .inr ⟨hj, hw⟩
  · intro j hj
    rw [ho]
    rcases hdecl j hj with hj | ⟨rfl, k, id, hx⟩
    · obtain ⟨k, id, hk⟩ := h.declared j hj
      exact ⟨k, id, getElem?_concat_eq_some_iff.2 (.inl hk)⟩
    · refine ⟨k, id, getElem?_concat_eq_some_iff.2 (.inr ⟨?_, hx⟩)⟩
      rw [Realization.origins, List.length_map]
  · intro y hy hw
    rw [ho]
    rw [ht] at hy
    rcases List.mem_append.1 hy with hy | hy
    · exact (h.fits y hy hw).mono (List.prefix_append _ _)
    · rw [List.mem_singleton] at hy
      subst hy
      exact .inl (hx hw)

theorem of_types (h : set.Progress held s) (ht : t.types = s.types) (hp : t.pending = s.pending)
    (hc : t.Coherent set.registry) : set.Progress held t := by
  have ho : t.origins = s.origins := by rw [Realization.origins, ht]; rfl
  refine ⟨hc, ?_, ?_, ?_, ?_⟩
  · rw [hp]
    exact h.nodup
  · rw [hp, ht]
    exact h.mem_queue
  · rw [hp, ho]
    exact h.declared
  · rw [ht, ho]
    exact h.fits

theorem withOrphans (h : set.Progress held s) {q : Orphans}
    (hq : ∀ id ∈ s.orphans.seen, id ∈ q.seen) : set.Progress held { s with orphans := q } :=
  h.of_types rfl rfl (h.coherent.of_shells rfl rfl hq)

theorem step (h : set.Progress held s) (hs : Realization.Step set.registry s t) :
    set.Progress held t := by
  have hc := hs.coherent h.coherent
  cases hs with
  | scalar x fresh =>
    refine h.append (x := .scalar x) rfl hc h.nodup ?_ (fun j hj => .inl hj) fun _ => rfl
    intro j
    simp [Realization.addType, NamedType.isWired]
  | declared k c known new fresh =>
    refine h.append (Realization.types_addDeclared s k c) hc ?_ ?_ ?_ (by simp)
    · rw [Realization.pending_addDeclared, ← List.append_assoc]
      exact h.nodup_concat
    · intro j
      rw [Realization.pending_addDeclared, ← List.append_assoc, List.mem_append,
        List.mem_singleton]
      simp
    · intro j hj
      rw [Realization.pending_addDeclared, List.mem_append, List.mem_singleton] at hj
      exact hj.imp id fun hj => ⟨hj, k, c.target, NamedType.origin_shell c k⟩
  | orphan id => exact h.of_types rfl rfl hc
  | event e => exact h.of_types rfl rfl hc

theorem grows (h : set.Progress held s) (hg : Realization.Grows set.registry s t) :
    set.Progress held t := by
  induction hg with
  | refl => exact h
  | tail _ hs ih => exact ih.step hs

theorem addRoot (h : set.Progress [] s) {kind : RootKind} (fresh : s.typeId? kind.typeName = none) :
    set.Progress [s.types.length] (s.addType kind.shell) := by
  have hc : (s.addType kind.shell).Coherent set.registry :=
    h.coherent.addType fresh (.root kind) (by simp)
  refine h.append rfl hc ?_ ?_ (fun j hj => .inl hj) (by simp)
  · have hperm : (s.pending ++ [s.types.length]).Perm ([s.types.length] ++ s.pending) :=
      List.perm_append_comm
    exact hperm.nodup_iff.1 h.nodup_concat
  · intro j
    change j ∈ [s.types.length] ++ s.pending ↔ _
    rw [List.mem_append, List.mem_singleton, List.nil_append]
    simp [or_comm]

theorem wire {i : TypeId} (h : set.Progress [i] s) {x : NamedType} {w : Wiring}
    (hx : s.types[i]? = some x) (hw : set.Wires s.origins x.origin w) :
    set.Progress [] (s.wire i w) := by
  have hn : x.isWired = false := by
    obtain ⟨y, hy, hn⟩ := (h.mem_queue i).1 List.mem_cons_self
    rw [hx, Option.some.injEq] at hy
    rw [hy]
    exact hn
  have hnd := h.nodup
  rw [List.singleton_append, List.nodup_cons] at hnd
  obtain ⟨he, hwired⟩ := hw.wire_eq (h.coherent.isShell x (List.mem_of_getElem? hx)) hn
  have hget : ∀ j y, (s.wire i w).types[j]? = some y ↔
      (j ≠ i ∧ s.types[j]? = some y) ∨ (j = i ∧ x.wire w = y) := by
    intro j y
    rw [Realization.wire, List.getElem?_modify]
    by_cases hj : i = j
    · subst hj
      simp [hx]
    · have hj' : j ≠ i := fun h => hj h.symm
      simp [hj, hj']
  refine ⟨h.coherent.of_shells (s.shells_wire i w) rfl fun _ hid => hid, hnd.2, ?_, ?_, ?_⟩
  · intro j
    have hmem := h.mem_queue j
    rw [List.singleton_append, List.mem_cons] at hmem
    constructor
    · intro hj
      have hne : j ≠ i := fun hji => hnd.1 (hji ▸ hj)
      obtain ⟨y, hy, hyw⟩ := hmem.1 (.inr hj)
      exact ⟨y, (hget j y).2 (.inl ⟨hne, hy⟩), hyw⟩
    · rintro ⟨y, hy, hyw⟩
      rcases (hget j y).1 hy with ⟨hne, hy⟩ | ⟨rfl, rfl⟩
      · exact (hmem.2 ⟨y, hy, hyw⟩).elim (fun hj => absurd hj hne) id
      · rw [hwired] at hyw
        exact absurd hyw (by decide)
  · rw [Realization.origins_wire]
    exact h.declared
  · intro y hy hyw
    rw [Realization.origins_wire]
    obtain ⟨j, hj⟩ := List.getElem?_of_mem hy
    rcases (hget j y).1 hj with ⟨-, hy⟩ | ⟨-, rfl⟩
    · exact h.fits y (List.mem_of_getElem? hy) hyw
    · refine .inr ⟨w, ?_, ?_⟩
      · rw [NamedType.origin_wire]
        exact hw
      · rw [NamedType.unwired_wire]
        exact he

theorem pop (h : set.Progress [] s) {i : TypeId} {rest : List TypeId} (hs : s.pending = i :: rest) :
    set.Progress [i] { s with pending := rest } := by
  have hq : [i] ++ rest = [] ++ s.pending := by rw [hs]; rfl
  refine ⟨h.coherent.of_shells rfl rfl fun _ hid => hid, ?_, ?_, ?_, h.fits⟩
  · change ([i] ++ rest).Nodup
    rw [hq]
    exact h.nodup
  · intro j
    change j ∈ [i] ++ rest ↔ _
    rw [hq]
    exact h.mem_queue j
  · intro j hj
    exact h.declared j (hs ▸ List.mem_cons_of_mem i hj)

theorem isWired (h : set.Progress [] s) (hp : s.pending = []) {t : NamedType} (ht : t ∈ s.types) :
    t.isWired = true := by
  by_contra hw
  obtain ⟨i, hi⟩ := List.getElem?_of_mem ht
  have hmem := (h.mem_queue i).2 ⟨t, hi, by simpa using hw⟩
  rw [hp] at hmem
  exact List.not_mem_nil hmem

/-- When nothing is queued, every type has all it will ever have. -/
theorem fits_of_pending_eq_nil (h : set.Progress [] s) (hp : s.pending = []) {t : NamedType}
    (ht : t ∈ s.types) : set.Fits s.origins t :=
  h.fits t ht (h.isWired hp ht)

end Progress

end Setting

namespace Orphans

theorem settled_register_iff {o : Orphans} {id x : EntityId} :
    (o.register id).Settled x ↔ o.Settled x := by
  constructor
  · intro h
    rw [register] at h
    split at h
    · exact h
    · obtain ⟨hseen, hwaiting⟩ := h
      have hne : x ≠ id := fun he => hwaiting (List.mem_append_right _ (List.mem_singleton.2 he))
      rcases List.mem_append.1 hseen with hx | hx
      · exact ⟨hx, fun hw => hwaiting (List.mem_append_left _ hw)⟩
      · exact absurd (List.mem_singleton.1 hx) hne
  · exact Settled.register

theorem settled_registerMany_iff {o : Orphans} {ids : List EntityId} {x : EntityId} :
    (o.registerMany ids).Settled x ↔ o.Settled x := by
  induction ids generalizing o with
  | nil => exact Iff.rfl
  | cons id rest ih => exact ih.trans settled_register_iff

theorem mem_seen_registerMany {o : Orphans} {ids : List EntityId} {x : EntityId} :
    x ∈ (o.registerMany ids).seen ↔ x ∈ o.seen ∨ x ∈ ids := by
  induction ids generalizing o with
  | nil => simp [registerMany]
  | cons id rest ih =>
    have h : x ∈ ((o.register id).registerMany rest).seen ↔ x ∈ o.seen ∨ x ∈ id :: rest := by
      rw [ih, mem_seen_register, List.mem_cons, or_assoc]
    exact h

theorem mem_waiting_iff {o : Orphans} {x : EntityId} :
    x ∈ o.waiting ↔ x ∈ o.seen ∧ ¬ o.Settled x := by
  constructor
  · intro h
    exact ⟨o.waiting_seen x h, fun hs => hs.2 h⟩
  · rintro ⟨hseen, hn⟩
    by_cases hw : x ∈ o.waiting
    · exact hw
    · exact absurd ⟨hseen, hw⟩ hn

/-- Draining settles exactly the entities that were registered before. -/
theorem settled_drain_iff {o : Orphans} {r : Registry} {x : EntityId} :
    (o.drain r).1.Settled x ↔ x ∈ o.seen := by
  refine settled_registerMany_iff.trans ⟨fun h => h.1, fun h => ⟨h, List.not_mem_nil⟩⟩

theorem mem_seen_drain {o : Orphans} {r : Registry} {x : EntityId} :
    x ∈ (o.drain r).1.seen ↔ x ∈ o.seen ∨ ∃ id ∈ o.waiting, x ∈ followers r id :=
  mem_seen_registerMany.trans (or_congr Iff.rfl List.mem_flatMap)

end Orphans

namespace Realization

variable {r : Registry}

theorem Step.settled_iff {s t : Realization} (h : Step r s t) {id : EntityId} :
    t.orphans.Settled id ↔ s.orphans.Settled id := by
  cases h with
  | declared k c known new fresh =>
    rw [orphans_addDeclared]
    split
    · exact Orphans.settled_register_iff
    · exact Iff.rfl
  | orphan id => exact Orphans.settled_register_iff
  | _ => exact Iff.rfl

structure Later (s t : Realization) : Prop where
  origins : s.origins <+: t.origins
  wired : ∀ (i : TypeId) (x : NamedType), s.types[i]? = some x → x.isWired = true →
    t.types[i]? = some x
  seen : ∀ id ∈ s.orphans.seen, id ∈ t.orphans.seen

theorem Later.trans {s t u : Realization} (h₁ : s.Later t) (h₂ : t.Later u) : s.Later u :=
  ⟨h₁.origins.trans h₂.origins, fun i x h hw => h₂.wired i x (h₁.wired i x h hw) hw,
    fun id h => h₂.seen id (h₁.seen id h)⟩

/-- A later state with no drain in between. -/
structure Extends (s t : Realization) : Prop extends Later s t where
  settled : ∀ id, t.orphans.Settled id ↔ s.orphans.Settled id

theorem Extends.refl (s : Realization) : s.Extends s :=
  ⟨⟨List.prefix_refl _, fun _ _ h _ => h, fun _ h => h⟩, fun _ => Iff.rfl⟩

theorem Extends.trans {s t u : Realization} (h₁ : s.Extends t) (h₂ : t.Extends u) :
    s.Extends u :=
  ⟨h₁.toLater.trans h₂.toLater, fun id => (h₂.settled id).trans (h₁.settled id)⟩

theorem Grows.extend {s t : Realization} (h : Grows r s t) : s.Extends t := by
  refine ⟨⟨h.origins, ?_, fun _ hid => h.seen hid⟩, ?_⟩
  · intro i x hx _
    obtain ⟨ts, hts⟩ := h.types
    exact getElem?_of_isPrefix ⟨ts, hts.symm⟩ hx
  · intro id
    induction h with
    | refl => exact Iff.rfl
    | tail _ h ih => exact h.settled_iff.trans ih

theorem extend_addType (s : Realization) (x : NamedType) : s.Extends (s.addType x) := by
  refine ⟨⟨?_, ?_, fun _ h => h⟩, fun _ => Iff.rfl⟩
  · refine ⟨[x.origin], ?_⟩
    simp only [origins, addType, List.map_append, List.map_cons, List.map_nil]
  · intro i y hy _
    exact getElem?_concat_eq_some_iff.2 (.inl hy)

/-- Wiring changes no type that is wired already. -/
theorem extend_wire {s : Realization} {i : TypeId} {x : NamedType} (hx : s.types[i]? = some x)
    (hn : x.isWired = false) (w : Wiring) : s.Extends (s.wire i w) := by
  refine ⟨⟨?_, ?_, fun _ h => h⟩, fun _ => Iff.rfl⟩
  · exact ⟨[], by rw [List.append_nil, origins_wire]⟩
  · intro j y hy hw
    have hij : i ≠ j := by
      rintro rfl
      rw [hx, Option.some.injEq] at hy
      rw [← hy, hn] at hw
      exact absurd hw (by decide)
    rw [wire, List.getElem?_modify]
    simpa [hij] using hy

end Realization

namespace Setting

variable {set : Setting} {s t : Realization}

theorem wiringAt_wires {s' : Realization} (hs : s'.Coherent set.registry) {i : TypeId}
    {x : NamedType} (hx : s.types[i]? = some x) {k : TypeCategory} {id : EntityId}
    (ho : x.origin = .declared k id) {w? : Option Wiring}
    (h : (set.wiringAt s i).run s' = (.ok w?, t)) :
    ∃ w, w? = some w ∧ set.Wires t.origins x.origin w := by
  have hd : x.declaration? = some (k, id) := NamedType.declaration?_eq_some_iff.2 ho
  simp only [wiringAt, hx, Option.bind_some, hd] at h
  obtain ⟨w, u, hu, h⟩ := Realize.run_bind_eq_ok h
  obtain ⟨rfl, rfl⟩ := Realize.run_pure_eq_ok h
  refine ⟨w, rfl, ?_⟩
  rw [ho]
  exact wiring_wires hs hu

/-- The first place of the queue is the shell of a declaration, and stays as it is while what it is
to be wired with is realized. -/
theorem Progress.take (h : set.Progress [] s) {i : TypeId} {rest : List TypeId}
    (hs : s.pending = i :: rest) {a : Except BuildError (Option Wiring)}
    (hr : (set.wiringAt s i).run { s with pending := rest } = (a, t)) :
    set.Progress [i] t ∧ s.Extends t ∧ ∃ x k id, s.types[i]? = some x ∧ t.types[i]? = some x ∧
      x.isWired = false ∧ x.origin = .declared k id := by
  have hpop := h.pop hs
  obtain ⟨x, hx, hn⟩ := (hpop.mem_queue i).1 List.mem_cons_self
  obtain ⟨k, id, ho⟩ := h.declared i (hs ▸ List.mem_cons_self)
  have hxo : x.origin = .declared k id := by
    have hx' : s.types[i]? = some x := hx
    rw [Realization.getElem?_origins, hx', Option.map_some, Option.some.injEq] at ho
    exact ho
  have hg : Realization.Grows set.registry { s with pending := rest } t := Realize.grows_run hr
  have hxt : t.types[i]? = some x := by
    obtain ⟨ts, hts⟩ := hg.types
    exact getElem?_of_isPrefix ⟨ts, hts.symm⟩ hx
  have he : s.Extends { s with pending := rest } :=
    ⟨⟨List.prefix_refl _, fun _ _ h _ => h, fun _ h => h⟩, fun _ => Iff.rfl⟩
  exact ⟨hpop.grows hg, he.trans hg.extend, x, k, id, hx, hxt, hn, hxo⟩

theorem Progress.wireNext (h : set.Progress [] s) {i : TypeId} {rest : List TypeId}
    (hs : s.pending = i :: rest) {w? : Option Wiring}
    (hr : (set.wiringAt s i).run { s with pending := rest } = (.ok w?, t)) :
    ∃ w, w? = some w ∧ set.Progress [] (t.wire i w) ∧ s.Extends (t.wire i w) ∧
      ∃ x, t.types[i]? = some x ∧ x.isWired = false ∧ (x.wire w).isWired = true := by
  obtain ⟨hp, he, x, k, id, hx, hxt, hn, hxo⟩ := h.take hs hr
  obtain ⟨w, hw?, hw⟩ := wiringAt_wires (h.pop hs).coherent hx hxo hr
  have hwired := (hw.wire_eq (hp.coherent.isShell x (List.mem_of_getElem? hxt)) hn).2
  exact ⟨w, hw?, hp.wire hxt hw, he.trans (Realization.extend_wire hxt hn w), x, hxt, hn, hwired⟩

theorem Progress.wirePending (h : set.Progress [] s) (hr : set.wirePending s = (.ok (), t)) :
    set.Progress [] t ∧ t.pending = [] ∧ s.Extends t := by
  fun_induction Setting.wirePending set s with
  | case1 s hs =>
    simp only [Prod.mk.injEq, true_and] at hr
    subst hr
    exact ⟨h, hs, .refl s⟩
  | case2 s i rest hs start e u hu => simp at hr
  | case3 s i rest hs start u hu ih =>
    obtain ⟨w, hw, -⟩ := h.wireNext hs hu
    simp at hw
  | case4 s i rest hs start w u hu ih =>
    obtain ⟨w', hw, hp, he, -⟩ := h.wireNext hs hu
    rw [Option.some.injEq] at hw
    subst hw
    obtain ⟨hpt, hpending, het⟩ := ih hp hr
    exact ⟨hpt, hpending, he.trans het⟩

end Setting

end CodeFirst
