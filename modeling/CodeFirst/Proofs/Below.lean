import CodeFirst.Proofs.Exposed

/-! Running below a realization that has all that is asked for. A computation whose references
denote types of a coherent realization succeeds on any realization below it, whatever the order in
which the types came, and stays below. -/

namespace CodeFirst

theorem exists_right_of_forall₂ {α β : Type} {R : α → β → Prop} {l : List α} {m : List β}
    (h : List.Forall₂ R l m) {a : α} (ha : a ∈ l) : ∃ b ∈ m, R a b := by
  obtain ⟨b, hb, hab⟩ := exists_left_of_forall₂ h.flip ha
  exact ⟨b, hb, hab⟩

section Grounded

variable (o : BuildOptions) (r : Registry) (H : List Origin)

/-- A contribution for which there is all that it asks for. -/
structure Contribution.Grounded (x : Contribution) : Prop where
  interface : ∀ id, x.interface? = some id → .declared .interface id ∈ H
  shows : x.interface? = none → ∃ f, x.Shows o r H f

variable {o r H}

theorem Merges.grounded {l : List InputContribution} {values : InputValues}
    (h : Merges o r H l values) : ∀ x ∈ l, ∃ v, x.Shows o r H v := by
  intro x hx
  obtain ⟨vs, hvs, -⟩ := h
  obtain ⟨v, -, hv⟩ := exists_right_of_forall₂ hvs hx
  exact ⟨v, hv⟩

theorem Composes.grounded {l : List Contribution} {c : Composition} (h : Composes o r H l c) :
    ∀ x ∈ l, x.Grounded o r H := by
  intro x hx
  refine ⟨?_, ?_⟩
  · intro id hid
    have hmem : id ∈ l.filterMap Contribution.interface? := List.mem_filterMap.2 ⟨x, hx, hid⟩
    obtain ⟨i, -, hi⟩ := exists_right_of_forall₂ h.interfaces hmem
    exact List.mem_of_getElem? hi
  · intro hnone
    obtain ⟨fs, hfs, -⟩ := h.fields
    have hmem : x ∈ l.filter (·.interface?.isNone) := List.mem_filter.2 ⟨hx, by rw [hnone]; rfl⟩
    obtain ⟨f, -, hf⟩ := exists_right_of_forall₂ hfs hmem
    exact ⟨f, hf⟩

end Grounded

def Setting.Grounds (set : Setting) (H : List Origin) : Origin → Prop
  | .declared .object id =>
    ∀ x ∈ set.contributions .object id, x.Grounded set.options set.registry H
  | .declared .interface id =>
    ∀ x ∈ set.contributions .interface id, x.Grounded set.options set.registry H
  | .declared .input id =>
    ∀ x ∈ InputContribution.ofChain (set.registry.classChain .input id),
      ∃ v, x.Shows set.options set.registry H v
  | .root name => ∀ kind : RootKind, name = kind.typeName →
    ∀ x ∈ set.rootContributions kind, x.Grounded set.options set.registry H
  | .scalar _ => True

theorem Setting.Wires.grounds {set : Setting} {H : List Origin} {x : Origin} {w : Wiring}
    (h : set.Wires H x w) : set.Grounds H x := by
  match x, w, h with
  | .declared .object id, .composite c, h => exact Composes.grounded h
  | .declared .interface id, .composite c, h => exact Composes.grounded h
  | .declared .input id, .input values, h => exact Merges.grounded h
  | .root name, .composite c, ⟨kind, hname, h⟩ =>
    intro kind' hname'
    have hkind : kind = kind' := RootKind.typeName_injective (hname.symm.trans hname')
    subst hkind
    exact h.grounded

section Below

variable (offered : ScalarType → Prop)

/-- Nothing was realized or registered that the other one has not, and only offered scalars. -/
structure Realization.Below (s u : Realization) : Prop where
  origins : ∀ x ∈ s.origins, x ∈ u.origins
  seen : ∀ id ∈ s.orphans.seen, id ∈ u.orphans.seen
  scalars : ∀ t, .scalar t ∈ s.types → offered t

/-- Two realizations in which the same was realized, registered and drained. -/
structure Realization.Agree (s s' : Realization) : Prop where
  below : s.Below offered s'
  above : s'.Below offered s
  settled : ∀ id, s.orphans.Settled id ↔ s'.orphans.Settled id

def Offers (o : BuildOptions) (r : Registry) : Prop :=
  ∀ ref t, scalarOf? o r ref = some t → offered t

end Below

variable {offered : ScalarType → Prop}

namespace Realization

variable {r : Registry} {s u : Realization}

theorem Agree.symm {s s' : Realization} (h : s.Agree offered s') : s'.Agree offered s :=
  ⟨h.above, h.below, fun id => (h.settled id).symm⟩

theorem Below.append {t : Realization} (h : s.Below offered u) {x : NamedType}
    (ht : t.types = s.types ++ [x]) (hx : x.origin ∈ u.origins)
    (hseen : ∀ id ∈ t.orphans.seen, id ∈ u.orphans.seen) (hs : ∀ y, x = .scalar y → offered y) :
    t.Below offered u := by
  refine ⟨?_, hseen, ?_⟩
  · intro y hy
    rw [Realization.origins, ht, List.map_append, List.map_singleton, List.mem_append,
      List.mem_singleton] at hy
    rcases hy with hy | rfl
    · exact h.origins y hy
    · exact hx
  · intro y hy
    rw [ht, List.mem_append, List.mem_singleton] at hy
    rcases hy with hy | hy
    · exact h.scalars y hy
    · exact hs y hy.symm

/-- The order of types has no say in it. -/
theorem Below.of_shells {t : Realization} (h : s.Below offered u) (ht : t.shells = s.shells)
    (hseen : ∀ id ∈ t.orphans.seen, id ∈ u.orphans.seen) : t.Below offered u := by
  refine ⟨?_, hseen, ?_⟩
  · rw [origins_eq_of_shells ht]
    exact h.origins
  · intro y hy
    have hmem : NamedType.unwired (.scalar y) ∈ t.shells := List.mem_map_of_mem hy
    rw [ht] at hmem
    obtain ⟨z, hz, hzy⟩ := List.mem_map.1 hmem
    have he : z = .scalar y := by
      cases z with
      | scalar z => exact hzy
      | _ => simp [NamedType.unwired] at hzy
    exact h.scalars y (he ▸ hz)

/-- A name of the upper realization that is taken below is taken by the same origin. -/
theorem Below.origin_of_name (hu : u.Coherent r) (hs : s.Coherent r) (h : s.Below offered u)
    {x : Origin} (hx : x ∈ u.origins) {t : NamedType} (ht : t ∈ s.types)
    (hn : t.name = x.name r) : t.origin = x := by
  rw [hs.name_eq ht] at hn
  exact hu.origin_of_name (h.origins _ (List.mem_map_of_mem ht)) hx hn

end Realization

namespace Realize

variable {r : Registry} {o : BuildOptions} {u : Realization} {α β : Type}

/-- A computation that succeeds below a realization and stays below it. -/
def StaysBelow (offered : ScalarType → Prop) (u : Realization) (x : Realize r α) : Prop :=
  ∀ s, s.Coherent r → s.Below offered u → ∃ a t, x.run s = (.ok a, t) ∧ t.Below offered u

namespace StaysBelow

theorem pure (a : α) : StaysBelow offered u (Pure.pure a : Realize r α) :=
  fun s _ hb => ⟨a, s, rfl, hb⟩

theorem bind {x : Realize r α} {f : α → Realize r β} (hx : StaysBelow offered u x)
    (hf : ∀ s a t, s.Coherent r → x.run s = (.ok a, t) → StaysBelow offered u (f a)) :
    StaysBelow offered u (x >>= f) := by
  intro s hs hb
  obtain ⟨a, t, ht, hbt⟩ := hx s hs hb
  obtain ⟨b, v, hv, hbv⟩ := hf s a t hs ht t (coherent_run hs ht) hbt
  exact ⟨b, v, by rw [run_bind_ok ht, hv], hbv⟩

theorem reportIfAny (e : Option Event) :
    StaysBelow offered u (Realize.reportIfAny e : Realize r Unit) := by
  cases e with
  | none => exact pure ()
  | some e => exact fun s _ hb => ⟨(), s.addEvent e, rfl, hb.of_shells rfl hb.seen⟩

theorem registerReference {ref : Reference}
    (h : ∀ id, ref.entity? = some id → id ∈ u.orphans.seen) :
    StaysBelow offered u (Realize.registerReference ref : Realize r Unit) := by
  rw [Realize.registerReference]
  cases hid : ref.entity? with
  | none => exact pure ()
  | some id =>
    intro s _ hb
    refine ⟨(), s.addOrphan id, rfl, hb.of_shells rfl ?_⟩
    intro x hx
    rcases Orphans.mem_seen_register.1 hx with hx | rfl
    · exact hb.seen x hx
    · exact h x hid

variable (hu : u.Coherent r)

include hu

theorem scalar {t : ScalarType} (ht : .scalar t.name ∈ u.origins) (ho : offered t) :
    StaysBelow offered u (Realize.scalar t : Realize r TypeId) := by
  intro s hs hb
  cases hi : s.typeId? t.name with
  | none =>
    refine ⟨s.types.length, s.addType (.scalar t), by simp only [Realize.scalar, hi], ?_⟩
    refine hb.append rfl ht hb.seen ?_
    rintro y ⟨⟩
    exact ho
  | some i =>
    obtain ⟨y, hy, hn⟩ := (hs.typeId?_iff t.name i).1 hi
    have hscalar : y.isScalar = true :=
      NamedType.isScalar_of_origin (hb.origin_of_name hu hs ht (List.mem_of_getElem? hy) hn)
    refine ⟨i, s, ?_, hb⟩
    simp [Realize.scalar, hi, hy, hscalar]

theorem declared? {k : TypeCategory} {id : EntityId} (hid : .declared k id ∈ u.origins) :
    StaysBelow offered u (Realize.declared? k id : Realize r (Option TypeId)) := by
  intro s hs hb
  cases hplace : s.place? k id with
  | some i => exact ⟨some i, s, by simp only [Realize.declared?, hplace], hb⟩
  | none =>
    obtain ⟨c, hc⟩ := hu.known hid
    have htarget := Registry.target_of_class? hc
    cases hi : s.typeId? c.name with
    | some i =>
      obtain ⟨y, hy, hn⟩ := (hs.typeId?_iff c.name i).1 hi
      have hmem : y ∈ s.types := List.mem_of_getElem? hy
      have hname : y.name = Origin.name r (.declared k id) := by simp [Origin.name, hc, hn]
      have horigin : y.origin = .declared k id := hb.origin_of_name hu hs hid hmem hname
      have hs' : .declared k id ∈ s.origins := horigin ▸ List.mem_map_of_mem hmem
      exact absurd hs' (hs.place?_eq_none_iff.1 hplace)
    | none =>
      refine ⟨some s.types.length, s.addDeclared k c,
        by simp only [Realize.declared?, hplace, hc, hi], ?_⟩
      refine hb.append (Realization.types_addDeclared s k c) ?_ ?_ ?_
      · rw [NamedType.origin_shell, htarget]
        exact hid
      · intro x hx
        rw [Realization.orphans_addDeclared] at hx
        split at hx
        · next hk =>
          subst hk
          rcases Orphans.mem_seen_register.1 hx with hx | rfl
          · exact hb.seen x hx
          · rw [htarget]
            exact hu.interfaces_seen id hid
        · exact hb.seen x hx
      · intro y hy
        cases k <;> cases hy

theorem declaredOrFail {k : TypeCategory} {id : EntityId} (hid : .declared k id ∈ u.origins)
    (e : BuildError) :
    StaysBelow offered u (do ofOption e (← Realize.declared? k id) : Realize r TypeId) := by
  refine bind (declared? hu hid) ?_
  intro s place? t _ ht
  cases place? with
  | some i => exact pure i
  | none =>
    obtain ⟨c, hc⟩ := hu.known hid
    rw [declared?_none ht] at hc
    exact absurd hc (by simp)

variable (ho : Offers offered o r)

include ho

theorem outputBase {host : Location} {ref : Reference} {x : Origin}
    (hx : outputOrigin? o r ref = some x) (hmem : x ∈ u.origins) :
    StaysBelow offered u (Realize.outputBase o host ref : Realize r TypeId) := by
  rw [Realize.outputBase]
  rw [outputOrigin?] at hx
  cases hscalar : scalarOf? o r ref with
  | some t =>
    rw [hscalar, Option.some.injEq] at hx
    subst hx
    exact scalar hu hmem (ho ref t hscalar)
  | none =>
    rw [hscalar] at hx
    obtain ⟨id, hid, hx⟩ := Option.bind_eq_some_iff.1 hx
    simp only [hid]
    by_cases hobject : (r.class? .object id).isSome = true
    · rw [if_pos hobject, Option.some.injEq] at hx
      subst hx
      refine bind (declared? hu hmem) ?_
      intro s place? t _ ht
      cases place? with
      | some i => exact pure i
      | none =>
        have hnone : r.class? .object id = none := declared?_none ht
        rw [hnone] at hobject
        exact absurd hobject (by simp)
    · have hnone : r.class? TypeCategory.object.classKind id = none :=
        Option.not_isSome_iff_eq_none.1 hobject
      rw [if_neg hobject] at hx
      split at hx
      · rw [Option.some.injEq] at hx
        subst hx
        refine bind ?_ ?_
        · intro s hs hb
          have hplace : s.place? .object id = none := by
            refine hs.place?_eq_none_iff.2 ?_
            intro hmem
            obtain ⟨c, hc⟩ := hs.known hmem
            rw [hnone] at hc
            exact absurd hc (by simp)
          exact ⟨none, s, by simp only [Realize.declared?, hplace, hnone], hb⟩
        · intro s place? t _ ht
          cases place? with
          | some i => exact pure i
          | none => exact declaredOrFail hu hmem _
      · simp at hx

theorem inputBase {host : Location} {ref : Reference} {x : Origin}
    (hx : inputOrigin? o r ref = some x) (hmem : x ∈ u.origins) :
    StaysBelow offered u (Realize.inputBase o host ref : Realize r TypeId) := by
  rw [Realize.inputBase]
  rw [inputOrigin?] at hx
  cases hscalar : scalarOf? o r ref with
  | some t =>
    rw [hscalar, Option.some.injEq] at hx
    subst hx
    exact scalar hu hmem (ho ref t hscalar)
  | none =>
    rw [hscalar] at hx
    obtain ⟨id, hid, hx⟩ := Option.bind_eq_some_iff.1 hx
    simp only [hid]
    split at hx
    · rw [Option.some.injEq] at hx
      subst hx
      exact declaredOrFail hu hmem _
    · simp at hx

theorem output {host : Location} {ref : Reference} {w : Wrapping} {n : TypeNode}
    (h : Denotes u.origins (outputOrigin? o r ref) ref w n) :
    StaysBelow offered u (Realize.output o host ref w : Realize r TypeNode) := by
  obtain ⟨i, x, hx, hi, -⟩ := h
  exact bind (outputBase hu ho hx (List.mem_of_getElem? hi)) fun _ _ _ _ _ => pure _

theorem input {host : Location} {ref : Reference} {w : Wrapping} {n : TypeNode}
    (h : Denotes u.origins (inputOrigin? o r ref) ref w n) :
    StaysBelow offered u (Realize.input o host ref w : Realize r TypeNode) := by
  obtain ⟨i, x, hx, hi, -⟩ := h
  exact bind (inputBase hu ho hx (List.mem_of_getElem? hi)) fun _ _ _ _ _ => pure _

theorem inputValue {x : InputContribution} {v : InputValue} (h : x.Shows o r u.origins v) :
    StaysBelow offered u (Realize.inputValue o x : Realize r InputValue) := by
  cases x with
  | parameter host name type wrapping description default =>
    obtain ⟨n, hn, -⟩ := h
    exact bind (input hu ho hn) fun _ _ _ _ _ => pure _
  | property declaring p =>
    obtain ⟨n, hn, -⟩ := h
    refine bind (input hu ho hn) ?_
    intro _ _ _ _ _
    exact bind (reportIfAny _) fun _ _ _ _ _ => pure _
  | noBundle host bundle => exact h.elim

theorem inputValues {l : List InputContribution} (h : ∀ x ∈ l, ∃ v, x.Shows o r u.origins v)
    (values : InputValues) :
    StaysBelow offered u (Realize.inputValues o values l : Realize r InputValues) := by
  induction l generalizing values with
  | nil => exact pure values
  | cons x rest ih =>
    obtain ⟨v, hv⟩ := h x List.mem_cons_self
    refine bind (inputValue hu ho hv) ?_
    intro _ _ _ _ _
    exact ih (fun y hy => h y (List.mem_cons_of_mem x hy)) _

theorem handlerField {b : Binding} {ref : Reference} {w : Wrapping} {f : Field}
    (h : (Contribution.resolver b (some (ref, w))).Shows o r u.origins f) :
    StaysBelow offered u (Realize.handlerField o b ref w : Realize r Field) := by
  obtain ⟨n, values, hn, hvalues, -⟩ := h
  refine bind (output hu ho hn) ?_
  intro _ _ _ _ _
  exact bind (inputValues hu ho hvalues.merges.grounded ∅) fun _ _ _ _ _ => pure _

theorem contribute {x : Contribution} (h : x.Grounded o r u.origins) (c : Composition) :
    StaysBelow offered u (Realize.contribute o c x : Realize r Composition) := by
  match x, h with
  | .interface host id, h =>
    have hid := h.interface id rfl
    refine bind (declared? hu hid) ?_
    intro s place? t _ ht
    refine bind ?_ fun _ _ _ _ _ => pure _
    cases place? with
    | some i => exact pure i
    | none =>
      obtain ⟨c, hc⟩ := hu.known hid
      rw [declared?_none ht] at hc
      exact absurd hc (by simp)
  | .noInterface host, h =>
    obtain ⟨f, hf⟩ := h.shows rfl
    exact hf.elim
  | .property declaring p, h =>
    obtain ⟨f, n, hn, -⟩ := h.shows rfl
    exact bind (bind (output hu ho hn) fun _ _ _ _ _ => pure _) fun _ _ _ _ _ => pure _
  | .resolver b none, h =>
    obtain ⟨f, hf⟩ := h.shows rfl
    exact hf.elim
  | .resolver b (some (ref, w)), h =>
    obtain ⟨f, hf⟩ := h.shows rfl
    exact bind (handlerField hu ho hf) fun _ _ _ _ _ => pure _

theorem compose {l : List Contribution} (h : ∀ x ∈ l, x.Grounded o r u.origins)
    (c : Composition) :
    StaysBelow offered u (Realize.compose o c l : Realize r Composition) := by
  induction l generalizing c with
  | nil => exact pure c
  | cons x rest ih =>
    refine bind (contribute hu ho (h x List.mem_cons_self) c) ?_
    intro _ c' _ _ _
    exact ih (fun y hy => h y (List.mem_cons_of_mem x hy)) c'

end StaysBelow

end Realize

end CodeFirst
