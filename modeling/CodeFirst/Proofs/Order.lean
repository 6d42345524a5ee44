import CodeFirst.Proofs.Below

/-! Constructions over alike settings. As long as the first one succeeds, the second one succeeds
below it, and the other way round: part by part both realize, register and drain the same, whatever
the order of records. -/

namespace CodeFirst

/-- Contributions of which the last, fields of different names, may come in another order. -/
def Contribution.Reordered (l l' : List Contribution) : Prop :=
  ∃ base extra extra', l = base ++ extra ∧ l' = base ++ extra' ∧ extra.Perm extra' ∧
    (extra.map fieldName).Nodup ∧ ∀ x ∈ extra, x.interface? = none

theorem Contribution.Reordered.mem_iff {l l' : List Contribution} (h : Reordered l l')
    (x : Contribution) : x ∈ l ↔ x ∈ l' := by
  obtain ⟨base, extra, extra', rfl, rfl, hp, -⟩ := h
  rw [List.mem_append, List.mem_append, hp.mem_iff]

namespace Setting

variable {set set' : Setting}

theorem Alike.contributions (h : set.Alike set') (k : CompositeCategory) (id : EntityId) :
    Contribution.Reordered (set.contributions k id) (set'.contributions k id) := by
  unfold Setting.contributions
  rw [h.registry.class?]
  cases hc : set'.registry.class? k.classKind id with
  | none => exact ⟨[], [], [], rfl, rfl, .refl _, List.nodup_nil, by simp⟩
  | some c =>
    simp only
    rw [Contribution.ofType]
    rw [h.registry.ofInterfaces, h.registry.classChain]
    refine ⟨_, _, _, rfl, rfl, ?_, ?_, ?_⟩
    · refine List.Perm.map _ ?_
      split
      · exact h.resolvers id
      · exact .refl _
    · rw [List.map_map]
      split
      · exact h.names id
      · exact List.nodup_nil
    · intro x hx
      obtain ⟨b, -, rfl⟩ := List.mem_map.1 hx
      rfl

theorem Alike.rootContributions (h : set.Alike set') {kind : RootKind}
    (hnames : ((set.rootBindings kind).map (·.handler.schemaName)).Nodup) :
    Contribution.Reordered (set.rootContributions kind) (set'.rootContributions kind) := by
  refine ⟨[], _, _, rfl, rfl, (h.roots kind).map _, ?_, ?_⟩
  · rw [List.map_map]
    exact hnames
  · intro x hx
    obtain ⟨b, -, rfl⟩ := List.mem_map.1 hx
    rfl

end Setting

theorem Registry.Alike.grounded {r r' : Registry} (h : r.Alike r') {o : BuildOptions}
    {H : List Origin} {x : Contribution} (hx : x.Grounded o r H) : x.Grounded o r' H := by
  refine ⟨hx.interface, ?_⟩
  rw [← h.shows]
  exact hx.shows

namespace Setting

variable {set set' : Setting} {H : List Origin}

theorem Alike.rootGrounded (h : set.Alike set') {kind : RootKind}
    (hg : ∀ x ∈ set.rootContributions kind, x.Grounded set.options set.registry H) :
    ∀ x ∈ set'.rootContributions kind, x.Grounded set'.options set'.registry H := by
  intro x hx
  have hmem : x ∈ set.rootContributions kind :=
    ((h.roots kind).map Binding.rootContribution).symm.subset hx
  rw [← h.options]
  exact h.registry.grounded (hg x hmem)

theorem Alike.grounds (h : set.Alike set') {x : Origin} (hx : set.Grounds H x) :
    set'.Grounds H x := by
  match x, hx with
  | .declared .object id, hx =>
    intro y hy
    rw [← h.options]
    exact h.registry.grounded (hx y (((h.contributions .object id).mem_iff y).2 hy))
  | .declared .interface id, hx =>
    intro y hy
    rw [← h.options]
    exact h.registry.grounded (hx y (((h.contributions .interface id).mem_iff y).2 hy))
  | .declared .input id, hx =>
    rw [Grounds] at hx ⊢
    rwa [← h.options, ← h.registry.classChain, ← h.registry.inputShows]
  | .root name, hx => exact fun kind hn => h.rootGrounded (hx kind hn)
  | .scalar name, _ => trivial

/-- Constructions over alike settings that have done the same. -/
structure Abreast (offered : ScalarType → Prop) (set set' : Setting) (s s' : Realization) :
    Prop where
  alike : set.Alike set'
  offers : Offers offered set.options set.registry
  progress : set.Progress [] s
  progress' : set'.Progress [] s'
  agree : s.Agree offered s'

variable {offered : ScalarType → Prop} {s s' t : Realization}

theorem Alike.offers (h : set.Alike set') (ho : Offers offered set.options set.registry) :
    Offers offered set'.options set'.registry := by
  rw [Offers] at ho ⊢
  rwa [← h.options, ← h.registry.scalarOf?]

namespace Abreast

theorem symm (h : Abreast offered set set' s s') : Abreast offered set' set s' s :=
  ⟨h.alike.symm, h.alike.offers h.offers, h.progress', h.progress, h.agree.symm⟩

/-- What the second construction has done, the first one has done in all its later states. -/
theorem below_later (h : Abreast offered set set' s s') (ht : s.Later t) :
    s'.Below offered t := by
  refine ⟨?_, ?_, h.agree.above.scalars⟩
  · intro x hx
    exact ht.origins.subset (h.agree.above.origins x hx)
  · intro id hid
    exact ht.seen id (h.agree.above.seen id hid)

/-- Of two parts without a drain, each of which stays below what the other one leaves, both succeed
and leave the same. -/
theorem both (h : Abreast offered set set' s s') {α β : Type} {x : Construction α}
    {x' : Construction β} {a : α} (hr : x s = (.ok a, t)) (hp : set.Progress [] t)
    (he : s.Extends t) (hbelow : ∃ b t', x' s' = (.ok b, t') ∧ t'.Below offered t)
    (habove : ∀ b t', x' s' = (.ok b, t') → set'.Progress [] t' ∧ s'.Extends t' ∧
      ∃ a u, x s = (.ok a, u) ∧ u.Below offered t') :
    ∃ b t', x' s' = (.ok b, t') ∧ Abreast offered set set' t t' := by
  obtain ⟨b, t', hr', hb⟩ := hbelow
  obtain ⟨hp', he', a', u, hu, ha⟩ := habove b t' hr'
  have htu : t = u := congrArg Prod.snd (hr.symm.trans hu)
  rw [← htu] at ha
  refine ⟨b, t', hr', h.alike, h.offers, hp, hp', ha, hb, ?_⟩
  intro id
  exact (he.settled id).trans ((h.agree.settled id).trans (he'.settled id).symm)

end Abreast

/-- When nothing is queued, there is all that any type asks for. -/
theorem Progress.grounds (h : set.Progress [] s) (hp : s.pending = []) :
    ∀ x ∈ s.origins, set.Grounds s.origins x := by
  intro x hx
  obtain ⟨t, ht, rfl⟩ := List.mem_map.1 hx
  rcases h.fits_of_pending_eq_nil hp ht with hs | ⟨w, hw, -⟩
  · rw [NamedType.origin_of_isScalar hs]
    trivial
  · exact hw.grounds

section Below

variable {u : Realization} (hu : u.Coherent set.registry)
  (ho : Offers offered set.options set.registry)

include hu ho

theorem wiring_staysBelow {k : TypeCategory} {id : EntityId}
    (hg : set.Grounds u.origins (.declared k id)) :
    Realize.StaysBelow offered u (set.wiring k id) := by
  cases k with
  | object => exact .bind (.compose hu ho hg ∅) fun _ _ _ _ _ => .pure _
  | interface => exact .bind (.compose hu ho hg ∅) fun _ _ _ _ _ => .pure _
  | input => exact .bind (.inputValues hu ho hg ∅) fun _ _ _ _ _ => .pure _

theorem wiringAt_below (hg : ∀ x ∈ u.origins, set.Grounds u.origins x)
    (hp : set.Progress [] s) (hb : s.Below offered u) {i : TypeId} {rest : List TypeId}
    (hs : s.pending = i :: rest) :
    ∃ w t, (set.wiringAt s i).run { s with pending := rest } = (.ok w, t) ∧
      t.Below offered u := by
  obtain ⟨k, id, hi⟩ := hp.declared i (hs ▸ List.mem_cons_self)
  have hmem : .declared k id ∈ u.origins := hb.origins _ (List.mem_of_getElem? hi)
  have hdeclaration : (s.types[i]?).bind NamedType.declaration? = some (k, id) := by
    rw [Realization.getElem?_origins] at hi
    obtain ⟨x, hx, ho⟩ := Option.map_eq_some_iff.1 hi
    rw [hx, Option.bind_some]
    exact NamedType.declaration?_eq_some_iff.2 ho
  have hstays : Realize.StaysBelow offered u (set.wiringAt s i) := by
    rw [wiringAt]
    rw [hdeclaration]
    exact .bind (wiring_staysBelow hu ho (hg _ hmem)) fun _ _ _ _ _ => .pure _
  exact hstays _ (hp.coherent.of_shells rfl rfl fun _ hid => hid) (hb.of_shells rfl hb.seen)

theorem wirePending_below (hg : ∀ x ∈ u.origins, set.Grounds u.origins x)
    (hp : set.Progress [] s) (hb : s.Below offered u) :
    ∃ t, set.wirePending s = (.ok (), t) ∧ t.Below offered u := by
  fun_induction Setting.wirePending set s with
  | case1 s hs => exact ⟨s, rfl, hb⟩
  | case2 s i rest hs start e t ht =>
    obtain ⟨w, v, hv, -⟩ := wiringAt_below hu ho hg hp hb hs
    have he := ht.symm.trans hv
    simp at he
  | case3 s i rest hs start t ht ih =>
    obtain ⟨w, hw, -⟩ := hp.wireNext hs ht
    simp at hw
  | case4 s i rest hs start w t ht ih =>
    obtain ⟨w', v, hv, hbv⟩ := wiringAt_below hu ho hg hp hb hs
    obtain ⟨hw', hvt⟩ := Prod.mk.inj (ht.symm.trans hv)
    subst hvt
    obtain ⟨w', hw, hpt, -⟩ := hp.wireNext hs ht
    rw [Option.some.injEq] at hw
    subst hw
    exact ih hpt (hbv.of_shells (t.shells_wire i w) hbv.seen)

end Below

theorem Abreast.wirePending_below (h : Abreast offered set set' s s')
    (hr : set.wirePending s = (.ok (), t)) :
    ∃ t', set'.wirePending s' = (.ok (), t') ∧ t'.Below offered t := by
  obtain ⟨hp, hpending, he⟩ := h.progress.wirePending hr
  exact Setting.wirePending_below (h.alike.registry.coherent hp.coherent)
    (h.alike.offers h.offers) (fun x hx => h.alike.grounds (hp.grounds hpending x hx))
    h.progress' (h.below_later he.toLater)

theorem Abreast.wirePending (h : Abreast offered set set' s s')
    (hr : set.wirePending s = (.ok (), t)) :
    ∃ t', set'.wirePending s' = (.ok (), t') ∧ Abreast offered set set' t t' := by
  obtain ⟨hp, -, he⟩ := h.progress.wirePending hr
  have hbelow : ∃ b t', set'.wirePending s' = (.ok b, t') ∧ t'.Below offered t :=
    ⟨(), h.wirePending_below hr⟩
  obtain ⟨_, t', hr', ht⟩ := h.both hr hp he hbelow fun _ t' hr' => by
    obtain ⟨hp', -, he'⟩ := h.progress'.wirePending hr'
    exact ⟨hp', he', (), h.symm.wirePending_below hr'⟩
  exact ⟨t', hr', ht⟩

/-- Computations of which each stays below what the other one leaves. -/
theorem Abreast.run {α β : Type} (h : Abreast offered set set' s s')
    {x : Realize set.registry α} {x' : Realize set'.registry β} {a : α}
    (hr : x.run s = (.ok a, t)) (hx' : Realize.StaysBelow offered t x')
    (hx : ∀ b t', x'.run s' = (.ok b, t') → Realize.StaysBelow offered t' x) :
    ∃ b t', x'.run s' = (.ok b, t') ∧ Abreast offered set set' t t' := by
  have hg := Realize.grows_run hr
  have hbelow := hx' s' h.progress'.coherent (h.below_later hg.extend.toLater)
  refine h.both hr (h.progress.grows hg) hg.extend hbelow ?_
  intro b t' hr'
  have hg' := Realize.grows_run hr'
  have habove := hx b t' hr' s h.progress.coherent (h.symm.below_later hg'.extend.toLater)
  exact ⟨h.progress'.grows hg', hg'.extend, habove⟩

theorem realizeDrained_staysBelow {u : Realization} (hu : u.Coherent set.registry)
    {l : List (TypeCategory × ClassRecord)}
    (hl : ∀ x ∈ l, .declared x.1 x.2.target ∈ u.origins) (n : Nat) :
    Realize.StaysBelow offered u (set.realizeDrained n l) := by
  induction l generalizing n with
  | nil => exact .pure n
  | cons x rest ih =>
    refine .bind (fun s _ hb => ⟨_, s, rfl, hb⟩) ?_
    intro _ known _ _ _
    refine .bind (.declared? hu (hl x List.mem_cons_self)) ?_
    intro _ place _ _ _
    exact ih (fun y hy => hl y (List.mem_cons_of_mem x hy)) _

theorem Abreast.realizeDrained (h : Abreast offered set set' s s')
    {l l' : List (TypeCategory × ClassRecord)} (hl : ∀ x, x ∈ l ↔ x ∈ l')
    (hknown : ∀ x ∈ l, set.registry.class? x.1.classKind x.2.target = some x.2) {n m : Nat}
    (hr : (set.realizeDrained n l).run s = (.ok m, t)) (n' : Nat) :
    ∃ m' t', (set'.realizeDrained n' l').run s' = (.ok m', t') ∧
      Abreast offered set set' t t' := by
  have hknown' : ∀ x ∈ l', set'.registry.class? x.1.classKind x.2.target = some x.2 := by
    intro x hx
    rw [← h.alike.registry.class?]
    exact hknown x ((hl x).2 hx)
  refine h.run hr ?_ ?_
  · have hc := h.alike.registry.coherent (Realize.coherent_run h.progress.coherent hr)
    have horigins := realizeDrained_origins h.progress.coherent hknown hr
    exact realizeDrained_staysBelow hc (fun x hx => horigins x ((hl x).2 hx)) n'
  · intro m' t' hr'
    have hc := h.symm.alike.registry.coherent (Realize.coherent_run h.progress'.coherent hr')
    have horigins := realizeDrained_origins h.progress'.coherent hknown' hr'
    exact realizeDrained_staysBelow hc (fun x hx => horigins x ((hl x).1 hx)) n

theorem Abreast.mem_waiting_iff (h : Abreast offered set set' s s') (id : EntityId) :
    id ∈ s.orphans.waiting ↔ id ∈ s'.orphans.waiting := by
  have hseen : id ∈ s.orphans.seen ↔ id ∈ s'.orphans.seen :=
    ⟨h.agree.below.seen id, h.agree.above.seen id⟩
  rw [Orphans.mem_waiting_iff, Orphans.mem_waiting_iff, hseen, h.agree.settled]

theorem Abreast.mem_drained_iff (h : Abreast offered set set' s s')
    (x : TypeCategory × ClassRecord) :
    x ∈ (s.orphans.drain set.registry).2 ↔ x ∈ (s'.orphans.drain set'.registry).2 := by
  unfold Orphans.drain
  simp only [List.mem_flatMap, h.mem_waiting_iff, h.alike.registry.records]

theorem Abreast.seen_drain (h : Abreast offered set set' s s') {x : EntityId}
    (hx : x ∈ (s.orphans.drain set.registry).1.seen) :
    x ∈ (s'.orphans.drain set'.registry).1.seen := by
  rw [Orphans.mem_seen_drain] at hx ⊢
  rcases hx with hx | ⟨id, hid, hx⟩
  · exact .inl (h.agree.below.seen x hx)
  · exact .inr ⟨id, (h.mem_waiting_iff id).1 hid, (h.alike.registry.mem_followers_iff id x).1 hx⟩

theorem Abreast.withOrphans (h : Abreast offered set set' s s') {q q' : Orphans}
    (hq : ∀ id ∈ s.orphans.seen, id ∈ q.seen) (hq' : ∀ id ∈ s'.orphans.seen, id ∈ q'.seen)
    (hseen : ∀ id, id ∈ q.seen ↔ id ∈ q'.seen) (hsettled : ∀ id, q.Settled id ↔ q'.Settled id) :
    Abreast offered set set' { s with orphans := q } { s' with orphans := q' } := by
  refine ⟨h.alike, h.offers, ?_, ?_, ?_, ?_, hsettled⟩
  · exact h.progress.withOrphans hq
  · exact h.progress'.withOrphans hq'
  · exact ⟨h.agree.below.origins, fun id => (hseen id).1, h.agree.below.scalars⟩
  · exact ⟨h.agree.above.origins, fun id => (hseen id).2, h.agree.above.scalars⟩

theorem Abreast.drain (h : Abreast offered set set' s s') :
    Abreast offered set set' { s with orphans := (s.orphans.drain set.registry).1 }
      { s' with orphans := (s'.orphans.drain set'.registry).1 } := by
  refine h.withOrphans ?_ ?_ (fun id => ⟨h.seen_drain, h.symm.seen_drain⟩) ?_
  · exact fun id hid => Orphans.mem_seen_drain.2 (.inl hid)
  · exact fun id hid => Orphans.mem_seen_drain.2 (.inl hid)
  · intro id
    rw [Orphans.settled_drain_iff, Orphans.settled_drain_iff]
    exact ⟨h.agree.below.seen id, h.agree.above.seen id⟩

theorem realizeOrphans_of_drained_eq_nil {n : Nat} (hw : set.wirePending s = (.ok (), t))
    (hd : (t.orphans.drain set.registry).2 = []) :
    set.realizeOrphans n s =
      (.ok n, { t with orphans := (t.orphans.drain set.registry).1 }) := by
  rw [realizeOrphans_eq, hw]
  rcases hdrain : t.orphans.drain set.registry with ⟨orphans, drained⟩
  rw [hdrain] at hd
  obtain rfl : drained = [] := hd
  simp only [hdrain]

theorem realizeOrphans_of_drained_ne_nil {n m : Nat} {u : Realization}
    (hw : set.wirePending s = (.ok (), t)) (hd : (t.orphans.drain set.registry).2 ≠ [])
    (hr : (set.realizeDrained n (t.orphans.drain set.registry).2).run
      { t with orphans := (t.orphans.drain set.registry).1 } = (.ok m, u)) :
    set.realizeOrphans n s = set.realizeOrphans m u := by
  rw [realizeOrphans_eq, hw]
  rcases hdrain : t.orphans.drain set.registry with ⟨orphans, _ | ⟨x, drained⟩⟩
  · rw [hdrain] at hd
    exact absurd rfl hd
  · rw [hdrain] at hr
    simp only [hdrain, hr]

theorem Abreast.realizeOrphans (h : Abreast offered set set' s s') {n m : Nat}
    (hr : set.realizeOrphans n s = (.ok m, t)) (n' : Nat) :
    ∃ m' t', set'.realizeOrphans n' s' = (.ok m', t') ∧ Abreast offered set set' t t' := by
  fun_induction Setting.realizeOrphans set n s generalizing n' s' with
  | case1 n s e u hw => simp at hr
  | case2 n s u hw orphans hd =>
    simp only [Prod.mk.injEq, Except.ok.injEq] at hr
    obtain ⟨-, rfl⟩ := hr
    obtain ⟨u', hw', hu⟩ := h.wirePending hw
    have hnil : (u'.orphans.drain set'.registry).2 = [] := by
      refine List.eq_nil_iff_forall_not_mem.2 ?_
      intro x hx
      rw [← hu.mem_drained_iff, hd] at hx
      exact absurd hx List.not_mem_nil
    refine ⟨n', _, realizeOrphans_of_drained_eq_nil hw' hnil, ?_⟩
    have hdrain := hu.drain
    rwa [hd] at hdrain
  | case3 n s u hw orphans x drained hd e v hv => simp at hr
  | case4 n s u hw orphans x drained hd k v hv ih =>
    obtain ⟨u', hw', hu⟩ := h.wirePending hw
    have hne : (u'.orphans.drain set'.registry).2 ≠ [] := by
      have hx : x ∈ (u'.orphans.drain set'.registry).2 := by
        rw [← hu.mem_drained_iff, hd]
        exact List.mem_cons_self
      exact List.ne_nil_of_mem hx
    have hdrain := hu.drain
    rw [hd] at hdrain
    have hmem : ∀ y, y ∈ x :: drained ↔ y ∈ (u'.orphans.drain set'.registry).2 := by
      intro y
      rw [← hu.mem_drained_iff, hd]
    have hknown : ∀ y ∈ x :: drained,
        set.registry.class? y.1.classKind y.2.target = some y.2 := by
      intro y hy
      rw [hmem, ← hu.mem_drained_iff] at hy
      exact Orphans.known_of_mem_drained hy
    obtain ⟨k', v', hv', hvv⟩ := hdrain.realizeDrained hmem hknown hv n'
    rw [realizeOrphans_of_drained_ne_nil hw' hne hv']
    exact ih hvv hr k'

section Roots

variable {u : Realization} (hu : u.Coherent set.registry)
  (ho : Offers offered set.options set.registry)

include hu ho

theorem rootField_staysBelow {kind : RootKind} {b : Binding} {fields : Fields}
    (hg : b.rootContribution.Grounded set.options set.registry u.origins)
    (hret : ∀ id, b.handler.returned? = some id → id ∈ u.orphans.seen)
    (hnew : b.handler.schemaName ∉ fields.keys) :
    Realize.StaysBelow offered u (set.rootField kind fields b) := by
  obtain ⟨f, hf⟩ := hg.shows rfl
  rw [Binding.rootContribution] at hf
  rw [rootField]
  rw [Handler.returned?] at hret
  cases htype : b.handler.type with
  | none =>
    rw [htype] at hf
    exact hf.elim
  | some ref =>
    rw [htype] at hf hret
    refine .bind (.pure ref) ?_
    rintro s type t - hrun
    obtain ⟨htypes, -⟩ := Realize.run_ofOption_eq_ok hrun
    rw [Option.some.injEq] at htypes
    subst htypes
    have hcontains : fields.contains b.handler.schemaName = false := by
      rw [← Bool.not_eq_true, OrderedMap.contains_iff]
      exact hnew
    rw [hcontains]
    exact .bind (.registerReference hret) fun _ _ _ _ _ => .handlerField hu ho hf

theorem rootFields_staysBelow {kind : RootKind} {l : List Binding} {fields : Fields}
    (hg : ∀ b ∈ l, b.rootContribution.Grounded set.options set.registry u.origins)
    (hret : ∀ b ∈ l, ∀ id, b.handler.returned? = some id → id ∈ u.orphans.seen)
    (hnames : (l.map (·.handler.schemaName)).Nodup)
    (hnew : ∀ b ∈ l, b.handler.schemaName ∉ fields.keys) :
    Realize.StaysBelow offered u (set.rootFields kind fields l) := by
  induction l generalizing fields with
  | nil => exact .pure fields
  | cons b rest ih =>
    have hmem : ∀ {c}, c ∈ rest → c ∈ b :: rest := List.mem_cons_of_mem b
    rw [List.map_cons, List.nodup_cons] at hnames
    refine .bind (rootField_staysBelow hu ho (hg b List.mem_cons_self)
      (hret b List.mem_cons_self) (hnew b List.mem_cons_self)) ?_
    intro s f t hs hf
    have hname : f.name = b.handler.schemaName := (rootField_shows hs hf).1.name
    refine ih (fun c hc => hg c (hmem hc)) (fun c hc => hret c (hmem hc)) hnames.2 ?_
    intro c hc hkey
    rcases OrderedMap.mem_keys_insert.1 hkey with he | hkey
    · exact hnames.1 (List.mem_map.2 ⟨c, hc, he.trans hname⟩)
    · exact hnew c (hmem hc) hkey

theorem buildRoot_below {kind : RootKind} (hs : s.Coherent set.registry)
    (hb : s.Below offered u)
    (hfresh : set.rootBindings kind ≠ [] → s.typeId? kind.typeName = none ∧
      .root kind.typeName ∈ u.origins)
    (hg : ∀ b ∈ set.rootBindings kind,
      b.rootContribution.Grounded set.options set.registry u.origins)
    (hret : ∀ b ∈ set.rootBindings kind, ∀ id, b.handler.returned? = some id →
      id ∈ u.orphans.seen)
    (hnames : ((set.rootBindings kind).map (·.handler.schemaName)).Nodup) :
    ∃ place? t, set.buildRoot kind s = (.ok place?, t) ∧ t.Below offered u := by
  have hb₁ : (set.announce kind s).Below offered u := hb.of_shells rfl hb.seen
  have hs₁ : (set.announce kind s).Coherent set.registry := (set.announce_grows kind s).coherent hs
  by_cases hbindings : set.rootBindings kind = []
  · exact ⟨none, _, buildRoot_of_eq_nil hbindings s, hb₁.of_shells rfl hb₁.seen⟩
  · obtain ⟨fresh, hroot⟩ := hfresh hbindings
    have hadd : set.addRoot kind (set.announce kind s) =
        (.ok s.types.length, (set.announce kind s).addType kind.shell) := by
      have fresh₁ : (set.announce kind s).typeId? kind.typeName = none := fresh
      simp only [addRoot, fresh₁]
      rfl
    have hb₂ : ((set.announce kind s).addType kind.shell).Below offered u := by
      refine hb₁.append rfl hroot hb₁.seen ?_
      rintro y ⟨⟩
    have hs₂ : ((set.announce kind s).addType kind.shell).Coherent set.registry :=
      hs₁.addType fresh (.root kind) (by simp)
    have hnew : ∀ c ∈ set.rootBindings kind, c.handler.schemaName ∉ (∅ : Fields).keys := by simp
    obtain ⟨fields, v, hfields, hb₃⟩ :=
      rootFields_staysBelow hu ho hg hret hnames hnew _ hs₂ hb₂
    refine ⟨some s.types.length, (v.addEvent (.rootBuilt kind fields.size)).wire s.types.length
      (.composite ⟨[], fields⟩), ?_, ?_⟩
    · rw [buildRoot_of_ne_nil hbindings, Construction.bind_ok hadd]
      exact Construction.bind_ok hfields
    · exact (hb₃.of_shells rfl hb₃.seen).of_shells (Realization.shells_wire _ _ _) hb₃.seen

end Roots

/-- A root is built only if nobody has taken its name. -/
theorem buildRoot_fresh {kind : RootKind} {i : TypeId}
    (hr : set.buildRoot kind s = (.ok (some i), t)) : s.typeId? kind.typeName = none := by
  rcases buildRoot_eq_ok hr with ⟨-, hnone, -⟩ | ⟨-, fresh, -⟩
  · cases hnone
  · exact fresh

theorem Abreast.buildRoot_below (h : Abreast offered set set' s s') {kind : RootKind}
    {place? : Option TypeId} (hr : set.buildRoot kind s = (.ok place?, t)) :
    ∃ place?' t', set'.buildRoot kind s' = (.ok place?', t') ∧ t'.Below offered t := by
  obtain ⟨hp, he, hroot⟩ := buildRoot_rootAt h.progress hr
  have hperm := h.alike.roots kind
  have hcoherent := h.alike.registry.coherent hp.coherent
  have hbelow := h.below_later he.toLater
  have hpresent : set.rootBindings kind ≠ [] → s.typeId? kind.typeName = none ∧
      .root kind.typeName ∈ t.origins ∧ set.Grounds t.origins (.root kind.typeName) := by
    intro hne
    cases place? with
    | none => exact absurd (hroot.absent rfl) hne
    | some i =>
      obtain ⟨fields, hi, -⟩ := hroot.present i rfl
      have hmem : kind.object fields ∈ t.types := List.mem_of_getElem? hi
      refine ⟨buildRoot_fresh hr, List.mem_map_of_mem hmem, ?_⟩
      rcases hp.fits _ hmem rfl with hs | ⟨w, hw, -⟩
      · cases hs
      · exact hw.grounds
  refine Setting.buildRoot_below hcoherent (h.alike.offers h.offers) h.progress'.coherent
    hbelow ?_ ?_ ?_ ?_
  · intro hne
    obtain ⟨fresh, hmem, -⟩ := hpresent fun hnil => hne (List.perm_nil.1 (hnil ▸ hperm.symm))
    refine ⟨h.progress'.coherent.typeId?_eq_none_iff.2 ?_, hmem⟩
    intro x hx hn
    have horigin := hbelow.origin_of_name hcoherent h.progress'.coherent hmem hx hn
    have hx' : .root kind.typeName ∈ s.origins :=
      h.agree.above.origins _ (horigin ▸ List.mem_map_of_mem hx)
    obtain ⟨y, hy, hyo⟩ := List.mem_map.1 hx'
    refine h.progress.coherent.typeId?_eq_none_iff.1 fresh y hy ?_
    rw [h.progress.coherent.name_eq hy, hyo]
    rfl
  · intro b hb
    have hb' := hperm.symm.subset hb
    obtain ⟨-, -, hg⟩ := hpresent (List.ne_nil_of_mem hb')
    exact h.alike.rootGrounded (hg kind rfl) _ (List.mem_map_of_mem hb)
  · exact fun b hb => hroot.returned b (hperm.symm.subset hb)
  · exact ((hperm.map _).nodup_iff).1 hroot.nodup

theorem Abreast.buildRoot (h : Abreast offered set set' s s') {kind : RootKind}
    {place? : Option TypeId} (hr : set.buildRoot kind s = (.ok place?, t)) :
    ∃ place?' t', set'.buildRoot kind s' = (.ok place?', t') ∧
      Abreast offered set set' t t' := by
  obtain ⟨hp, he, -⟩ := buildRoot_rootAt h.progress hr
  refine h.both hr hp he (h.buildRoot_below hr) ?_
  intro _ t' hr'
  obtain ⟨hp', he', -⟩ := buildRoot_rootAt h.progress' hr'
  exact ⟨hp', he', h.symm.buildRoot_below hr'⟩

theorem addScalars_staysBelow {u : Realization} (hu : u.Coherent set.registry)
    {l : List ScalarType} (hl : ∀ x ∈ l, .scalar x.name ∈ u.origins ∧ offered x) :
    Realize.StaysBelow offered u (set.addScalars l) := by
  induction l with
  | nil => exact .pure ()
  | cons x rest ih =>
    obtain ⟨hx, hox⟩ := hl x List.mem_cons_self
    refine .bind (.scalar hu hx hox) ?_
    intro _ _ _ _ _
    exact ih fun y hy => hl y (List.mem_cons_of_mem x hy)

theorem addScalars_origins (hs : s.Coherent set.registry) {l : List ScalarType}
    (h : (set.addScalars l).run s = (.ok (), t)) :
    ∀ x ∈ l, .scalar x.name ∈ t.origins := by
  induction l generalizing s with
  | nil => simp
  | cons y rest ih =>
    obtain ⟨i, u, hu, hrest⟩ := Realize.run_bind_eq_ok h
    intro x hx
    rcases List.mem_cons.1 hx with rfl | hx
    · have hi := Realize.scalar_origin hs hu
      exact (Realize.origins_extend hrest).subset (List.mem_of_getElem? hi)
    · exact ih (Realize.coherent_run hs hu) hrest x hx

theorem Abreast.addScalars (h : Abreast offered set set' s s') {l : List ScalarType}
    (hl : ∀ x ∈ l, offered x) (hr : (set.addScalars l).run s = (.ok (), t)) :
    ∃ t', (set'.addScalars l).run s' = (.ok (), t') ∧ Abreast offered set set' t t' := by
  have hstays : ∀ {set₁ set₂ : Setting} {s₁ t₁ : Realization}, set₁.registry.Alike set₂.registry →
      s₁.Coherent set₁.registry → (set₁.addScalars l).run s₁ = (.ok (), t₁) →
      Realize.StaysBelow offered t₁ (set₂.addScalars l) := by
    intro set₁ set₂ s₁ t₁ halike hs hrun
    have hc := halike.coherent (Realize.coherent_run hs hrun)
    exact addScalars_staysBelow hc fun x hx => ⟨addScalars_origins hs hrun x hx, hl x hx⟩
  obtain ⟨_, t', hr', ht⟩ := h.run hr (hstays h.alike.registry h.progress.coherent hr)
    fun _ t' hr' => hstays h.symm.alike.registry h.progress'.coherent hr'
  exact ⟨t', hr', ht⟩

theorem Abreast.request (h : Abreast offered set set' s s') (orphaned : List EntityId) :
    Abreast offered set set'
      { s with orphans :=
          s.orphans.registerMany (orphaned ++ kept set.registry set.options) }
      { s' with orphans :=
          s'.orphans.registerMany (orphaned ++ kept set'.registry set'.options) } := by
  refine h.withOrphans ?_ ?_ ?_ ?_
  · exact fun id hid => Orphans.mem_seen_registerMany.2 (.inl hid)
  · exact fun id hid => Orphans.mem_seen_registerMany.2 (.inl hid)
  · intro id
    have hseen : id ∈ s.orphans.seen ↔ id ∈ s'.orphans.seen :=
      ⟨h.agree.below.seen id, h.agree.above.seen id⟩
    rw [Orphans.mem_seen_registerMany, Orphans.mem_seen_registerMany, List.mem_append,
      List.mem_append, hseen, h.alike.registry.mem_kept_iff, h.alike.options]
  · intro id
    rw [Orphans.settled_registerMany_iff, Orphans.settled_registerMany_iff, h.agree.settled]

/-- Constructions over alike settings succeed together and realize the same. -/
theorem Alike.construct (h : set.Alike set') {scalars : List ScalarType}
    (ho : Offers offered set.options set.registry) (hl : ∀ x ∈ scalars, offered x)
    {orphaned : List EntityId} {roots : Roots} {n : Nat}
    (hr : set.construct orphaned scalars .empty = (.ok (roots, n), t)) :
    ∃ roots' n' t', set'.construct orphaned scalars .empty = (.ok (roots', n'), t') ∧
      Abreast offered set set' t t' := by
  have hempty : Realization.empty.Below offered .empty :=
    ⟨fun _ hx => hx, fun _ hid => hid, fun t ht => absurd ht List.not_mem_nil⟩
  have h₀ : Abreast offered set set' .empty .empty :=
    ⟨h, ho, .empty, .empty, hempty, hempty, fun _ => Iff.rfl⟩
  obtain ⟨query, s₁, hr₁, hrest⟩ := Construction.bind_eq_ok hr
  obtain ⟨mutation, s₂, hr₂, hrest⟩ := Construction.bind_eq_ok hrest
  obtain ⟨subscription, s₃, hr₃, hrest⟩ := Construction.bind_eq_ok hrest
  obtain ⟨_, s₄, hr₄, hrest⟩ := Construction.bind_eq_ok hrest
  obtain ⟨m, s₅, hr₅, hrest⟩ := Construction.bind_eq_ok hrest
  obtain ⟨_, s₆, hr₆, hrest⟩ := Construction.bind_eq_ok hrest
  have hs₄ := congrArg Prod.snd hr₄
  have hs₆ : s₆ = t := congrArg Prod.snd hrest
  subst hs₄ hs₆
  obtain ⟨query', s₁', hr₁', h₁⟩ := h₀.buildRoot hr₁
  obtain ⟨mutation', s₂', hr₂', h₂⟩ := h₁.buildRoot hr₂
  obtain ⟨subscription', s₃', hr₃', h₃⟩ := h₂.buildRoot hr₃
  obtain ⟨m', s₅', hr₅', h₅⟩ := (h₃.request orphaned).realizeOrphans hr₅ 0
  obtain ⟨s₆', hr₆', h₆⟩ := h₅.addScalars hl hr₆
  refine ⟨⟨query', mutation', subscription'⟩, m', s₆', ?_, h₆⟩
  refine (Construction.bind_ok hr₁').trans ?_
  refine (Construction.bind_ok hr₂').trans ?_
  refine (Construction.bind_ok hr₃').trans ?_
  refine (Construction.bind_ok rfl).trans ?_
  refine (Construction.bind_ok hr₅').trans ?_
  exact (Construction.bind_ok hr₆').trans rfl

end Setting

end CodeFirst
