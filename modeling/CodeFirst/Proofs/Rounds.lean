import CodeFirst.Proofs.Progress

/-! What a successful construction leaves: the roots with a field for each binding, and the rounds
in which orphans are drained and realized. Whatever is drained gets its types before the next round;
only the last round, which brings no record, may leave followers behind. -/

namespace CodeFirst

namespace Orphans

theorem mem_records_iff {r : Registry} {id : EntityId} {k : TypeCategory} {c : ClassRecord} :
    (k, c) ∈ records r id ↔ r.class? k.classKind id = some c ∧ c.isAbstract = false := by
  have hc : ∀ k', concrete? r k' id = some (k, c) ↔
      k' = k ∧ r.class? k.classKind id = some c ∧ c.isAbstract = false := by
    intro k'
    rw [concrete?, Option.map_eq_some_iff]
    constructor
    · rintro ⟨c', hc', he⟩
      obtain ⟨rfl, rfl⟩ := Prod.mk.injEq .. ▸ he
      obtain ⟨hr, ha⟩ := Option.filter_eq_some_iff.1 hc'
      exact ⟨rfl, hr, by simpa using ha⟩
    · rintro ⟨rfl, hr, ha⟩
      exact ⟨c, Option.filter_eq_some_iff.2 ⟨hr, by simpa using ha⟩, rfl⟩
  rw [records, List.mem_filterMap]
  constructor
  · rintro ⟨k', -, hk'⟩
    exact ((hc k').1 hk').2
  · intro h
    refine ⟨k, ?_, (hc k).2 ⟨rfl, h⟩⟩
    cases k <;> decide

theorem known_of_mem_drained {o : Orphans} {r : Registry} {x : TypeCategory × ClassRecord}
    (h : x ∈ (o.drain r).2) : r.class? x.1.classKind x.2.target = some x.2 := by
  obtain ⟨id, -, hmem⟩ := List.mem_flatMap.1 h
  have hc := (mem_records_iff.1 hmem).1
  rw [Registry.target_of_class? hc]
  exact hc

theorem mem_implementers_iff {r : Registry} {interface : EntityId} {c : ClassRecord} :
    c ∈ implementers r interface ↔
      r.class? .object c.target = some c ∧ some interface ∈ c.interfaces.map Reference.entity? ∧
        c.isAbstract = false := by
  have hrec : c ∈ r.objects.records ↔ r.class? .object c.target = some c :=
    ⟨fun h => Catalog.get?_eq_some_iff.2 ⟨h, rfl⟩, fun h => (Catalog.get?_eq_some_iff.1 h).1⟩
  simp only [implementers, List.mem_filter, hrec, Bool.and_eq_true, List.any_eq_true,
    beq_iff_eq, Bool.not_eq_true', List.mem_map]

theorem mem_followers_iff {r : Registry} {id x : EntityId} :
    x ∈ followers r id ↔
      (r.class? .interface id).isSome = true ∧ ∃ c ∈ implementers r id, c.target = x := by
  rw [followers]
  by_cases h : (r.class? .interface id).isSome = true
  · simp [h]
  · simp [h]

end Orphans

namespace Construction

theorem bind_ok {α β : Type} {x : Construction α} {f : α → Construction β} {s t : Realization}
    {a : α} (h : x s = (.ok a, t)) : (x >>= f) s = f a t := by
  have hbind : (x >>= f) s = Construction.bind x f s := rfl
  rw [hbind, Construction.bind, h]

theorem bind_error {α β : Type} {x : Construction α} {f : α → Construction β} {s t : Realization}
    {e : BuildError} (h : x s = (.error e, t)) : (x >>= f) s = (.error e, t) := by
  have hbind : (x >>= f) s = Construction.bind x f s := rfl
  rw [hbind, Construction.bind, h]

theorem forM_report_run (l : List Event) (s : Realization) :
    (l.forM Construction.report) s = (.ok (), { s with log := s.log ++ l }) := by
  induction l generalizing s with
  | nil =>
    rw [List.append_nil]
    rfl
  | cons e rest ih =>
    have hstep := ih (s.addEvent e)
    rw [Realization.addEvent, List.append_assoc, List.singleton_append] at hstep
    exact hstep

end Construction

theorem Construction.forM_report_grows {r : Registry} {l : List Event} {s t : Realization}
    {a : Except BuildError PUnit} (h : (l.forM Construction.report) s = (a, t)) :
    Realization.Grows r s t := by
  induction l generalizing s with
  | nil =>
    have ht : s = t := congrArg Prod.snd h
    exact ht ▸ .refl s
  | cons e rest ih =>
    have hstep : Realization.Grows r s (s.addEvent e) := (Realization.Step.event s e).grows
    exact hstep.trans (ih h)

/-- The entity that a handler returns, below any lists. -/
def Handler.returned? (h : Handler) : Option EntityId := h.type.bind Reference.entity?

def RootKind.object (kind : RootKind) (fields : Fields) : NamedType :=
  .object ⟨kind.typeName, none, [], none, none, some fields⟩

def Setting.Roots.get (roots : Setting.Roots) : RootKind → Option TypeId
  | .query => roots.query
  | .mutation => roots.mutation
  | .subscription => roots.subscription

namespace Setting

variable {set : Setting} {s t : Realization}

theorem rootField_shows (hs : s.Coherent set.registry) {kind : RootKind} {fields : Fields}
    {b : Binding} {f : Field} (h : (set.rootField kind fields b).run s = (.ok f, t)) :
    b.rootContribution.Shows set.options set.registry t.origins f ∧
      b.handler.schemaName ∉ fields.keys ∧
      ∀ id, b.handler.returned? = some id → id ∈ t.orphans.seen := by
  obtain ⟨type, s₁, h₁, hrest⟩ := Realize.run_bind_eq_ok h
  obtain ⟨htype, rfl⟩ := Realize.run_ofOption_eq_ok h₁
  split at hrest
  · simp at hrest
  · next hnew =>
    obtain ⟨_, s₂, h₂, h₃⟩ := Realize.run_bind_eq_ok hrest
    have hc₂ : s₂.Coherent set.registry := Realize.coherent_run hs h₂
    refine ⟨?_, ?_, ?_⟩
    · have hshows := Realize.handlerField_shows hc₂ h₃
      rwa [Binding.rootContribution, htype, Option.map_some]
    · rwa [OrderedMap.contains_iff] at hnew
    · intro id hid
      rw [Handler.returned?, htype, Option.bind_some] at hid
      refine (Realize.grows_run h₃).seen ?_
      simp only [Realize.registerReference, hid, Realize.registerOrphan, Prod.mk.injEq] at h₂
      rw [← h₂.2]
      exact Orphans.mem_seen_register.2 (.inr rfl)

theorem rootFields_shows (hs : s.Coherent set.registry) {kind : RootKind} {fields fields' : Fields}
    {l : List Binding} (h : (set.rootFields kind fields l).run s = (.ok fields', t)) :
    (∃ fs, List.Forall₂ (Contribution.Shows set.options set.registry t.origins)
        (l.map Binding.rootContribution) fs ∧ fields' = fields.putMany Field.name fs) ∧
      (l.map (·.handler.schemaName)).Nodup ∧
      (∀ b ∈ l, b.handler.schemaName ∉ fields.keys) ∧
      ∀ b ∈ l, ∀ id, b.handler.returned? = some id → id ∈ t.orphans.seen := by
  induction l generalizing fields s with
  | nil =>
    simp only [rootFields, Realize.run_pure, Prod.mk.injEq, Except.ok.injEq] at h
    exact ⟨⟨[], .nil, h.1.symm⟩, List.nodup_nil, by simp, by simp⟩
  | cons b rest ih =>
    obtain ⟨f, u, hu, h'⟩ := Realize.run_bind_eq_ok h
    obtain ⟨hshows, hnew, hseen⟩ := rootField_shows hs hu
    have hname : f.name = b.handler.schemaName := hshows.name
    have hext : u.Extends t := (Realize.grows_run h').extend
    obtain ⟨⟨fs, hfs, hput⟩, hnodup, hfresh, hret⟩ := ih (Realize.coherent_run hs hu) h'
    refine ⟨⟨f :: fs, ?_, hput⟩, ?_, ?_, ?_⟩
    · rw [List.map_cons]
      exact .cons (hshows.mono hext.origins) hfs
    · rw [List.map_cons, List.nodup_cons]
      refine ⟨?_, hnodup⟩
      intro hmem
      obtain ⟨b', hb', he⟩ := List.mem_map.1 hmem
      refine hfresh b' hb' (OrderedMap.mem_keys_insert.2 (.inl ?_))
      rw [he, hname]
    · intro b' hb'
      rcases List.mem_cons.1 hb' with rfl | hb'
      · exact hnew
      · exact fun hk => hfresh b' hb' (OrderedMap.mem_keys_insert.2 (.inr hk))
    · intro b' hb' id hid
      rcases List.mem_cons.1 hb' with rfl | hb'
      · exact hext.seen id (hseen id hid)
      · exact hret b' hb' id hid

/-- A root that is as it should be: absent without bindings, else an object with a field for each
binding. What the bindings return is registered. -/
structure RootAt (set : Setting) (kind : RootKind) (place? : Option TypeId) (s : Realization) :
    Prop where
  absent : place? = none → set.rootBindings kind = []
  present : ∀ i, place? = some i → ∃ fields : Fields, s.types[i]? = some (kind.object fields) ∧
    fields.records ≠ []
  nodup : ((set.rootBindings kind).map (·.handler.schemaName)).Nodup
  returned : ∀ b ∈ set.rootBindings kind, ∀ id, b.handler.returned? = some id →
    id ∈ s.orphans.seen

theorem RootAt.mono {kind : RootKind} {place? : Option TypeId} (h : set.RootAt kind place? s)
    (hst : s.Later t) : set.RootAt kind place? t := by
  refine ⟨h.absent, ?_, h.nodup, fun b hb id hid => hst.seen id (h.returned b hb id hid)⟩
  intro i hi
  obtain ⟨fields, hf, hne⟩ := h.present i hi
  exact ⟨fields, hst.wired i _ hf rfl, hne⟩

theorem putMany_cons_ne_nil {f : Field} {fs : List Field} :
    Fields.records ((∅ : Fields).putMany Field.name (f :: fs)) ≠ [] := by
  have hput : ∀ (l : List Field) (c : Catalog Field.name), c.records ≠ [] →
      (c.putMany l).records ≠ [] := by
    intro l
    induction l with
    | nil => exact fun c hc => hc
    | cons g rest ih =>
      intro c hc
      refine ih (c.put g) ?_
      rw [Catalog.records_put]
      cases hr : c.records with
      | nil => exact absurd hr hc
      | cons a l =>
        rw [putRecord]
        split <;> simp
  rw [Fields.records, OrderedMap.values_putMany]
  exact hput fs _ (by simp [putRecord])

theorem composes_rootContributions {H : List Origin} {kind : RootKind} {fields : Fields}
    (h : ∃ fs, List.Forall₂ (Contribution.Shows set.options set.registry H)
      ((set.rootBindings kind).map Binding.rootContribution) fs ∧
        fields = (∅ : Fields).putMany Field.name fs) :
    Composes set.options set.registry H (set.rootContributions kind) ⟨[], fields⟩ := by
  have hnone : ∀ x ∈ set.rootContributions kind, x.interface? = none := by
    intro x hx
    obtain ⟨b, -, rfl⟩ := List.mem_map.1 hx
    rfl
  refine ⟨?_, ?_⟩
  · have hnil : (set.rootContributions kind).filterMap Contribution.interface? = [] :=
      List.filterMap_eq_nil_iff.2 hnone
    rw [hnil]
    exact .nil
  · have hall : (set.rootContributions kind).filter (·.interface?.isNone) =
        set.rootContributions kind := by
      refine List.filter_eq_self.2 ?_
      intro x hx
      rw [hnone x hx, Option.isNone_none]
    rw [hall]
    exact h

theorem rootFields_wires (hs : s.Coherent set.registry) {kind : RootKind} {fields : Fields}
    (h : (set.rootFields kind ∅ (set.rootBindings kind)).run s = (.ok fields, t)) :
    set.Wires t.origins kind.shell.origin (.composite ⟨[], fields⟩) :=
  ⟨kind, rfl, composes_rootContributions (rootFields_shows hs h).1⟩

theorem Progress.wireRoot {kind : RootKind} {place : TypeId} (h : set.Progress [place] s)
    (hx : s.types[place]? = some kind.shell) {fields : Fields}
    (hr : (set.rootFields kind ∅ (set.rootBindings kind)).run s = (.ok fields, t)) :
    set.Progress [] (t.wire place (.composite ⟨[], fields⟩)) ∧
      t.types[place]? = some kind.shell := by
  have hg := Realize.grows_run hr
  have hxt : t.types[place]? = some kind.shell := by
    obtain ⟨ts, hts⟩ := hg.types
    exact getElem?_of_isPrefix ⟨ts, hts.symm⟩ hx
  exact ⟨(h.grows hg).wire hxt (rootFields_wires h.coherent hr), hxt⟩

theorem addRoot_eq_ok {kind : RootKind} {place : TypeId}
    (h : set.addRoot kind s = (.ok place, t)) :
    s.typeId? kind.typeName = none ∧ place = s.types.length ∧ t = s.addType kind.shell := by
  rw [addRoot] at h
  cases hfresh : s.typeId? kind.typeName with
  | some i => simp [hfresh] at h
  | none =>
    simp only [hfresh, Prod.mk.injEq, Except.ok.injEq] at h
    exact ⟨rfl, h.1.symm, h.2.symm⟩

theorem addRoot_eq_error {kind : RootKind} {e : BuildError}
    (h : set.addRoot kind s = (.error e, t)) : t = s := by
  rw [addRoot] at h
  cases hfresh : s.typeId? kind.typeName with
  | some i =>
    simp only [hfresh, Prod.mk.injEq] at h
    exact h.2.symm
  | none => simp [hfresh] at h

/-- The realization once the handlers of a root are reported. -/
def announce (set : Setting) (kind : RootKind) (s : Realization) : Realization :=
  { s with log := s.log ++ (Exposure.exposed set.registry set.filter (.root kind)).events }

theorem announce_grows (set : Setting) (kind : RootKind) (s : Realization) :
    Realization.Grows set.registry s (set.announce kind s) :=
  Construction.forM_report_grows (Construction.forM_report_run _ s)

theorem Progress.announce {held : List TypeId} (h : set.Progress held s) (kind : RootKind) :
    set.Progress held (set.announce kind s) := h.grows (set.announce_grows kind s)

theorem buildRoot_of_eq_nil {kind : RootKind} (hb : set.rootBindings kind = []) (s : Realization) :
    set.buildRoot kind s =
      (.ok none, (set.announce kind s).addEvent (.rootOmitted kind)) := by
  have hresult : (Exposure.exposed set.registry set.filter (.root kind)).result = [] := hb
  refine (Construction.bind_ok (Construction.forM_report_run _ s)).trans ?_
  rw [hresult]
  rfl

/-- A root with handlers gets a shell, then its fields are realized and the shell is wired. -/
theorem buildRoot_of_ne_nil {kind : RootKind} (hb : set.rootBindings kind ≠ [])
    (s : Realization) :
    set.buildRoot kind s = (do
      let place ← set.addRoot kind
      let fields ← (set.rootFields kind ∅ (set.rootBindings kind)).run
      Construction.report (.rootBuilt kind fields.size)
      Construction.modify (·.wire place (.composite ⟨[], fields⟩))
      return some place : Construction (Option TypeId)) (set.announce kind s) := by
  refine (Construction.bind_ok (Construction.forM_report_run _ s)).trans ?_
  cases hbindings : set.rootBindings kind with
  | nil => exact absurd hbindings hb
  | cons b rest =>
    have hresult : (Exposure.exposed set.registry set.filter (.root kind)).result = b :: rest :=
      hbindings
    rw [hresult]
    rfl

/-- What a root that is built goes through. -/
theorem buildRoot_eq_ok {kind : RootKind} {place? : Option TypeId}
    (h : set.buildRoot kind s = (.ok place?, t)) :
    (set.rootBindings kind = [] ∧ place? = none ∧
      t = (set.announce kind s).addEvent (.rootOmitted kind)) ∨
    (set.rootBindings kind ≠ [] ∧ s.typeId? kind.typeName = none ∧ place? = some s.types.length ∧
      ∃ fields u, (set.rootFields kind ∅ (set.rootBindings kind)).run
          ((set.announce kind s).addType kind.shell) = (.ok fields, u) ∧
        t = (u.addEvent (.rootBuilt kind fields.size)).wire s.types.length
          (.composite ⟨[], fields⟩)) := by
  by_cases hb : set.rootBindings kind = []
  · rw [buildRoot_of_eq_nil hb, Prod.mk.injEq, Except.ok.injEq] at h
    exact .inl ⟨hb, h.1.symm, h.2.symm⟩
  · rw [buildRoot_of_ne_nil hb] at h
    obtain ⟨place, _, hadd, hrest⟩ := Construction.bind_eq_ok h
    obtain ⟨fields, u, hfields, hlast⟩ := Construction.bind_eq_ok hrest
    obtain ⟨fresh, rfl, rfl⟩ := addRoot_eq_ok hadd
    have hplace : some s.types.length = place? := Except.ok.inj (congrArg Prod.fst hlast)
    have ht : (u.addEvent (.rootBuilt kind fields.size)).wire s.types.length
        (.composite ⟨[], fields⟩) = t := congrArg Prod.snd hlast
    exact .inr ⟨hb, fresh, hplace.symm, fields, u, hfields, ht.symm⟩

theorem buildRoot_rootAt (h : set.Progress [] s) {kind : RootKind} {place? : Option TypeId}
    (hr : set.buildRoot kind s = (.ok place?, t)) :
    set.Progress [] t ∧ s.Extends t ∧ set.RootAt kind place? t := by
  have hp₁ := h.announce kind
  have hg₁ := set.announce_grows kind s
  obtain ⟨hb, rfl, rfl⟩ | ⟨hb, fresh, rfl, fields, u, hfields, rfl⟩ := buildRoot_eq_ok hr
  · have hg := hg₁.tail (.event _ (.rootOmitted kind))
    refine ⟨h.grows hg, hg.extend, fun _ => hb, by simp, by simp [hb], ?_⟩
    intro b hmem
    rw [hb] at hmem
    exact absurd hmem List.not_mem_nil
  · have hshell : ((set.announce kind s).addType kind.shell).types[s.types.length]? =
        some kind.shell := getElem?_concat_eq_some_iff.2 (.inr ⟨rfl, rfl⟩)
    have hopened : set.Progress [s.types.length] ((set.announce kind s).addType kind.shell) :=
      hp₁.addRoot fresh
    obtain ⟨hprog, hx⟩ := Progress.wireRoot hopened hshell hfields
    have hx' : (u.addEvent (.rootBuilt kind fields.size)).types[s.types.length]? =
        some kind.shell := hx
    obtain ⟨⟨fs, hfs, hput⟩, hnodup, -, hret⟩ := rootFields_shows hopened.coherent hfields
    have hext : s.Extends (u.addEvent (.rootBuilt kind fields.size)) :=
      (hg₁.extend.trans (Realization.extend_addType _ _)).trans
        ((Realize.grows_run hfields).tail (.event _ _)).extend
    refine ⟨hprog.step (.event _ _), hext.trans (Realization.extend_wire hx' rfl _), by simp, ?_,
      hnodup, hret⟩
    rintro i ⟨⟩
    refine ⟨fields, ?_, ?_⟩
    · rw [Realization.wire, List.getElem?_modify, hx']
      simp [RootKind.shell, RootKind.object, NamedType.wire]
    · have hne : fs ≠ [] := by
        rintro rfl
        exact hb (List.map_eq_nil_iff.1 (List.forall₂_nil_right_iff.1 hfs))
      obtain ⟨f, rest, rfl⟩ := List.exists_cons_of_ne_nil hne
      rw [hput]
      exact putMany_cons_ne_nil

theorem Progress.drain {held : List TypeId} (h : set.Progress held s) {orphans : Orphans}
    {l : List (TypeCategory × ClassRecord)} (hd : s.orphans.drain set.registry = (orphans, l)) :
    set.Progress held { s with orphans } := by
  refine h.withOrphans fun id hid => ?_
  have ho : orphans = (s.orphans.drain set.registry).1 := by rw [hd]
  rw [ho]
  exact Orphans.mem_seen_drain.2 (.inl hid)

theorem realizeDrained_origins (hs : s.Coherent set.registry) {n m : Nat}
    {l : List (TypeCategory × ClassRecord)}
    (hl : ∀ x ∈ l, set.registry.class? x.1.classKind x.2.target = some x.2)
    (h : (set.realizeDrained n l).run s = (.ok m, t)) :
    ∀ x ∈ l, .declared x.1 x.2.target ∈ t.origins := by
  induction l generalizing n s with
  | nil => simp
  | cons y rest ih =>
    obtain ⟨known, s₁, h₁, h'⟩ := Realize.run_bind_eq_ok h
    obtain ⟨place?, s₂, h₂, h₃⟩ := Realize.run_bind_eq_ok h'
    have hs₁ := Realize.coherent_run hs h₁
    intro x hx
    rcases List.mem_cons.1 hx with rfl | hx
    · cases place? with
      | none =>
        have hnone := Realize.declared?_none h₂
        rw [hl x List.mem_cons_self] at hnone
        exact absurd hnone (by simp)
      | some i =>
        have hi := Realize.declared?_origin hs₁ h₂
        exact (Realize.origins_extend h₃).subset (List.mem_of_getElem? hi)
    · exact ih (Realize.coherent_run hs₁ h₂) (fun z hz => hl z (List.mem_cons_of_mem _ hz)) h₃ x hx

/-- What holds at the start of every round: what was drained is realized, and its followers are
registered. -/
structure Rounds (set : Setting) (s : Realization) : Prop where
  progress : set.Progress [] s
  realized : ∀ id, s.orphans.Settled id → ∀ x ∈ Orphans.records set.registry id,
    .declared x.1 id ∈ s.origins
  followed : ∀ id, s.orphans.Settled id → ∀ x ∈ Orphans.followers set.registry id,
    x ∈ s.orphans.seen

namespace Rounds

theorem extend (h : set.Rounds s) (hp : set.Progress [] t) (hst : s.Extends t) : set.Rounds t := by
  refine ⟨hp, ?_, ?_⟩
  · intro id hid x hx
    exact hst.origins.subset (h.realized id ((hst.settled id).1 hid) x hx)
  · intro id hid x hx
    exact hst.seen x (h.followed id ((hst.settled id).1 hid) x hx)

theorem drain (h : set.Rounds s) (hp : set.Progress [] t)
    (ho : s.origins <+: t.origins)
    (hseen : ∀ id ∈ (s.orphans.drain set.registry).1.seen, id ∈ t.orphans.seen)
    (hsettled : ∀ id, t.orphans.Settled id ↔ id ∈ s.orphans.seen)
    (hreal : ∀ id ∈ s.orphans.waiting, ∀ x ∈ Orphans.records set.registry id,
      .declared x.1 id ∈ t.origins) : set.Rounds t := by
  have hcases : ∀ id, t.orphans.Settled id → s.orphans.Settled id ∨ id ∈ s.orphans.waiting := by
    intro id hid
    by_cases hw : id ∈ s.orphans.waiting
    · exact .inr hw
    · exact .inl ⟨(hsettled id).1 hid, hw⟩
  refine ⟨hp, ?_, ?_⟩
  · intro id hid x hx
    rcases hcases id hid with hs | hw
    · exact ho.subset (h.realized id hs x hx)
    · exact hreal id hw x hx
  · intro id hid x hx
    refine hseen x (Orphans.mem_seen_drain.2 ?_)
    rcases hcases id hid with hs | hw
    · exact .inl (h.followed id hs x hx)
    · exact .inr ⟨id, hw, hx⟩

theorem next (h : set.Rounds s) {n m : Nat}
    (hr : (set.realizeDrained n (s.orphans.drain set.registry).2).run
      { s with orphans := (s.orphans.drain set.registry).1 } = (.ok m, t)) :
    set.Rounds t ∧ s.Later t := by
  have hg := Realize.grows_run hr
  have hlater : s.Later { s with orphans := (s.orphans.drain set.registry).1 } :=
    ⟨List.prefix_refl _, fun _ _ hx _ => hx, fun id hid => Orphans.mem_seen_drain.2 (.inl hid)⟩
  have hp : set.Progress [] { s with orphans := (s.orphans.drain set.registry).1 } :=
    h.progress.withOrphans hlater.seen
  have horigins :=
    realizeDrained_origins hp.coherent (fun x hx => Orphans.known_of_mem_drained hx) hr
  refine ⟨h.drain (hp.grows hg) (hlater.origins.trans hg.origins) (fun id hid => hg.seen hid) ?_ ?_,
    hlater.trans hg.extend.toLater⟩
  · intro id
    exact (hg.extend.settled id).trans Orphans.settled_drain_iff
  · intro id hid x hx
    have ht := Registry.target_of_class? (Orphans.mem_records_iff.1 hx).1
    have hmem := horigins x (List.mem_flatMap.2 ⟨id, hid, hx⟩)
    rwa [ht] at hmem

end Rounds

/-- The loop ends with a round in which nothing that waits has a record. -/
theorem realizeOrphans_last (h : set.Rounds s) {n m : Nat}
    (hr : set.realizeOrphans n s = (.ok m, t)) :
    ∃ u, set.Rounds u ∧ u.pending = [] ∧ s.Later u ∧
      (∀ id ∈ u.orphans.waiting, Orphans.records set.registry id = []) ∧
      t = { u with orphans := (u.orphans.drain set.registry).1 } := by
  fun_induction Setting.realizeOrphans set n s with
  | case1 n s e u hw => simp at hr
  | case2 n s u hw orphans hd =>
    obtain ⟨hp, hpending, hext⟩ := h.progress.wirePending hw
    simp only [Prod.mk.injEq, Except.ok.injEq] at hr
    obtain ⟨-, rfl⟩ := hr
    refine ⟨u, h.extend hp hext, hpending, hext.toLater, ?_, ?_⟩
    · have hnil : (u.orphans.drain set.registry).2 = [] := by rw [hd]
      exact List.flatMap_eq_nil_iff.1 hnil
    · rw [hd]
  | case3 n s u hw orphans x drained hd e v hv => simp at hr
  | case4 n s u hw orphans x drained hd k v hv ih =>
    obtain ⟨hp, -, hext⟩ := h.progress.wirePending hw
    have hdrain : (set.realizeDrained n (u.orphans.drain set.registry).2).run
        { u with orphans := (u.orphans.drain set.registry).1 } = (.ok k, v) := by
      rw [hd]
      exact hv
    obtain ⟨hround, hlater⟩ := (h.extend hp hext).next hdrain
    obtain ⟨w, hwr, hwp, hwl, hrest⟩ := ih hround hr
    exact ⟨w, hwr, hwp, (hext.toLater.trans hlater).trans hwl, hrest⟩

/-- What a construction leaves. Only followers of the last round may still wait. -/
structure Complete (set : Setting) (orphaned : List EntityId) (roots : Roots) (s : Realization) :
    Prop where
  rounds : set.Rounds s
  pending : s.pending = []
  roots : ∀ kind, set.RootAt kind (roots.get kind) s
  requested : ∀ id ∈ orphaned ++ kept set.registry set.options, id ∈ s.orphans.seen
  interfaces : ∀ id, .declared .interface id ∈ s.origins → s.orphans.Settled id
  followers : ∀ id, s.orphans.Settled id → Orphans.records set.registry id ≠ [] →
    ∀ x ∈ Orphans.followers set.registry id, s.orphans.Settled x
  waiting : ∀ x ∈ s.orphans.seen, s.orphans.Settled x ∨ ∃ id, s.orphans.Settled id ∧
    Orphans.records set.registry id = [] ∧ x ∈ Orphans.followers set.registry id

theorem Rounds.complete {u : Realization} (h : set.Rounds u) (hp : u.pending = [])
    (hlast : ∀ id ∈ u.orphans.waiting, Orphans.records set.registry id = [])
    {orphaned : List EntityId} {roots : Roots} (hroots : ∀ kind, set.RootAt kind (roots.get kind) u)
    (hseen : ∀ id ∈ orphaned ++ kept set.registry set.options, id ∈ u.orphans.seen) :
    set.Complete orphaned roots { u with orphans := (u.orphans.drain set.registry).1 } := by
  have hlater : u.Later { u with orphans := (u.orphans.drain set.registry).1 } :=
    ⟨List.prefix_refl _, fun _ _ hx _ => hx, fun id hid => Orphans.mem_seen_drain.2 (.inl hid)⟩
  have hprog : set.Progress [] { u with orphans := (u.orphans.drain set.registry).1 } :=
    h.progress.withOrphans hlater.seen
  refine ⟨?_, hp, fun kind => (hroots kind).mono hlater,
    fun id hid => hlater.seen id (hseen id hid), ?_, ?_, ?_⟩
  · refine h.drain hprog hlater.origins (fun _ hid => hid) (fun _ => Orphans.settled_drain_iff) ?_
    intro id hid x hx
    rw [hlast id hid] at hx
    exact absurd hx List.not_mem_nil
  · intro id hid
    exact Orphans.settled_drain_iff.2 (h.progress.coherent.interfaces_seen id hid)
  · intro id hid hne x hx
    have hsettled : u.orphans.Settled id :=
      ⟨Orphans.settled_drain_iff.1 hid, fun hw => hne (hlast id hw)⟩
    exact Orphans.settled_drain_iff.2 (h.followed id hsettled x hx)
  · intro x hx
    rcases Orphans.mem_seen_drain.1 hx with hx | ⟨id, hid, hx⟩
    · exact .inl (Orphans.settled_drain_iff.2 hx)
    · have hsettled := Orphans.settled_drain_of_waiting (r := set.registry) hid
      exact .inr ⟨id, hsettled, hlast id hid, hx⟩

theorem addScalars_types {l : List ScalarType} (h : (set.addScalars l).run s = (.ok (), t)) :
    ∃ (ts : List ScalarType) (index : TypeIndex),
      t = { s with types := s.types ++ ts.map NamedType.scalar, index } := by
  induction l generalizing s with
  | nil =>
    have hst : s = t := congrArg Prod.snd h
    refine ⟨[], s.index, ?_⟩
    rw [List.map_nil, List.append_nil, hst]
  | cons x rest ih =>
    obtain ⟨i, u, hu, h'⟩ := Realize.run_bind_eq_ok h
    obtain ⟨ts, index, rfl⟩ := ih h'
    simp only [Realize.scalar] at hu
    split at hu
    · simp only [Prod.mk.injEq] at hu
      refine ⟨x :: ts, index, ?_⟩
      rw [← hu.2, List.map_cons]
      simp only [Realization.addType, List.append_assoc, List.singleton_append]
    · split at hu
      · simp only [Prod.mk.injEq] at hu
        exact ⟨ts, index, by rw [hu.2]⟩
      · simp at hu

theorem Complete.addScalars {orphaned : List EntityId} {roots : Roots}
    (h : set.Complete orphaned roots s) {l : List ScalarType}
    (hr : (set.addScalars l).run s = (.ok (), t)) : set.Complete orphaned roots t := by
  have hg := Realize.grows_run hr
  have hext := hg.extend
  have hp : set.Progress [] t := h.rounds.progress.grows hg
  obtain ⟨ts, index, rfl⟩ := addScalars_types hr
  refine ⟨h.rounds.extend hp hext, h.pending, fun kind => (h.roots kind).mono hext.toLater,
    h.requested, ?_, h.followers, h.waiting⟩
  intro id hid
  rw [Realization.origins, List.map_append] at hid
  rcases List.mem_append.1 hid with hid | hid
  · exact h.interfaces id hid
  · simp at hid

theorem construct_complete {orphaned : List EntityId} {scalars : List ScalarType} {roots : Roots}
    {n : Nat} (h : set.construct orphaned scalars .empty = (.ok (roots, n), t)) :
    set.Complete orphaned roots t := by
  obtain ⟨query, s₁, h₁, h⟩ := Construction.bind_eq_ok h
  obtain ⟨mutation, s₂, h₂, h⟩ := Construction.bind_eq_ok h
  obtain ⟨subscription, s₃, h₃, h⟩ := Construction.bind_eq_ok h
  obtain ⟨_, s₄, h₄, h⟩ := Construction.bind_eq_ok h
  obtain ⟨m, s₅, h₅, h⟩ := Construction.bind_eq_ok h
  obtain ⟨_, s₆, h₆, h⟩ := Construction.bind_eq_ok h
  have hroots : (⟨query, mutation, subscription⟩, m) = (roots, n) :=
    Except.ok.inj (congrArg Prod.fst h)
  have hs₆ : s₆ = t := congrArg Prod.snd h
  obtain ⟨rfl, rfl⟩ := Prod.mk.injEq .. ▸ hroots
  subst hs₆
  obtain ⟨hp₁, he₁, hr₁⟩ := buildRoot_rootAt .empty h₁
  obtain ⟨hp₂, he₂, hr₂⟩ := buildRoot_rootAt hp₁ h₂
  obtain ⟨hp₃, he₃, hr₃⟩ := buildRoot_rootAt hp₂ h₃
  have hs₄ : { s₃ with
      orphans := s₃.orphans.registerMany (orphaned ++ kept set.registry set.options) } = s₄ :=
    congrArg Prod.snd h₄
  have he₄ : s₃.Extends s₄ := by
    rw [← hs₄]
    exact ⟨⟨List.prefix_refl _, fun _ _ hx _ => hx, fun id hid =>
      Orphans.mem_seen_registerMany.2 (.inl hid)⟩, fun id => Orphans.settled_registerMany_iff⟩
  have hp₄ : set.Progress [] s₄ := by
    rw [← hs₄]
    exact hp₃.withOrphans fun id hid => Orphans.mem_seen_registerMany.2 (.inl hid)
  have hround : set.Rounds s₄ := by
    have hnone : ∀ id, ¬ s₄.orphans.Settled id := by
      intro id hid
      have hid' := (((he₁.trans he₂).trans he₃).trans he₄).settled id |>.1 hid
      exact absurd hid'.1 List.not_mem_nil
    exact ⟨hp₄, fun id hid => absurd hid (hnone id), fun id hid => absurd hid (hnone id)⟩
  obtain ⟨u, hu, hpending, hlater, hlast, rfl⟩ := realizeOrphans_last hround h₅
  refine (hu.complete hpending hlast ?_ ?_).addScalars h₆
  · intro kind
    have hl₃ := he₄.toLater.trans hlater
    have hl₂ := he₃.toLater.trans hl₃
    have hl₁ := he₂.toLater.trans hl₂
    cases kind with
    | query => exact hr₁.mono hl₁
    | mutation => exact hr₂.mono hl₂
    | subscription => exact hr₃.mono hl₃
  · intro id hid
    refine hlater.seen id ?_
    rw [← hs₄]
    exact Orphans.mem_seen_registerMany.2 (.inr hid)

end Setting

theorem ok_of_toOption {ε α : Type} {x : Except ε α} {a : α} (h : x.toOption = some a) :
    x = .ok a := by
  cases x with
  | error e => cases h
  | ok b =>
    cases h
    rfl

namespace Trial

variable {ε α β : Type}

theorem bind_eq_ok {x : Trial ε α} {f : α → Trial ε β} {b : β} (h : (x >>= f).outcome = .ok b) :
    ∃ a, x.outcome = .ok a ∧ (f a).outcome = .ok b := by
  change (ExceptT.bindCont f x.run.result).result = .ok b at h
  cases hx : x.run.result with
  | error e =>
    rw [hx] at h
    cases h
  | ok a =>
    rw [hx] at h
    exact ⟨a, hx, h⟩

theorem outcome_bind {x : Trial ε α} {a : α} (h : x.outcome = .ok a) (f : α → Trial ε β) :
    (x >>= f).outcome = (f a).outcome := by
  have hx : x.run.result = .ok a := h
  change (ExceptT.bindCont f x.run.result).result = _
  rw [hx]
  rfl

theorem outcome_bind_error {x : Trial ε α} {e : ε} (h : x.outcome = .error e)
    (f : α → Trial ε β) : (x >>= f).outcome = .error e := by
  have hx : x.run.result = .error e := h
  change (ExceptT.bindCont f x.run.result).result = _
  rw [hx]
  rfl

theorem outcome_forM_tell (l : List Event) :
    (l.forM (tell : Event → Trial ε PUnit)).outcome = .ok () := by
  induction l with
  | nil => rfl
  | cons e rest ih => exact ih

theorem outcome_ofExcept (x : Except ε α) : (ofExcept x).outcome = x := rfl

theorem outcome_ofLogged (x : Logged α) : (ofLogged x : Trial ε α).outcome = .ok x.result := rfl

end Trial

namespace BuildRequest

variable {q : BuildRequest} {r : Registry} {o : BuildOptions} {scalars : List ScalarType}

theorem prepare_eq_ok {filter : ResolverFilter} {set : Setting}
    (h : (Setting.prepare r o filter).outcome = .ok set) :
    Attachment.attach r [] (Exposure.exposed r filter .field).result = .ok set.attachments ∧
      set = ⟨r, o, filter, set.attachments⟩ := by
  obtain ⟨bindings, hb, h⟩ := Trial.bind_eq_ok h
  obtain ⟨attachments, ha, h⟩ := Trial.bind_eq_ok h
  rw [Trial.outcome_ofLogged, Except.ok.injEq] at hb
  rw [Trial.outcome_ofExcept] at ha
  have hset : ⟨r, o, filter, attachments⟩ = set := Except.ok.inj h
  subst hb hset
  exact ⟨ha, rfl⟩

theorem realize_eq_ok {b : Built} (h : (q.realize r o scalars).outcome = .ok b) :
    r.checkNames = .ok () ∧ ∃ set, (Setting.prepare r o q.resolvers).outcome = .ok set ∧
      set.construct q.orphaned scalars .empty = (.ok (b.roots, b.orphanCount), b.final) := by
  obtain ⟨_, hnames, h⟩ := Trial.bind_eq_ok h
  obtain ⟨set, hset, h⟩ := Trial.bind_eq_ok h
  refine ⟨hnames, set, hset, ?_⟩
  cases hc : set.construct q.orphaned scalars .empty with
  | mk result s =>
    rw [hc] at h
    obtain ⟨_, _, h⟩ := Trial.bind_eq_ok h
    obtain ⟨⟨roots, n⟩, hresult, h⟩ := Trial.bind_eq_ok h
    rw [Trial.outcome_ofExcept] at hresult
    have hb : ⟨roots, n, s⟩ = b := Except.ok.inj h
    rw [hresult, ← hb]

theorem realize_complete {b : Built} (h : (q.realize r o scalars).outcome = .ok b) :
    ∃ set : Setting, set.registry = r ∧ set.options = o ∧ set.filter = q.resolvers ∧
      set.Complete q.orphaned b.roots b.final := by
  obtain ⟨-, set, hset, hc⟩ := realize_eq_ok h
  obtain ⟨-, he⟩ := prepare_eq_ok hset
  refine ⟨set, ?_, ?_, ?_, Setting.construct_complete hc⟩
  · rw [he]
  · rw [he]
  · rw [he]

/-- A successful build realized its types and, unless told otherwise, checked them. -/
theorem buildWith_eq_ok {schema : Schema} (h : (q.buildWith r o scalars).outcome = .ok schema) :
    ∃ b, (q.realize r o scalars).outcome = .ok b ∧ schema = b.schema o ∧
      (o.skipCheck = false → schema.findings = []) := by
  obtain ⟨b, hb, h⟩ := Trial.bind_eq_ok h
  refine ⟨b, hb, ?_⟩
  cases hskip : o.skipCheck with
  | true =>
    rw [hskip] at h
    obtain ⟨_, _, h⟩ := Trial.bind_eq_ok h
    have hschema : b.schema o = schema := Except.ok.inj h
    exact ⟨hschema.symm, by simp⟩
  | false =>
    rw [hskip] at h
    obtain ⟨_, hcheck, h⟩ := Trial.bind_eq_ok h
    obtain ⟨_, _, h⟩ := Trial.bind_eq_ok h
    have hschema : b.schema o = schema := Except.ok.inj h
    refine ⟨hschema.symm, fun _ => ?_⟩
    rw [← hschema]
    exact (Schema.check_eq_ok_iff _).1 hcheck

/-- A build from a directive source is a build with other options and some extra scalars. -/
theorem buildFrom_eq_ok {source : Option DirectiveSource} {schema : Schema}
    (h : (q.buildFrom r source).outcome = .ok schema) :
    ∃ o scalars, (q.buildWith r o scalars).outcome = .ok schema := by
  cases source with
  | none => exact ⟨q.options, [], h⟩
  | some source =>
    obtain ⟨f, hf, h⟩ := Trial.bind_eq_ok h
    obtain ⟨_, _, h⟩ := Trial.bind_eq_ok h
    exact ⟨federatedOptions q.options f, f.scalars, h⟩

end BuildRequest

end CodeFirst
