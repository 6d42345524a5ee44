import CodeFirst.Proofs.Counterpart
import CodeFirst.Proofs.Index
import CodeFirst.Proofs.Reached

/-! What the fields of a built schema come from. Every field shows one of the contributions to its
type, every contribution that is no interface has a field of its name, and of several contributions
under one name the last one is shown. -/

namespace CodeFirst

namespace Contribution

variable {r : Registry} {host : Location}

theorem ofInterfaces_of_eq_none {seen : List EntityId} {ref : Reference} (h : ref.entity? = none)
    (rest : List Reference) :
    ofInterfaces r host seen (ref :: rest) =
      .noInterface host :: ofInterfaces r host seen rest := by
  simp only [ofInterfaces, h]

theorem ofInterfaces_of_mem {seen : List EntityId} {ref : Reference} {id : EntityId}
    (h : ref.entity? = some id) (hseen : id ∈ seen) (rest : List Reference) :
    ofInterfaces r host seen (ref :: rest) = ofInterfaces r host seen rest := by
  simp only [ofInterfaces, h, if_pos hseen]

theorem ofInterfaces_of_not_mem {seen : List EntityId} {ref : Reference} {id : EntityId}
    (h : ref.entity? = some id) (hseen : id ∉ seen) (rest : List Reference) :
    ofInterfaces r host seen (ref :: rest) =
      .interface host id :: (r.classChain .interface id).flatMap ofClass ++
        ofInterfaces r host (id :: seen) rest := by
  simp only [ofInterfaces, h, if_neg hseen]

/-- Interfaces contribute themselves and the properties of their classes, and nothing else. -/
theorem mem_ofInterfaces {seen : List EntityId} {refs : List Reference} {x : Contribution}
    (h : x ∈ ofInterfaces r host seen refs) :
    x = .noInterface host ∨ ∃ id ∈ (ofInterfaces r host seen refs).filterMap interface?,
      x = .interface host id ∨ ∃ c ∈ r.classChain .interface id, x ∈ ofClass c := by
  induction refs generalizing seen with
  | nil => exact absurd h List.not_mem_nil
  | cons ref rest ih =>
    cases hid : ref.entity? with
    | none =>
      rw [ofInterfaces_of_eq_none hid] at h ⊢
      rw [List.filterMap_cons_none rfl]
      rcases List.mem_cons.1 h with h | h
      · exact .inl h
      · exact ih h
    | some id =>
      by_cases hseen : id ∈ seen
      · rw [ofInterfaces_of_mem hid hseen] at h ⊢
        exact ih h
      · rw [ofInterfaces_of_not_mem hid hseen] at h ⊢
        rw [List.filterMap_append, interface_cons]
        rcases List.mem_append.1 h with h | h
        · refine .inr ⟨id, List.mem_append_left _ (List.mem_singleton.2 rfl), ?_⟩
          exact (List.mem_cons.1 h).imp (fun h => h) List.mem_flatMap.1
        · obtain hx | ⟨id', hid', hx⟩ := ih h
          · exact .inl hx
          · exact .inr ⟨id', List.mem_append_right _ hid', hx⟩

theorem ofClass_mem_ofInterfaces {seen : List EntityId} {refs : List Reference} {id : EntityId}
    (h : id ∈ (ofInterfaces r host seen refs).filterMap interface?) {c : ClassRecord}
    (hc : c ∈ r.classChain .interface id) {x : Contribution} (hx : x ∈ ofClass c) :
    x ∈ ofInterfaces r host seen refs := by
  induction refs generalizing seen with
  | nil => exact absurd h List.not_mem_nil
  | cons ref rest ih =>
    cases hid : ref.entity? with
    | none =>
      rw [ofInterfaces_of_eq_none hid] at h ⊢
      rw [List.filterMap_cons_none rfl] at h
      exact List.mem_cons_of_mem _ (ih h)
    | some id' =>
      by_cases hseen : id' ∈ seen
      · rw [ofInterfaces_of_mem hid hseen] at h ⊢
        exact ih h
      · rw [ofInterfaces_of_not_mem hid hseen] at h ⊢
        rw [List.filterMap_append, interface_cons] at h
        rcases List.mem_append.1 h with h | h
        · obtain rfl := List.mem_singleton.1 h
          exact List.mem_append_left _
            (List.mem_cons_of_mem _ (List.mem_flatMap.2 ⟨c, hc, hx⟩))
        · exact List.mem_append_right _ (ih h)

end Contribution

namespace Composes

variable {o : BuildOptions} {r : Registry} {H : List Origin} {l : List Contribution}
  {c : Composition}

theorem shown (h : Composes o r H l c) {f : Field} (hf : f ∈ c.fields.records) :
    ∃ x ∈ l, x.interface? = none ∧ x.Shows o r H f := by
  obtain ⟨fs, hfs, he⟩ := h.fields
  rw [he] at hf
  obtain ⟨x, hx, hshows⟩ := exists_left_of_forall₂ hfs (OrderedMap.mem_of_mem_putMany hf)
  obtain ⟨hmem, hnone⟩ := List.mem_filter.1 hx
  exact ⟨x, hmem, Option.isNone_iff_eq_none.1 hnone, hshows⟩

/-- The last contribution of a name is shown. -/
theorem get?_rel (h : Composes o r H l c) (name : String) :
    Option.Rel (Contribution.Shows o r H)
      (findRecord Contribution.fieldName name (l.filter (·.interface?.isNone)).reverse)
      (c.fields.get? name) := by
  obtain ⟨fs, hfs, he⟩ := h.fields
  rw [he, OrderedMap.get?_putMany, Catalog.get?_putMany, Catalog.get?_empty, Option.or_none]
  exact findRecord_forall₂ (List.forall₂_reverse_iff.2 hfs) (fun _ _ hx => hx.name.symm) name

theorem exists_name_iff (h : Composes o r H l c) (name : String) :
    (∃ f ∈ c.fields.records, f.name = name) ↔
      ∃ x ∈ l, x.interface? = none ∧ x.fieldName = name := by
  constructor
  · rintro ⟨f, hf, rfl⟩
    obtain ⟨x, hx, hnone, hshows⟩ := h.shown hf
    exact ⟨x, hx, hnone, hshows.name.symm⟩
  · rintro ⟨x, hx, hnone, hname⟩
    have hmem : x ∈ (l.filter (·.interface?.isNone)).reverse :=
      List.mem_reverse.2 (List.mem_filter.2 ⟨hx, by rw [hnone, Option.isNone_none]⟩)
    have hrel := h.get?_rel name
    generalize hfind : findRecord Contribution.fieldName name
      (l.filter (·.interface?.isNone)).reverse = x? at hrel
    generalize hget : c.fields.get? name = f? at hrel
    cases hrel with
    | none =>
      exact absurd (hname ▸ List.mem_map_of_mem hmem) (findRecord_eq_none_iff.1 hfind)
    | some hshows => exact ⟨_, h.keyed.get?_eq_some_iff.1 hget⟩

end Composes

namespace Setting

variable (set : Setting)

/-- What contributes to the type of an origin. -/
def contributionsTo : Origin → List Contribution
  | .declared .object id => set.contributions .object id
  | .declared .interface id => set.contributions .interface id
  | .root name => ((RootKind.all.find? (·.typeName == name)).map set.rootContributions).getD []
  | _ => []

variable {set} {H : List Origin}

@[simp] theorem contributionsTo_root (kind : RootKind) :
    set.contributionsTo (.root kind.typeName) = set.rootContributions kind := by
  cases kind <;> rfl

theorem Wires.composes {x : Origin} {c : Composition} (h : set.Wires H x (.composite c)) :
    Composes set.options set.registry H (set.contributionsTo x) c := by
  match x, h with
  | .declared .object id, h => exact h
  | .declared .interface id, h => exact h
  | .root name, ⟨kind, hname, hc⟩ =>
    rw [hname, contributionsTo_root]
    exact hc

/-- A type that has all it will ever have is made up of what contributes to it. -/
theorem Fits.composes {t : NamedType} (h : set.Fits H t) (ht : t.unwired.IsShell set.registry) :
    ∃ fields : Fields, Composes set.options set.registry H (set.contributionsTo t.origin)
      ⟨t.interfaces, fields⟩ ∧ t.fields = fields.records := by
  rcases h with h | ⟨w, hw, he⟩
  · cases t with
    | scalar t => exact ⟨∅, ⟨.nil, [], .nil, rfl⟩, rfl⟩
    | _ => cases h
  · cases w with
    | composite c =>
      have hc := hw.composes
      have hwired : t.interfaces = c.interfaces → t.fields = c.fields.records →
          ∃ fields : Fields, Composes set.options set.registry H (set.contributionsTo t.origin)
            ⟨t.interfaces, fields⟩ ∧ t.fields = fields.records := by
        intro hinterfaces hfields
        rw [hinterfaces]
        exact ⟨c.fields, hc, hfields⟩
      cases t with
      | scalar t => exact hw.elim
      | object t =>
        exact hwired (congrArg NamedType.interfaces he) (congrArg NamedType.fields he)
      | interface t =>
        exact hwired (congrArg NamedType.interfaces he) (congrArg NamedType.fields he)
      | input t =>
        -- an input type of no declaration would have the origin of a root
        have hkind := ht.kind_eq
        cases ho : t.origin with
        | none =>
          simp [NamedType.kind, NamedType.unwired, NamedType.origin, ho, Origin.kind] at hkind
        | some id => simp [NamedType.origin, ho, Wires] at hw
    | input values =>
      cases t with
      | scalar t => exact hw.elim
      | object t => cases ho : t.origin <;> simp [NamedType.origin, ho, Wires] at hw
      | interface t => cases ho : t.origin <;> simp [NamedType.origin, ho, Wires] at hw
      | input t =>
        cases ho : t.origin with
        | none => simp [NamedType.origin, ho, Wires] at hw
        | some id =>
          have horigin : (NamedType.input t).origin = .declared .input id := by
            rw [NamedType.origin, ho, Option.elim_some]
          rw [horigin]
          exact ⟨∅, ⟨.nil, [], .nil, rfl⟩, rfl⟩

end Setting

/-- A schema whose types are made up of what contributes to them in a setting. -/
structure Schema.Composed (set : Setting) (s : Schema) : Prop where
  composes : ∀ t ∈ s.types, ∃ fields : Fields,
    Composes set.options set.registry (s.types.map NamedType.origin) (set.contributionsTo t.origin)
      ⟨t.interfaces, fields⟩ ∧ t.fields = fields.records
  keyed : ∀ t ∈ s.types, t.Keyed
  kind_eq : ∀ t ∈ s.types, t.kind = t.origin.kind
  known : ∀ t ∈ s.types, ∀ k id, t.origin = .declared k id →
    ∃ c, set.registry.class? k.classKind id = some c
  root_mem : ∀ kind t, s.root? kind = some t → .object t ∈ s.types
  root_origin : ∀ kind t, s.root? kind = some t →
    (NamedType.object t).origin = .root kind.typeName
  root_present : ∀ kind, set.rootBindings kind ≠ [] → ∃ t, s.root? kind = some t
  root_names : ∀ kind, ((set.rootBindings kind).map (·.handler.schemaName)).Nodup

namespace Schema.Composed

variable {set : Setting} {s : Schema}

theorem interface_origin (h : s.Composed set) {t : CompositeType} (ht : .interface t ∈ s.types) :
    ∃ id, t.origin = some id ∧ (NamedType.interface t).origin = .declared .interface id := by
  have hkind := h.kind_eq _ ht
  cases ho : t.origin with
  | none => simp [NamedType.kind, NamedType.origin, ho, Origin.kind] at hkind
  | some id => exact ⟨id, rfl, NamedType.origin_interface ho⟩

theorem exists_name_iff (h : s.Composed set) {t : NamedType} (ht : t ∈ s.types) (name : String) :
    (∃ f ∈ t.fields, f.name = name) ↔
      ∃ x ∈ set.contributionsTo t.origin, x.interface? = none ∧ x.fieldName = name := by
  obtain ⟨fields, hc, he⟩ := h.composes t ht
  rw [he]
  exact hc.exists_name_iff name

theorem shown (h : s.Composed set) {t : NamedType} (ht : t ∈ s.types) {f : Field}
    (hf : f ∈ t.fields) : ∃ x ∈ set.contributionsTo t.origin, x.interface? = none ∧
      x.Shows set.options set.registry (s.types.map NamedType.origin) f := by
  obtain ⟨fields, hc, he⟩ := h.composes t ht
  rw [he] at hf
  exact hc.shown hf

theorem root_of_contributionsTo {name : String} {x : Contribution}
    (hx : x ∈ set.contributionsTo (.root name)) : ∃ kind : RootKind, name = kind.typeName := by
  rw [Setting.contributionsTo] at hx
  cases hkind : RootKind.all.find? (·.typeName == name) with
  | none =>
    rw [hkind] at hx
    exact absurd hx List.not_mem_nil
  | some kind =>
    have hname : kind.typeName = name := by simpa using List.find?_some hkind
    exact ⟨kind, hname.symm⟩

end Schema.Composed

namespace BuildRequest

variable {q : BuildRequest} {r : Registry}

theorem root?_schema {b : Built} {o : BuildOptions} {set : Setting} {kind : RootKind}
    (h : set.RootAt kind (b.roots.get kind) b.final) {t : CompositeType}
    (ht : (b.schema o).root? kind = some t) :
    .object t ∈ b.final.types ∧ (NamedType.object t).origin = .root kind.typeName := by
  obtain ⟨x, hx, hobject⟩ := Option.bind_eq_some_iff.1 ht
  obtain ⟨i, hi, hget⟩ := Option.bind_eq_some_iff.1 hx
  have hroot : b.roots.get kind = some i := by cases kind <;> exact hi
  obtain ⟨fields, hfields, -⟩ := h.present i hroot
  have hxi : b.final.types[i]? = some x := hget
  rw [hfields, Option.some.injEq] at hxi
  subst hxi
  obtain rfl : ⟨kind.typeName, none, [], none, none, some fields⟩ = t := Option.some.inj hobject
  exact ⟨List.mem_of_getElem? hfields, rfl⟩

theorem exists_root? {b : Built} {o : BuildOptions} {set : Setting} {kind : RootKind}
    (h : set.RootAt kind (b.roots.get kind) b.final) (hb : set.rootBindings kind ≠ []) :
    ∃ t, (b.schema o).root? kind = some t := by
  cases hroot : b.roots.get kind with
  | none => exact absurd (h.absent hroot) hb
  | some i =>
    obtain ⟨fields, hfields, -⟩ := h.present i hroot
    have hid : (b.schema o).rootId? kind = some i := by cases kind <;> exact hroot
    have hget : (b.schema o).get? i = some (kind.object fields) := hfields
    exact ⟨_, by rw [Schema.root?, hid, Option.bind_some, hget]; rfl⟩

theorem buildWith_composed {o : BuildOptions} {scalars : List ScalarType} {schema : Schema}
    (h : (q.buildWith r o scalars).outcome = .ok schema) :
    ∃ set, (Setting.prepare r o q.resolvers).outcome = .ok set ∧ schema.Composed set := by
  obtain ⟨b, hb, rfl, -⟩ := buildWith_eq_ok h
  obtain ⟨-, set, hset, hc⟩ := realize_eq_ok hb
  have hcomplete := Setting.construct_complete hc
  have hprog := hcomplete.rounds.progress
  have hcoherent := hprog.coherent
  have hfits : ∀ t ∈ b.final.types, set.Fits b.final.origins t :=
    fun t ht => hprog.fits_of_pending_eq_nil hcomplete.pending ht
  refine ⟨set, hset, ?_⟩
  exact
    { composes := fun t ht => (hfits t ht).composes (hcoherent.isShell t ht)
      keyed := fun t ht => (hfits t ht).keyed
      kind_eq := fun t ht => hcoherent.kind_eq ht
      known := fun t ht k id ho => hcoherent.known (ho ▸ List.mem_map_of_mem ht)
      root_mem := fun kind t ht => (root?_schema (hcomplete.roots kind) ht).1
      root_origin := fun kind t ht => (root?_schema (hcomplete.roots kind) ht).2
      root_present := fun kind hne => exists_root? (hcomplete.roots kind) hne
      root_names := fun kind => (hcomplete.roots kind).nodup }

/-- Every schema that is built is made up of what contributes to its types. -/
theorem buildFrom_composed {source : Option DirectiveSource} {schema : Schema}
    (h : (q.buildFrom r source).outcome = .ok schema) :
    ∃ o set, (Setting.prepare r o q.resolvers).outcome = .ok set ∧ schema.Composed set := by
  obtain ⟨o, scalars, hwith⟩ := buildFrom_eq_ok h
  exact ⟨o, buildWith_composed hwith⟩

end BuildRequest

end CodeFirst
