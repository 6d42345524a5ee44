import CodeFirst.Proofs.Composed

/-! Which fields a type gets from the interfaces that it implements. An interface brings the
properties of its class and its ancestors; what it takes over from interfaces of its own it does not
pass on, so a type has it only if it gets it in another way. -/

namespace CodeFirst

/-- Whether a class or one of its ancestors has a property with this schema name. -/
def Registry.HasProperty (r : Registry) (kind : ClassKind) (id : EntityId) (name : String) : Prop :=
  ∃ c ∈ r.classChain kind id, ∃ p ∈ c.properties, p.schemaName = name

namespace Schema

def interfacesOf (s : Schema) (t : NamedType) : List CompositeType :=
  t.interfaces.filterMap fun i => (s.get? i).bind NamedType.interface?

/-- Whether every type has the fields of the interfaces that it implements. -/
def InheritsFields (s : Schema) : Prop :=
  ∀ t ∈ s.types, ∀ i ∈ s.interfacesOf t, ∀ f ∈ i.fields, ∃ g ∈ t.fields, g.name = f.name

/-- Whether every type lists the interfaces of its interfaces. -/
def ListsInterfaces (s : Schema) : Prop :=
  ∀ t ∈ s.types, ∀ i ∈ s.interfacesOf t, ∀ j ∈ i.interfaces, j ∈ t.interfaces

theorem mem_interfacesOf {s : Schema} {t : NamedType} {i : CompositeType} :
    i ∈ s.interfacesOf t ↔ ∃ place ∈ t.interfaces, s.get? place = some (.interface i) := by
  rw [interfacesOf, List.mem_filterMap]
  refine exists_congr fun place => and_congr_right fun _ => ?_
  constructor
  · intro h
    obtain ⟨x, hx, hi⟩ := Option.bind_eq_some_iff.1 h
    cases x with
    | interface t => rw [hx, Option.some.inj hi]
    | _ => cases hi
  · intro h
    rw [h]
    rfl

theorem interface_mem {s : Schema} {t : NamedType} {i : CompositeType}
    (h : i ∈ s.interfacesOf t) : .interface i ∈ s.types := by
  obtain ⟨place, -, hget⟩ := mem_interfacesOf.1 h
  exact List.mem_of_getElem? hget

end Schema

namespace Contribution

theorem mem_classes_iff {l : List ClassRecord} {x : Contribution} :
    x ∈ l.flatMap ofClass ↔ ∃ c ∈ l, ∃ p ∈ c.properties, .property c p = x := by
  rw [List.mem_flatMap]
  exact exists_congr fun c => and_congr_right fun _ => List.mem_map

end Contribution

namespace Setting

variable {set : Setting}

theorem contributions_of_some {k : CompositeCategory} {id : EntityId} {c : ClassRecord}
    (h : set.registry.class? k.classKind id = some c) :
    set.contributions k id = Contribution.ofType set.registry c
      (set.registry.classChain k.classKind id)
      (if k = .object then set.fieldResolvers id else []) := by
  rw [contributions, h]

theorem property_mem_contributions {k : CompositeCategory} {id i : EntityId}
    (hi : i ∈ (set.contributions k id).filterMap Contribution.interface?) {c : ClassRecord}
    (hc : c ∈ set.registry.classChain .interface i) {p : Property} (hp : p ∈ c.properties) :
    .property c p ∈ set.contributions k id := by
  cases hclass : set.registry.class? k.classKind id with
  | none =>
    rw [contributions, hclass] at hi
    exact absurd hi List.not_mem_nil
  | some record =>
    rw [contributions_of_some hclass] at hi ⊢
    rw [Contribution.filterMap_interface?_ofType] at hi
    have hmem := Contribution.ofClass_mem_ofInterfaces hi hc (List.mem_map_of_mem hp)
    exact List.mem_append_left _ (List.mem_append_left _ hmem)

end Setting

namespace Schema.Composed

variable {set : Setting} {s : Schema}

theorem mem_interface?_iff (h : s.Composed set) {t : NamedType} (ht : t ∈ s.types)
    (id : EntityId) : id ∈ (set.contributionsTo t.origin).filterMap Contribution.interface? ↔
      ∃ i ∈ s.interfacesOf t, i.origin = some id := by
  obtain ⟨fields, hc, -⟩ := h.composes t ht
  have hplaces := hc.interfaces
  have hplace : ∀ (place : TypeId) (x : EntityId),
      (s.types.map NamedType.origin)[place]? = some (.declared .interface x) →
        ∃ i, s.get? place = some (.interface i) ∧ i.origin = some x := by
    intro place x hx
    rw [List.getElem?_map, Option.map_eq_some_iff] at hx
    obtain ⟨u, hu, ho⟩ := hx
    have hkind := h.kind_eq u (List.mem_of_getElem? hu)
    rw [ho] at hkind
    cases u with
    | interface i =>
      refine ⟨i, hu, ?_⟩
      cases hi : i.origin with
      | none => simp [NamedType.origin, hi] at ho
      | some y =>
        rw [NamedType.origin, hi, Option.elim_some, Origin.declared.injEq] at ho
        rw [ho.2]
    | _ => cases hkind
  constructor
  · intro hid
    obtain ⟨place, hmem, hx⟩ := exists_left_of_forall₂ hplaces.flip hid
    obtain ⟨i, hget, ho⟩ := hplace place id hx
    exact ⟨i, mem_interfacesOf.2 ⟨place, hmem, hget⟩, ho⟩
  · rintro ⟨i, hi, ho⟩
    obtain ⟨place, hmem, hget⟩ := mem_interfacesOf.1 hi
    obtain ⟨x, hx, hplacex⟩ := exists_left_of_forall₂ hplaces hmem
    obtain ⟨i', hget', ho'⟩ := hplace place x hplacex
    rw [hget, Option.some.injEq, NamedType.interface.injEq] at hget'
    rw [hget', ho', Option.some.injEq] at ho
    exact ho ▸ hx

/-- A type has the properties of every interface that it implements. -/
theorem exists_field_of_property (h : s.Composed set) {t : NamedType} (ht : t ∈ s.types)
    {i : CompositeType} (hi : i ∈ s.interfacesOf t) {id : EntityId} (ho : i.origin = some id)
    {name : String} (hname : set.registry.HasProperty .interface id name) :
    ∃ g ∈ t.fields, g.name = name := by
  obtain ⟨c, hc, p, hp, rfl⟩ := hname
  have hid := (h.mem_interface?_iff ht id).2 ⟨i, hi, ho⟩
  refine (h.exists_name_iff ht p.schemaName).2 ⟨.property c p, ?_, rfl, rfl⟩
  cases hx : t.origin with
  | scalar n =>
    rw [hx] at hid
    exact absurd hid List.not_mem_nil
  | root n =>
    rw [hx] at hid
    obtain ⟨x, hx', hinterface⟩ := List.mem_filterMap.1 hid
    obtain ⟨kind, rfl⟩ := root_of_contributionsTo hx'
    rw [Setting.contributionsTo_root] at hx'
    obtain ⟨b, -, rfl⟩ := List.mem_map.1 hx'
    cases hinterface
  | declared k id' =>
    rw [hx] at hid
    cases k with
    | object => exact Setting.property_mem_contributions hid hc hp
    | interface => exact Setting.property_mem_contributions hid hc hp
    | input => exact absurd hid List.not_mem_nil

/-- The fields of an interface are its own properties and those of the interfaces that it
implements. -/
theorem interface_field_iff (h : s.Composed set) {i : CompositeType}
    (hi : .interface i ∈ s.types) {id : EntityId} (ho : i.origin = some id) (name : String) :
    (∃ f ∈ i.fields, f.name = name) ↔ set.registry.HasProperty .interface id name ∨
      ∃ j ∈ s.interfacesOf (.interface i), ∃ id', j.origin = some id' ∧
        set.registry.HasProperty .interface id' name := by
  have horigin := NamedType.origin_interface ho
  obtain ⟨record, hrecord⟩ := h.known _ hi _ _ horigin
  have hcontributions : set.contributionsTo (NamedType.interface i).origin =
      Contribution.ofType set.registry record (set.registry.classChain .interface id) [] := by
    rw [horigin]
    exact Setting.contributions_of_some (k := .interface) hrecord
  constructor
  · rintro ⟨f, hf, rfl⟩
    obtain ⟨x, hx, hnone, hshows⟩ := h.shown hi hf
    rw [hcontributions, Contribution.ofType, List.map_nil, List.append_nil] at hx
    rcases List.mem_append.1 hx with hx | hx
    · obtain rfl | ⟨id', hid', rfl | ⟨c, hc, hp⟩⟩ := Contribution.mem_ofInterfaces hx
      · exact hshows.elim
      · cases hnone
      · rw [← Contribution.filterMap_interface?_ofType _ _ _ [], ← hcontributions,
          h.mem_interface?_iff hi] at hid'
        obtain ⟨j, hj, hjo⟩ := hid'
        obtain ⟨p, hpmem, rfl⟩ := List.mem_map.1 hp
        exact .inr ⟨j, hj, id', hjo, c, hc, p, hpmem, hshows.name.symm⟩
    · obtain ⟨c, hc, p, hp, rfl⟩ := Contribution.mem_classes_iff.1 hx
      exact .inl ⟨c, hc, p, hp, hshows.name.symm⟩
  · rintro (⟨c, hc, p, hp, rfl⟩ | ⟨j, hj, id', hjo, hname⟩)
    · refine (h.exists_name_iff hi p.schemaName).2 ⟨.property c p, ?_, rfl, rfl⟩
      rw [hcontributions]
      exact List.mem_append_left _ (List.mem_append_right _
        (Contribution.mem_classes_iff.2 ⟨c, hc, p, hp, rfl⟩))
    · exact h.exists_field_of_property hi hj hjo hname

theorem inheritsFields_iff (h : s.Composed set) : s.InheritsFields ↔
    ∀ t ∈ s.types, ∀ i ∈ s.interfacesOf t, ∀ j ∈ s.interfacesOf (.interface i), ∀ id,
      j.origin = some id → ∀ name, set.registry.HasProperty .interface id name →
        ∃ g ∈ t.fields, g.name = name := by
  constructor
  · intro hall t ht i hi j hj id ho name hname
    obtain ⟨f, hf, rfl⟩ := h.exists_field_of_property (interface_mem hi) hj ho hname
    exact hall t ht i hi f hf
  · intro hall t ht i hi f hf
    obtain ⟨id, ho, -⟩ := h.interface_origin (interface_mem hi)
    rcases (h.interface_field_iff (interface_mem hi) ho f.name).1 ⟨f, hf, rfl⟩ with
      hname | ⟨j, hj, id', hjo, hname⟩
    · exact h.exists_field_of_property ht hi ho hname
    · exact hall t ht i hi j hj id' hjo f.name hname

/-- When every type lists the interfaces of its interfaces, it has all their fields. -/
theorem inheritsFields_of_lists (h : s.Composed set) (hlists : s.ListsInterfaces) :
    s.InheritsFields := by
  refine h.inheritsFields_iff.2 ?_
  intro t ht i hi j hj id ho name hname
  obtain ⟨place, hplace, hget⟩ := mem_interfacesOf.1 hj
  have hj' : j ∈ s.interfacesOf t := mem_interfacesOf.2 ⟨place, hlists t ht i hi place hplace, hget⟩
  exact h.exists_field_of_property ht hj' ho hname

end Schema.Composed

namespace BuildRequest

/-- The types of a built schema have the fields of their interfaces exactly if they have those that
the interfaces take over themselves, and always if they list the interfaces of their interfaces. -/
theorem buildFrom_inheritsFields_iff {q : BuildRequest} {r : Registry}
    {source : Option DirectiveSource} {schema : Schema}
    (h : (q.buildFrom r source).outcome = .ok schema) :
    (schema.InheritsFields ↔ ∀ t ∈ schema.types, ∀ i ∈ schema.interfacesOf t,
      ∀ j ∈ schema.interfacesOf (.interface i), ∀ id, j.origin = some id →
        ∀ name, r.HasProperty .interface id name → ∃ g ∈ t.fields, g.name = name) ∧
    (schema.ListsInterfaces → schema.InheritsFields) := by
  obtain ⟨o, set, hset, hcomposed⟩ := buildFrom_composed h
  obtain ⟨-, he⟩ := prepare_eq_ok hset
  have hiff := hcomposed.inheritsFields_iff
  rw [he] at hiff
  exact ⟨hiff, hcomposed.inheritsFields_of_lists⟩

end BuildRequest

def ClassRecord.ofField (target : EntityId) (name field scalar : String)
    (interfaces : List Reference) : ClassRecord :=
  ⟨target, name, none, false,
    [⟨field, field, .scalar scalar, .plain, none, none, none, []⟩], interfaces, []⟩

/-- Articles, which are an interface of their own below others. -/
def Registry.articles (interfaces : List Reference) : Registry :=
  .ofRecords
    ((((EntityTable.empty.declare "Node" none).declare "Entity" none).declare "Article"
      none).declare "R" none)
    [.identified 0 "Node" false [], .ofField 1 "Entity" "title" "String" [.declared 0],
      .ofField 2 "Article" "text" "String" interfaces]
    [] [.node 3 (.declared 2)]

namespace BuildRequest

theorem buildFrom_inheritsFields_articles :
    ∃ schema, (plain.buildFrom (.articles [.declared 0, .declared 1]) none).outcome = .ok schema ∧
      schema.InheritsFields ∧
        schema.types.map (fun t => t.fields.map Field.name) =
          [["node"], ["id", "title", "text"], [], ["id"], ["id", "title"], []] := by
  have hlists : ((plain.buildFrom (.articles [.declared 0, .declared 1])
      none).outcome.toOption.map fun s => (s.types.all fun t => (s.interfacesOf t).all fun i =>
        i.interfaces.all fun j => t.interfaces.contains j,
          s.types.map fun t => t.fields.map Field.name)) =
      some (true, [["node"], ["id", "title", "text"], [], ["id"], ["id", "title"], []]) := by
    decide +kernel
  obtain ⟨schema, hschema, hpair⟩ := Option.map_eq_some_iff.1 hlists
  obtain ⟨hall, hfields⟩ := Prod.mk.inj hpair
  have h := ok_of_toOption hschema
  refine ⟨schema, h, (buildFrom_inheritsFields_iff h).2 ?_, hfields⟩
  intro t ht i hi j hj
  have hcontains := List.all_eq_true.1 (List.all_eq_true.1 (List.all_eq_true.1 hall t ht) i hi) j hj
  exact List.contains_iff_mem.1 hcontains

/-- What an interface takes over from its own interface is not passed on. -/
theorem articles_not_inheritsFields :
    ∃ schema, (plain.buildFrom (.articles [.declared 1]) none).outcome = .ok schema ∧
      ¬ schema.InheritsFields := by
  have hmissing : ((plain.buildFrom (.articles [.declared 1]) none).outcome.toOption.map fun s =>
      s.types.all fun t => (s.interfacesOf t).all fun i => i.fields.all fun f =>
        t.fields.any fun g => g.name == f.name) = some false := by decide +kernel
  obtain ⟨schema, hschema, hfalse⟩ := Option.map_eq_some_iff.1 hmissing
  refine ⟨schema, ok_of_toOption hschema, ?_⟩
  intro hall
  have htrue : (schema.types.all fun t => (schema.interfacesOf t).all fun i => i.fields.all
      fun f => t.fields.any fun g => g.name == f.name) = true := by
    simp only [List.all_eq_true, List.any_eq_true, beq_iff_eq]
    exact hall
  rw [hfalse] at htrue
  cases htrue

end BuildRequest

end CodeFirst
