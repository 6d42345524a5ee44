import CodeFirst.Proofs.Attached
import CodeFirst.Proofs.Composed

/-! Which methods serve the fields of a built schema. A class that exposes a handler is concrete and
included, and declares the handler or takes it over from an abstract ancestor. Filtering, inheriting
and attaching keep this, and nothing but an exposed handler gives a field its slot. -/

namespace CodeFirst

/-- The slot of the field that shows a binding. -/
def Binding.slot (b : Binding) : ResolverSlot := ⟨b.owner, b.handler.method⟩

/-- Whether a class may serve fields with a method: it is concrete and included, and has a handler
of that method, its own one or that of an abstract ancestor. -/
structure Registry.Serves (r : Registry) (filter : ResolverFilter) (kind : HandlerKind)
    (slot : ResolverSlot) : Prop where
  concrete : r.isAbstractResolver slot.target = false
  included : ∀ ids, filter = some ids → slot.target ∈ ids
  declared : ∃ h ∈ (r.handlers kind).records, h.method = slot.method ∧
    (h.target = slot.target ∨
      r.isAbstractResolver h.target = true ∧ h.target ∈ r.entities.ancestors slot.target)

theorem ResolverFilter.includes_iff {f : ResolverFilter} {id : EntityId} :
    f.includes id = true ↔ ∀ ids, f = some ids → id ∈ ids := by
  cases f with
  | none => simp [includes]
  | some ids => simp [includes]

namespace Exposure

variable {r : Registry} {filter : ResolverFilter} {l : List Handler}

theorem unhidden_sublist (taken : List String) (l : List Handler) :
    (unhidden taken l).Sublist l := by
  induction l generalizing taken with
  | nil => exact .refl _
  | cons h rest ih =>
    rw [unhidden]
    split
    · exact (ih taken).cons h
    · exact (ih _).cons_cons h

theorem mem_candidates_iff {id : EntityId} {h : Handler} : h ∈ candidates r l id ↔
    h ∈ l ∧ h.target ∈ r.entities.ancestors id ∧ r.isAbstractResolver h.target = true := by
  simp only [candidates, List.mem_flatMap, List.mem_reverse, List.mem_filter, Bool.and_eq_true,
    beq_iff_eq]
  constructor
  · rintro ⟨a, ha, hmem, rfl, habstract⟩
    exact ⟨hmem, ha, habstract⟩
  · rintro ⟨hmem, ha, habstract⟩
    exact ⟨h.target, ha, hmem, rfl, habstract⟩

theorem exposed_serves {kind : HandlerKind} {b : Binding}
    (h : b ∈ (exposed r filter kind).result) : r.Serves filter kind b.slot := by
  rcases List.mem_append.1 h with h | h
  · obtain ⟨hmem, howner, hconcrete, hincluded⟩ := mem_direct_iff.1 h
    exact ⟨hconcrete, ResolverFilter.includes_iff.1 hincluded, b.handler, hmem, rfl, .inl howner⟩
  · obtain ⟨⟨-, hinherits⟩, hunhidden⟩ := mem_inherited_iff.1 h
    obtain ⟨hmem, hancestor, habstract⟩ :=
      mem_candidates_iff.1 ((unhidden_sublist _ _).subset hunhidden)
    rw [inherits, Bool.and_eq_true, Bool.and_eq_true, Bool.not_eq_true'] at hinherits
    exact ⟨hinherits.1.1, ResolverFilter.includes_iff.1 hinherits.2, b.handler, hmem, rfl,
      .inr ⟨habstract, hancestor⟩⟩

end Exposure

namespace Setting

theorem mem_fieldResolvers {r : Registry} {o : BuildOptions} {filter : ResolverFilter}
    {set : Setting} (h : (prepare r o filter).outcome = .ok set) {id : EntityId} {b : Binding}
    (hb : b ∈ set.fieldResolvers id) : b ∈ (Exposure.exposed r filter .field).result ∧
      ∃ c, Exposure.augmented? r b.owner = some c ∧ c.target = id := by
  obtain ⟨hattach, -⟩ := BuildRequest.prepare_eq_ok h
  have hattached := Attachment.attached_of_attach hattach
  obtain ⟨a, ha, rfl⟩ := List.mem_map.1 hb
  obtain ⟨hmem, hobject⟩ := List.mem_filter.1 ha
  obtain ⟨c, hc, htarget⟩ := hattached.object a hmem
  exact ⟨hattached.mem hmem, c, hc, htarget.trans (beq_iff_eq.1 hobject)⟩

end Setting

def Contribution.slot? : Contribution → Option ResolverSlot
  | .resolver b _ => some b.slot
  | _ => none

namespace Contribution

theorem Shows.resolver_eq {o : BuildOptions} {r : Registry} {H : List Origin} {x : Contribution}
    {f : Field} (h : x.Shows o r H f) : f.resolver = x.slot? := by
  match x, h with
  | .property declaring p, ⟨_, _, hf⟩ =>
    rw [hf]
    rfl
  | .resolver b (some (ref, w)), ⟨_, _, _, _, hf⟩ =>
    rw [hf]
    rfl

theorem slot?_ofClass {c : ClassRecord} {x : Contribution} (h : x ∈ ofClass c) :
    x.slot? = none := by
  obtain ⟨p, -, rfl⟩ := List.mem_map.1 h
  rfl

theorem slot?_ofInterfaces {r : Registry} {host : Location} {seen : List EntityId}
    {refs : List Reference} {x : Contribution} (h : x ∈ ofInterfaces r host seen refs) :
    x.slot? = none := by
  rcases mem_ofInterfaces h with rfl | ⟨id, -, rfl | ⟨c, -, hc⟩⟩
  · rfl
  · rfl
  · exact slot?_ofClass hc

end Contribution

namespace Setting

variable {set : Setting}

/-- Only field resolvers give slots to the fields of a declared type, and only object types have
any. -/
theorem contributions_slot? {k : CompositeCategory} {id : EntityId} {x : Contribution}
    (hx : x ∈ set.contributions k id) {slot : ResolverSlot} (hslot : x.slot? = some slot) :
    k = .object ∧ ∃ b ∈ set.fieldResolvers id, b.slot = slot ∧
      x.fieldName = b.handler.schemaName := by
  rw [contributions] at hx
  split at hx
  · exact absurd hx List.not_mem_nil
  · next c hc =>
    rw [Contribution.ofType, List.mem_append, List.mem_append] at hx
    rcases hx with (hx | hx) | hx
    · rw [Contribution.slot?_ofInterfaces hx] at hslot
      cases hslot
    · obtain ⟨c', -, hc'⟩ := List.mem_flatMap.1 hx
      rw [Contribution.slot?_ofClass hc'] at hslot
      cases hslot
    · obtain ⟨b, hb, rfl⟩ := List.mem_map.1 hx
      split at hb
      · next hk => exact ⟨hk, b, hb, Option.some.inj hslot, rfl⟩
      · exact absurd hb List.not_mem_nil

theorem rootContributions_slot? {kind : RootKind} {x : Contribution}
    (hx : x ∈ set.rootContributions kind) : ∃ b ∈ set.rootBindings kind, x.slot? = some b.slot := by
  obtain ⟨b, hb, rfl⟩ := List.mem_map.1 hx
  exact ⟨b, hb, rfl⟩

end Setting

structure Schema.Served (r : Registry) (filter : ResolverFilter) (s : Schema) : Prop where
  slots : ∀ t ∈ s.types, ∀ f ∈ t.fields, ∀ slot, f.resolver = some slot →
    ∃ kind, r.Serves filter kind slot
  roots : ∀ kind t, s.root? kind = some t → ∀ f ∈ t.fields,
    ∃ slot, f.resolver = some slot ∧ r.Serves filter (.root kind) slot
  objects : ∀ t, .object t ∈ s.types → ∀ id, t.origin = some id → ∀ f ∈ t.fields,
    ∀ slot, f.resolver = some slot → r.Serves filter .field slot ∧
      ∃ c, Exposure.augmented? r slot.target = some c ∧ c.target = id
  interfaces : ∀ t, .interface t ∈ s.types → ∀ f ∈ t.fields, f.resolver = none

namespace Schema.Composed

variable {set : Setting} {s : Schema}

/-- A field of a declared type has a slot only if a field resolver of its class shows it. -/
theorem slot_of_declared (h : s.Composed set) {t : NamedType} (ht : t ∈ s.types)
    {k : CompositeCategory} {id : EntityId}
    (hk : set.contributionsTo t.origin = set.contributions k id) {f : Field} (hf : f ∈ t.fields)
    {slot : ResolverSlot} (hslot : f.resolver = some slot) :
    k = .object ∧ ∃ b ∈ set.fieldResolvers id, b.slot = slot ∧
      f.name = b.handler.schemaName := by
  obtain ⟨x, hx, -, hshows⟩ := h.shown ht hf
  rw [hk] at hx
  obtain ⟨hobject, b, hb, hb', hname⟩ :=
    Setting.contributions_slot? hx (hshows.resolver_eq ▸ hslot)
  exact ⟨hobject, b, hb, hb', hshows.name.trans hname⟩

theorem slot_of_root (h : s.Composed set) {kind : RootKind} {t : NamedType} (ht : t ∈ s.types)
    (ho : t.origin = .root kind.typeName) {f : Field} (hf : f ∈ t.fields) :
    ∃ b ∈ set.rootBindings kind, f.resolver = some b.slot := by
  obtain ⟨x, hx, -, hshows⟩ := h.shown ht hf
  rw [ho, Setting.contributionsTo_root] at hx
  obtain ⟨b, hb, hslot⟩ := Setting.rootContributions_slot? hx
  exact ⟨b, hb, hshows.resolver_eq.trans hslot⟩

theorem served {r : Registry} {o : BuildOptions} {filter : ResolverFilter}
    (hset : (Setting.prepare r o filter).outcome = .ok set) (h : s.Composed set) :
    s.Served r filter := by
  obtain ⟨-, he⟩ := BuildRequest.prepare_eq_ok hset
  have hroot : ∀ kind : RootKind, ∀ t ∈ s.types, t.origin = .root kind.typeName →
      ∀ f ∈ t.fields, ∃ slot, f.resolver = some slot ∧ r.Serves filter (.root kind) slot := by
    intro kind t ht ho f hf
    obtain ⟨b, hb, hslot⟩ := h.slot_of_root ht ho hf
    rw [he] at hb
    exact ⟨b.slot, hslot, Exposure.exposed_serves hb⟩
  have hobject : ∀ t ∈ s.types, ∀ id, t.origin = .declared .object id → ∀ f ∈ t.fields,
      ∀ slot, f.resolver = some slot → r.Serves filter .field slot ∧
        ∃ c, Exposure.augmented? r slot.target = some c ∧ c.target = id := by
    intro t ht id ho f hf slot hslot
    obtain ⟨-, b, hb, rfl, -⟩ := h.slot_of_declared ht (by rw [ho]; rfl) hf hslot
    obtain ⟨hexposed, hc⟩ := Setting.mem_fieldResolvers hset hb
    exact ⟨Exposure.exposed_serves hexposed, hc⟩
  have hinterface : ∀ t ∈ s.types, ∀ id, t.origin = .declared .interface id → ∀ f ∈ t.fields,
      f.resolver = none := by
    intro t ht id ho f hf
    cases hslot : f.resolver with
    | none => rfl
    | some slot => exact absurd (h.slot_of_declared ht (by rw [ho]; rfl) hf hslot).1 (by decide)
  refine ⟨?_, ?_, ?_, ?_⟩
  · intro t ht f hf slot hslot
    obtain ⟨x, hx, -, -⟩ := h.shown ht hf
    cases ho : t.origin with
    | scalar name =>
      rw [ho] at hx
      exact absurd hx List.not_mem_nil
    | root name =>
      rw [ho] at hx
      obtain ⟨kind, rfl⟩ := root_of_contributionsTo hx
      obtain ⟨slot', hslot', hserves⟩ := hroot kind t ht ho f hf
      obtain rfl : slot' = slot := Option.some.inj (hslot'.symm.trans hslot)
      exact ⟨.root kind, hserves⟩
    | declared k id =>
      cases k with
      | object => exact ⟨.field, (hobject t ht id ho f hf slot hslot).1⟩
      | interface =>
        rw [hinterface t ht id ho f hf] at hslot
        cases hslot
      | input =>
        rw [ho] at hx
        exact absurd hx List.not_mem_nil
  · intro kind t ht f hf
    exact hroot kind _ (h.root_mem kind t ht) (h.root_origin kind t ht) f hf
  · intro t ht id ho f hf slot hslot
    exact hobject _ ht id (NamedType.origin_object ho) f hf slot hslot
  · intro t ht f hf
    obtain ⟨id, -, ho⟩ := h.interface_origin ht
    exact hinterface _ ht id ho f hf

end Schema.Composed

/-- In every schema that is built, with any resolver filter, each field that has a slot is served by
a concrete class that is included and has the method, own or from an abstract ancestor. -/
theorem BuildRequest.buildFrom_served {q : BuildRequest} {r : Registry}
    {source : Option DirectiveSource} {schema : Schema}
    (h : (q.buildFrom r source).outcome = .ok schema) : schema.Served r q.resolvers := by
  obtain ⟨o, set, hset, hcomposed⟩ := buildFrom_composed h
  exact hcomposed.served hset

def Handler.ofScalar (target : EntityId) (method schemaName scalar : String) : Handler :=
  ⟨method, schemaName, target, some (.scalar scalar), .plain, [], none, none, [], none, ∅⟩

/-- As `recipes`, but the query is declared by an abstract class that two classes extend, and a
third class resolves a field of the object type. -/
def Registry.servedRecipes : Registry :=
  { Registry.ofRecords
      ((((((EntityTable.empty.declare "Node" none).declare "Recipe" none).declare "Base"
        none).declare "R" (some 2)).declare "S" (some 2)).declare "Ratings" none)
      [.identified 0 "Node" false []] [.identified 1 "Recipe" false [.declared 0]]
      [.node 2 (.declared 0)] with
    resolvers := (∅ : Catalog ResolverRecord.target).putMany
      [⟨2, none, true⟩, ⟨3, none, false⟩, ⟨4, none, false⟩, ⟨5, some (.declared 1), false⟩]
    fieldResolvers := (∅ : HandlerCatalog).putMany [.ofScalar 5 "rate" "rating" "Int"] }

theorem BuildRequest.buildFrom_served_recipes :
    ∃ schema, ((⟨.standard, some [3, 5], []⟩ : BuildRequest).buildFrom .servedRecipes none).outcome
        = .ok schema ∧ schema.Served .servedRecipes (some [3, 5]) ∧
      schema.types.map (fun t => t.fields.map fun f => (f.name, f.resolver)) =
        [[("node", some ⟨3, "node"⟩)], [("id", none)], [],
          [("id", none), ("rating", some ⟨5, "rate"⟩)], []] := by
  have hslots : (((⟨.standard, some [3, 5], []⟩ : BuildRequest).buildFrom .servedRecipes
      none).outcome.toOption.map fun s =>
        s.types.map fun t => t.fields.map fun f => (f.name, f.resolver)) =
      some [[("node", some ⟨3, "node"⟩)], [("id", none)], [],
        [("id", none), ("rating", some ⟨5, "rate"⟩)], []] := by decide +kernel
  obtain ⟨schema, hschema, hfields⟩ := Option.map_eq_some_iff.1 hslots
  have h := ok_of_toOption hschema
  exact ⟨schema, h, buildFrom_served h, hfields⟩

end CodeFirst
