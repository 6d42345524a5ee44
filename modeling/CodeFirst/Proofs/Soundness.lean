import CodeFirst.Proofs.Rounds

/-! A schema that comes out of a build mentions only places of its own types, and only types that
may stand where they are mentioned. -/

namespace CodeFirst

section Related

variable {α β : Type} {R : α → β → Prop}

theorem nodup_of_forall₂ {l : List α} {m : List β} (h : List.Forall₂ R l m)
    (hu : ∀ a a' b, R a b → R a' b → a = a') (hl : l.Nodup) : m.Nodup := by
  induction h with
  | nil => exact List.nodup_nil
  | cons hab hrest ih =>
    rw [List.nodup_cons] at hl ⊢
    refine ⟨?_, ih hl.2⟩
    intro hb
    obtain ⟨a', ha', hr⟩ := exists_left_of_forall₂ hrest hb
    exact hl.1 (hu _ _ _ hab hr ▸ ha')

end Related

namespace Catalog

variable {κ ν : Type} [DecidableEq κ] {key : ν → κ}

theorem mem_putRecord {v w : ν} {l : List ν} (h : w ∈ putRecord key v l) : w = v ∨ w ∈ l := by
  induction l with
  | nil => exact .inl (List.mem_singleton.1 h)
  | cons u rest ih =>
    rw [putRecord] at h
    split at h
    · exact (List.mem_cons.1 h).imp id (List.mem_cons_of_mem u)
    · rcases List.mem_cons.1 h with rfl | h
      · exact .inr List.mem_cons_self
      · exact (ih h).imp id (List.mem_cons_of_mem u)

theorem mem_records_putMany {c : Catalog key} {l : List ν} {v : ν}
    (h : v ∈ (c.putMany l).records) : v ∈ c.records ∨ v ∈ l := by
  induction l generalizing c with
  | nil => exact .inl h
  | cons w rest ih =>
    have hput : (c.putMany (w :: rest)).records = ((c.put w).putMany rest).records := rfl
    rw [hput] at h
    rcases ih h with h | h
    · rcases mem_putRecord h with rfl | h
      · exact .inr List.mem_cons_self
      · exact .inl h
    · exact .inr (List.mem_cons_of_mem w h)

end Catalog

theorem OrderedMap.mem_of_mem_putMany {κ ν : Type} [DecidableEq κ] {key : ν → κ} {l : List ν}
    {v : ν} (h : v ∈ ((∅ : OrderedMap κ ν).putMany key l).values) : v ∈ l := by
  rw [values_putMany] at h
  exact (Catalog.mem_records_putMany h).elim (fun h => absurd h List.not_mem_nil) id

namespace NamedType

def fields : NamedType → List Field
  | .object t => t.fields
  | .interface t => t.fields
  | _ => []

def interfaces : NamedType → List TypeId
  | .object t => t.interfaces
  | .interface t => t.interfaces
  | _ => []

def inputFields : NamedType → List InputValue
  | .input t => t.fields
  | _ => []

theorem fields_wire_unwired {t : NamedType} {w : Wiring} {f : Field}
    (hf : f ∈ (t.unwired.wire w).fields) : ∃ c, w = .composite c ∧ f ∈ c.fields.records := by
  cases t <;> cases w <;> simp_all [unwired, wire, fields, CompositeType.fields]

theorem interfaces_wire_unwired (t : NamedType) (w : Wiring) :
    (t.unwired.wire w).interfaces = [] ∨
      ∃ c, w = .composite c ∧ (t.unwired.wire w).interfaces = c.interfaces := by
  cases t <;> cases w <;> simp [unwired, wire, interfaces]

theorem inputFields_wire_unwired {t : NamedType} {w : Wiring} {v : InputValue}
    (hv : v ∈ (t.unwired.wire w).inputFields) :
    ∃ values, w = .input values ∧ v ∈ values.records := by
  cases t <;> cases w <;> simp_all [unwired, wire, inputFields, InputType.fields]

end NamedType

namespace Contribution

theorem interface?_ofClass {c : ClassRecord} {x : Contribution} (h : x ∈ ofClass c) :
    x.interface? = none := by
  obtain ⟨p, -, rfl⟩ := List.mem_map.1 h
  rfl

theorem filterMap_interface?_classes (l : List ClassRecord) :
    (l.flatMap ofClass).filterMap interface? = [] := by
  refine List.filterMap_eq_nil_iff.2 ?_
  intro x hx
  obtain ⟨c, -, hc⟩ := List.mem_flatMap.1 hx
  exact interface?_ofClass hc

theorem interface_cons (host : Location) (id : EntityId) (l : List ClassRecord) :
    (Contribution.interface host id :: l.flatMap ofClass).filterMap interface? = [id] := by
  have hhead : (Contribution.interface host id).interface? = some id := rfl
  rw [List.filterMap_cons_some hhead, filterMap_interface?_classes]

theorem nodup_ofInterfaces (r : Registry) (host : Location) (seen : List EntityId)
    (refs : List Reference) :
    ((ofInterfaces r host seen refs).filterMap interface?).Nodup ∧
      ∀ id ∈ (ofInterfaces r host seen refs).filterMap interface?, id ∉ seen := by
  induction refs generalizing seen with
  | nil => simp [ofInterfaces]
  | cons ref rest ih =>
    rw [ofInterfaces]
    split
    · exact ih seen
    · next id hid =>
      split
      · exact ih seen
      · next hnew =>
        obtain ⟨hnodup, hfresh⟩ := ih (id :: seen)
        rw [List.filterMap_append, interface_cons]
        refine ⟨List.nodup_cons.2 ⟨?_, hnodup⟩, ?_⟩
        · exact fun hmem => hfresh id hmem List.mem_cons_self
        · intro x hx
          rcases List.mem_cons.1 hx with rfl | hx
          · exact hnew
          · exact fun hmem => hfresh x hx (List.mem_cons_of_mem id hmem)

theorem filterMap_interface?_ofType (r : Registry) (c : ClassRecord) (chain : List ClassRecord)
    (resolvers : List Binding) :
    (ofType r c chain resolvers).filterMap interface? =
      (ofInterfaces r (.ofOwner c.name) [] (chain.flatMap (·.interfaces))).filterMap
        interface? := by
  have hresolvers : (resolvers.map fun b =>
      Contribution.resolver b (resolverType chain b.handler)).filterMap interface? = [] := by
    refine List.filterMap_eq_nil_iff.2 ?_
    intro x hx
    obtain ⟨b, -, rfl⟩ := List.mem_map.1 hx
    rfl
  rw [ofType, List.filterMap_append, List.filterMap_append, filterMap_interface?_classes,
    hresolvers, List.append_nil, List.append_nil]

end Contribution

namespace Setting

variable {set : Setting} {H : List Origin}

/-- A composite wiring comes from contributions that name each interface once. -/
theorem Wires.composite {x : Origin} {c : Composition} (h : set.Wires H x (.composite c)) :
    ∃ l, Composes set.options set.registry H l c ∧
      (l.filterMap Contribution.interface?).Nodup := by
  have htype : ∀ k id, ((set.contributions k id).filterMap Contribution.interface?).Nodup := by
    intro k id
    rw [contributions]
    split
    · exact List.nodup_nil
    · rw [Contribution.filterMap_interface?_ofType]
      exact (Contribution.nodup_ofInterfaces ..).1
  have hroot : ∀ kind, ((set.rootContributions kind).filterMap Contribution.interface?).Nodup := by
    intro kind
    have hnil : (set.rootContributions kind).filterMap Contribution.interface? = [] := by
      refine List.filterMap_eq_nil_iff.2 ?_
      intro x hx
      obtain ⟨b, -, rfl⟩ := List.mem_map.1 hx
      rfl
    rw [hnil]
    exact List.nodup_nil
  cases x with
  | scalar name => exact h.elim
  | root name =>
    obtain ⟨kind, -, hc⟩ := h
    exact ⟨_, hc, hroot kind⟩
  | declared k id =>
    cases k with
    | object => exact ⟨_, h, htype .object id⟩
    | interface => exact ⟨_, h, htype .interface id⟩
    | input => exact h.elim

theorem Wires.input {x : Origin} {values : InputValues} (h : set.Wires H x (.input values)) :
    ∃ l, Merges set.options set.registry H l values := by
  match x, h with
  | .declared .input id, h => exact ⟨_, h⟩

end Setting

/-- Whether a place holds a type of a kind that may stand there. -/
def Schema.Holds (s : Schema) (i : TypeId) (p : TypeKind → Bool) : Prop :=
  ∃ t, s.get? i = some t ∧ p t.kind = true

/-- A type that mentions only places which hold what may stand there. -/
structure Schema.SoundType (s : Schema) (t : NamedType) : Prop where
  fields : ∀ f ∈ t.fields, s.Holds f.type.base TypeKind.isOutput
  nodes : ∀ f ∈ t.fields, ∀ n, f.node = some n → n.type = f.type
  arguments : ∀ f ∈ t.fields, ∀ a ∈ f.arguments.records, s.Holds a.type.base TypeKind.isInput
  inputFields : ∀ v ∈ t.inputFields, s.Holds v.type.base TypeKind.isInput
  interfaces : ∀ i ∈ t.interfaces, s.Holds i (· == .interface)
  interfaces_nodup : t.interfaces.Nodup

/-- A schema in which every mentioned place holds what may stand there. -/
structure Schema.Sound (s : Schema) : Prop where
  types : ∀ t ∈ s.types, s.SoundType t
  roots : ∀ kind i, s.rootId? kind = some i →
    ∃ t, s.get? i = some (.object t) ∧ t.name = kind.typeName ∧ t.fields ≠ []

section Sound

variable {o : BuildOptions} {r : Registry} {final : Realization} {schema : Schema}

theorem holds_of_origin (hf : final.Coherent r) (hs : schema.types = final.types) {i : TypeId}
    {x : Origin} (hx : final.origins[i]? = some x) {p : TypeKind → Bool} (hp : p x.kind = true) :
    schema.Holds i p := by
  rw [Realization.getElem?_origins] at hx
  obtain ⟨t, ht, rfl⟩ := Option.map_eq_some_iff.1 hx
  refine ⟨t, by rw [Schema.get?, hs, ht], ?_⟩
  rw [hf.kind_eq (List.mem_of_getElem? ht)]
  exact hp

theorem holds_of_input (hf : final.Coherent r) (hs : schema.types = final.types)
    {x : InputContribution} {v : InputValue} (h : x.Shows o r final.origins v) :
    schema.Holds v.type.base TypeKind.isInput := by
  cases x with
  | parameter host name type wrapping description default =>
    obtain ⟨n, hn, rfl⟩ := h
    obtain ⟨x, hx, hi⟩ := hn.base
    exact holds_of_origin hf hs hi (isInput_of_inputOrigin? hx)
  | property declaring p =>
    obtain ⟨n, hn, rfl⟩ := h
    obtain ⟨x, hx, hi⟩ := hn.base
    exact holds_of_origin hf hs hi (isInput_of_inputOrigin? hx)
  | noBundle host bundle => exact h.elim

theorem holds_of_merges (hf : final.Coherent r) (hs : schema.types = final.types)
    {l : List InputContribution} {values : InputValues} (h : Merges o r final.origins l values)
    {v : InputValue} (hv : v ∈ values.records) : schema.Holds v.type.base TypeKind.isInput := by
  obtain ⟨vs, hvs, rfl⟩ := h
  obtain ⟨x, -, hx⟩ := exists_left_of_forall₂ hvs (OrderedMap.mem_of_mem_putMany hv)
  exact holds_of_input hf hs hx

theorem sound_of_shows (hf : final.Coherent r) (hs : schema.types = final.types)
    {x : Contribution} {f : Field} (h : x.Shows o r final.origins f) :
    schema.Holds f.type.base TypeKind.isOutput ∧ (∀ n, f.node = some n → n.type = f.type) ∧
      ∀ a ∈ f.arguments.records, schema.Holds a.type.base TypeKind.isInput := by
  match x, h with
  | .property declaring p, ⟨n, hn, hp⟩ =>
    subst hp
    obtain ⟨x, hx, hi⟩ := hn.base
    refine ⟨holds_of_origin hf hs hi (isOutput_of_outputOrigin? hx), ?_, ?_⟩
    · intro node hnode
      split at hnode
      · simp at hnode
      · rw [Option.some.injEq] at hnode
        rw [← hnode]
    · intro a ha
      exact absurd ha List.not_mem_nil
  | .resolver b (some (ref, w)), ⟨n, values, hn, hv, hp⟩ =>
    subst hp
    obtain ⟨x, hx, hi⟩ := hn.base
    refine ⟨holds_of_origin hf hs hi (isOutput_of_outputOrigin? hx), ?_, ?_⟩
    · intro node hnode
      rw [Option.some.injEq] at hnode
      rw [← hnode]
    · intro a ha
      exact holds_of_merges hf hs hv.merges ha

end Sound

namespace Setting

variable {set : Setting} {final : Realization} {schema : Schema}

theorem Fits.sound (hf : final.Coherent set.registry) (hs : schema.types = final.types)
    {t : NamedType} (h : set.Fits final.origins t) : schema.SoundType t := by
  rcases h with h | ⟨w, hw, ht⟩
  · cases t with
    | scalar t =>
      refine ⟨?_, ?_, ?_, ?_, ?_, List.nodup_nil⟩ <;>
        exact fun x hx => absurd hx List.not_mem_nil
    | _ => simp [NamedType.isScalar] at h
  · have hfield : ∀ f ∈ t.fields, ∃ x : Contribution,
        x.Shows set.options set.registry final.origins f := by
      intro f hf
      rw [ht] at hf
      obtain ⟨c, rfl, hc⟩ := NamedType.fields_wire_unwired hf
      obtain ⟨l, hl, -⟩ := hw.composite
      obtain ⟨fs, hfs, he⟩ := hl.fields
      rw [he] at hc
      obtain ⟨x, -, hx⟩ := exists_left_of_forall₂ hfs (OrderedMap.mem_of_mem_putMany hc)
      exact ⟨x, hx⟩
    have hinterfaces : ∃ ids : List EntityId, ids.Nodup ∧
        List.Forall₂ (fun id i => final.origins[i]? = some (.declared .interface id)) ids
          t.interfaces := by
      rcases NamedType.interfaces_wire_unwired t w with hnil | ⟨c, rfl, hc⟩
      · rw [ht, hnil]
        exact ⟨[], List.nodup_nil, .nil⟩
      · obtain ⟨l, hl, hnodup⟩ := hw.composite
        rw [ht, hc]
        exact ⟨_, hnodup, hl.interfaces⟩
    obtain ⟨ids, hids, hall⟩ := hinterfaces
    refine ⟨?_, ?_, ?_, ?_, ?_, ?_⟩
    · intro f hmem
      obtain ⟨x, hx⟩ := hfield f hmem
      exact (sound_of_shows hf hs hx).1
    · intro f hmem
      obtain ⟨x, hx⟩ := hfield f hmem
      exact (sound_of_shows hf hs hx).2.1
    · intro f hmem
      obtain ⟨x, hx⟩ := hfield f hmem
      exact (sound_of_shows hf hs hx).2.2
    · intro v hv
      rw [ht] at hv
      obtain ⟨values, rfl, hvalues⟩ := NamedType.inputFields_wire_unwired hv
      obtain ⟨l, hl⟩ := hw.input
      exact holds_of_merges hf hs hl hvalues
    · intro i hi
      obtain ⟨id, -, ho⟩ := exists_left_of_forall₂ hall hi
      exact holds_of_origin hf hs ho rfl
    · refine nodup_of_forall₂ hall ?_ hids
      intro id id' i h h'
      rw [h, Option.some.injEq, Origin.declared.injEq] at h'
      exact h'.2

end Setting

namespace BuildRequest

/-- Every schema that is built is sound. -/
theorem buildFrom_sound {q : BuildRequest} {r : Registry} {source : Option DirectiveSource}
    {schema : Schema} (h : (q.buildFrom r source).outcome = .ok schema) : schema.Sound := by
  obtain ⟨o, scalars, hwith⟩ := buildFrom_eq_ok h
  obtain ⟨b, hb, rfl, -⟩ := buildWith_eq_ok hwith
  obtain ⟨set, -, -, -, hc⟩ := realize_complete hb
  have hprog := hc.rounds.progress
  have htypes : (b.schema o).types = b.final.types := rfl
  refine ⟨?_, ?_⟩
  · intro t ht
    exact (hprog.fits_of_pending_eq_nil hc.pending ht).sound hprog.coherent htypes
  · intro kind i hi
    have hroot : b.roots.get kind = some i := by cases kind <;> exact hi
    obtain ⟨fields, hfields, hne⟩ := (hc.roots kind).present i hroot
    exact ⟨⟨kind.typeName, none, [], none, none, some fields⟩, hfields, rfl, hne⟩

end BuildRequest

def Registry.ofRecords (entities : EntityTable) (interfaces objects : List ClassRecord)
    (queries : List Handler) : Registry :=
  { (∅ : Registry) with
    entities
    interfaces := (∅ : ClassCatalog).putMany interfaces
    objects := (∅ : ClassCatalog).putMany objects
    queries := (∅ : HandlerCatalog).putMany queries }

def ClassRecord.identified (target : EntityId) (name : String) (isAbstract : Bool)
    (interfaces : List Reference) : ClassRecord :=
  ⟨target, name, none, isAbstract,
    [⟨"id", "id", .scalar "ID", .plain, none, none, none, []⟩], interfaces, []⟩

def Handler.node (target : EntityId) (type : Reference) : Handler :=
  ⟨"node", "node", target, some type, .plain,
    [⟨0, .named "id" (.scalar "ID") .plain none none⟩], none, none, [], none, ∅⟩

/-- Objects of one type, found by their identifiers. -/
def Registry.recipes : Registry :=
  .ofRecords (((EntityTable.empty.declare "Node" none).declare "Recipe" none).declare "R" none)
    [.identified 0 "Node" false []] [.identified 1 "Recipe" false [.declared 0]]
    [.node 2 (.declared 0)]

def BuildRequest.plain : BuildRequest := ⟨.standard, none, []⟩

theorem BuildRequest.buildFrom_sound_recipes :
    ∃ schema, (plain.buildFrom .recipes none).outcome = .ok schema ∧ schema.Sound ∧
      schema.types.map NamedType.name = ["Query", "Node", "ID", "Recipe"] := by
  have hnames : ((plain.buildFrom .recipes none).outcome.toOption.map fun s =>
      s.types.map NamedType.name) = some ["Query", "Node", "ID", "Recipe"] := by decide +kernel
  obtain ⟨schema, hschema, hn⟩ := Option.map_eq_some_iff.1 hnames
  have h := ok_of_toOption hschema
  exact ⟨schema, h, buildFrom_sound h, hn⟩

end CodeFirst
