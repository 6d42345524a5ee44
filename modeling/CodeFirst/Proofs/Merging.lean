import CodeFirst.Proofs.Drains
import CodeFirst.Proofs.Inheritance
import CodeFirst.Proofs.Sharing
import CodeFirst.Proofs.Upsert

/-! How the fields of an object or interface are merged. Whatever realizing one field does to the
construction, the result has one field for each name that something contributes: the last
contribution of the name, at the place of the first one. -/

namespace CodeFirst

/-- A map with one value for each name of some sources, in the order in which the names first come
up. It shows the last source of the name. -/
structure LastWins {α β κ : Type} [DecidableEq κ] (Shows : α → β → Prop) (name : α → κ)
    (name' : β → κ) (l : List α) (m : OrderedMap κ β) : Prop where
  keys : m.keys = (l.map name).eraseDups
  shown : ∀ k, Option.Rel Shows (l.filter fun x => name x = k).getLast? (m.get? k)
  keyed : m.Keyed name'

section LastWins

variable {α β κ : Type} [DecidableEq κ]

theorem findRecord_eq_head? {key : α → κ} (k : κ) (l : List α) :
    findRecord key k l = (l.filter fun x => key x = k).head? := by
  induction l with
  | nil => rfl
  | cons x rest ih =>
    by_cases hx : key x = k
    · rw [findRecord, if_pos hx, List.filter_cons_of_pos (by simpa using hx)]
      rfl
    · rw [findRecord, if_neg hx, List.filter_cons_of_neg (by simpa using hx), ih]

theorem Catalog.putMany_eq_upsertAll {key : α → κ} (c : Catalog key) (l : List α) :
    c.putMany l = c.upsertAll (fun _ v => v) l := by
  have hput : ∀ (c : Catalog key) v, c.put v = c.upsert (fun _ v => v) v := by
    intro c v
    rw [Catalog.upsert]
    cases c.get? (key v) <;> rfl
  rw [Catalog.putMany, Catalog.upsertAll, funext₂ hput]

theorem OrderedMap.keys_putMany (name : β → κ) (l : List β) :
    ((∅ : OrderedMap κ β).putMany name l).keys = (l.map name).eraseDups := by
  rw [putMany_empty, Catalog.keys_toMap, Catalog.putMany_eq_upsertAll]
  exact Catalog.keys_upsertAll (fun _ _ h => rfl) l

/-- Writing one value for each source lets the last source of a name win. -/
theorem lastWins_putMany {Shows : α → β → Prop} {name : α → κ} {name' : β → κ} {l : List α}
    {vs : List β} (h : List.Forall₂ Shows l vs) (hname : ∀ x v, Shows x v → name x = name' v) :
    LastWins Shows name name' l ((∅ : OrderedMap κ β).putMany name' vs) := by
  have hnames : l.map name = vs.map name' := by
    induction h with
    | nil => rfl
    | cons hx _ ih => rw [List.map_cons, List.map_cons, hname _ _ hx, ih]
  refine ⟨?_, ?_, OrderedMap.keyed_putMany _ _⟩
  · rw [OrderedMap.keys_putMany, hnames]
  · intro k
    rw [OrderedMap.get?_putMany, Catalog.get?_putMany, Catalog.get?_empty, Option.or_none,
      ← List.head?_reverse, ← List.filter_reverse, ← findRecord_eq_head?]
    exact findRecord_forall₂ (List.forall₂_reverse_iff.2 h) hname k

end LastWins

/-- The interfaces that a class and its ancestors implement, each once, in order of first
appearance. -/
def Registry.implemented (r : Registry) (kind : ClassKind) (id : EntityId) : List EntityId :=
  (((r.classChain kind id).flatMap (·.interfaces)).filterMap Reference.entity?).eraseDups

/-- What gives fields to an object or interface: the properties of its interfaces, of its ancestors
and of itself, and the field resolvers of an object. -/
def Setting.contributors (set : Setting) (category : CompositeCategory) (target : EntityId) :
    List Contribution :=
  let kind := category.classKind
  let interfaces := set.registry.implemented kind target
  let properties (c : ClassRecord) := c.properties.map (Contribution.property c)
  (interfaces.flatMap (set.registry.classChain .interface)).flatMap properties ++
    (set.registry.ancestorClasses kind target).flatMap properties ++
    (set.registry.class? kind target).toList.flatMap properties ++
    match category with
    | .interface => []
    | .object => (set.fieldResolvers target).map fun b =>
      .resolver b (Contribution.resolverType (set.registry.classChain kind target) b.handler)

namespace Contribution

variable {r : Registry} {host : Location}

theorem filter_ofClass (l : List ClassRecord) :
    (l.flatMap ofClass).filter (·.interface?.isNone) = l.flatMap ofClass := by
  refine List.filter_eq_self.2 fun x hx => ?_
  obtain ⟨c, -, hc⟩ := List.mem_flatMap.1 hx
  rw [interface?_ofClass hc]
  rfl

theorem filter_resolvers (chain : List ClassRecord) (l : List Binding) :
    (l.map fun b => resolver b (resolverType chain b.handler)).filter (·.interface?.isNone) =
      l.map fun b => .resolver b (resolverType chain b.handler) := by
  refine List.filter_eq_self.2 fun x hx => ?_
  obtain ⟨b, -, rfl⟩ := List.mem_map.1 hx
  rfl

/-- Beside the interfaces themselves come the properties of those that are new, in their order. -/
theorem ofInterfaces_new {seen : List EntityId} {refs : List Reference}
    (h : .noInterface host ∉ ofInterfaces r host seen refs) :
    (ofInterfaces r host seen refs).filterMap interface? =
        ((refs.filterMap Reference.entity?).removeAll seen).eraseDups ∧
      (ofInterfaces r host seen refs).filter (·.interface?.isNone) =
        (((refs.filterMap Reference.entity?).removeAll seen).eraseDups.flatMap
          (r.classChain .interface)).flatMap ofClass := by
  induction refs generalizing seen with
  | nil => exact ⟨rfl, rfl⟩
  | cons ref rest ih =>
    cases hid : ref.entity? with
    | none =>
      rw [ofInterfaces_of_eq_none hid] at h
      exact absurd List.mem_cons_self h
    | some id =>
      rw [List.filterMap_cons_some hid]
      by_cases hseen : id ∈ seen
      · rw [ofInterfaces_of_mem hid hseen] at h ⊢
        have hremove : (id :: rest.filterMap Reference.entity?).removeAll seen =
            (rest.filterMap Reference.entity?).removeAll seen := by
          simp [List.removeAll, hseen]
        rw [hremove]
        exact ih h
      · rw [ofInterfaces_of_not_mem hid hseen] at h ⊢
        obtain ⟨hids, hfields⟩ := ih fun hmem => h (List.mem_append_right _ hmem)
        have hremove : ((id :: rest.filterMap Reference.entity?).removeAll seen).eraseDups =
            id :: ((rest.filterMap Reference.entity?).removeAll (id :: seen)).eraseDups := by
          rw [List.removeAll, List.filter_cons_of_pos (by simpa using hseen), List.eraseDups_cons,
            List.filter_filter, List.removeAll]
          congr 2
          refine List.filter_congr fun x _ => ?_
          rw [List.elem_cons]
          cases x == id <;> rfl
        rw [hremove, List.filterMap_append, interface_cons, hids, List.filter_append,
          List.filter_cons_of_neg (by simp [interface?]), filter_ofClass, hfields,
          List.flatMap_cons, List.flatMap_append]
        exact ⟨rfl, rfl⟩

end Contribution

namespace Setting

variable {set : Setting} {H : List Origin} {k : CompositeCategory} {id : EntityId}
  {record : ClassRecord} {c : Composition}

structure Merged (set : Setting) (H : List Origin) (k : CompositeCategory) (id : EntityId)
    (c : Composition) : Prop where
  fields : LastWins (Contribution.Shows set.options set.registry H) Contribution.fieldName
    Field.name (set.contributors k id) c.fields
  interfaces : List.Forall₂ (fun id i => H[i]? = some (.declared .interface id))
    (set.registry.implemented k.classKind id) c.interfaces
  interfaces_nodup : c.interfaces.Nodup

theorem contributions_parts (hrecord : set.registry.class? k.classKind id = some record)
    (hnone : .noInterface (.ofOwner record.name) ∉ set.contributions k id) :
    (set.contributions k id).filterMap Contribution.interface? =
        set.registry.implemented k.classKind id ∧
      (set.contributions k id).filter (·.interface?.isNone) = set.contributors k id := by
  rw [contributions_of_some hrecord] at hnone ⊢
  rw [Contribution.ofType, List.append_assoc] at hnone
  obtain ⟨hids, hfields⟩ := Contribution.ofInterfaces_new fun hmem =>
    hnone (List.mem_append_left _ hmem)
  rw [List.removeAll_nil] at hids hfields
  constructor
  · rw [Contribution.filterMap_interface?_ofType, hids]
    rfl
  · have hchain : (set.registry.classChain k.classKind id).flatMap Contribution.ofClass =
        (set.registry.ancestorClasses k.classKind id).flatMap Contribution.ofClass ++
          (set.registry.class? k.classKind id).toList.flatMap Contribution.ofClass := by
      rw [Registry.classChain_eq, List.flatMap_append]
    rw [Contribution.ofType, List.filter_append, List.filter_append, hfields,
      Contribution.filter_ofClass, Contribution.filter_resolvers, hchain, ← List.append_assoc]
    cases k <;> rfl

/-- What is composed of the contributions to a class shows its contributors. -/
theorem merged_of_composes (hrecord : set.registry.class? k.classKind id = some record)
    (h : Composes set.options set.registry H (set.contributions k id) c) :
    set.Merged H k id c := by
  obtain ⟨fs, hfs, hfields⟩ := h.fields
  -- an interface that is no entity would show a field
  have hnone : .noInterface (.ofOwner record.name) ∉ set.contributions k id := by
    intro hmem
    obtain ⟨f, -, hf⟩ := exists_left_of_forall₂ hfs.flip (List.mem_filter.2 ⟨hmem, rfl⟩)
    exact hf
  obtain ⟨hinterfaces, hcontributors⟩ := contributions_parts hrecord hnone
  have hplaces := h.interfaces
  rw [hinterfaces] at hplaces
  rw [hcontributors] at hfs
  refine ⟨?_, hplaces, ?_⟩
  · rw [hfields]
    exact lastWins_putMany hfs fun _ _ hx => hx.name.symm
  · refine nodup_of_forall₂ hplaces ?_ (nodup_eraseDups _)
    intro i j place hi hj
    rw [hi, Option.some.injEq, Origin.declared.injEq] at hj
    exact hj.2

variable {s u : Realization}

/-- The fields of an object or interface come from its contributors: one for each name, the last
contributor's, in the order in which the names first come up. Each interface that the class or an
ancestor implements is there once, in order of first appearance. -/
theorem composition_merged (hs : Realization.Passes set.registry .empty s)
    (hrecord : set.registry.class? k.classKind id = some record)
    (h : (set.composition k id).run s = (.ok c, u)) : set.Merged u.origins k id c :=
  merged_of_composes hrecord (composition_composes (hs.coherent Realization.coherent_empty) h)

end Setting

def Binding.untyped (owner : EntityId) (name : String) : Binding :=
  ⟨owner, ⟨name, name, owner, none, .plain, [], none, none, [], none, ∅⟩⟩

def Binding.rated (owner : EntityId) : Binding :=
  ⟨owner, ⟨"rate", "rating", owner, some (.scalar "Float"), .plain,
    [⟨0, .named "scale" (.scalar "Int") .plain none (some (.ofNat 5))⟩],
    some "The average rating.", none, [], some 2, ∅⟩⟩

/-- Recipes have stars from a base class, whose titles they replace. A resolver is there for the
titles, and one for ratings. Both classes implement the same interface. -/
def Registry.titled : Registry :=
  { Registry.ofRecords
      ((((EntityTable.empty.declare "Node" none).declare "Base" none).declare "Recipe"
        (some 1)).declare "R" none)
      [.identified 0 "Node" false []]
      [⟨1, "Base", none, true,
          [⟨"title", "title", .scalar "String", .plain, none, none, none, []⟩,
            ⟨"stars", "stars", .scalar "Int", .plain, none, none, none, []⟩], [.declared 0], []⟩,
        ⟨2, "Recipe", none, false,
          [⟨"title", "title", .list (.scalar "String"), .plain, none, none, none, []⟩],
          [.declared 0], []⟩] [] with
    resolvers := (∅ : Catalog ResolverRecord.target).putMany [⟨3, some (.declared 2), false⟩]
    fieldResolvers := (∅ : HandlerCatalog).putMany
      [(Binding.untyped 3 "title").handler, (Binding.rated 3).handler] }

namespace Setting

def titled : Setting :=
  ⟨.titled, .standard, none, [⟨2, .untyped 3 "title"⟩, ⟨2, .rated 3⟩]⟩

theorem prepare_titled : (prepare .titled .standard none).outcome = .ok titled := by
  with_unfolding_all rfl

theorem composition_merged_titled : ∃ set c u,
    (prepare .titled .standard none).outcome = .ok set ∧
    (set.composition .object 2).run .empty = (.ok c, u) ∧ set.Merged u.origins .object 2 c ∧
    (c.interfaces, c.fields.values.map fun f => (f.name, f.type, f.resolver)) =
      ([0], [("id", .nonNull (.named 1), none),
        ("title", .nonNull (.list (.nonNull (.named 2))), some ⟨3, "title"⟩),
        ("stars", .nonNull (.named 3), none),
        ("rating", .nonNull (.named 4), some ⟨3, "rate"⟩)]) ∧
    (c.fields.values.flatMap fun f => f.arguments.values.map fun v =>
        (f.name, v.name, v.type, v.default.map Json.text)) =
      [("rating", "scale", .nonNull (.named 3), some "5")] ∧
    (c.fields.values.map fun f => (f.description, f.extensions.entries.map fun e =>
        (e.1, e.2.text))) =
      [(none, []), (none, []), (none, []),
          (some "The average rating.", [("complexity", "2")])] := by
  have hfields : ((titled.composition .object 2).run .empty).1.toOption.map (fun c =>
      (c.interfaces, c.fields.values.map fun f => (f.name, f.type, f.resolver))) =
        some ([0], [("id", .nonNull (.named 1), none),
          ("title", .nonNull (.list (.nonNull (.named 2))), some ⟨3, "title"⟩),
          ("stars", .nonNull (.named 3), none),
          ("rating", .nonNull (.named 4), some ⟨3, "rate"⟩)]) := by decide +kernel
  have harguments : ((titled.composition .object 2).run .empty).1.toOption.map (fun c =>
      c.fields.values.flatMap fun f => f.arguments.values.map fun v =>
        (f.name, v.name, v.type, v.default.map Json.text)) =
          some [("rating", "scale", .nonNull (.named 3), some "5")] := by decide +kernel
  have hextensions : ((titled.composition .object 2).run .empty).1.toOption.map (fun c =>
      c.fields.values.map fun f => (f.description, f.extensions.entries.map fun e =>
        (e.1, e.2.text))) = some [(none, []), (none, []), (none, []),
          (some "The average rating.", [("complexity", "2")])] := by decide +kernel
  obtain ⟨c, hc, hfields⟩ := Option.map_eq_some_iff.1 hfields
  rw [hc] at harguments hextensions
  have hrun : (titled.composition .object 2).run .empty = (.ok c, _) :=
    Prod.ext (ok_of_toOption hc) rfl
  exact ⟨titled, c, _, prepare_titled, hrun, composition_merged ⟨_, _, .refl⟩ rfl hrun, hfields,
    Option.some.inj harguments, Option.some.inj hextensions⟩

end Setting

/-- The objects and interfaces of a built schema have the interfaces and fields that their classes
are to have. -/
theorem BuildRequest.buildFrom_merged {q : BuildRequest} {r : Registry}
    {source : Option DirectiveSource} {schema : Schema}
    (h : (q.buildFrom r source).outcome = .ok schema) :
    ∃ o set, (Setting.prepare r o q.resolvers).outcome = .ok set ∧ ∀ t ∈ schema.types,
      ∃ fields : Fields, t.fields = fields.records ∧
        (∀ id, t.origin = .declared .object id →
          set.Merged (schema.types.map NamedType.origin) .object id ⟨t.interfaces, fields⟩) ∧
        ∀ id, t.origin = .declared .interface id →
          set.Merged (schema.types.map NamedType.origin) .interface id ⟨t.interfaces, fields⟩ := by
  obtain ⟨o, set, hset, hcomposed⟩ := buildFrom_composed h
  refine ⟨o, set, hset, fun t ht => ?_⟩
  obtain ⟨fields, hc, hfields⟩ := hcomposed.composes t ht
  refine ⟨fields, hfields, fun id hid => ?_, fun id hid => ?_⟩
  · obtain ⟨record, hrecord⟩ := hcomposed.known t ht .object id hid
    rw [hid] at hc
    exact Setting.merged_of_composes (k := .object) hrecord hc
  · obtain ⟨record, hrecord⟩ := hcomposed.known t ht .interface id hid
    rw [hid] at hc
    exact Setting.merged_of_composes (k := .interface) hrecord hc

end CodeFirst
