import CodeFirst.Proofs.Soundness

/-! Which registered entities a build reaches. A round that drains no record is the last one, so
what it registers is left waiting; and draining an interface looks for implementers that list it
themselves. Both are stated with the exact condition under which nothing is missed. -/

namespace CodeFirst

/-- Whether a declaration is a type of the schema. -/
def Schema.Realizes (s : Schema) (k : TypeCategory) (id : EntityId) : Prop :=
  ∃ t ∈ s.types, t.declaration? = some (k, id)

theorem Built.realizes_iff {b : Built} {o : BuildOptions} {k : TypeCategory} {id : EntityId} :
    (b.schema o).Realizes k id ↔ .declared k id ∈ b.final.origins := by
  rw [Realization.origins, List.mem_map]
  constructor
  · rintro ⟨t, ht, hd⟩
    exact ⟨t, ht, NamedType.declaration?_eq_some_iff.1 hd⟩
  · rintro ⟨t, ht, ho⟩
    exact ⟨t, ht, NamedType.declaration?_eq_some_iff.2 ho⟩

namespace BuildRequest

variable {q : BuildRequest} {r : Registry} {o : BuildOptions} {scalars : List ScalarType}

/-- Whether every entity that was ever registered was drained, and every declaration of it that is
not abstract is a type. -/
def Reaches (r : Registry) (o : BuildOptions) (b : Built) : Prop :=
  ∀ id ∈ b.final.orphans.seen, b.final.orphans.Settled id ∧
    ∀ k c, r.class? k.classKind id = some c → c.isAbstract = false → (b.schema o).Realizes k id

theorem realizes_of_settled {b : Built} (h : (q.realize r o scalars).outcome = .ok b)
    {id : EntityId} (hid : b.final.orphans.Settled id) {k : TypeCategory} {c : ClassRecord}
    (hc : r.class? k.classKind id = some c) (ha : c.isAbstract = false) :
    (b.schema o).Realizes k id := by
  obtain ⟨set, rfl, -, -, hcomplete⟩ := realize_complete h
  have hmem : (k, c) ∈ Orphans.records set.registry id := Orphans.mem_records_iff.2 ⟨hc, ha⟩
  exact Built.realizes_iff.2 (hcomplete.rounds.realized id hid (k, c) hmem)

/-- A build reaches all that is registered exactly if the implementers of every drained interface
were drained whose entity has no record that is not abstract. -/
theorem reaches_iff {b : Built} (h : (q.realize r o scalars).outcome = .ok b) :
    Reaches r o b ↔
      ∀ id, b.final.orphans.Settled id → (r.class? .interface id).isSome = true →
        Orphans.records r id = [] → ∀ c ∈ Orphans.implementers r id,
          b.final.orphans.Settled c.target := by
  obtain ⟨set, hr, -, -, hcomplete⟩ := realize_complete h
  subst hr
  constructor
  · intro hreach id hid hinterface _ c hc
    have hfollows : c.target ∈ Orphans.followers set.registry id :=
      Orphans.mem_followers_iff.2 ⟨hinterface, c, hc, rfl⟩
    exact (hreach c.target (hcomplete.rounds.followed id hid c.target hfollows)).1
  · intro hcond id hid
    have hsettled : b.final.orphans.Settled id := by
      rcases hcomplete.waiting id hid with hs | ⟨i, hi, hnone, hfollows⟩
      · exact hs
      · obtain ⟨hinterface, c, hc, rfl⟩ := Orphans.mem_followers_iff.1 hfollows
        exact hcond i hi hinterface hnone c hc
    exact ⟨hsettled, fun k c hc ha => realizes_of_settled h hsettled hc ha⟩

theorem reaches_recipes :
    ∃ b, (plain.realize .recipes .standard []).outcome = .ok b ∧ Reaches .recipes .standard b := by
  have hseen : ((plain.realize .recipes .standard []).outcome.toOption.map fun b =>
      b.final.orphans.seen) = some [0, 1] := by decide +kernel
  have hrecords : ∀ id ∈ [0, 1], (Orphans.records .recipes id).isEmpty = false := by
    decide +kernel
  obtain ⟨b, hb, hall⟩ := Option.map_eq_some_iff.1 hseen
  have h := ok_of_toOption hb
  refine ⟨b, h, (reaches_iff h).2 ?_⟩
  intro id hid _ hnone
  have hmem : id ∈ [0, 1] := hall ▸ hid.1
  have hempty := hrecords id hmem
  rw [hnone] at hempty
  exact absurd hempty (by decide)

end BuildRequest

def Registry.abstractNodes : Registry :=
  .ofRecords (((EntityTable.empty.declare "Node" none).declare "Recipe" none).declare "R" none)
    [.identified 0 "Node" true []] [.identified 1 "Recipe" false [.declared 0]]
    [.node 2 (.declared 0)]

/-- Draining an abstract interface registers its implementer and brings no record, so the loop ends
while the implementer waits. -/
theorem BuildRequest.abstractNodes_not_reaches :
    ∃ b, (plain.realize .abstractNodes .standard []).outcome = .ok b ∧
      (b.schema .standard).check = .ok () ∧ ¬ Reaches .abstractNodes .standard b := by
  have hfinal : ((plain.realize .abstractNodes .standard []).outcome.toOption.map fun b =>
      (b.final.orphans.seen, b.final.orphans.waiting, (b.schema .standard).findings.isEmpty)) =
        some ([0, 1], [1], true) := by decide +kernel
  obtain ⟨b, hb, hall⟩ := Option.map_eq_some_iff.1 hfinal
  simp only [Prod.mk.injEq] at hall
  obtain ⟨hseen, hwaiting, hfindings⟩ := hall
  refine ⟨b, ok_of_toOption hb, ?_, ?_⟩
  · exact (Schema.check_eq_ok_iff _).2 (List.isEmpty_iff.1 hfindings)
  · intro hreach
    have hmem : 1 ∈ b.final.orphans.seen := by rw [hseen]; decide
    have hsettled := (hreach 1 hmem).1
    refine hsettled.2 ?_
    rw [hwaiting]
    decide

namespace Registry

/-- Whether an object type implements an interface: it lists it, or an ancestor does. -/
def Implements (r : Registry) (c : ClassRecord) (interface : EntityId) : Prop :=
  ∃ a ∈ r.classChain .object c.target, some interface ∈ a.interfaces.map Reference.entity?

end Registry

namespace Contribution

theorem mem_ofInterfaces_iff (r : Registry) (host : Location) (seen : List EntityId)
    (refs : List Reference) (id : EntityId) :
    id ∈ (ofInterfaces r host seen refs).filterMap interface? ↔
      some id ∈ refs.map Reference.entity? ∧ id ∉ seen := by
  induction refs generalizing seen with
  | nil => simp [ofInterfaces]
  | cons ref rest ih =>
    rw [ofInterfaces]
    split
    · next hnone =>
      rw [List.filterMap_cons_none rfl, ih, List.map_cons, hnone]
      simp
    · next x hx =>
      rw [List.map_cons, hx]
      split
      · next hseen =>
        rw [ih]
        constructor
        · rintro ⟨hid, hnew⟩
          exact ⟨List.mem_cons_of_mem _ hid, hnew⟩
        · rintro ⟨hid, hnew⟩
          rcases List.mem_cons.1 hid with he | hid
          · exact absurd (Option.some.inj he ▸ hseen) hnew
          · exact ⟨hid, hnew⟩
      · next hseen =>
        rw [List.filterMap_append, interface_cons, List.mem_append, ih, List.mem_singleton]
        by_cases he : id = x
        · subst he
          simp [hseen]
        · simp [he]

/-- The interfaces of an object type are those that it implements. -/
theorem mem_interfaces_iff {set : Setting} {c : ClassRecord}
    (hc : set.registry.class? .object c.target = some c) (id : EntityId) :
    id ∈ (set.contributions .object c.target).filterMap interface? ↔
      set.registry.Implements c id := by
  rw [Setting.contributions]
  rw [show set.registry.class? CompositeCategory.object.classKind c.target = some c from hc]
  rw [filterMap_interface?_ofType, mem_ofInterfaces_iff, List.map_flatMap, List.mem_flatMap]
  simp [Registry.Implements, CompositeCategory.classKind]

end Contribution

namespace BuildRequest

variable {q : BuildRequest} {r : Registry}

/-- Whether no implementer of a realized interface is missing, abstract ones apart. -/
def HasImplementers (r : Registry) (s : Schema) : Prop :=
  ∀ id i, r.class? .interface id = some i → i.isAbstract = false → s.Realizes .interface id →
    ∀ c, r.class? .object c.target = some c → c.isAbstract = false → r.Implements c id →
      s.Realizes .object c.target

theorem implementer_realized {o : BuildOptions} {scalars : List ScalarType} {b : Built}
    (h : (q.realize r o scalars).outcome = .ok b) {id : EntityId} {i : ClassRecord}
    (hi : r.class? .interface id = some i) (ha : i.isAbstract = false)
    (hreal : (b.schema o).Realizes .interface id) {c : ClassRecord}
    (hc : c ∈ Orphans.implementers r id) : (b.schema o).Realizes .object c.target := by
  obtain ⟨set, hr, -, -, hcomplete⟩ := realize_complete h
  subst hr
  have hsettled : b.final.orphans.Settled id :=
    hcomplete.interfaces id (Built.realizes_iff.1 hreal)
  have hrecord : (TypeCategory.interface, i) ∈ Orphans.records set.registry id :=
    Orphans.mem_records_iff.2 ⟨hi, ha⟩
  have hfollows : c.target ∈ Orphans.followers set.registry id :=
    Orphans.mem_followers_iff.2 ⟨by rw [hi, Option.isSome_some], c, hc, rfl⟩
  have hfollower := hcomplete.followers id hsettled (List.ne_nil_of_mem hrecord) _ hfollows
  obtain ⟨hobject, -, hconcrete⟩ := Orphans.mem_implementers_iff.1 hc
  exact realizes_of_settled h hfollower hobject hconcrete

/-- Implementers that list an interface themselves are never missing; so none is missing exactly if
those are realized that inherit the interface from an ancestor. -/
theorem hasImplementers_iff {source : Option DirectiveSource} {schema : Schema}
    (h : (q.buildFrom r source).outcome = .ok schema) :
    HasImplementers r schema ↔
      ∀ id i, r.class? .interface id = some i → i.isAbstract = false →
        schema.Realizes .interface id → ∀ c, r.class? .object c.target = some c →
          c.isAbstract = false → r.Implements c id →
            some id ∉ c.interfaces.map Reference.entity? → schema.Realizes .object c.target := by
  obtain ⟨o, scalars, hwith⟩ := buildFrom_eq_ok h
  obtain ⟨b, hb, rfl, -⟩ := buildWith_eq_ok hwith
  constructor
  · intro hall id i hi ha hreal c hc hca himpl _
    exact hall id i hi ha hreal c hc hca himpl
  · intro hcond id i hi ha hreal c hc hca himpl
    by_cases hown : some id ∈ c.interfaces.map Reference.entity?
    · have hmem : c ∈ Orphans.implementers r id :=
        Orphans.mem_implementers_iff.2 ⟨hc, hown, hca⟩
      exact implementer_realized hb hi ha hreal hmem
    · exact hcond id i hi ha hreal c hc hca himpl hown

theorem hasImplementers_recipes :
    ∃ schema, (plain.buildFrom .recipes none).outcome = .ok schema ∧
      HasImplementers .recipes schema := by
  have hok : (plain.buildFrom .recipes none).outcome.toOption.isSome = true := by decide +kernel
  obtain ⟨schema, hschema⟩ := Option.isSome_iff_exists.1 hok
  have h := ok_of_toOption hschema
  refine ⟨schema, h, (hasImplementers_iff h).2 ?_⟩
  intro id i hi _ _ c hc _ _ hown
  have hnode : i ∈ [ClassRecord.identified 0 "Node" false []] := (Catalog.get?_eq_some_iff.1 hi).1
  have hrecipe : c ∈ [ClassRecord.identified 1 "Recipe" false [.declared 0]] :=
    (Catalog.get?_eq_some_iff.1 hc).1
  have hid : i.target = id := Registry.target_of_class? hi
  rw [List.mem_singleton] at hnode hrecipe
  subst hnode hrecipe hid
  exact absurd (by decide) hown

end BuildRequest

/-- As `recipes`, but the interface is listed by an abstract class that the object type extends. -/
def Registry.inheritedNodes : Registry :=
  .ofRecords ((((EntityTable.empty.declare "Node" none).declare "Base" none).declare "Recipe"
      (some 1)).declare "R" none)
    [.identified 0 "Node" false []]
    [.identified 1 "Base" true [.declared 0], .identified 2 "Recipe" false []]
    [.node 3 (.declared 0)]

/-- An object type that only inherits an interface is not found when the interface is drained. -/
theorem BuildRequest.inheritedNodes_not_hasImplementers :
    ∃ schema, (plain.buildFrom .inheritedNodes none).outcome = .ok schema ∧
      ¬ HasImplementers .inheritedNodes schema := by
  have hfinal : ((plain.buildFrom .inheritedNodes none).outcome.toOption.map fun s =>
      s.types.map NamedType.declaration?) = some [none, some (.interface, 0), none] := by
    decide +kernel
  obtain ⟨schema, hschema, htypes⟩ := Option.map_eq_some_iff.1 hfinal
  have hrealizes : ∀ k id, schema.Realizes k id ↔
      some (k, id) ∈ [none, some (TypeCategory.interface, 0), none] := by
    intro k id
    rw [← htypes, List.mem_map]
    exact Iff.rfl
  have himplements : Registry.Implements .inheritedNodes (.identified 2 "Recipe" false []) 0 := by
    rw [Registry.Implements]
    decide +kernel
  refine ⟨schema, ok_of_toOption hschema, ?_⟩
  intro hall
  have hmissing := hall 0 (.identified 0 "Node" false []) rfl rfl ((hrealizes _ _).2 (by decide))
    (.identified 2 "Recipe" false []) rfl rfl himplements
  exact absurd ((hrealizes _ _).1 hmissing) (by decide)

end CodeFirst
