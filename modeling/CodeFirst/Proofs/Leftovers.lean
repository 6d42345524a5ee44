import CodeFirst.Proofs.Causes
import CodeFirst.Proofs.Sharing

/-! Which types of a schema nothing mentions. Every type is a root, an extra scalar, mentioned by an
earlier type, or kept by what its declaration is; apart from leftovers, which were realized for a
field that another one replaced, or along with a type of the same entity. -/

namespace CodeFirst

section Outlasted

variable {α β : Type} {R : α → β → Prop} {key : α → String} {key' : β → String}

/-- Of the records with the key of this one, another one is the last. -/
def Outlasted (key : α → String) (l : List α) (x : α) : Prop :=
  ∃ y, y ≠ x ∧ findRecord key (key x) l.reverse = some y

/-- When records are merged by their keys, one that is not outlasted stays. -/
theorem shown_or_outlasted {l : List α} {m : List β} (h : List.Forall₂ R l m)
    (hR : ∀ a b, R a b → key a = key' b) {x : α} (hx : x ∈ l) :
    (∃ v ∈ ((∅ : OrderedMap String β).putMany key' m).values, R x v) ∨ Outlasted key l x := by
  have hrel := findRecord_forall₂ (List.forall₂_reverse_iff.2 h) hR (key x)
  cases hlast : findRecord key (key x) l.reverse with
  | none =>
    have hmem : key x ∈ l.reverse.map key := List.mem_map_of_mem (List.mem_reverse.2 hx)
    exact absurd hmem (findRecord_eq_none_iff.1 hlast)
  | some y =>
    by_cases hyx : y = x
    · -- the last record of its key, so the map keeps what stands for it
      subst hyx
      rw [hlast] at hrel
      generalize hv : findRecord key' (key y) m.reverse = v? at hrel
      cases hrel with
      | @some _ v hshows =>
        have hget : ((∅ : OrderedMap String β).putMany key' m).get? (key y) = some v := by
          rw [OrderedMap.get?_putMany, Catalog.get?_putMany, Catalog.get?_empty, Option.or_none, hv]
        exact .inl ⟨_, ((OrderedMap.keyed_putMany _ _).get?_eq_some_iff.1 hget).1, hshows⟩
    · exact .inr ⟨y, hyx, hlast⟩

end Outlasted

namespace NamedType

/-- The places that a type mentions: its interfaces and the types of its fields, their arguments
and its input fields. -/
def mentions (t : NamedType) : List TypeId :=
  t.interfaces ++
    t.fields.flatMap (fun f => f.type.base :: f.arguments.records.map (·.type.base)) ++
      t.inputFields.map (·.type.base)

variable {t : NamedType} {i : TypeId}

theorem mem_mentions_iff : i ∈ t.mentions ↔
    i ∈ t.interfaces ∨
      (∃ f ∈ t.fields, f.type.base = i ∨ ∃ v ∈ f.arguments.records, v.type.base = i) ∨
        ∃ v ∈ t.inputFields, v.type.base = i := by
  simp only [mentions, List.mem_append, List.mem_flatMap, List.mem_cons, List.mem_map, or_assoc,
    eq_comm (a := i)]

end NamedType

namespace Setting

/-- What the type of an origin asks for by a field, an argument or an input field that a later one
of the same name replaces. -/
inductive Discards (set : Setting) (x y : Origin) : Prop
  | field (z : Contribution) (hz : z ∈ set.contributionsTo x) (hnone : z.interface? = none)
    (hy : y ∈ z.asked set.options set.registry)
    (h : Outlasted Contribution.fieldName
      ((set.contributionsTo x).filter (·.interface?.isNone)) z)
  | argument (z : Contribution) (hz : z ∈ set.contributionsTo x) (p : InputContribution)
    (hp : p ∈ z.parameters set.registry) (hy : p.asked? set.options set.registry = some y)
    (h : Outlasted InputContribution.key (z.parameters set.registry) p)
  | inputField (p : InputContribution) (hp : p ∈ set.inputContributionsTo x)
    (hy : p.asked? set.options set.registry = some y)
    (h : Outlasted InputContribution.key (set.inputContributionsTo x) p)

end Setting

section Mentioned

variable {o : BuildOptions} {r : Registry} {H : List Origin} {y : Origin}

theorem Merges.mentioned_or_outlasted {l : List InputContribution} {values : InputValues}
    (h : Merges o r H l values) {p : InputContribution} (hp : p ∈ l)
    (hy : p.asked? o r = some y) :
    (∃ v ∈ values.records, H[v.type.base]? = some y) ∨ Outlasted InputContribution.key l p := by
  obtain ⟨vs, hvs, rfl⟩ := h
  rcases shown_or_outlasted hvs (fun _ _ hv => hv.name.symm) hp with ⟨v, hv, hshows⟩ | hlost
  · exact .inl ⟨v, hv, hshows.type hy⟩
  · exact .inr hlost

theorem Composes.shown_or_outlasted {l : List Contribution} {c : Composition}
    (h : Composes o r H l c) {z : Contribution} (hz : z ∈ l) (hnone : z.interface? = none) :
    (∃ f ∈ c.fields.records, z.Shows o r H f) ∨
      Outlasted Contribution.fieldName (l.filter (·.interface?.isNone)) z := by
  obtain ⟨fs, hfs, he⟩ := h.fields
  rw [he]
  refine CodeFirst.shown_or_outlasted hfs (fun _ _ hf => hf.name.symm) ?_
  exact List.mem_filter.2 ⟨hz, by rw [hnone, Option.isNone_none]⟩

end Mentioned

namespace Setting

variable {set : Setting} {H : List Origin} {t : NamedType} {y : Origin}

/-- What a type with all it will ever have asks for is mentioned by it, or it is discarded. -/
theorem Fits.mentioned_or_discarded (h : set.Fits H t) (ht : t.unwired.IsShell set.registry)
    (hy : y ∈ set.asked t.origin) :
    (∃ i ∈ t.mentions, H[i]? = some y) ∨ set.Discards t.origin y := by
  rcases mem_asked_iff.1 hy with ⟨z, hz, hy⟩ | ⟨p, hp, hy⟩
  · obtain ⟨fields, hc, hfields⟩ := h.composes ht
    cases hinterface : z.interface? with
    | some id =>
      rw [Contribution.asked_of_interface? hinterface, List.mem_singleton] at hy
      obtain ⟨i, hi, hplace⟩ :=
        exists_right_of_forall₂ hc.interfaces (List.mem_filterMap.2 ⟨z, hz, hinterface⟩)
      exact .inl ⟨i, NamedType.mem_mentions_iff.2 (.inl hi), hy ▸ hplace⟩
    | none =>
      rcases hc.shown_or_outlasted hz hinterface with ⟨f, hf, hshows⟩ | hlost
      · rw [← hfields] at hf
        have hfield : ∀ i, f.type.base = i ∨ (∃ v ∈ f.arguments.records, v.type.base = i) →
            i ∈ t.mentions := fun i hi => NamedType.mem_mentions_iff.2 (.inr (.inl ⟨f, hf, hi⟩))
        rcases Contribution.mem_asked_iff.1 hy with hy | ⟨p, hp, hy⟩
        · exact .inl ⟨_, hfield _ (.inl rfl), hshows.type hy⟩
        · rcases hshows.arguments.mentioned_or_outlasted hp hy with ⟨v, hv, hplace⟩ | hlost
          · exact .inl ⟨_, hfield _ (.inr ⟨v, hv, rfl⟩), hplace⟩
          · exact .inr (.argument z hz p hp hy hlost)
      · exact .inr (.field z hz hinterface hy hlost)
  · obtain ⟨values, hv, hvalues⟩ := h.merges ht
    rcases hv.mentioned_or_outlasted hp hy with ⟨v, hv, hplace⟩ | hlost
    · refine .inl ⟨_, NamedType.mem_mentions_iff.2 (.inr (.inr ⟨v, ?_, rfl⟩)), hplace⟩
      rwa [hvalues]
    · exact .inr (.inputField p hp hy hlost)

/-- What is asked for at some place of a complete construction is mentioned there or discarded. -/
theorem Complete.mentioned_or_discarded {orphaned : List EntityId} {roots : Roots}
    {s : Realization} (h : set.Complete orphaned roots s) {u : NamedType} (hu : u ∈ s.types)
    {i : TypeId} (hi : s.origins[i]? = some y) (hy : y ∈ set.asked u.origin) :
    i ∈ u.mentions ∨ set.Discards u.origin y := by
  have hcoherent := h.rounds.progress.coherent
  have hfits := h.rounds.progress.fits_of_pending_eq_nil h.pending hu
  rcases hfits.mentioned_or_discarded (hcoherent.isShell u hu) hy with ⟨j, hj, hplace⟩ | hlost
  · exact .inl (hcoherent.origin_inj hplace hi ▸ hj)
  · exact .inr hlost

theorem Caused.cause {orphaned : List EntityId} {scalars : List ScalarType} {s : Realization}
    (h : set.Caused orphaned scalars s) {i : TypeId} (hi : s.origins[i]? = some y) :
    set.Cause orphaned scalars s.orphans.Settled (s.origins.take i) y := by
  obtain ⟨hlt, he⟩ := List.getElem?_eq_some_iff.1 hi
  refine h.types _ y (s.origins.drop (i + 1)) ?_
  rw [← he, ← List.drop_eq_getElem_cons hlt, List.take_append_drop]

end Setting

theorem Realization.exists_of_mem_take {s : Realization} {i : TypeId} {x : Origin}
    (h : x ∈ s.origins.take i) : ∃ j < i, ∃ u, s.types[j]? = some u ∧ u.origin = x := by
  obtain ⟨j, hj⟩ := List.getElem?_of_mem h
  obtain ⟨hlt, -⟩ := List.getElem?_eq_some_iff.1 hj
  have hji : j < i := Nat.lt_of_lt_of_le hlt (List.length_take_le i s.origins)
  rw [List.getElem?_take_of_lt hji, Realization.getElem?_origins] at hj
  obtain ⟨u, hu, ho⟩ := Option.map_eq_some_iff.1 hj
  exact ⟨j, hji, u, hu, ho⟩

namespace Schema

variable (s : Schema) (set : Setting)

/-- A type that something in the schema or in the build's request needs. -/
inductive Live (orphaned : List EntityId) (scalars : List ScalarType) (i : TypeId) (t : NamedType) :
    Prop
  | root (kind : RootKind) (h : s.rootId? kind = some i)
  | supplied (x : ScalarType) (hx : x ∈ scalars) (h : t.origin = .scalar x.name)
  | mentioned (j : TypeId) (hj : j < i) (u : NamedType) (hu : s.get? j = some u)
    (h : i ∈ u.mentions)
  | orphan (k : TypeCategory) (id : EntityId) (ht : t.declaration? = some (k, id))
    (h : id ∈ orphaned ++ Setting.kept set.registry set.options)
  | implementer (k : TypeCategory) (c : ClassRecord) (ht : t.declaration? = some (k, c.target))
    (known : set.registry.class? .object c.target = some c) (interface : EntityId)
    (h : some interface ∈ c.interfaces.map Reference.entity?)
    (hs : s.Realizes .interface interface)

/-- A type that was realized for a replaced field of an earlier type, or because another declaration
of its entity is returned by a root handler or was realized as an interface. -/
inductive Leftover (i : TypeId) (t : NamedType) : Prop
  | replaced (j : TypeId) (hj : j < i) (u : NamedType) (hu : s.get? j = some u)
    (h : set.Discards u.origin t.origin)
  | returned (k : TypeCategory) (id : EntityId) (ht : t.declaration? = some (k, id))
    (kind : RootKind) (b : Binding) (hb : b ∈ set.rootBindings kind)
    (h : b.handler.returned? = some id)
  | interface (k : TypeCategory) (id : EntityId) (ht : t.declaration? = some (k, id)) (j : TypeId)
    (hj : j < i) (u : NamedType) (hu : s.get? j = some u)
    (h : u.declaration? = some (.interface, id))

end Schema

namespace BuildRequest

variable {q : BuildRequest} {r : Registry} {source : Option DirectiveSource} {o : BuildOptions}
  {scalars : List ScalarType} {set : Setting} {b : Built} {schema : Schema}

namespace Constructs

theorem rootId?_eq (h : q.Constructs r source o scalars set b) {kind : RootKind}
    (hb : set.rootBindings kind ≠ []) {i : TypeId}
    (hi : b.final.origins[i]? = some (.root kind.typeName)) :
    (b.schema o).rootId? kind = some i := by
  have hroot := h.complete.roots kind
  cases hplace : b.roots.get kind with
  | none => exact absurd (hroot.absent hplace) hb
  | some j =>
    obtain ⟨fields, hj, -⟩ := hroot.present j hplace
    have hjo : b.final.origins[j]? = some (.root kind.typeName) := by
      rw [Realization.getElem?_origins, hj]
      rfl
    rw [h.complete.rounds.progress.coherent.origin_inj hi hjo, ← hplace]
    cases kind <;> rfl

/-- An implementer that was drained is wired, so the interface that it lists is realized. -/
theorem realizes_of_follower (h : q.Constructs r source o scalars set b) {id i : EntityId}
    (hs : b.final.orphans.Settled id) (hf : id ∈ Orphans.followers set.registry i) :
    ∃ c : ClassRecord, c.target = id ∧ set.registry.class? .object c.target = some c ∧
      some i ∈ c.interfaces.map Reference.entity? ∧ (b.schema o).Realizes .interface i := by
  obtain ⟨-, c, hc, rfl⟩ := Orphans.mem_followers_iff.1 hf
  obtain ⟨known, hlists, concrete⟩ := Orphans.mem_implementers_iff.1 hc
  have hrecord : (TypeCategory.object, c) ∈ Orphans.records set.registry c.target :=
    Orphans.mem_records_iff.2 ⟨known, concrete⟩
  have hobject : .declared .object c.target ∈ b.final.origins :=
    h.complete.rounds.realized _ hs _ hrecord
  obtain ⟨t, ht, ho⟩ := List.mem_map.1 hobject
  have hself : c ∈ set.registry.classChain .object c.target := by
    rw [Registry.classChain_eq, known]
    exact List.mem_append_right _ (List.mem_singleton_self c)
  have himplements : set.registry.Implements c i := ⟨c, hself, hlists⟩
  obtain ⟨z, hz, hinterface⟩ :=
    List.mem_filterMap.1 ((Contribution.mem_interfaces_iff known i).2 himplements)
  have hasked : .declared .interface i ∈ set.asked t.origin := by
    rw [ho]
    refine Setting.mem_asked_iff.2 (.inl ⟨z, hz, ?_⟩)
    rw [Contribution.asked_of_interface? hinterface]
    exact List.mem_singleton_self _
  exact ⟨c, rfl, known, hlists, Built.realizes_iff.2 (h.complete.asked_subset ht hasked)⟩

/-- Why the declarations of a drained entity are types. -/
theorem live_or_leftover_of_registered (h : q.Constructs r source o scalars set b) {i : TypeId}
    {t : NamedType} {k : TypeCategory} {id : EntityId} (ht : t.declaration? = some (k, id))
    (hs : b.final.orphans.Settled id)
    (hr : set.Registered q.orphaned (b.final.origins.take i) id) :
    (b.schema o).Live set q.orphaned scalars i t ∨ (b.schema o).Leftover set i t := by
  cases hr with
  | requested hid => exact .inl (.orphan k id ht hid)
  | returned kind b hb hid => exact .inr (.returned k id ht kind b hb hid)
  | interface hmem =>
    obtain ⟨j, hj, u, hu, ho⟩ := Realization.exists_of_mem_take hmem
    exact .inr (.interface k id ht j hj u hu (NamedType.declaration?_eq_some_iff.2 ho))
  | @follower _ x _ hf =>
    obtain ⟨c, rfl, known, hlists, hreal⟩ := h.realizes_of_follower hs hf
    exact .inl (.implementer k c ht known x hlists hreal)

theorem live_or_leftover (h : q.Constructs r source o scalars set b) {i : TypeId} {t : NamedType}
    (ht : b.final.types[i]? = some t) :
    (b.schema o).Live set q.orphaned scalars i t ∨ (b.schema o).Leftover set i t := by
  have hi : b.final.origins[i]? = some t.origin := by
    rw [Realization.getElem?_origins, ht, Option.map_some]
  -- one case for each cause; what was asked for may be discarded by now
  have hcause := h.caused.cause hi
  generalize ho : t.origin = x at hcause
  cases hcause with
  | root kind hb => exact .inl (.root kind (h.rootId?_eq hb (ho ▸ hi)))
  | asked hx hy =>
    obtain ⟨j, hj, u, hu, rfl⟩ := Realization.exists_of_mem_take hx
    rcases h.complete.mentioned_or_discarded (List.mem_of_getElem? hu) (ho ▸ hi) hy with
      hmention | hlost
    · exact .inl (.mentioned j hj u hu hmention)
    · exact .inr (.replaced j hj u hu (ho ▸ hlost))
  | drained hs hr _ _ =>
    exact h.live_or_leftover_of_registered (NamedType.declaration?_eq_some_iff.2 ho) hs hr
  | supplied hx => exact .inl (.supplied _ hx ho)

end Constructs

/-- Every type of a schema is needed, or left over from what another one of its name replaced or
from another declaration of its entity. -/
theorem buildFrom_live_or_leftover (h : (q.buildFrom r source).outcome = .ok schema) :
    ∃ o scalars set, q.Resolves source o scalars ∧
      (Setting.prepare r o q.resolvers).outcome = .ok set ∧
        ∀ i t, schema.get? i = some t →
          schema.Live set q.orphaned scalars i t ∨ schema.Leftover set i t := by
  obtain ⟨o, scalars, set, b, hb, rfl⟩ := exists_constructs h
  exact ⟨o, scalars, set, hb.resolves, hb.prepared, fun i t ht => hb.live_or_leftover ht⟩

end BuildRequest

def ClassRecord.noted (target : EntityId) (name : String) (note : Reference) : ClassRecord :=
  ⟨target, name, none, false, [⟨"note", "note", note, .plain, none, none, none, []⟩], [], []⟩

/-- Recipes with notes that are drafts in the class that they extend and nodes in their own, and
inputs for the entities of nodes and recipes. -/
def Registry.noted : Registry :=
  { Registry.ofRecords (((((EntityTable.empty.declare "Node" none).declare "Base" none).declare
      "Recipe" (some 1)).declare "Draft" none).declare "R" none)
      [.identified 0 "Node" false []]
      [.noted 1 "Base" (.declared 3), .noted 2 "Recipe" (.declared 0),
        .identified 3 "Draft" false []] [.node 4 (.declared 2)] with
    inputs := (∅ : ClassCatalog).putMany
      [.identified 0 "NodeInput" false [], .identified 2 "RecipeInput" false []] }

namespace BuildRequest

theorem prepare_noted : (Setting.prepare .noted plain.options plain.resolvers).outcome =
    .ok ⟨.noted, .standard, none, []⟩ := rfl

/-- The drafts and the two inputs are not mentioned, and nothing else needs them. -/
theorem exists_unneeded_noted : ∃ schema, (plain.buildFrom .noted none).outcome = .ok schema ∧
    ∀ i ∈ [3, 5, 6], ∃ t, schema.get? i = some t ∧ (∀ u ∈ schema.types, i ∉ u.mentions) ∧
      ¬ schema.Live ⟨.noted, .standard, none, []⟩ plain.orphaned [] i t := by
  have hfinal : ((plain.buildFrom .noted none).outcome.toOption.map fun s =>
      (s.types.map NamedType.mentions, RootKind.all.map s.rootId?)) =
        some ([[1, 2], [4], [], [2], [2], [2], [2]], [some 0, none, none]) := by decide +kernel
  obtain ⟨schema, hschema, hall⟩ := Option.map_eq_some_iff.1 hfinal
  obtain ⟨hmentions, hroots⟩ := Prod.mk.inj hall
  have hlists : ∀ c ∈ Registry.noted.objects.records, c.interfaces = [] := by decide +kernel
  have hplaces : ∀ i ∈ [3, 5, 6], i < 7 ∧ some i ∉ [some 0, none, none] ∧
      ∀ l ∈ [[1, 2], [4], [], [2], [2], [2], [2]], i ∉ l := by decide
  refine ⟨schema, ok_of_toOption hschema, ?_⟩
  intro i hi
  obtain ⟨hlt, hroot, hfree⟩ := hplaces i hi
  rw [← hroots] at hroot
  rw [← hmentions] at hfree
  have hlength : schema.types.length = 7 := by
    rw [← List.length_map NamedType.mentions, hmentions]
    rfl
  have hunmentioned : ∀ u ∈ schema.types, i ∉ u.mentions :=
    fun u hu => hfree _ (List.mem_map_of_mem hu)
  refine ⟨_, List.getElem?_eq_getElem (hlength ▸ hlt), hunmentioned, ?_⟩
  intro hlive
  cases hlive with
  | root kind h => exact hroot (h ▸ List.mem_map_of_mem (RootKind.mem_all kind))
  | supplied x hx _ => exact List.not_mem_nil hx
  | mentioned j _ u hu h => exact hunmentioned u (List.mem_of_getElem? hu) h
  | orphan k id _ h => exact List.not_mem_nil h
  | implementer k c _ known _ h _ =>
    rw [hlists c (Catalog.get?_eq_some_iff.1 known).1] at h
    exact List.not_mem_nil h

theorem buildFrom_leftovers_noted :
    ∃ schema set, (plain.buildFrom .noted none).outcome = .ok schema ∧
      (Setting.prepare .noted plain.options plain.resolvers).outcome = .ok set ∧
        ∀ i ∈ [3, 5, 6], ∃ t, schema.get? i = some t ∧ schema.Leftover set i t := by
  obtain ⟨schema, h, hunneeded⟩ := exists_unneeded_noted
  obtain ⟨_, _, set, hresolves, hset, hall⟩ := buildFrom_live_or_leftover h
  cases hresolves
  obtain rfl := Except.ok.inj (prepare_noted.symm.trans hset)
  refine ⟨schema, _, h, hset, ?_⟩
  intro i hi
  obtain ⟨t, ht, -, hdead⟩ := hunneeded i hi
  exact ⟨t, ht, (hall i t ht).resolve_left hdead⟩

/-- Nothing needs the type of a replaced field, nor the input of an entity that is returned or
realized as an interface. -/
theorem noted_not_live : ∃ schema set, (plain.buildFrom .noted none).outcome = .ok schema ∧
    (Setting.prepare .noted plain.options plain.resolvers).outcome = .ok set ∧
      ∀ i ∈ [3, 5, 6], ∃ t, schema.get? i = some t ∧ (∀ u ∈ schema.types, i ∉ u.mentions) ∧
        ¬ schema.Live set plain.orphaned [] i t := by
  obtain ⟨schema, h, hunneeded⟩ := exists_unneeded_noted
  exact ⟨schema, _, h, prepare_noted, hunneeded⟩

end BuildRequest

end CodeFirst
