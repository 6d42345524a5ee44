import CodeFirst.Proofs.Demand
import CodeFirst.Proofs.Moves
import CodeFirst.Proofs.Wired

/-! Why types are realized. Every type of a construction has a cause among the types before it: it
is a root with handlers, an earlier type asks for it, or it shows a drained entity or an extra
scalar. An entity waits to be drained because it is requested, returned by a root handler, an
interface that is realized, or an implementer of such an entity. So an abstract declaration, which
is never drained, becomes a type only if another type asks for it. -/

namespace CodeFirst

namespace Setting

section Cause

variable (set : Setting) (orphaned : List EntityId) (scalars : List ScalarType)

/-- Why an entity is registered as an orphan when the types of an arena are realized. -/
inductive Registered (H : List Origin) : EntityId → Prop
  | requested {id : EntityId} (h : id ∈ orphaned ++ kept set.registry set.options) :
    Registered H id
  | returned {id : EntityId} (kind : RootKind) (b : Binding) (hb : b ∈ set.rootBindings kind)
    (h : b.handler.returned? = some id) : Registered H id
  | interface {id : EntityId} (h : .declared .interface id ∈ H) : Registered H id
  | follower {id i : EntityId} (hi : Registered H i)
    (h : id ∈ Orphans.followers set.registry i) : Registered H id

/-- Why a type is realized when the types of an arena are, and some entities are drained. -/
inductive Cause (settled : EntityId → Prop) (H : List Origin) : Origin → Prop
  | root (kind : RootKind) (h : set.rootBindings kind ≠ []) : Cause settled H (.root kind.typeName)
  | asked {x y : Origin} (hx : x ∈ H) (hy : y ∈ set.asked x) : Cause settled H y
  | drained {k : TypeCategory} {id : EntityId} {c : ClassRecord} (hs : settled id)
    (hr : Registered set orphaned H id) (known : set.registry.class? k.classKind id = some c)
    (concrete : c.isAbstract = false) : Cause settled H (.declared k id)
  | supplied {t : ScalarType} (h : t ∈ scalars) : Cause settled H (.scalar t.name)

/-- Every type has a cause among those before it, and every orphan a reason. -/
structure Caused (s : Realization) : Prop where
  types : ∀ pre x post, s.origins = pre ++ x :: post →
    Cause set orphaned scalars s.orphans.Settled pre x
  seen : ∀ id ∈ s.orphans.seen, Registered set orphaned s.origins id

end Cause

variable {set : Setting} {orphaned : List EntityId} {scalars : List ScalarType}
  {s t : Realization} {H H' : List Origin} {settled settled' : EntityId → Prop}

theorem Registered.mono (hH : H ⊆ H') {id : EntityId} (h : Registered set orphaned H id) :
    Registered set orphaned H' id := by
  induction h with
  | requested h => exact .requested h
  | returned kind b hb h => exact .returned kind b hb h
  | interface h => exact .interface (hH h)
  | follower _ h ih => exact .follower ih h

theorem Cause.mono (hsettled : ∀ id, settled id → settled' id) (hH : H ⊆ H') {x : Origin}
    (h : Cause set orphaned scalars settled H x) : Cause set orphaned scalars settled' H' x := by
  cases h with
  | root kind h => exact .root kind h
  | asked hx hy => exact .asked (hH hx) hy
  | drained hs hr known concrete => exact .drained (hsettled _ hs) (hr.mono hH) known concrete
  | supplied h => exact .supplied h

namespace Caused

theorem empty : Caused set orphaned scalars .empty := by
  refine ⟨?_, ?_⟩
  · intro pre x post h
    have hlen := congrArg List.length h
    simp [Realization.empty, Realization.origins] at hlen
  · intro id hid
    exact absurd hid List.not_mem_nil

theorem adds (h : Caused set orphaned scalars s) {A : Origin → Prop} {B : EntityId → Prop}
    (hadds : s.Adds A B t) (ho : s.origins <+: t.origins)
    (hsettled : ∀ id, s.orphans.Settled id → t.orphans.Settled id)
    (hA : ∀ x, A x → Cause set orphaned scalars t.orphans.Settled s.origins x)
    (hB : ∀ id, B id → Registered set orphaned s.origins id) : Caused set orphaned scalars t := by
  have hold : ∀ x ∈ s.origins, Cause set orphaned scalars t.orphans.Settled s.origins x := by
    intro x hx
    obtain ⟨pre, post, hparts⟩ := List.append_of_mem hx
    refine (h.types pre x post hparts).mono hsettled ?_
    rw [hparts]
    exact List.subset_append_left pre _
  refine ⟨?_, ?_⟩
  · intro pre x post hparts
    rcases Nat.lt_or_ge pre.length s.origins.length with hlt | hle
    · -- a place that was there before
      have hpre : pre ++ [x] <+: s.origins := by
        refine List.prefix_of_prefix_length_le ⟨post, ?_⟩ ho ?_
        · rw [hparts, List.append_assoc, List.singleton_append]
        · rwa [List.length_append, List.length_singleton]
      obtain ⟨rest, hrest⟩ := hpre
      rw [List.append_assoc, List.singleton_append] at hrest
      exact (h.types pre x rest hrest.symm).mono hsettled fun _ hy => hy
    · -- a new place, behind all that was there
      have hpre : s.origins ⊆ pre :=
        (List.prefix_of_prefix_length_le ho ⟨x :: post, hparts.symm⟩ hle).subset
      have hmem : x ∈ t.origins := by
        rw [hparts]
        exact List.mem_append_right _ List.mem_cons_self
      rcases hadds.origins x hmem with hx | hx
      · exact (hold x hx).mono (fun _ hid => hid) hpre
      · exact (hA x hx).mono (fun _ hid => hid) hpre
  · intro id hid
    rcases hadds.seen id hid with hid | hid | hid
    · exact (h.seen id hid).mono ho.subset
    · exact .interface hid
    · exact (hB id hid).mono ho.subset

theorem of_eq (h : Caused set orphaned scalars s) (ho : t.origins = s.origins)
    (horphans : t.orphans = s.orphans) : Caused set orphaned scalars t := by
  refine ⟨?_, ?_⟩
  · rw [ho, horphans]
    exact h.types
  · rw [ho, horphans]
    exact h.seen

/-- A resolution adds what it is bound to. -/
theorem run (h : Caused set orphaned scalars s) (hs : s.Coherent set.registry) {α : Type}
    {x : Realize set.registry α} {A : Origin → Prop} {B : EntityId → Prop}
    (hx : Realize.Bound A B x) {result : Except BuildError α} (hr : x.run s = (result, t))
    (hA : ∀ y, A y → Cause set orphaned scalars s.orphans.Settled s.origins y)
    (hB : ∀ id, B id → Registered set orphaned s.origins id) : Caused set orphaned scalars t := by
  have hg := Realize.grows_run hr
  have hadds := hx.adds s hs
  rw [hr] at hadds
  refine h.adds hadds hg.origins (fun id hid => hg.settled hid) (fun y hy => ?_) hB
  exact (hA y hy).mono (fun id hid => hg.settled hid) fun _ hy => hy

theorem addRoot (h : Caused set orphaned scalars s) {kind : RootKind}
    (hb : set.rootBindings kind ≠ []) : Caused set orphaned scalars (s.addType kind.shell) := by
  have hext := Realization.extend_addType s kind.shell
  refine h.adds (A := (· = .root kind.typeName)) (B := fun _ => False)
    (Realization.adds_addType rfl) hext.origins (fun _ hid => hid) ?_ ?_
  · rintro x rfl
    exact .root kind hb
  · intro id hid
    exact hid.elim

theorem rootFields (h : Caused set orphaned scalars s) (hs : s.Coherent set.registry)
    {kind : RootKind} (hroot : .root kind.typeName ∈ s.origins) {result : Except BuildError Fields}
    (hr : (set.rootFields kind ∅ (set.rootBindings kind)).run s = (result, t)) :
    Caused set orphaned scalars t := by
  refine h.run hs (bound_rootFields kind ∅ _) hr ?_ ?_
  · rintro y ⟨b, hb, hy⟩
    refine .asked hroot (mem_asked_iff.2 (.inl ⟨b.rootContribution, ?_, hy⟩))
    rw [contributionsTo_root]
    exact List.mem_map_of_mem hb
  · rintro id ⟨b, hb, hid⟩
    exact .returned kind b hb hid

theorem wiringAt (h : Caused set orphaned scalars s) (hs : s.Coherent set.registry)
    {place : TypeId} {rest : List TypeId} {result : Except BuildError (Option Wiring)}
    (hr : (set.wiringAt s place).run { s with pending := rest } = (result, t)) :
    Caused set orphaned scalars t := by
  have hstart : Caused set orphaned scalars { s with pending := rest } := h.of_eq rfl rfl
  have hcoherent : Realization.Coherent set.registry { s with pending := rest } :=
    hs.of_shells rfl rfl fun _ hid => hid
  refine hstart.run hcoherent (bound_wiringAt (B := fun _ => False) s place) hr ?_ ?_
  · rintro y ⟨x, hx, hy⟩
    exact .asked (List.mem_of_getElem? hx) hy
  · intro id hid
    exact hid.elim

theorem drain (h : Caused set orphaned scalars s) :
    Caused set orphaned scalars { s with orphans := (s.orphans.drain set.registry).1 } := by
  refine ⟨?_, ?_⟩
  · intro pre x post hparts
    exact (h.types pre x post hparts).mono (fun id hid => hid.drain) fun _ hy => hy
  · intro id hid
    rcases Orphans.mem_seen_drain.1 hid with hid | ⟨i, hi, hid⟩
    · exact h.seen id hid
    · exact .follower (h.seen i (s.orphans.waiting_seen i hi)) hid

theorem realizeDrained (h : Caused set orphaned scalars s) (hs : s.Coherent set.registry) {n : Nat}
    {orphans : Orphans} {drained : List (TypeCategory × ClassRecord)}
    (hd : s.orphans.drain set.registry = (orphans, drained)) {result : Except BuildError Nat}
    (hr : (set.realizeDrained n drained).run { s with orphans } = (result, t)) :
    Caused set orphaned scalars t := by
  obtain rfl : (s.orphans.drain set.registry).1 = orphans := congrArg Prod.fst hd
  obtain rfl : (s.orphans.drain set.registry).2 = drained := congrArg Prod.snd hd
  have hcoherent : Realization.Coherent set.registry
      { s with orphans := (s.orphans.drain set.registry).1 } :=
    hs.of_shells rfl rfl fun _ hid => Orphans.mem_seen_drain.2 (.inl hid)
  refine h.drain.run hcoherent (bound_realizeDrained (B := fun _ => False) n _) hr ?_ ?_
  · rintro y ⟨x, hx, rfl⟩
    obtain ⟨id, hid, hmem⟩ := List.mem_flatMap.1 hx
    obtain ⟨known, concrete⟩ := Orphans.mem_records_iff.1 hmem
    have htarget := Registry.target_of_class? known
    subst htarget
    exact .drained (Orphans.settled_drain_of_waiting hid)
      (h.seen _ (s.orphans.waiting_seen _ hid)) known concrete
  · intro id hid
    exact hid.elim

theorem addScalars (h : Caused set orphaned scalars s) (hs : s.Coherent set.registry)
    {result : Except BuildError Unit} (hr : (set.addScalars scalars).run s = (result, t)) :
    Caused set orphaned scalars t := by
  refine h.run hs (bound_addScalars (B := fun _ => False) scalars) hr ?_ fun _ hid => hid.elim
  rintro y ⟨x, hx, rfl⟩
  exact .supplied hx

end Caused

theorem Transition.caused {stage stage' : Stage} {a : Act}
    (ht : set.Transition orphaned scalars stage s a stage' t) (hstage : stage.Holds set s)
    (hs : s.Coherent set.registry) (h : Caused set orphaned scalars s) :
    Caused set orphaned scalars t := by
  have hroot : ∀ {kind : RootKind} {place : TypeId}, s.types[place]? = some kind.shell →
      .root kind.typeName ∈ s.origins := fun hplace =>
    List.mem_map_of_mem (List.mem_of_getElem? hplace)
  cases ht with
  | omitted hb => exact h.of_eq rfl rfl
  | opened hb hr =>
    obtain ⟨-, -, rfl⟩ := addRoot_eq_ok hr
    exact (h.of_eq rfl rfl : Caused set orphaned scalars (set.announce _ s)).addRoot hb
  | refused hb hr =>
    rw [addRoot_eq_error hr]
    exact h.of_eq rfl rfl
  | wiredRoot hr =>
    exact (h.rootFields hs (hroot hstage.2) hr).of_eq (Realization.origins_wire _ _ _) rfl
  | failedRoot hr => exact h.rootFields hs (hroot hstage.2) hr
  | requested =>
    refine ⟨?_, ?_⟩
    · intro pre x post hparts
      exact (h.types pre x post hparts).mono
        (fun id hid => Orphans.settled_registerMany_iff.2 hid) fun _ hy => hy
    · intro id hid
      rcases Orphans.mem_seen_registerMany.1 hid with hid | hid
      · exact h.seen id hid
      · exact .requested hid
  | began => exact h
  | wiredShell hp hr => exact (h.wiringAt hs hr).of_eq (Realization.origins_wire _ _ _) rfl
  | skippedShell hp hr => exact h.wiringAt hs hr
  | failedShell hp hr => exact h.wiringAt hs hr
  | realized hp hd hr => exact h.realizeDrained hs hd hr
  | failedRound hp hd hr => exact h.realizeDrained hs hd hr
  | settled hp hd =>
    have hdrain := h.drain
    rw [hd] at hdrain
    exact hdrain
  | added hr => exact h.addScalars hs hr
  | failedScalars hr => exact h.addScalars hs hr

/-- A course keeps them. -/
theorem Course.caused {l : List Act} {stage : Stage}
    (h : set.Course orphaned scalars l stage s) : Caused set orphaned scalars s := by
  induction h with
  | start => exact .empty
  | step hc ht ih =>
    exact ht.caused hc.holds.1 (hc.moves.coherent Realization.coherent_empty) ih

theorem construct_caused (set : Setting) (orphaned : List EntityId) (scalars : List ScalarType) :
    Caused set orphaned scalars (set.construct orphaned scalars .empty).2 := by
  obtain ⟨l, hl⟩ := construct_course set orphaned scalars
  exact hl.caused

theorem Caused.asked_of_abstract (h : Caused set orphaned scalars s) {k : TypeCategory}
    {id : EntityId} {c : ClassRecord} (hmem : .declared k id ∈ s.origins)
    (hc : set.registry.class? k.classKind id = some c) (ha : c.isAbstract = true) :
    ∃ x ∈ s.origins, .declared k id ∈ set.asked x := by
  obtain ⟨pre, post, hparts⟩ := List.append_of_mem hmem
  cases h.types pre _ post hparts with
  | @asked x _ hx hy => exact ⟨x, hparts ▸ List.mem_append_left _ hx, hy⟩
  | drained _ _ known concrete =>
    rw [hc, Option.some.injEq] at known
    rw [known, concrete] at ha
    cases ha

theorem Complete.asked_subset {roots : Roots} (h : set.Complete orphaned roots s) {t : NamedType}
    (ht : t ∈ s.types) : set.asked t.origin ⊆ s.origins :=
  (h.rounds.progress.fits_of_pending_eq_nil h.pending ht).asked_subset
    (h.rounds.progress.coherent.isShell t ht)

end Setting

namespace BuildRequest

variable {q : BuildRequest} {r : Registry} {source : Option DirectiveSource} {o : BuildOptions}
  {scalars : List ScalarType} {set : Setting} {b : Built} {schema : Schema}

structure Constructs (q : BuildRequest) (r : Registry) (source : Option DirectiveSource)
    (o : BuildOptions) (scalars : List ScalarType) (set : Setting) (b : Built) : Prop where
  resolves : q.Resolves source o scalars
  prepared : (Setting.prepare r o q.resolvers).outcome = .ok set
  complete : set.Complete q.orphaned b.roots b.final
  caused : set.Caused q.orphaned scalars b.final

theorem exists_constructs (h : (q.buildFrom r source).outcome = .ok schema) :
    ∃ o scalars set b, q.Constructs r source o scalars set b ∧ schema = b.schema o := by
  obtain ⟨o, scalars, hresolves, hwith⟩ := exists_resolves h
  obtain ⟨b, hb, he, -⟩ := buildWith_eq_ok hwith
  obtain ⟨-, set, hset, hc⟩ := realize_eq_ok hb
  have hcaused := set.construct_caused q.orphaned scalars
  rw [hc] at hcaused
  exact ⟨o, scalars, set, b, ⟨hresolves, hset, Setting.construct_complete hc, hcaused⟩, he⟩

theorem Constructs.registry_eq (h : q.Constructs r source o scalars set b) :
    set.registry = r := by
  rw [(prepare_eq_ok h.prepared).2]

/-- An abstract declaration is a type exactly if a type asks for it. -/
theorem Constructs.realizes_abstract_iff (h : q.Constructs r source o scalars set b)
    {k : TypeCategory} {id : EntityId} {c : ClassRecord} (hc : r.class? k.classKind id = some c)
    (ha : c.isAbstract = true) : (b.schema o).Realizes k id ↔
      ∃ t ∈ (b.schema o).types, .declared k id ∈ set.asked t.origin := by
  rw [Built.realizes_iff]
  constructor
  · intro hmem
    obtain ⟨x, hx, hasked⟩ := h.caused.asked_of_abstract hmem (h.registry_eq ▸ hc) ha
    obtain ⟨t, ht, rfl⟩ := List.mem_map.1 hx
    exact ⟨t, ht, hasked⟩
  · rintro ⟨t, ht, hasked⟩
    exact h.complete.asked_subset ht hasked

/-- Whether no abstract declaration is a type of the schema. -/
def OmitsAbstract (r : Registry) (s : Schema) : Prop :=
  ∀ k id c, r.class? k.classKind id = some c → c.isAbstract = true → ¬ s.Realizes k id

/-- An abstract declaration becomes a type exactly if what contributes to a type of the schema
refers to it: as an orphan it is never realized. So none becomes a type exactly if no type refers to
one. -/
theorem buildFrom_omitsAbstract_iff (h : (q.buildFrom r source).outcome = .ok schema) :
    ∃ o scalars set, q.Resolves source o scalars ∧
      (Setting.prepare r o q.resolvers).outcome = .ok set ∧
      (∀ k id c, r.class? k.classKind id = some c → c.isAbstract = true →
        (schema.Realizes k id ↔ ∃ t ∈ schema.types, .declared k id ∈ set.asked t.origin)) ∧
      (OmitsAbstract r schema ↔ ∀ t ∈ schema.types, ∀ k id, .declared k id ∈ set.asked t.origin →
        ∀ c, r.class? k.classKind id = some c → c.isAbstract = false) := by
  obtain ⟨o, scalars, set, b, hb, rfl⟩ := exists_constructs h
  refine ⟨o, scalars, set, hb.resolves, hb.prepared,
    fun k id c hc ha => hb.realizes_abstract_iff hc ha, ?_⟩
  constructor
  · intro hall t ht k id hasked c hc
    by_contra hne
    have ha : c.isAbstract = true := by rwa [Bool.not_eq_false] at hne
    exact hall k id c hc ha ((hb.realizes_abstract_iff hc ha).2 ⟨t, ht, hasked⟩)
  · intro hall k id c hc ha hreal
    obtain ⟨t, ht, hasked⟩ := (hb.realizes_abstract_iff hc ha).1 hreal
    rw [hall t ht k id hasked c hc] at ha
    cases ha

end BuildRequest

/-- An object type, the abstract class that it extends, and a query that returns one of the two. -/
def Registry.extended (returned : EntityId) : Registry :=
  .ofRecords (((EntityTable.empty.declare "Base" none).declare "Recipe" (some 0)).declare "R" none)
    [] [.identified 0 "Base" true [], .identified 1 "Recipe" false []]
    [.node 2 (.declared returned)]

namespace BuildRequest

theorem buildFrom_omitsAbstract_extended :
    ∃ schema, (plain.buildFrom (.extended 1) none).outcome = .ok schema ∧
      schema.types.map NamedType.origin = [.root "Query", .declared .object 1, .scalar "ID"] ∧
        OmitsAbstract (.extended 1) schema := by
  have hfinal : ((plain.buildFrom (.extended 1) none).outcome.toOption.map fun s =>
      s.types.map NamedType.origin) =
        some [.root "Query", .declared .object 1, .scalar "ID"] := by decide +kernel
  obtain ⟨schema, hschema, htypes⟩ := Option.map_eq_some_iff.1 hfinal
  have h := ok_of_toOption hschema
  have hprepared : (Setting.prepare (.extended 1) .standard none).outcome =
      .ok ⟨.extended 1, .standard, none, []⟩ := rfl
  have hasked : ∀ x ∈ [Origin.root "Query", .declared .object 1, .scalar "ID"],
      Setting.asked ⟨.extended 1, .standard, none, []⟩ x ⊆
        [.declared .object 1, .scalar "ID"] := by decide +kernel
  obtain ⟨_, _, set, hresolves, hset, -, hiff⟩ := buildFrom_omitsAbstract_iff h
  cases hresolves
  obtain rfl := Except.ok.inj (hprepared.symm.trans hset)
  refine ⟨schema, h, htypes, hiff.2 ?_⟩
  intro t ht k id hmem c hc
  have horigin : t.origin ∈ [Origin.root "Query", .declared .object 1, .scalar "ID"] :=
    htypes ▸ List.mem_map_of_mem ht
  have hrecipe := hasked _ horigin hmem
  obtain ⟨rfl, rfl⟩ : k = .object ∧ id = 1 := by simpa using hrecipe
  cases hc
  rfl

/-- A reference realizes the abstract class itself. -/
theorem extended_not_omitsAbstract :
    ∃ schema, (plain.buildFrom (.extended 0) none).outcome = .ok schema ∧
      ¬ OmitsAbstract (.extended 0) schema := by
  have hfinal : ((plain.buildFrom (.extended 0) none).outcome.toOption.map fun s =>
      s.types.map NamedType.declaration?) = some [none, some (.object, 0), none] := by
    decide +kernel
  obtain ⟨schema, hschema, htypes⟩ := Option.map_eq_some_iff.1 hfinal
  refine ⟨schema, ok_of_toOption hschema, ?_⟩
  intro hall
  refine hall .object 0 (.identified 0 "Base" true []) rfl rfl (List.mem_map.1 ?_)
  rw [htypes]
  decide

end BuildRequest

end CodeFirst
