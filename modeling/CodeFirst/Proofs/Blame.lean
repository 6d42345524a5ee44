import CodeFirst.Proofs.Conflicts
import CodeFirst.Proofs.Failures
import CodeFirst.Proofs.Slots

/-! Who is to blame for a type that cannot be determined. The location of such an error names a
property, a handler, a parameter or a class that is registered, and what it refers to is not
declared where it is needed. -/

namespace CodeFirst

/-- Below its lists a reference names no scalar, in the table of the options or built in, and no
entity that is declared as a scalar or in one of these categories. -/
def Reference.Unresolved (o : BuildOptions) (r : Registry) (kinds : List ClassKind)
    (ref : Reference) : Prop :=
  match ref.force.base with
  | .scalar name => o.scalarsMap.get? name = none ∧ o.builtinScalar? name = none
  | .declared id => r.scalar? id = none ∧ ∀ k ∈ kinds, r.class? k id = none
  | _ => False

section Unresolved

variable {o : BuildOptions} {r : Registry} {ref : Reference}

theorem Reference.unresolved_of_scalarOf? {kinds : List ClassKind} (h : scalarOf? o r ref = none)
    (hkinds : ∀ id, ref.entity? = some id → ∀ k ∈ kinds, r.class? k id = none) :
    ref.Unresolved o r kinds := by
  rw [Unresolved, base_force]
  rw [scalarOf?] at h
  rcases ref.base_cases with ⟨name, hbase⟩ | ⟨id, hbase⟩
  · simp only [hbase] at h ⊢
    rw [BuildOptions.namedScalar?] at h
    cases hmap : o.scalarsMap.get? name <;> simp_all
  · simp only [hbase, Option.map_eq_none_iff] at h ⊢
    exact ⟨h, hkinds id (entity?_eq_some_iff.2 hbase)⟩

theorem unresolved_of_outputOrigin? (h : outputOrigin? o r ref = none) :
    ref.Unresolved o r [.object, .interface] := by
  rw [outputOrigin?] at h
  split at h
  · cases h
  · next hscalar =>
    apply Reference.unresolved_of_scalarOf? hscalar
    intro id hid
    rw [hid, Option.bind_some] at h
    cases hobject : r.class? .object id <;> cases hinterface : r.class? .interface id <;>
      simp_all

theorem unresolved_of_inputOrigin? (h : inputOrigin? o r ref = none) :
    ref.Unresolved o r [.input] := by
  rw [inputOrigin?] at h
  split at h
  · cases h
  · next hscalar =>
    apply Reference.unresolved_of_scalarOf? hscalar
    intro id hid
    rw [hid, Option.bind_some] at h
    cases hinput : r.class? .input id <;> simp_all

end Unresolved

section Justified

variable (o : BuildOptions) (r : Registry)

/-- Where an output type, or an implemented interface, cannot be determined. -/
inductive Undetermined : Location → Prop
  | property {k : ClassKind} {c : ClassRecord} {p : Property} (hk : k = .object ∨ k = .interface)
    (known : r.class? k c.target = some c) (hp : p ∈ c.properties)
    (unresolved : p.type.Unresolved o r [.object, .interface]) :
    Undetermined (.ofMember c.name p.name)
  | handler {k : HandlerKind} {h : Handler} {ref : Reference} (known : h ∈ (r.handlers k).records)
    (type : h.type = some ref) (unresolved : ref.Unresolved o r [.object, .interface]) :
    Undetermined (.ofMember (r.entityName h.target) h.method)
  /-- What a class, or an ancestor in its category, implements. -/
  | implements {k : ClassKind} {c d : ClassRecord} {ref : Reference}
    (hk : k = .object ∨ k = .interface) (known : r.class? k c.target = some c)
    (hd : d ∈ r.classChain k c.target) (href : ref ∈ d.interfaces)
    (undeclared : ∀ id, ref.entity? = some id → r.class? .interface id = none) :
    Undetermined (.ofOwner c.name)

/-- Where an input type cannot be determined. -/
inductive UndeterminedInput : Location → Prop
  | parameter {k : HandlerKind} {h : Handler} {p : Parameter} {name : String} {type : Reference}
    {wrapping : Wrapping} {description : Option String} {default : Option Json}
    (known : h ∈ (r.handlers k).records) (hp : p ∈ h.parameters)
    (kind : p.kind = .named name type wrapping description default)
    (unresolved : type.Unresolved o r [.input]) :
    UndeterminedInput ((Location.ofMember (r.entityName h.target) h.method).withIndex p.index)
  | property {k : ClassKind} {c : ClassRecord} {p : Property} (hk : k = .input ∨ k = .args)
    (known : r.class? k c.target = some c) (hp : p ∈ c.properties)
    (unresolved : p.type.Unresolved o r [.input]) : UndeterminedInput (.ofMember c.name p.name)

/-- An error that a construction may stop with. Validation comes after it. -/
def BuildError.Justified : BuildError → Prop
  | .undeterminedType l => Undetermined o r l
  | .cannotDetermineInputType l => UndeterminedInput o r l
  | .invalidSchema .. => False
  | _ => True

abbrev Contribution.Fair (z : Contribution) : Prop := z.FailsOnly o r (BuildError.Justified o r)

abbrev InputContribution.Fair (z : InputContribution) : Prop :=
  z.FailsOnly o r (BuildError.Justified o r)

end Justified

theorem BuildError.justified_of_isConflict {o : BuildOptions} {r : Registry} (e : BuildError)
    (h : e.isConflict = true) : e.Justified o r := by
  cases e with
  | namingConflict name first second => trivial
  | _ => cases h

/-- Justification is about what references denote only. -/
theorem BuildError.Justified.mono {o o' : BuildOptions} {r : Registry} {e : BuildError}
    (ho : ∀ (ref : Reference) kinds, ref.Unresolved o r kinds → ref.Unresolved o' r kinds)
    (h : e.Justified o r) : e.Justified o' r := by
  cases e with
  | undeterminedType l =>
    cases h with
    | property hk known hp unresolved => exact .property hk known hp (ho _ _ unresolved)
    | handler known type unresolved => exact .handler known type (ho _ _ unresolved)
    | implements hk known hd href undeclared => exact .implements hk known hd href undeclared
  | cannotDetermineInputType l =>
    cases h with
    | parameter known hp kind unresolved => exact .parameter known hp kind (ho _ _ unresolved)
    | property hk known hp unresolved => exact .property hk known hp (ho _ _ unresolved)
  | _ => exact h

namespace Registry

variable {o : BuildOptions} {r : Registry}

theorem known_of_mem_classChain {k : ClassKind} {id : EntityId} {c : ClassRecord}
    (h : c ∈ r.classChain k id) : r.class? k c.target = some c := by
  obtain ⟨a, -, ha⟩ := List.mem_filterMap.1 h
  rwa [target_of_class? ha]

theorem fair_ofClass {k : ClassKind} (hk : k = .object ∨ k = .interface) {id : EntityId}
    {c : ClassRecord} (hc : c ∈ r.classChain k id) {z : Contribution}
    (hz : z ∈ Contribution.ofClass c) : z.Fair o r := by
  obtain ⟨p, hp, rfl⟩ := List.mem_map.1 hz
  intro hnone
  exact .property hk (known_of_mem_classChain hc) hp (unresolved_of_outputOrigin? hnone)

theorem fair_ofInterfaces {host : Location} {seen : List EntityId} {refs : List Reference}
    (h : ∀ ref ∈ refs, (∀ id, ref.entity? = some id → r.class? .interface id = none) →
      Undetermined o r host) {z : Contribution}
    (hz : z ∈ Contribution.ofInterfaces r host seen refs) : z.Fair o r := by
  induction refs generalizing seen with
  | nil => exact absurd hz List.not_mem_nil
  | cons ref rest ih =>
    rw [List.forall_mem_cons] at h
    cases hid : ref.entity? with
    | none =>
      rw [Contribution.ofInterfaces_of_eq_none hid, List.mem_cons] at hz
      rcases hz with rfl | hz
      · exact h.1 (by simp [hid])
      · exact ih h.2 hz
    | some id =>
      by_cases hseen : id ∈ seen
      · rw [Contribution.ofInterfaces_of_mem hid hseen] at hz
        exact ih h.2 hz
      · rw [Contribution.ofInterfaces_of_not_mem hid hseen, List.mem_append, List.mem_cons] at hz
        rcases hz with (rfl | hz) | hz
        · intro hnone
          exact h.1 (by simp [hid, hnone])
        · obtain ⟨c, hc, hz⟩ := List.mem_flatMap.1 hz
          exact fair_ofClass (.inr rfl) hc hz
        · exact ih h.2 hz

theorem fair_ofRecord {k : ClassKind} (hk : k = .object ∨ k = .interface) {c : ClassRecord}
    (known : r.class? k c.target = some c) {z : Contribution}
    (hz : z ∈ Contribution.ofInterfaces r (.ofOwner c.name) []
        ((r.classChain k c.target).flatMap (·.interfaces)) ++
      (r.classChain k c.target).flatMap Contribution.ofClass) : z.Fair o r := by
  rcases List.mem_append.1 hz with hz | hz
  · apply fair_ofInterfaces _ hz
    intro ref href hundeclared
    obtain ⟨d, hd, href⟩ := List.mem_flatMap.1 href
    exact .implements hk known hd href hundeclared
  · obtain ⟨d, hd, hz⟩ := List.mem_flatMap.1 hz
    exact fair_ofClass hk hd hz

theorem fair_ofChain {k : ClassKind} (hk : k = .input ∨ k = .args) {id : EntityId}
    {z : InputContribution} (hz : z ∈ InputContribution.ofChain (r.classChain k id)) :
    z.Fair o r := by
  obtain ⟨c, hc, hz⟩ := List.mem_flatMap.1 hz
  obtain ⟨p, hp, rfl⟩ := List.mem_map.1 hz
  intro hnone
  exact .property hk (known_of_mem_classChain hc) hp (unresolved_of_inputOrigin? hnone)

theorem fair_ofParameters {k : HandlerKind} {h : Handler} (hh : h ∈ (r.handlers k).records)
    {z : InputContribution}
    (hz : z ∈ InputContribution.ofParameters r (h.location r) h.parameters) : z.Fair o r := by
  obtain ⟨p, hp, hz⟩ := List.mem_flatMap.1 hz
  have hmem : p ∈ h.parameters := (List.mergeSort_perm _ _).subset hp
  rw [InputContribution.ofParameter] at hz
  cases hkind : p.kind with
  | named name type wrapping description default =>
    simp only [hkind, List.mem_singleton] at hz
    subst hz
    intro hnone
    exact .parameter hh hmem hkind (unresolved_of_inputOrigin? hnone)
  | bundle type =>
    simp only [hkind] at hz
    split at hz
    · split at hz
      · rw [List.mem_singleton] at hz
        subst hz
        trivial
      · exact fair_ofChain (.inr rfl) hz
    · rw [List.mem_singleton] at hz
      subst hz
      trivial

/-- A handler whose type is determined is fair. -/
theorem fair_of_handler {k : HandlerKind} {b : Binding} (hb : b.handler ∈ (r.handlers k).records)
    {ref : Reference} {w : Wrapping}
    (h : outputOrigin? o r ref = none → Undetermined o r (b.handler.location r)) :
    (Contribution.resolver b (some (ref, w))).Fair o r :=
  ⟨h, fun _ hz => fair_ofParameters hb hz⟩

theorem fair_resolver {k : HandlerKind} {b : Binding} (hb : b.handler ∈ (r.handlers k).records)
    {chain : List ClassRecord}
    (determined : ∀ c ∈ chain, ∀ p ∈ c.properties, outputOrigin? o r p.type ≠ none) :
    (Contribution.resolver b (Contribution.resolverType chain b.handler)).Fair o r := by
  rw [Contribution.resolverType]
  cases hown : b.handler.type with
  | some own =>
    apply fair_of_handler hb
    exact fun hnone => .handler hb hown (unresolved_of_outputOrigin? hnone)
  | none =>
    cases hfound : chain.reverse.findSome? (·.property? b.handler.schemaName) with
    | none => trivial
    | some p =>
      apply fair_of_handler hb
      intro hnone
      obtain ⟨c, hc, hp⟩ := List.exists_of_findSome?_eq_some hfound
      exact absurd hnone (determined c (List.mem_reverse.1 hc) p (List.mem_of_find?_eq_some hp))

end Registry

theorem Exposure.mem_records_of_exposed {r : Registry} {filter : ResolverFilter}
    {kind : HandlerKind} {b : Binding} (h : b ∈ (exposed r filter kind).result) :
    b.handler ∈ (r.handlers kind).records := by
  rcases List.mem_append.1 h with h | h
  · exact (mem_direct_iff.1 h).1
  · have hcandidate := (unhidden_sublist _ _).subset (mem_inherited_iff.1 h).2
    exact (mem_candidates_iff.1 hcandidate).1

namespace Realize

variable {r : Registry} {o : BuildOptions} {α : Type}

/-- From coherent realizations, a computation fails with justified errors only. -/
abbrev FailsJustly (o : BuildOptions) (x : Realize r α) : Prop :=
  FailsOnly (BuildError.Justified o r) x

theorem compose_append (c : Composition) (l m : List Contribution) :
    (compose o c (l ++ m) : Realize r Composition) = compose o c l >>= fun c => compose o c m := by
  induction l generalizing c with
  | nil => simp [compose]
  | cons z rest ih => simp only [List.cons_append, compose, ih, bind_assoc]

/-- A property that was realized has a node. -/
theorem denotes_of_compose {s t : Realization} (hs : s.Coherent r) {c c' : Composition}
    {l : List Contribution}
    (h : (compose o c l : Realize r Composition).run s = (.ok c', t)) {declaring : ClassRecord}
    {p : Property} (hp : .property declaring p ∈ l) :
    ∃ n, Denotes t.origins (outputOrigin? o r p.type) p.type p.wrapping n := by
  obtain ⟨-, fs, hfs, -⟩ := compose_composes hs h
  obtain ⟨f, -, n, hn, -⟩ := exists_left_of_forall₂ hfs.flip (List.mem_filter.2 ⟨hp, rfl⟩)
  exact ⟨n, hn⟩

theorem determined_of_compose {s t : Realization} (hs : s.Coherent r) {c c' : Composition}
    {l : List Contribution}
    (h : (compose o c l : Realize r Composition).run s = (.ok c', t)) {declaring : ClassRecord}
    {p : Property} (hp : .property declaring p ∈ l) : outputOrigin? o r p.type ≠ none := by
  obtain ⟨n, hn⟩ := denotes_of_compose hs h hp
  obtain ⟨x, hx, -⟩ := hn.base
  simp [hx]

end Realize

namespace Setting

open Realize BuildError

variable {set : Setting} {orphaned : List EntityId} {scalars : List ScalarType}
  {s t : Realization} {e : BuildError}

def ResolversRegistered (set : Setting) : Prop :=
  ∀ id, ∀ b ∈ set.fieldResolvers id, b.handler ∈ (set.registry.handlers .field).records

/-- The properties come before the resolvers, so that a resolver without a type of its own shows one
whose type is determined. -/
theorem composition_failsJustly (hset : set.ResolversRegistered) (k : CompositeCategory)
    (id : EntityId) : FailsJustly set.options (set.composition k id) := by
  rw [composition, contributions]
  cases hc : set.registry.class? k.classKind id with
  | none => exact .compose justified_of_isConflict ∅ (by simp)
  | some c =>
    have hk : k.classKind = .object ∨ k.classKind = .interface := by
      cases k <;> simp [CompositeCategory.classKind]
    have htarget := Registry.target_of_class? hc
    subst htarget
    simp only [Contribution.ofType]
    rw [compose_append]
    apply FailsOnly.bind
    · apply FailsOnly.compose justified_of_isConflict
      exact fun z hz => Registry.fair_ofRecord hk hc hz
    intro s c' t hs hrun
    apply FailsOnly.compose justified_of_isConflict
    intro z hz
    obtain ⟨b, hb, rfl⟩ := List.mem_map.1 hz
    have hregistered : b.handler ∈ (set.registry.handlers .field).records := by
      by_cases hobject : k = .object
      · rw [if_pos hobject] at hb
        exact hset _ b hb
      · rw [if_neg hobject] at hb
        exact absurd hb List.not_mem_nil
    apply Registry.fair_resolver hregistered
    intro d hd p hp
    have hproperty : Contribution.property d p ∈
        (set.registry.classChain k.classKind c.target).flatMap Contribution.ofClass :=
      List.mem_flatMap.2 ⟨d, hd, List.mem_map_of_mem hp⟩
    exact determined_of_compose hs hrun (List.mem_append_right _ hproperty)

theorem wiringAt_failsJustly (hset : set.ResolversRegistered) (s : Realization) (place : TypeId) :
    FailsJustly set.options (set.wiringAt s place) := by
  rw [wiringAt]
  split
  · next k id _ =>
    refine .bind ?_ fun _ _ _ _ _ => .pure _
    cases k with
    | object => exact .bind (composition_failsJustly hset .object id) fun _ _ _ _ _ => .pure _
    | interface => exact .bind (composition_failsJustly hset .interface id) fun _ _ _ _ _ => .pure _
    | input =>
      refine .bind (.inputValues justified_of_isConflict ∅ ?_) fun _ _ _ _ _ => .pure _
      exact fun _ hz => Registry.fair_ofChain (.inl rfl) hz
  · exact .pure none

theorem rootFields_failsJustly (kind : RootKind) (fields : Fields) {l : List Binding}
    (h : ∀ b ∈ l, b.handler ∈ (set.registry.handlers (.root kind)).records) :
    FailsJustly set.options (set.rootFields kind fields l) := by
  induction l generalizing fields with
  | nil => exact .pure fields
  | cons b rest ih =>
    rw [List.forall_mem_cons] at h
    refine .bind ?_ fun _ f _ _ _ => ih _ h.2
    have hreturn : (BuildError.undefinedReturnType kind.typeName
        (b.handler.location set.registry)).Justified set.options set.registry := trivial
    refine FailsOnly.bind (.ofOption fun _ => hreturn) ?_
    intro s type t _ htype
    obtain ⟨hown, -⟩ := run_ofOption_eq_ok htype
    split
    · exact .fail trivial
    · refine FailsOnly.bind (.registerReference type) ?_
      intro _ _ _ _ _
      apply FailsOnly.handlerField justified_of_isConflict
      apply Registry.fair_of_handler h.1
      exact fun hnone => .handler h.1 hown (unresolved_of_outputOrigin? hnone)

theorem realizeDrained_failsJustly (n : Nat) (l : List (TypeCategory × ClassRecord)) :
    FailsJustly set.options (set.realizeDrained n l) := by
  induction l generalizing n with
  | nil => exact .pure n
  | cons x rest ih =>
    refine FailsOnly.bind (.isRealized _ _) ?_
    intro _ known _ _ _
    exact .bind (.declared? justified_of_isConflict _ _) fun _ _ _ _ _ => ih _

theorem addScalars_failsJustly (l : List ScalarType) :
    FailsJustly set.options (set.addScalars l) := by
  induction l with
  | nil => exact .pure ()
  | cons t rest ih => exact .bind (.scalar justified_of_isConflict t) fun _ _ _ _ _ => ih

/-- A step that fails does so justly. -/
theorem Transition.justified (hset : set.ResolversRegistered) {stage : Stage} {a : Act}
    (h : set.Transition orphaned scalars stage s a (.finished (some e)) t)
    (hs : s.Coherent set.registry) : e.Justified set.options set.registry := by
  cases h with
  | @refused kind _ _ _ _ hb hr =>
    rw [addRoot] at hr
    split at hr <;> cases hr
    trivial
  | failedRoot hr =>
    refine rootFields_failsJustly _ _ ?_ s e hs (congrArg Prod.fst hr)
    exact fun b hb => Exposure.mem_records_of_exposed hb
  | failedShell hp hr =>
    refine wiringAt_failsJustly hset _ _ _ e ?_ (congrArg Prod.fst hr)
    exact hs.of_shells rfl rfl fun _ hid => hid
  | failedRound hp hd hr =>
    refine realizeDrained_failsJustly _ _ _ e ?_ (congrArg Prod.fst hr)
    refine hs.of_shells rfl rfl fun _ hid => ?_
    have hseen := Orphans.mem_seen_drain (r := set.registry).2 (.inl hid)
    rwa [hd] at hseen
  | failedScalars hr => exact addScalars_failsJustly _ s e hs (congrArg Prod.fst hr)

theorem construct_justified (hset : set.ResolversRegistered)
    (h : (set.construct orphaned scalars .empty).1 = .error e) :
    e.Justified set.options set.registry := by
  obtain ⟨l, hc⟩ := construct_course set orphaned scalars
  rw [h, error?] at hc
  cases hc with
  | step hc ht => exact ht.justified hset (hc.moves.coherent Realization.coherent_empty)

end Setting

theorem DirectiveSource.error_of_load {source : DirectiveSource} {e : BuildError}
    (h : source.load.outcome = .error e) :
    ∃ name reason, e = .missingDirectiveSource name reason := by
  cases source with
  | apollo => cases h
  | file path content =>
    cases content with
    | error reason =>
      cases h
      exact ⟨_, _, rfl⟩
    | ok content =>
      rw [DirectiveSource.load] at h
      cases hset : FederationSet.shape.ofText content with
      | none =>
        rw [hset] at h
        cases h
        exact ⟨_, _, rfl⟩
      | some f =>
        rw [hset] at h
        cases h

namespace BuildRequest

variable {q : BuildRequest} {r : Registry} {o : BuildOptions} {scalars : List ScalarType}
  {e : BuildError}

theorem prepare_justified (h : (Setting.prepare r o q.resolvers).outcome = .error e) :
    e.Justified o r := by
  rcases Trial.bind_eq_error h with h | ⟨bindings, -, h⟩
  · cases h
  · rcases Trial.bind_eq_error h with h | ⟨_, -, h⟩
    · rw [Trial.outcome_ofExcept] at h
      obtain ⟨_, hok, -⟩ | ⟨e', he', hrefused⟩ :=
        Attachment.Attached.nil.run (r := r) (l := bindings)
      · rw [h] at hok
        cases hok
      · rw [h, Except.error.injEq] at he'
        subst he'
        rcases hrefused with ⟨_, -, -, rfl⟩ | ⟨_, -, _, -, -, _, -, rfl⟩ <;> trivial
    · cases h

/-- Up to validation, a build fails with justified errors only. -/
theorem realize_justified (h : (q.realize r o scalars).outcome = .error e) :
    e.Justified o r := by
  rcases Trial.bind_eq_error h with h | ⟨_, -, h⟩
  · rw [Trial.outcome_ofExcept] at h
    obtain ⟨_, _, _, -, rfl⟩ := Registry.checkNames_eq_error h
    trivial
  rcases Trial.bind_eq_error h with h | ⟨set, hset, h⟩
  · exact prepare_justified h
  · obtain ⟨-, hsetting⟩ := prepare_eq_ok hset
    have hregistered : set.ResolversRegistered := by
      intro id b hb
      have hexposed := (Setting.mem_fieldResolvers hset hb).1
      rw [hsetting]
      exact Exposure.mem_records_of_exposed hexposed
    have hregistry : set.registry = r := by rw [hsetting]
    have hoptions : set.options = o := by rw [hsetting]
    rcases hc : set.construct q.orphaned scalars .empty with ⟨result, s⟩
    rw [hc] at h
    rcases Trial.bind_eq_error h with h | ⟨_, -, h⟩
    · rw [Trial.outcome_forM_tell] at h
      cases h
    · rcases Trial.bind_eq_error h with h | ⟨_, -, h⟩
      · rw [Trial.outcome_ofExcept] at h
        have hjust := Setting.construct_justified hregistered ((congrArg Prod.fst hc).trans h)
        rwa [hregistry, hoptions] at hjust
      · cases h

theorem error_of_buildWith (h : (q.buildWith r o scalars).outcome = .error e) :
    e.Justified o r ∨ ∃ count findings, e = .invalidSchema count findings := by
  rcases Trial.bind_eq_error h with h | ⟨b, -, h⟩
  · exact .inl (realize_justified h)
  · cases hskip : o.skipCheck with
    | true =>
      rw [hskip] at h
      cases h
    | false =>
      rw [hskip] at h
      rcases Trial.bind_eq_error h with h | ⟨_, -, h⟩
      · change (b.schema o).check = .error e at h
        rw [Schema.check] at h
        split at h <;> cases h
        exact .inr ⟨_, _, rfl⟩
      · cases h

/-- Errors about types that cannot be determined are justified: they name something registered that
refers to what is not declared where it is needed. -/
theorem buildFrom_blames (q : BuildRequest) (r : Registry) (source : Option DirectiveSource)
    {e : BuildError} (h : (q.buildFrom r source).outcome = .error e) :
    (∀ l, e = .undeterminedType l → Undetermined q.options r l) ∧
      ∀ l, e = .cannotDetermineInputType l → UndeterminedInput q.options r l := by
  have hcases : e.Justified q.options r ∨ (∃ count findings, e = .invalidSchema count findings) ∨
      ∃ name reason, e = .missingDirectiveSource name reason := by
    cases source with
    | none => exact (error_of_buildWith h).imp_right .inl
    | some source =>
      rcases Trial.bind_eq_error h with h | ⟨f, -, h⟩
      · exact .inr (.inr (DirectiveSource.error_of_load h))
      · rcases Trial.bind_eq_error h with h | ⟨_, -, h⟩
        · cases h
        · have hfederated := error_of_buildWith h
          have hunresolved : ∀ (ref : Reference) kinds,
              ref.Unresolved (federatedOptions q.options f) r kinds →
                ref.Unresolved q.options r kinds := fun _ _ hu => hu
          exact hfederated.imp (.mono hunresolved) .inl
  rcases hcases with h | ⟨_, _, rfl⟩ | ⟨_, _, rfl⟩
  · constructor
    · rintro l rfl
      exact h
    · rintro l rfl
      exact h
  · simp
  · simp

end BuildRequest

def Registry.anonymous : Registry :=
  .ofRecords (((EntityTable.empty.declare "Node" none).declare "Recipe" none).declare "R" none)
    [.identified 0 "Node" false []]
    [{ ClassRecord.identified 1 "Recipe" false [.declared 0] with
      properties := [⟨"author", "author", .list (.declared 2), .plain, none, none, none, []⟩] }]
    [.node 2 (.declared 0)]

theorem BuildRequest.buildFrom_blames_anonymous :
    (plain.buildFrom .anonymous none).outcome =
        .error (.undeterminedType (.ofMember "Recipe" "author")) ∧
      Undetermined .standard .anonymous (.ofMember "Recipe" "author") := by
  have herror : error? (plain.buildFrom .anonymous none).outcome =
      some (.undeterminedType (.ofMember "Recipe" "author")) := by decide +kernel
  have h : (plain.buildFrom .anonymous none).outcome =
      .error (.undeterminedType (.ofMember "Recipe" "author")) := by
    cases hbuild : (plain.buildFrom .anonymous none).outcome with
    | error e =>
      rw [hbuild, error?, Option.some.injEq] at herror
      rw [herror]
    | ok s =>
      rw [hbuild] at herror
      cases herror
  exact ⟨h, (buildFrom_blames plain .anonymous none h).1 _ rfl⟩

end CodeFirst
