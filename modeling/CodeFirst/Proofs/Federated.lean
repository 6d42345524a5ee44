import CodeFirst.Proofs.Blame
import CodeFirst.Proofs.Checked
import CodeFirst.Proofs.Upsert

/-! Federated builds are plain ones. What a directive source adds to the options decides which
directives a schema defines and which types it keeps; its scalars come after all other types. -/

namespace CodeFirst

namespace DirectiveDefinition

def sameName (d e : DirectiveDefinition) : Bool := d.name == e.name

theorem sameName_iff {d e : DirectiveDefinition} : d.sameName e = true ↔ d.name = e.name :=
  beq_iff_eq

theorem mergeDirectives_eq_firsts (target l : List DirectiveDefinition) :
    mergeDirectives target l = target ++ firsts sameName target l := by
  have htrans : ∀ a b c : DirectiveDefinition, a.sameName b = true → b.sameName c = true →
      a.sameName c = true := by
    simp only [sameName_iff]
    exact fun a b c => Eq.trans
  exact (appendNew_eq_firsts sameName htrans (fun _ => rfl) l).1

theorem nodup_specified : (specified.map (·.name)).Nodup := by decide

/-- The definitions of a federated build: the specified ones, then the first one of each other name,
the loaded ones before the configured ones. -/
def federated (f : FederationSet) (o : BuildOptions) : List DirectiveDefinition :=
  specified ++ firsts sameName specified (f.directives ++ o.directives)

variable (f : FederationSet) (o : BuildOptions)

theorem federated_eq_mergeDirectives :
    federated f o = mergeDirectives (mergeDirectives specified f.directives) o.directives := by
  rw [← mergeDirectives_append, mergeDirectives_eq_firsts, federated]

theorem nodup_federated : ((federated f o).map (·.name)).Nodup := by
  rw [federated_eq_mergeDirectives]
  exact nodup_mergeDirectives (nodup_mergeDirectives nodup_specified)

example : (federated ⟨[{ skipIf with description := none }, FederationSet.key], [], []⟩
    .standard).map (·.name) = ["include", "skip", "deprecated", "specifiedBy", "key"] := by decide

theorem mergeDirectives_federated : mergeDirectives specified (federated f o) = federated f o := by
  have hself : mergeDirectives specified specified = specified :=
    appendNew_eq_self fun d hd => List.any_eq_true.2 ⟨d, hd, beq_self_eq_true d.name⟩
  have hrest := nodup_federated f o
  rw [federated] at hrest ⊢
  rw [mergeDirectives_append, hself]
  exact appendNew_eq_append (fun d e => sameName_iff.1) hrest

end DirectiveDefinition

theorem Construction.run_bind {α β : Type} (x : Construction α) (f : α → Construction β)
    (s : Realization) : (x >>= f) s = match x s with
      | (.ok a, t) => f a t
      | (.error e, t) => (.error e, t) := rfl

instance : LawfulMonad Construction := LawfulMonad.mk' Construction
  (fun x => funext fun s => by
    change Construction.bind x (fun a => Construction.pure a) s = x s
    rw [Construction.bind]
    split <;> simp_all [Construction.pure])
  (fun _ _ => rfl)
  (fun x f g => funext fun s => by
    change Construction.bind (Construction.bind x f) g s =
      Construction.bind x (fun a => Construction.bind (f a) g) s
    simp only [Construction.bind]
    rcases x s with ⟨e | a, t⟩ <;> rfl)

/-- Adds a scalar to a schema, unless it has one of that name. -/
def Schema.addScalar (r : Registry) (s : Schema) (t : ScalarType) : Except BuildError Schema :=
  match s.type? t.name with
  | none =>
    .ok { s with types := s.types ++ [.scalar t], names := s.names.insert t.name s.types.length }
  | some (.scalar _) => .ok s
  | some u => .error (.namingConflict t.name (typeLabel r u) (scalarLabel t.name))

def Schema.addScalars (r : Registry) (s : Schema) (l : List ScalarType) :
    Except BuildError Schema := l.foldlM (addScalar r) s

section Scalars

variable {r : Registry} {b : Built} {o : BuildOptions}

/-- The schema of a build that went on from its realization. -/
def Built.continued (b : Built) (o : BuildOptions) {α : Type}
    (x : Except BuildError α × Realization) : Except BuildError Schema :=
  x.1.map fun _ => { b with final := x.2 }.schema o

theorem Built.continued_scalar (hb : b.final.Coherent r) (t : ScalarType) :
    b.continued o ((Realize.scalar t : Realize r TypeId).run b.final) =
      (b.schema o).addScalar r t := by
  have htype : (b.schema o).type? t.name =
      (b.final.typeId? t.name).bind fun i => b.final.types[i]? := rfl
  simp only [Realize.scalar, Schema.addScalar, htype]
  cases hid : b.final.typeId? t.name with
  | none => rfl
  | some i =>
    obtain ⟨u, hu, -⟩ := (hb.typeId?_iff t.name i).1 hid
    cases u <;> simp [hu, continued, NamedType.isScalar, nameClash, typeLabel, NamedType.name,
      Except.map]

theorem Built.continued_addScalars (set : Setting) (hb : b.final.Coherent set.registry)
    (l : List ScalarType) :
    b.continued o ((set.addScalars l).run b.final) =
      (b.schema o).addScalars set.registry l := by
  induction l generalizing b with
  | nil => rfl
  | cons t rest ih =>
    have hfirst := continued_scalar (o := o) hb t
    rw [Schema.addScalars, List.foldlM_cons, ← hfirst, Setting.addScalars, Realize.run_bind]
    rcases hrun : (Realize.scalar t : Realize set.registry TypeId).run b.final with ⟨e | i, s⟩
    · rfl
    · have hs : s.Coherent set.registry := Realize.coherent_run hb hrun
      exact ih (b := { b with final := s }) hs

end Scalars

namespace Setting

variable (set : Setting) (orphaned : List EntityId) (scalars : List ScalarType)

theorem construct_eq_bind : set.construct orphaned scalars =
    set.construct orphaned [] >>= fun x => (set.addScalars scalars).run >>= fun _ => pure x := by
  have hnil : (set.addScalars []).run = (pure () : Construction Unit) := rfl
  obtain ⟨rounds, hrounds⟩ : ∃ x : Construction Nat, set.realizeOrphans 0 = x := ⟨_, rfl⟩
  simp only [construct, hnil, hrounds, bind_assoc, pure_bind]

/-- What a construction comes to. -/
def built : Except BuildError Built :=
  let x := set.construct orphaned scalars .empty
  x.1.map fun y => ⟨y.1, y.2, x.2⟩

variable {set orphaned scalars} in
/-- Extra scalars are added to the schema without them. -/
theorem built_scalars {o : BuildOptions} : (set.built orphaned scalars).map (·.schema o) =
    ((set.built orphaned []).map (·.schema o)).bind fun s =>
      s.addScalars set.registry scalars := by
  rw [built, built, construct_eq_bind, Construction.run_bind]
  rcases hc : set.construct orphaned [] .empty with ⟨e | ⟨roots, n⟩, s⟩
  · rfl
  · have hs : s.Coherent set.registry := (construct_complete hc).rounds.progress.coherent
    refine Eq.trans ?_ (Built.continued_addScalars (b := ⟨roots, n, s⟩) set hs scalars)
    simp only [Construction.run_bind]
    rcases (set.addScalars scalars).run s with ⟨e | _, t⟩ <;> rfl

end Setting

theorem Trial.outcome_bind_eq {ε α β : Type} (x : Trial ε α) (f : α → Trial ε β) :
    (x >>= f).outcome = x.outcome.bind fun a => (f a).outcome := by
  cases h : x.outcome with
  | error e => exact outcome_bind_error h f
  | ok a => exact outcome_bind h f

namespace BuildRequest

variable {q : BuildRequest} {r : Registry} {o : BuildOptions} {scalars : List ScalarType}

theorem outcome_realize : (q.realize r o scalars).outcome =
    r.checkNames.bind fun _ => (Setting.prepare r o q.resolvers).outcome.bind fun set =>
      set.built q.orphaned scalars := by
  rw [realize, Trial.outcome_bind_eq, Trial.outcome_ofExcept]
  congr 1
  funext _
  rw [Trial.outcome_bind_eq]
  congr 1
  funext set
  rw [Setting.built]
  rcases set.construct q.orphaned scalars .empty with ⟨result, s⟩
  refine (Trial.outcome_bind (Trial.outcome_forM_tell s.log) _).trans ?_
  rw [Trial.outcome_bind_eq, Trial.outcome_ofExcept]
  cases result <;> rfl

theorem unchecked_eq_map :
    q.unchecked r o scalars = (q.realize r o scalars).outcome.map (·.schema o) := by
  have hrealize : q.realize r { o with skipCheck := true } scalars = q.realize r o scalars :=
    realize_congr (fun _ => rfl) rfl
  rw [unchecked, outcome_buildWith, hrealize]
  cases (q.realize r o scalars).outcome <;> rfl

theorem unchecked_scalars : q.unchecked r o scalars =
    (q.unchecked r o []).bind fun s => s.addScalars r scalars := by
  rw [unchecked_eq_map, unchecked_eq_map, outcome_realize, outcome_realize]
  cases r.checkNames with
  | error e => rfl
  | ok _ =>
    cases hset : (Setting.prepare r o q.resolvers).outcome with
    | error e => rfl
    | ok set =>
      obtain ⟨-, he⟩ := prepare_eq_ok hset
      have hregistry : set.registry = r := by rw [he]
      subst hregistry
      exact Setting.built_scalars

def unvalidated (q : BuildRequest) : BuildRequest :=
  { q with options := { q.options with skipCheck := true } }

/-- A request that asks for what a federation set adds, too, and for no validation. -/
def federated (q : BuildRequest) (f : FederationSet) : BuildRequest :=
  { q with options := { q.options with
      directives := DirectiveDefinition.federated f q.options
      skipCheck := true
      orphanDirectives := q.options.orphanDirectives ++
        firsts (· == ·) q.options.orphanDirectives f.orphanDirectives } }

theorem federatedOptions_eq (f : FederationSet) :
    federatedOptions q.options f = (q.federated f).options := by
  have hsame : ∀ a b c : String, (a == b) = true → (b == c) = true → (a == c) = true := by simp
  have horphans : appendNew (· == ·) q.options.orphanDirectives f.orphanDirectives = _ :=
    (appendNew_eq_firsts (· == ·) hsame (fun _ => rfl) f.orphanDirectives).1
  rw [federatedOptions, federated, DirectiveDefinition.federated_eq_mergeDirectives, horphans]

theorem outcome_build_federated (f : FederationSet) :
    ((q.federated f).build r).outcome = q.unchecked r (q.federated f).options [] :=
  outcome_buildWith_eq_ite

def buildLoaded (q : BuildRequest) (r : Registry) (f : FederationSet) : Trial BuildError Schema :=
  q.buildWith r (federatedOptions q.options f) f.scalars

theorem outcome_buildFederated (source : DirectiveSource) :
    (q.buildFederated r source).outcome =
      source.load.outcome.bind fun f => (q.buildLoaded r f).outcome := by
  rw [buildFederated, Trial.outcome_bind_eq]
  rfl

theorem outcome_buildLoaded (f : FederationSet) :
    (q.buildLoaded r f).outcome = q.unchecked r (q.federated f).options f.scalars := by
  rw [buildLoaded, federatedOptions_eq]
  exact outcome_buildWith_eq_ite

theorem directives_buildLoaded {f : FederationSet} {schema : Schema}
    (h : (q.buildLoaded r f).outcome = .ok schema) :
    schema.directives = DirectiveDefinition.federated f q.options := by
  rw [buildLoaded, federatedOptions_eq] at h
  obtain ⟨b, -, rfl, -⟩ := buildWith_eq_ok h
  exact DirectiveDefinition.mergeDirectives_federated f q.options

theorem unchecked_ne_invalidSchema (count : Nat) (findings : List Finding) :
    q.unchecked r o scalars ≠ .error (.invalidSchema count findings) := by
  intro h
  rw [unchecked_eq_map] at h
  cases hb : (q.realize r o scalars).outcome with
  | error e =>
    rw [hb] at h
    cases h
    exact realize_justified hb
  | ok b =>
    rw [hb] at h
    cases h

/-- Of the directives of options, a realization reads those that keep types only. -/
theorem unchecked_congr {o' : BuildOptions} (h : ∀ ref, scalarOf? o' r ref = scalarOf? o r ref)
    (hkept : o'.orphanDirectives = o.orphanDirectives)
    (hdirectives : Setting.directives o' = Setting.directives o) :
    q.unchecked r o' scalars = q.unchecked r o scalars := by
  have hsame : Setting.kept r o' = Setting.kept r o := by
    simp only [Setting.kept, BuildOptions.isOrphanDirective, hkept]
  have hschema : (fun b : Built => b.schema o') = fun b => b.schema o := by
    simp only [Built.schema, hdirectives]
  rw [unchecked_eq_map, unchecked_eq_map, realize_congr h hsame, hschema]

/-- A set without directives leaves the configured ones. -/
theorem outcome_buildLoaded_empty :
    (q.buildLoaded r ⟨[], [], []⟩).outcome = (q.unvalidated.build r).outcome := by
  have hdirectives : Setting.directives (q.federated ⟨[], [], []⟩).options =
      Setting.directives q.options :=
    calc Setting.directives (q.federated ⟨[], [], []⟩).options
        = DirectiveDefinition.federated ⟨[], [], []⟩ q.options :=
          DirectiveDefinition.mergeDirectives_federated _ _
      _ = Setting.directives q.options := (DirectiveDefinition.mergeDirectives_eq_firsts _ _).symm
  rw [outcome_buildLoaded]
  exact unchecked_congr (fun _ => rfl) (List.append_nil _) hdirectives

/-- Federation changes options only. A federated build is the plain one of another request, after
which the schema takes in the scalars of the set. It defines each directive once, in the order of
first definitions, and is not validated; with an empty set nothing else is different. -/
theorem buildFederated_eq_build (q : BuildRequest) (r : Registry) :
    (∀ source : DirectiveSource, (q.buildFederated r source).outcome =
      source.load.outcome.bind fun f => (q.buildLoaded r f).outcome) ∧
    (∀ f : FederationSet, (q.buildLoaded r f).outcome =
      ((q.federated f).build r).outcome.bind fun s => s.addScalars r f.scalars) ∧
    (∀ (f : FederationSet) schema, (q.buildLoaded r f).outcome = .ok schema →
      schema.directives = DirectiveDefinition.specified ++
        firsts DirectiveDefinition.sameName DirectiveDefinition.specified
          (f.directives ++ q.options.directives) ∧
      (schema.directives.map (·.name)).Nodup) ∧
    (∀ (f : FederationSet) count findings,
      (q.buildLoaded r f).outcome ≠ .error (.invalidSchema count findings)) ∧
    (q.buildLoaded r ⟨[], [], []⟩).outcome = (q.unvalidated.build r).outcome := by
  refine ⟨outcome_buildFederated, ?_, ?_, ?_, outcome_buildLoaded_empty⟩
  · intro f
    rw [outcome_buildLoaded, unchecked_scalars, outcome_build_federated]
  · intro f schema h
    have hdirectives := directives_buildLoaded h
    constructor
    · exact hdirectives
    · rw [hdirectives]
      exact DirectiveDefinition.nodup_federated f q.options
  · intro f count findings
    rw [outcome_buildLoaded]
    exact unchecked_ne_invalidSchema count findings

theorem buildFederated_eq_build_apollo :
    ∃ schema, (plain.buildFederated .recipes .apollo).outcome = .ok schema ∧
      schema.directives = DirectiveDefinition.specified ++ FederationSet.apollo.directives ∧
      (schema.typeId? "_FieldSet").isSome = true := by
  obtain ⟨hsource, -, hdirectives, -⟩ := buildFederated_eq_build plain .recipes
  have hscalar : ((plain.buildLoaded .recipes .apollo).outcome.toOption.map fun s =>
      (s.typeId? "_FieldSet").isSome) = some true := by decide +kernel
  obtain ⟨schema, hschema, hid⟩ := Option.map_eq_some_iff.1 hscalar
  have h := ok_of_toOption hschema
  exact ⟨schema, (hsource .apollo).trans h, (hdirectives .apollo schema h).1, hid⟩

end BuildRequest

end CodeFirst
