import CodeFirst.Proofs.Counterpart
import CodeFirst.Proofs.Registration

/-! Schemas built from the same declarations in another order. Both are built or neither is, and
they print the same when sorted. -/

namespace CodeFirst

namespace Registry.Alike

variable {r r' : Registry} {o : BuildOptions} {q : BuildRequest} {scalars : List ScalarType}
  {offered : ScalarType → Prop}

theorem realize (h : r.Alike r') (hr : r.HandlersApart) (ho : Offers offered o r)
    (hl : ∀ x ∈ scalars, offered x)
    (hscalars : ∀ x y, offered x → offered y → x.name = y.name → x = y) {b : Built}
    (hb : (q.realize r o scalars).outcome = .ok b) :
    ∃ b', (q.realize r' o scalars).outcome = .ok b' ∧ (b.schema o).Alike (b'.schema o) := by
  obtain ⟨hnames, set, hset, hc⟩ := BuildRequest.realize_eq_ok hb
  obtain ⟨set', hset', halike⟩ := h.prepare hr hset
  obtain ⟨-, he⟩ := BuildRequest.prepare_eq_ok hset
  have hoffers : Offers offered set.options set.registry := by
    rw [he]
    exact ho
  obtain ⟨roots', n', s', hc', habreast⟩ := halike.construct hoffers hl hc
  have hcomplete := Setting.construct_complete hc
  have hcomplete' := Setting.construct_complete hc'
  refine ⟨⟨roots', n', s'⟩, ?_, ?_⟩
  · have hnames' : (Trial.ofExcept r'.checkNames).outcome = .ok () := h.checkNames hnames
    refine (Trial.outcome_bind hnames' _).trans ?_
    refine (Trial.outcome_bind hset' _).trans ?_
    rw [hc']
    exact (Trial.outcome_bind (Trial.outcome_forM_tell s'.log) _).trans rfl
  · exact habreast.schemaAlike rfl rfl hcomplete.pending hcomplete'.pending
      (fun kind => (hcomplete.roots kind).nodup) hscalars rfl

theorem buildWith (h : r.Alike r') (hr : r.HandlersApart) (ho : Offers offered o r)
    (hl : ∀ x ∈ scalars, offered x)
    (hscalars : ∀ x y, offered x → offered y → x.name = y.name → x = y) {schema : Schema}
    (hb : (q.buildWith r o scalars).outcome = .ok schema) :
    ∃ schema', (q.buildWith r' o scalars).outcome = .ok schema' ∧ schema.Alike schema' := by
  obtain ⟨b, hrealize, rfl, hcheck⟩ := BuildRequest.buildWith_eq_ok hb
  obtain ⟨b', hrealize', halike⟩ := h.realize hr ho hl hscalars hrealize
  refine ⟨b'.schema o, ?_, halike⟩
  refine (Trial.outcome_bind hrealize' _).trans ?_
  cases hskip : o.skipCheck with
  | true => rfl
  | false =>
    have hcheck' : (Trial.ofExcept (b'.schema o).check).outcome = .ok () :=
      (Schema.check_eq_ok_iff _).2 (halike.findings_iff.1 (hcheck hskip))
    exact (Trial.outcome_bind hcheck' _).trans rfl

end Registry.Alike

namespace BuildRequest

variable {q : BuildRequest} {r r' : Registry} {source : Option DirectiveSource}
  {offered : ScalarType → Prop}

theorem scalarOf?_federatedOptions (o : BuildOptions) (f : FederationSet) :
    scalarOf? (federatedOptions o f) r = scalarOf? o r := rfl

theorem buildFrom_of_alike (h : r.Alike r') (hr : r.HandlersApart)
    (ho : Offers offered q.options r)
    (hsource : ∀ s f, source = some s → s.load.outcome = .ok f → ∀ x ∈ f.scalars, offered x)
    (hscalars : ∀ x y, offered x → offered y → x.name = y.name → x = y) {schema : Schema}
    (hb : (q.buildFrom r source).outcome = .ok schema) :
    ∃ schema', (q.buildFrom r' source).outcome = .ok schema' ∧ schema.Alike schema' := by
  cases source with
  | none => exact h.buildWith hr ho (by simp) hscalars hb
  | some s =>
    obtain ⟨f, hf, hrest⟩ := Trial.bind_eq_ok hb
    obtain ⟨_, htell, hwith⟩ := Trial.bind_eq_ok hrest
    have hof : Offers offered (federatedOptions q.options f) r := by
      rw [Offers]
      rw [scalarOf?_federatedOptions]
      exact ho
    obtain ⟨schema', hb', halike⟩ := h.buildWith hr hof (hsource s f rfl hf) hscalars hwith
    refine ⟨schema', ?_, halike⟩
    exact (Trial.outcome_bind hf _).trans ((Trial.outcome_bind htell _).trans hb')

end BuildRequest

/-- The scalars that a build may realize: those that options give to names of references, those that
are declared, and those of a directive source. -/
inductive ScalarType.Realizable (o : BuildOptions) (source : Option DirectiveSource)
    (t : EntityTable) (l : List Declaration) : ScalarType → Prop
  | named {name : String} {x : ScalarType} (h : o.namedScalar? name = some x) :
    Realizable o source t l x
  | declared {target : EntityId} {name description : Option String}
    (h : .scalar target name description ∈ l) :
    Realizable o source t l ⟨name.getD (t.name target), description, none⟩
  | federated {s : DirectiveSource} {f : FederationSet} {x : ScalarType} (hs : source = some s)
    (hf : s.load.outcome = .ok f) (hx : x ∈ f.scalars) : Realizable o source t l x

/-- Declarations about different things: no two of one class, scalar, resolver class or handler, no
two handlers of one kind and class under one name, and no two scalars under one name. -/
structure Declarations.Apart (o : BuildOptions) (source : Option DirectiveSource)
    (t : EntityTable) (l : List Declaration) : Prop where
  keys : (l.map Declaration.key).Nodup
  places : (l.filterMap Declaration.place?).Nodup
  scalars : ∀ x y, ScalarType.Realizable o source t l x → ScalarType.Realizable o source t l y →
    x.name = y.name → x = y

theorem ScalarType.Realizable.of_perm {o : BuildOptions} {source : Option DirectiveSource}
    {t : EntityTable} {l l' : List Declaration} (hp : l.Perm l') {x : ScalarType}
    (h : Realizable o source t l x) : Realizable o source t l' x := by
  cases h with
  | named h => exact .named h
  | declared h => exact .declared (hp.subset h)
  | federated hs hf hx => exact .federated hs hf hx

namespace Declarations

variable {o : BuildOptions} {source : Option DirectiveSource} {t : EntityTable}
  {l l' : List Declaration}

theorem Apart.of_perm (hp : l.Perm l') (h : Apart o source t l) : Apart o source t l' := by
  refine ⟨(hp.map _).nodup_iff.1 h.keys, (hp.filterMap _).nodup_iff.1 h.places, ?_⟩
  intro x y hx hy
  exact h.scalars x y (hx.of_perm hp.symm) (hy.of_perm hp.symm)

/-- References denote scalars that may be realized. -/
theorem offers {r : Registry} (h : (Registry.ofEntities t).Holds l r) :
    Offers (ScalarType.Realizable o source t l) o r := by
  intro ref x hx
  rw [scalarOf?] at hx
  split at hx
  · exact .named hx
  · obtain ⟨record, hrecord, rfl⟩ := Option.map_eq_some_iff.1 hx
    have hmem : record ∈ r.scalars.records := (Catalog.get?_eq_some_iff.1 hrecord).1
    rw [h.scalars] at hmem
    obtain ⟨d, hd, hscalar⟩ := List.mem_filterMap.1 hmem
    cases d with
    | scalar target name description =>
      cases hscalar
      exact .declared hd
    | _ => cases hscalar
  · cases hx

/-- A schema is built from declarations in another order, too, with the same content. -/
theorem buildFrom_of_perm {q : BuildRequest} {r r' : Registry} {schema : Schema}
    (hp : l.Perm l') (h : Apart q.options source t l)
    (hr : (ofList t l).finish.outcome = .ok r) (hr' : (ofList t l').finish.outcome = .ok r')
    (hb : (q.buildFrom r source).outcome = .ok schema) :
    ∃ schema', (q.buildFrom r' source).outcome = .ok schema' ∧ schema.Alike schema' := by
  have hholds := finish_holds h.keys hr
  have hholds' := finish_holds (h.of_perm hp).keys hr'
  refine BuildRequest.buildFrom_of_alike (hholds.alike hholds' hp)
    (hholds.handlersApart h.places) (offers hholds) ?_ h.scalars hb
  intro s f hs hf x hx
  exact .federated hs hf hx

/-- The order of declarations does not matter: they are finished in any order or in none, a schema
is built for every order or for none, and sorted it always prints the same. -/
theorem build_perm {q : BuildRequest} (hp : l.Perm l') (h : Apart q.options source t l) :
    ((∃ r, (ofList t l).finish.outcome = .ok r) ↔ ∃ r, (ofList t l').finish.outcome = .ok r) ∧
      ∀ r r', (ofList t l).finish.outcome = .ok r → (ofList t l').finish.outcome = .ok r' →
        ((∃ s, (q.buildFrom r source).outcome = .ok s) ↔
          ∃ s, (q.buildFrom r' source).outcome = .ok s) ∧
        ∀ s s', (q.buildFrom r source).outcome = .ok s →
          (q.buildFrom r' source).outcome = .ok s' →
          ∀ p : PrintOptions, p.sortTypes = true → Sdl.print p s = Sdl.print p s' := by
  have h' := h.of_perm hp
  refine ⟨⟨finish_of_perm hp h.keys, finish_of_perm hp.symm h'.keys⟩, ?_⟩
  intro r r' hr hr'
  refine ⟨⟨?_, ?_⟩, ?_⟩
  · rintro ⟨s, hs⟩
    obtain ⟨s', hs', -⟩ := buildFrom_of_perm hp h hr hr' hs
    exact ⟨s', hs'⟩
  · rintro ⟨s', hs'⟩
    obtain ⟨s, hs, -⟩ := buildFrom_of_perm hp.symm h' hr' hr hs'
    exact ⟨s, hs⟩
  · intro s s' hs hs' p hsorted
    obtain ⟨u, hu, halike⟩ := buildFrom_of_perm hp h hr hr' hs
    rw [hs', Except.ok.injEq] at hu
    rw [hu]
    exact Sdl.print_eq hsorted halike

end Declarations

def ClassDeclaration.identified (target : EntityId) (interfaces : List Reference) :
    ClassDeclaration :=
  ⟨target, none, none, false,
    [⟨"id", none, some (.scalar "ID"), .plain, none, none, none, []⟩], interfaces, []⟩

def HandlerDeclaration.plain (target : EntityId) (method : String) (type : Reference) :
    HandlerDeclaration :=
  ⟨target, method, none, some type, .plain, [], none, none, [], none, ∅⟩

/-- An interface, an object type that implements it, and a query for each of them. -/
def Declarations.recipes : List Declaration :=
  [.class .interface (.identified 0 []), .class .object (.identified 1 [.declared 0]),
    .handler (.root .query) (.plain 2 "node" (.declared 0)),
    .handler (.root .query) (.plain 2 "recipe" (.declared 1))]

theorem BuildOptions.eq_of_name_standard {m n : String} {x y : ScalarType}
    (hx : standard.namedScalar? m = some x) (hy : standard.namedScalar? n = some y)
    (hn : x.name = y.name) : x = y := by
  let l : List ScalarType := [.named "String", .named "Boolean", .named "Int", .named "Float",
    .named "ID", ⟨"DateTime", some dateTimeDescription, none⟩]
  have hmem : ∀ n x, standard.namedScalar? n = some x → x ∈ l := by
    intro n x h
    have hbuiltin : standard.builtinScalar? n = some x := h
    unfold builtinScalar? at hbuiltin
    split at hbuiltin <;> simp_all [standard, l]
  have hnames : ∀ x ∈ l, ∀ y ∈ l, x.name = y.name → x = y := by decide
  exact hnames x (hmem m x hx) y (hmem n y hy) hn

theorem Declarations.apart_recipes :
    Apart .standard none Registry.recipes.entities recipes := by
  have hnamed : ∀ x, ScalarType.Realizable .standard none Registry.recipes.entities recipes x →
      ∃ name, BuildOptions.standard.namedScalar? name = some x := by
    intro x hx
    cases hx with
    | named h => exact ⟨_, h⟩
    | declared h => simp [recipes] at h
    | federated hs hf hx => cases hs
  refine ⟨by decide, by decide, ?_⟩
  intro x y hx hy
  obtain ⟨m, hm⟩ := hnamed x hx
  obtain ⟨n, hn⟩ := hnamed y hy
  exact BuildOptions.eq_of_name_standard hm hn

/-- In reverse order the types come in another order, and the sorted text is the same. -/
theorem Declarations.build_perm_recipes :
    ∃ r r' s s', (ofList Registry.recipes.entities recipes).finish.outcome = .ok r ∧
      (ofList Registry.recipes.entities recipes.reverse).finish.outcome = .ok r' ∧
      (BuildRequest.plain.buildFrom r none).outcome = .ok s ∧
      (BuildRequest.plain.buildFrom r' none).outcome = .ok s' ∧
      s.types.map NamedType.name = ["Query", "Node", "Recipe", "ID"] ∧
      s'.types.map NamedType.name = ["Query", "Recipe", "Node", "ID"] ∧
      ∀ p : PrintOptions, p.sortTypes = true → Sdl.print p s = Sdl.print p s' := by
  have hbuilt : ∀ l names, (((ofList Registry.recipes.entities l).finish.outcome.toOption.bind
        fun r => (BuildRequest.plain.buildFrom r none).outcome.toOption).map
          fun s => s.types.map NamedType.name) = some names →
      ∃ r s, (ofList Registry.recipes.entities l).finish.outcome = .ok r ∧
        (BuildRequest.plain.buildFrom r none).outcome = .ok s ∧
        s.types.map NamedType.name = names := by
    intro l names h
    obtain ⟨s, hs, hnames⟩ := Option.map_eq_some_iff.1 h
    obtain ⟨r, hr, hs⟩ := Option.bind_eq_some_iff.1 hs
    exact ⟨r, s, ok_of_toOption hr, ok_of_toOption hs, hnames⟩
  obtain ⟨r, s, hr, hs, hnames⟩ :=
    hbuilt recipes ["Query", "Node", "Recipe", "ID"] (by decide +kernel)
  obtain ⟨r', s', hr', hs', hnames'⟩ :=
    hbuilt recipes.reverse ["Query", "Recipe", "Node", "ID"] (by decide +kernel)
  obtain ⟨-, hbuild⟩ := build_perm (q := .plain) recipes.reverse_perm.symm apart_recipes
  exact ⟨r, r', s, s', hr, hr', hs, hs', hnames, hnames', (hbuild r r' hr hr').2 s s' hs hs'⟩

end CodeFirst
