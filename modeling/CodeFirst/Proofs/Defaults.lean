import CodeFirst.Proofs.Ancestry
import CodeFirst.Proofs.Instances
import CodeFirst.Proofs.Parameters

/-! Whose defaults are shown. The default of an argument or input field is read from an instance of
the class that declares it. An instance of the type that is built may assign something else: what
the entities between the two assign comes first there. -/

namespace CodeFirst

namespace EntityTable

variable {t : EntityTable} {id a : EntityId} {k : String}

/-- What an entity's own part of the construction assigns to a property. -/
def own? (t : EntityTable) (k : String) (id : EntityId) : Option Json :=
  (t.defaults? id).bind (·.get? k)

/-- The entities from one down to an ancestor, without that ancestor. -/
def below (t : EntityTable) (id a : EntityId) : List EntityId :=
  (t.nearestFirst id).takeWhile (· != a)

/-- The nearest entity that assigns a property decides on its value. -/
theorem get?_instantiate_eq_findSome? (t : EntityTable) (id : EntityId) (k : String) :
    (t.instantiate id).bind (·.get? k) = (t.nearestFirst id).findSome? (t.own? k) := by
  fun_induction ancestors t id with
  | case1 id hp =>
    rw [get?_instantiate, hp, nearestFirst_of_parent?_eq_none hp]
    simp [own?]
  | case2 id p hp hlt ih =>
    rw [get?_instantiate, hp, nearestFirst_of_parent? hp, List.findSome?_cons, Option.bind_some, ih]
    change (t.own? k id).or _ = _
    cases t.own? k id <;> rfl

theorem nearestFirst_eq_below (h : a ∈ t.lineage id) :
    t.nearestFirst id = t.below id a ++ t.nearestFirst a := by
  fun_induction ancestors t id with
  | case1 id hp =>
    rw [lineage, ancestors_of_parent?_eq_none hp, List.nil_append, List.mem_singleton] at h
    subst h
    simp [below, nearestFirst]
  | case2 id p hp hlt ih =>
    by_cases ha : a = id
    · subst ha
      simp [below, nearestFirst]
    · rw [mem_lineage_iff, ancestors_of_parent? hp] at h
      have hbelow : t.below id a = id :: t.below p a := by
        rw [below, nearestFirst_of_parent? hp,
          List.takeWhile_cons_of_pos (by simpa using Ne.symm ha)]
        rfl
      rw [hbelow, List.cons_append, ← ih (h.resolve_right ha), nearestFirst_of_parent? hp]

/-- An instance has what the entities below an ancestor assign, or else what the instances of the
ancestor have. -/
theorem get?_instantiate_eq_or (h : a ∈ t.lineage id) :
    (t.instantiate id).bind (·.get? k) =
      ((t.below id a).findSome? (t.own? k)).or ((t.instantiate a).bind (·.get? k)) := by
  rw [get?_instantiate_eq_findSome?, nearestFirst_eq_below h, List.findSome?_append,
    get?_instantiate_eq_findSome?]

end EntityTable

/-- The instances of an entity and of an ancestor give a property the same default exactly if
nothing between them assigns another value. -/
theorem Property.resolvedDefault_eq_iff {t : EntityTable} {id a : EntityId} (p : Property)
    (h : a ∈ t.lineage id) :
    p.resolvedDefault (t.instantiate a) = p.resolvedDefault (t.instantiate id) ↔
      ∀ v, (t.below id a).findSome? (t.own? p.name) = some v →
        p.resolvedDefault (t.instantiate a) = some v := by
  have hid : p.resolvedDefault (t.instantiate id) =
      ((t.below id a).findSome? (t.own? p.name)).or (p.resolvedDefault (t.instantiate a)) := by
    simp only [resolvedDefault_eq_or, EntityTable.get?_instantiate_eq_or h, Option.or_assoc]
  rw [hid]
  cases (t.below id a).findSome? (t.own? p.name) with
  | none => simp
  | some v => simp

theorem InputContribution.mem_ofChain_iff {chain : List ClassRecord} {x : InputContribution} :
    x ∈ ofChain chain ↔ ∃ c ∈ chain, ∃ p ∈ c.properties, .property c p = x := by
  simp only [ofChain, ofClass, List.mem_flatMap, List.mem_map]

namespace Registry

/-- The property that gives the value of a name: the last one along the classes of an entity and its
ancestors, if nothing later has the name. -/
structure Declares (r : Registry) (kind : ClassKind) (id : EntityId)
    (later : List InputContribution) (name : String) (c : ClassRecord) (p : Property) : Prop where
  last : ((InputContribution.ofChain (r.classChain kind id)).filter
    fun x => x.key = name).getLast? = some (.property c p)
  unshadowed : ∀ x ∈ later, x.key ≠ name

/-- Values that have the defaults which instances of a source assign, or else the explicit ones. -/
def ShowsDefaults (r : Registry) (source : ClassRecord → EntityId) (kind : ClassKind)
    (id : EntityId) (later : List InputContribution) (values : InputValues) : Prop :=
  ∀ name c p, r.Declares kind id later name c p → ∃ v, values.get? name = some v ∧
    v.default = p.resolvedDefault (r.entities.instantiate (source c))

/-- Whatever is assigned below a class to one of its properties is what its own instances show. -/
def NoneOverridden (r : Registry) (kind : ClassKind) (id : EntityId)
    (later : List InputContribution) : Prop :=
  ∀ name c p, r.Declares kind id later name c p →
    ∀ v, (r.entities.below id c.target).findSome? (r.entities.own? p.name) = some v →
      p.resolvedDefault (r.entities.instantiate c.target) = some v

variable {r : Registry} {kind : ClassKind} {id : EntityId} {later : List InputContribution}
  {name : String} {c : ClassRecord} {p : Property} {values : InputValues}

theorem Declares.target_mem (h : r.Declares kind id later name c p) :
    c.target ∈ r.entities.lineage id := by
  have hmem : .property c p ∈ InputContribution.ofChain (r.classChain kind id) :=
    List.mem_of_mem_filter (List.mem_of_getLast? h.last)
  obtain ⟨c', hc', p', -, heq⟩ := InputContribution.mem_ofChain_iff.1 hmem
  cases heq
  obtain ⟨a, ha, hclass⟩ := List.mem_filterMap.1 hc'
  rwa [target_of_class? hclass]

/-- What is declared last is shown, whoever comes before. -/
theorem showsDefaults_target {o : BuildOptions} {H : List Origin}
    (before : List InputContribution)
    (h : LastWins (InputContribution.Shows o r H) InputContribution.key InputValue.name
      (before ++ InputContribution.ofChain (r.classChain kind id) ++ later) values) :
    r.ShowsDefaults ClassRecord.target kind id later values := by
  intro name c p hp
  have hshown := h.shown name
  have hlater : later.filter (fun x => x.key = name) = [] :=
    List.filter_eq_nil_iff.2 fun x hx => by simpa using hp.unshadowed x hx
  rw [List.filter_append, List.filter_append, hlater, List.append_nil, List.getLast?_append,
    hp.last, Option.some_or] at hshown
  generalize hget : values.get? name = v? at hshown
  cases hshown with
  | some hv =>
    obtain ⟨n, -, rfl⟩ := hv
    exact ⟨_, rfl, (p.resolvedDefault_eq_or _).symm⟩

theorem showsDefaults_iff_noneOverridden
    (h : r.ShowsDefaults ClassRecord.target kind id later values) :
    r.ShowsDefaults (fun _ => id) kind id later values ↔ r.NoneOverridden kind id later := by
  have hiff : ∀ name c p, r.Declares kind id later name c p →
      ((∃ v, values.get? name = some v ∧
          v.default = p.resolvedDefault (r.entities.instantiate id)) ↔
        ∀ v, (r.entities.below id c.target).findSome? (r.entities.own? p.name) = some v →
          p.resolvedDefault (r.entities.instantiate c.target) = some v) := by
    intro name c p hp
    obtain ⟨v, hv, hdefault⟩ := h name c p hp
    rw [← p.resolvedDefault_eq_iff hp.target_mem, ← hdefault]
    simp [hv]
  constructor
  · intro hid name c p hp
    exact (hiff name c p hp).1 (hid name c p hp)
  · intro hnone name c p hp
    exact (hiff name c p hp).2 (hnone name c p hp)

/-- What the classes of a chain give is each name that one of them declares. -/
theorem isSome_get?_iff_declares {o : BuildOptions} {H : List Origin}
    (h : LastWins (InputContribution.Shows o r H) InputContribution.key InputValue.name
      (InputContribution.ofChain (r.classChain kind id)) values) :
    (values.get? name).isSome ↔ ∃ c p, r.Declares kind id [] name c p := by
  have hshown := h.shown name
  generalize hlast : ((InputContribution.ofChain (r.classChain kind id)).filter
    fun x => x.key = name).getLast? = x? at hshown
  generalize values.get? name = v? at hshown
  cases hshown with
  | none =>
    refine iff_of_false (by simp) ?_
    rintro ⟨c, p, hp⟩
    rw [hp.last] at hlast
    cases hlast
  | some hv =>
    refine iff_of_true rfl ?_
    obtain ⟨c, -, p, -, rfl⟩ := InputContribution.mem_ofChain_iff.1
      (List.mem_of_mem_filter (List.mem_of_getLast? hlast))
    exact ⟨c, p, hlast, by simp⟩

end Registry

namespace Realize

variable {r : Registry} {s : Realization}

/-- The fields of an input type, and those that a bundle gives to a handler, show what instances of
the declaring classes assign. So they show what instances of the type itself assign exactly if
nothing assigned below a declaring class is another value. -/
theorem showsDefaults_iff (hs : Realization.Passes r .empty s) (o : BuildOptions) :
    (∀ (id : EntityId) (values : InputValues) (u : Realization),
      (inputFields o id : Realize r InputValues).run s = (.ok values, u) →
        (∀ name, (values.get? name).isSome ↔ ∃ c p, r.Declares .input id [] name c p) ∧
        r.ShowsDefaults ClassRecord.target .input id [] values ∧
        (r.ShowsDefaults (fun _ => id) .input id [] values ↔ r.NoneOverridden .input id [])) ∧
    ∀ (host : Location) (ps : List Parameter) (values : InputValues) (u : Realization),
      (arguments o host ps : Realize r InputValues).run s = (.ok values, u) →
        ∀ pre q post type id, InputContribution.inOrder ps = pre ++ q :: post →
          q.kind = .bundle type → type.entity? = some id →
          r.ShowsDefaults ClassRecord.target .args id
            (post.flatMap (Parameter.contributors r host)) values ∧
          (r.ShowsDefaults (fun _ => id) .args id
            (post.flatMap (Parameter.contributors r host)) values ↔
            r.NoneOverridden .args id (post.flatMap (Parameter.contributors r host))) := by
  have hcoherent : s.Coherent r := hs.coherent Realization.coherent_empty
  constructor
  · intro id values u h
    obtain ⟨vs, hvs, hvalues⟩ := inputFields_merges hcoherent h
    have hlast := lastWins_putMany hvs fun _ _ hx => hx.name.symm
    rw [← hvalues] at hlast
    have htarget : r.ShowsDefaults ClassRecord.target .input id [] values := by
      apply Registry.showsDefaults_target []
      simpa using hlast
    exact ⟨fun name => Registry.isSome_get?_iff_declares hlast, htarget,
      Registry.showsDefaults_iff_noneOverridden htarget⟩
  · intro host ps values u h pre q post type id hsplit hkind hid
    rw [arguments_eq_visit] at h
    have hlast := visit_lastWins hcoherent h
    have hbundle : q.contributors r host = InputContribution.ofChain (r.classChain .args id) := by
      simp only [Parameter.contributors, hkind, hid, Option.toList_some, List.flatMap_singleton]
      rfl
    rw [hsplit, List.flatMap_append, List.flatMap_cons, hbundle, ← List.append_assoc] at hlast
    have htarget := Registry.showsDefaults_target _ hlast
    exact ⟨htarget, Registry.showsDefaults_iff_noneOverridden htarget⟩

end Realize

def Property.take : Property := ⟨"take", "take", .scalar "Int", .plain, none, none, none, []⟩

/-- A page size with a default, and another default that instances of a derived class assign. -/
def Registry.topRecipes : Registry :=
  { Registry.ofRecords ((((EntityTable.empty.declare "PaginationArgs" none).declare "TopRecipesArgs"
      (some 0)).setDefaults 0 (.ofList [("take", .ofNat 25)])).setDefaults 1
        (.ofList [("take", .ofNat 5)])) [] [] [] with
    args := (∅ : ClassCatalog).putMany
      [.ofField 0 "PaginationArgs" "take" "Int" [], .ofField 1 "TopRecipesArgs" "minimum" "Int" []]
    inputs := (∅ : ClassCatalog).putMany [.ofField 0 "PaginationArgs" "take" "Int" []] }

namespace Realize

theorem run_arguments_topRecipes : ∃ values u v,
    (arguments .standard (.ofOwner "R") [⟨0, .bundle (.declared 1)⟩] :
      Realize .topRecipes InputValues).run .empty = (.ok values, u) ∧
    values.get? "take" = some v ∧ v.default.any (·.same (.ofNat 25)) = true := by
  have horder : InputContribution.inOrder [⟨0, .bundle (.declared 1)⟩] =
      [⟨0, .bundle (.declared 1)⟩] :=
    InputContribution.inOrder_of_ascending (List.pairwise_singleton _ _)
  have hruns : ((visit .standard (.ofOwner "R") ∅ [⟨0, .bundle (.declared 1)⟩] :
      Realize .topRecipes InputValues).run .empty).1.toOption.map
        (fun values => (values.get? "take").map fun v => v.default.any (·.same (.ofNat 25))) =
          some (some true) := by decide +kernel
  rw [← horder, ← arguments_eq_visit] at hruns
  obtain ⟨values, hvalues, hshown⟩ := Option.map_eq_some_iff.1 hruns
  obtain ⟨v, hv, hdefault⟩ := Option.map_eq_some_iff.1 hshown
  exact ⟨values, _, v, Prod.ext (ok_of_toOption hvalues) rfl, hv, hdefault⟩

theorem showsDefaults_iff_topRecipes : ∃ fields values u w,
    (inputFields .standard 0 : Realize .topRecipes InputValues).run .empty = (.ok fields, u) ∧
    Registry.topRecipes.ShowsDefaults ClassRecord.target .input 0 [] fields ∧
    Registry.topRecipes.ShowsDefaults (fun _ => 0) .input 0 [] fields ∧
    (arguments .standard (.ofOwner "R") [⟨0, .bundle (.declared 1)⟩] :
      Realize .topRecipes InputValues).run .empty = (.ok values, w) ∧
    Registry.topRecipes.ShowsDefaults ClassRecord.target .args 1 [] values := by
  have hfields : ((inputFields .standard 0 :
      Realize .topRecipes InputValues).run .empty).1.toOption.isSome = true := by decide +kernel
  obtain ⟨fields, hok⟩ := Option.isSome_iff_exists.1 hfields
  have hrun : (inputFields .standard 0 : Realize .topRecipes InputValues).run .empty =
      (.ok fields, _) := Prod.ext (ok_of_toOption hok) rfl
  obtain ⟨values, w, -, hvalues, -⟩ := run_arguments_topRecipes
  obtain ⟨hinput, hargs⟩ := showsDefaults_iff (r := .topRecipes) ⟨_, _, .refl⟩ .standard
  obtain ⟨-, htarget, hiff⟩ := hinput 0 fields _ hrun
  have horder : InputContribution.inOrder [⟨0, .bundle (.declared 1)⟩] =
      [] ++ ⟨0, .bundle (.declared 1)⟩ :: [] :=
    InputContribution.inOrder_of_ascending (List.pairwise_singleton _ _)
  refine ⟨fields, values, _, w, hrun, htarget, hiff.2 ?_, hvalues,
    (hargs _ _ values w hvalues [] _ [] _ 1 horder rfl rfl).1⟩
  -- nothing is below the class itself
  intro name c p hp v hv
  have hmem := hp.target_mem
  have hlineage : Registry.topRecipes.entities.lineage 0 = [0] := by decide +kernel
  rw [hlineage, List.mem_singleton] at hmem
  rw [hmem] at hv
  cases hv

/-- An instance of the derived bundle has another page size than the one that is shown. -/
theorem topRecipes_not_showsDefaults : ∃ values u,
    (arguments .standard (.ofOwner "R") [⟨0, .bundle (.declared 1)⟩] :
      Realize .topRecipes InputValues).run .empty = (.ok values, u) ∧
    ¬ Registry.topRecipes.ShowsDefaults (fun _ => 1) .args 1 [] values := by
  obtain ⟨values, u, v, hrun, hv, hdefault⟩ := run_arguments_topRecipes
  refine ⟨values, u, hrun, fun hshows => ?_⟩
  have hother : (Property.take.resolvedDefault (Registry.topRecipes.entities.instantiate 1)).any
      (·.same (.ofNat 25)) = false := by decide +kernel
  have hlineage : Registry.topRecipes.entities.lineage 1 = [0, 1] := by decide +kernel
  have hdeclares : Registry.topRecipes.Declares .args 1 [] "take"
      (.ofField 0 "PaginationArgs" "take" "Int" []) .take := by
    refine ⟨?_, by simp⟩
    rw [Registry.classChain, hlineage]
    rfl
  obtain ⟨v', hv', hassigned⟩ := hshows "take" _ _ hdeclares
  rw [hv, Option.some.injEq] at hv'
  rw [hv', hassigned, hother] at hdefault
  cases hdefault

end Realize

end CodeFirst
