import CodeFirst.Proofs.Additions
import CodeFirst.Proofs.Deferrals
import CodeFirst.Proofs.Overrides
import CodeFirst.Proofs.Replaced

/-! The schema names of the properties of a class. A record that is merged into another one repeats
no name, but the first record of a class is stored as it is. So the names of a class are distinct
exactly if those of its first record are, and then a search by name finds the property that the
fields of a type show. -/

namespace CodeFirst

/-- Elements behind which only new ones come, each once. -/
def Continues {α : Type} (l m : List α) : Prop := ∃ new, m = l ++ new ∧ new.Nodup ∧ l.Disjoint new

section Continues

variable {α κ : Type} {l m n : List α}

theorem Continues.refl (l : List α) : Continues l l := ⟨[], by simp⟩

theorem Continues.trans (hm : Continues l m) (hn : Continues m n) : Continues l n := by
  obtain ⟨new, rfl, hnew, hl⟩ := hm
  obtain ⟨newer, rfl, hnewer, hm⟩ := hn
  rw [List.disjoint_append_left] at hm
  refine ⟨new ++ newer, List.append_assoc .., ?_, ?_⟩
  · exact hnew.append hnewer hm.2
  · rw [List.disjoint_append_right]
    exact ⟨hl, hm.1⟩

theorem Continues.concat {x : α} (hx : x ∉ l) : Continues l (l ++ [x]) :=
  ⟨[x], rfl, List.nodup_singleton x, by simpa using hx⟩

theorem Continues.nodup_iff (h : Continues l m) : m.Nodup ↔ l.Nodup := by
  obtain ⟨new, rfl, hnew, hdisjoint⟩ := h
  constructor
  · exact fun h => h.of_append_left
  · exact fun h => h.append hnew hdisjoint

/-- Of elements that are known by a key, only those with new keys are taken in. -/
theorem continues_appendNew {known : α → α → Bool} {key : α → κ}
    (hknown : ∀ y x, known y x = true ↔ key y = key x) (l m : List α) :
    Continues (l.map key) ((appendNew known l m).map key) := by
  induction m generalizing l with
  | nil => exact .refl _
  | cons x rest ih =>
    by_cases hx : l.any (known · x) = true
    · rw [appendNew, if_pos hx]
      exact ih l
    · have hnew : key x ∉ l.map key := by
        intro hmem
        obtain ⟨y, hy, hyx⟩ := List.mem_map.1 hmem
        exact hx (List.any_eq_true.2 ⟨y, hy, (hknown y x).2 hyx⟩)
      have hone : Continues (l.map key) ((l ++ [x]).map key) := by
        rw [List.map_append, List.map_singleton]
        exact .concat hnew
      rw [appendNew, if_neg hx]
      exact hone.trans (ih _)

end Continues

namespace ClassRecord

variable {c : ClassRecord}

/-- The names of the properties in the schema. -/
def schemaNames (c : ClassRecord) : List String := c.properties.map (·.schemaName)

/-- The last property with this schema name. -/
def lastProperty? (c : ClassRecord) (name : String) : Option Property :=
  (c.properties.filter fun p => p.schemaName = name).getLast?

theorem continues_merge (c other : ClassRecord) :
    Continues c.schemaNames (c.merge other).schemaNames :=
  continues_appendNew (fun _ _ => by simp [sameProperty]) _ _

/-- Where no name is repeated, the first property of a name is the last one. -/
theorem property?_eq_lastProperty? (h : c.schemaNames.Nodup) : c.property? = c.lastProperty? := by
  funext name
  exact (getLast?_filter_of_nodup h name).symm

end ClassRecord

def PropertyDeclaration.shownName (d : PropertyDeclaration) : String := d.schemaName.getD d.name

theorem PropertyDeclaration.names_compile (owner : String) (l : List PropertyDeclaration) :
    (l.mapM fun d : PropertyDeclaration => d.compile owner).toOption.map (List.map (·.schemaName)) =
      if l.all (·.type.isSome) then some (l.map shownName) else none := by
  induction l with
  | nil => rfl
  | cons d rest ih =>
    have hstep : ((d :: rest).mapM fun d : PropertyDeclaration => d.compile owner).toOption.map
        (List.map (·.schemaName)) = if d.type.isSome then
          ((rest.mapM fun d : PropertyDeclaration => d.compile owner).toOption.map
            (List.map (·.schemaName))).map (d.shownName :: ·) else none := by
      rw [List.mapM_cons, compile]
      cases htype : d.type with
      | none => rfl
      | some type => cases rest.mapM fun d : PropertyDeclaration => d.compile owner <;> rfl
    rw [hstep, ih]
    by_cases hrest : rest.all (·.type.isSome) = true
    · simp [hrest]
    · simp [hrest]

namespace ClassDeclaration

variable (d : ClassDeclaration) (r : Registry)

/-- The names in a class that is declared with a type for every property. -/
def shownNames? (d : ClassDeclaration) : Option (List String) :=
  if d.properties.all (·.type.isSome) then some (d.properties.map (·.shownName)) else none

theorem names_compile : (d.compile r).toOption.map ClassRecord.schemaNames = d.shownNames? := by
  rw [shownNames?, ← PropertyDeclaration.names_compile (d.name.getD (r.entityName d.target)),
    compile]
  cases d.properties.mapM fun p => p.compile (d.name.getD (r.entityName d.target)) <;> rfl

end ClassDeclaration

def Addition.names? (kind : ClassKind) (id : EntityId) : Addition → Option (List String)
  | .class k c => if k = kind ∧ c.target = id then some c.schemaNames else none
  | _ => none

namespace Declaration

/-- What a declaration adds to a registry, if it compiles. -/
def addition? (r : Registry) : Declaration → Option Addition
  | .class kind d => (d.compile r).toOption.map (.class kind)
  | .scalar target name description =>
    some (.scalar ⟨target, name.getD (r.entityName target), description, none⟩)
  | .resolver record => some (.resolver record)
  | .handler kind d => (d.compile kind r).toOption.map (.handler kind)

def names? (kind : ClassKind) (id : EntityId) : Declaration → Option (List String)
  | .class k d => if k = kind ∧ d.target = id then d.shownNames? else none
  | _ => none

theorem result_register (d : Declaration) (r : Registry) :
    (d.register r).result.1 = (d.addition? r).elim r fun a => (r.add a).result := by
  cases d with
  | «class» kind d =>
    rw [register, addition?]
    cases d.compile r <;> rfl
  | scalar target name description => rfl
  | resolver record => rfl
  | handler kind d =>
    rw [register, addition?]
    cases d.compile kind r <;> rfl

theorem names?_eq (d : Declaration) (r : Registry) (kind : ClassKind) (id : EntityId) :
    d.names? kind id = (d.addition? r).bind (Addition.names? kind id) := by
  cases d with
  | «class» k d =>
    rw [names?, addition?, ← d.names_compile r]
    cases hc : d.compile r with
    | error e => simp [Except.toOption]
    | ok c => simp [Except.toOption, Addition.names?, ClassDeclaration.target_compile hc]
  | scalar target name description => rfl
  | resolver record => rfl
  | handler k d =>
    rw [addition?]
    cases d.compile k r <;> rfl

end Declaration

namespace Registry

/-- An edit of a registry: of its entities, by a declaration that is registered, or by a record that
is added. -/
inductive Edit where
  | entities (e : EntityTable.Edit)
  | declare (d : Declaration)
  | add (a : Addition)

def edit (r : Registry) : Edit → Registry
  | .entities e => { r with entities := r.entities.edit e }
  | .declare d => (d.register r).result.1
  | .add a => (r.add a).result

def ofEdits (l : List Edit) : Registry := l.foldl edit ∅

variable (kind : ClassKind) (id : EntityId)

def Edit.names? : Edit → Option (List String)
  | .entities _ => none
  | .declare d => d.names? kind id
  | .add a => a.names? kind id

/-- The names in the first record that is added for a class. -/
def firstNames? (l : List Edit) : Option (List String) := l.findSome? (Edit.names? kind id)

variable {kind id} {r : Registry} {l : List Edit}

theorem ofEdits_concat (l : List Edit) (e : Edit) : ofEdits (l ++ [e]) = (ofEdits l).edit e :=
  List.foldl_concat ..

theorem firstNames?_concat (l : List Edit) (e : Edit) :
    firstNames? kind id (l ++ [e]) = (firstNames? kind id l).or (e.names? kind id) := by
  rw [firstNames?, List.findSome?_append]
  cases h : e.names? kind id <;> simp [firstNames?, h]

theorem class?_add_class (r : Registry) (k : ClassKind) (c : ClassRecord) :
    (r.add (.class k c)).result.class? kind id = if k = kind ∧ c.target = id then
      some (((r.class? kind id).map (·.merge c)).getD c) else r.class? kind id := by
  have hresult : (r.add (.class k c)).result =
      r.setClasses k ((r.classes k).upsert ClassRecord.merge c) := result_addClass r k c
  rw [hresult, class?, classes_setClasses]
  by_cases hk : kind = k
  · subst hk
    simp [Catalog.get?_upsert ClassRecord.keepsKey_merge, class?]
  · simp [hk, Ne.symm hk, class?]

/-- Only a record about the same class changes what is stored about it. -/
theorem class?_add_of_ne {a : Addition} (h : .class kind id ≠ a.key) :
    (r.add a).result.class? kind id = r.class? kind id := by
  have hfind := find?_add_of_ne (r := r) h
  exact Option.map_injective (fun _ _ hc => (Addition.class.inj hc).2) hfind

/-- The names in a stored record go on from those in the first one. -/
def NamesFrom (r : Registry) (kind : ClassKind) (id : EntityId) (names? : Option (List String)) :
    Prop :=
  Option.Rel Continues names? ((r.class? kind id).map (·.schemaNames))

variable {names? : Option (List String)}

theorem NamesFrom.add (h : r.NamesFrom kind id names?) (a : Addition) :
    (r.add a).result.NamesFrom kind id (names?.or (a.names? kind id)) := by
  rw [NamesFrom] at h ⊢
  by_cases ha : .class kind id = a.key
  · obtain ⟨c, rfl, hc⟩ : ∃ c, a = .class kind c ∧ c.target = id := by
      cases a <;> simp_all [Addition.key]
    rw [Addition.names?, if_pos ⟨rfl, hc⟩, class?_add_class, if_pos ⟨rfl, hc⟩]
    cases hold : r.class? kind id with
    | none =>
      rw [hold] at h
      cases h
      exact .some (.refl _)
    | some old =>
      rw [hold] at h
      cases h with
      | some hnames => exact .some (hnames.trans (old.continues_merge c))
  · have hnone : a.names? kind id = none := by
      cases a with
      | «class» k c =>
        rw [Addition.names?, if_neg]
        rintro ⟨rfl, rfl⟩
        exact ha rfl
      | _ => rfl
    rwa [hnone, Option.or_none, class?_add_of_ne ha]

/-- An edit keeps the names of a class, or is the first to add any. -/
theorem NamesFrom.edit (h : r.NamesFrom kind id names?) (e : Edit) :
    (r.edit e).NamesFrom kind id (names?.or (e.names? kind id)) := by
  cases e with
  | entities e =>
    have hclass : (r.edit (.entities e)).class? kind id = r.class? kind id := by
      cases kind <;> rfl
    rwa [Edit.names?, Option.or_none, NamesFrom, hclass]
  | add a => exact h.add a
  | declare d =>
    rw [Registry.edit, Edit.names?, d.result_register, d.names?_eq r]
    cases d.addition? r with
    | none => rwa [Option.bind_none, Option.or_none]
    | some a => exact h.add a

theorem namesFrom_ofEdits (l : List Edit) (kind : ClassKind) (id : EntityId) :
    (ofEdits l).NamesFrom kind id (firstNames? kind id l) := by
  induction l using List.reverseRecOn with
  | nil => cases kind <;> exact .none
  | append_singleton l e ih =>
    rw [ofEdits_concat, firstNames?_concat]
    exact ih.edit e

/-- No class record repeats a name. -/
def NamesDistinct (r : Registry) : Prop :=
  ∀ kind id c, r.class? kind id = some c → c.schemaNames.Nodup

theorem NamesFrom.nodup_iff (h : r.NamesFrom kind id names?) :
    (∀ c, r.class? kind id = some c → c.schemaNames.Nodup) ↔ ∀ names ∈ names?, names.Nodup := by
  rw [NamesFrom] at h
  cases hc : r.class? kind id with
  | none =>
    rw [hc] at h
    cases h
    simp
  | some c =>
    rw [hc] at h
    cases h with
    | some hnames => simp [hnames.nodup_iff]

theorem namesDistinct_ofEdits_iff (l : List Edit) : (ofEdits l).NamesDistinct ↔
    ∀ kind id, ∀ names ∈ firstNames? kind id l, names.Nodup :=
  forall₂_congr fun kind id => (namesFrom_ofEdits l kind id).nodup_iff

end Registry

namespace Declarations

open Registry (Edit ofEdits)

theorem Collects.exists_registry {ds : Declarations} {declared : List Declaration}
    (h : ds.Collects declared) : ∃ l, ds.registry = ofEdits l := by
  induction h with
  | empty => exact ⟨[], rfl⟩
  | entity h name parent ih =>
    obtain ⟨l, hl⟩ := ih
    refine ⟨l ++ [.entities (.declare name parent)], ?_⟩
    rw [Registry.ofEdits_concat, ← hl]
    rfl
  | setDefaults h id values ih =>
    obtain ⟨l, hl⟩ := ih
    refine ⟨l ++ [.entities (.setDefaults id values)], ?_⟩
    rw [Registry.ofEdits_concat, ← hl]
    rfl
  | add h d ih => exact ih

theorem runs_eq_foldl {declared : List Declaration} {r r' : Registry} {es : List Event}
    (h : Queue.Runs (declared.map Declaration.deferral) r es r') :
    r' = (declared.map Edit.declare).foldl Registry.edit r := by
  induction declared generalizing r es with
  | nil =>
    cases h
    rfl
  | cons d rest ih =>
    cases h with
    | cons first others =>
      have hfirst : (d.register r).result.1 = _ := congrArg (·.result.1) first
      rw [ih others, List.map_cons, List.foldl_cons, Registry.edit, hfirst]

/-- Whatever is declared, finishing it makes a registry by edits. -/
theorem Collects.exists_edits {ds : Declarations} {declared : List Declaration} {r : Registry}
    (h : ds.Collects declared) (hr : ds.finish.outcome = .ok r) : ∃ l, r = ofEdits l := by
  obtain ⟨l, hl⟩ := h.exists_registry
  obtain ⟨⟨q, r', result⟩, hdrain, hlast⟩ := Trial.bind_eq_ok hr
  rw [Trial.outcome_ofLogged, Except.ok.injEq] at hdrain
  rcases h.drain_cases ds.registry with ⟨r₁, es, hruns, hall⟩ | ⟨_, d, _, r₁, e, es, -, -, -, hall⟩
  · rw [hall] at hdrain
    cases hdrain
    cases hlast
    refine ⟨l ++ declared.map .declare, ?_⟩
    rw [runs_eq_foldl hruns, hl, Registry.ofEdits, Registry.ofEdits, List.foldl_append]
  · rw [hall] at hdrain
    cases hdrain
    cases hlast

end Declarations

/-- What is left when the properties of some classes are written into a map: under each name what is
found in the last class that has it, and else what was there. -/
def ShowsFound {α β : Type} (Shows : α → β → Prop) (entry : ClassRecord → Property → α)
    (find : ClassRecord → String → Option Property) (chain : List ClassRecord)
    (m m' : OrderedMap String β) : Prop :=
  ∀ name, match chain.reverse.findSome? fun c => (find c name).map (entry c) with
    | some x => ∃ v, m'.get? name = some v ∧ Shows x v
    | none => m'.get? name = m.get? name

section ShowsFound

variable {α β : Type} {Shows : α → β → Prop} {entry : ClassRecord → Property → α}
  {find find' : ClassRecord → String → Option Property} {chain : List ClassRecord}
  {m m' : OrderedMap String β}

theorem ShowsFound.congr (h : ShowsFound Shows entry find chain m m')
    (hfind : ∀ c ∈ chain, find c = find' c) : ShowsFound Shows entry find' chain m m' := by
  intro name
  have hmap : (chain.reverse.map fun c => (find c name).map (entry c)) =
      chain.reverse.map fun c => (find' c name).map (entry c) :=
    List.map_congr_left fun c hc => by rw [hfind c (List.mem_reverse.1 hc)]
  have hsame := congrArg (List.findSome? id) hmap
  rw [List.findSome?_map, List.findSome?_map, Function.id_comp, Function.id_comp] at hsame
  rw [← hsame]
  exact h name

theorem get?_putMany_or (m : OrderedMap String β) (key : β → String) (vs : List β)
    (name : String) : (m.putMany key vs).get? name =
      (((∅ : OrderedMap String β).putMany key vs).get? name).or (m.get? name) := by
  simp [OrderedMap.putMany, get?_insertMany]

/-- Writing one value for each property, from left to right, shows the last one of each name. -/
theorem showsFound_putMany {key : α → String} {key' : β → String} {vs : List β}
    (hentry : ∀ c p, key (entry c p) = p.schemaName) (hkey : ∀ x v, Shows x v → key x = key' v)
    (h : List.Forall₂ Shows (chain.flatMap fun c => c.properties.map (entry c)) vs) :
    ShowsFound Shows entry ClassRecord.lastProperty? chain m (m.putMany key' vs) := by
  intro name
  have hlast : ((chain.flatMap fun c => c.properties.map (entry c)).filter
      fun x => key x = name).getLast? =
        chain.reverse.findSome? fun c => (c.lastProperty? name).map (entry c) := by
    rw [List.filter_flatMap, List.getLast?_flatMap]
    congr 1
    funext c
    rw [List.filter_map, List.getLast?_map]
    simp only [Function.comp_def, hentry]
    rfl
  have hshown := (lastWins_putMany h hkey).shown name
  rw [hlast] at hshown
  rw [get?_putMany_or]
  generalize (chain.reverse.findSome? fun c => (c.lastProperty? name).map (entry c)) = x? at *
  generalize ((∅ : OrderedMap String β).putMany key' vs).get? name = v? at *
  cases hshown with
  | none => exact Option.none_or
  | some hv => exact ⟨_, rfl, hv⟩

end ShowsFound

namespace Realize

/-- The input values and the fields that the properties of some classes give, on top of others, show
the properties that are found. -/
structure MapsShow (o : BuildOptions) (r : Registry) (s : Realization)
    (find : ClassRecord → String → Option Property) (chain : List ClassRecord) : Prop where
  inputs : ∀ values values' u,
    (inputValues o values (InputContribution.ofChain chain) : Realize r InputValues).run s =
      (.ok values', u) →
    ShowsFound (InputContribution.Shows o r u.origins) .property find chain values values'
  fields : ∀ c c' u,
    (compose o c (chain.flatMap Contribution.ofClass) : Realize r Composition).run s =
      (.ok c', u) →
    ShowsFound (Contribution.Shows o r u.origins) .property find chain c.fields c'.fields

variable {o : BuildOptions} {r : Registry} {s : Realization} {chain : List ClassRecord}
  {find find' : ClassRecord → String → Option Property}

theorem MapsShow.congr (h : MapsShow o r s find chain)
    (hfind : ∀ c ∈ chain, find c = find' c) : MapsShow o r s find' chain :=
  ⟨fun values values' u hrun => (h.inputs values values' u hrun).congr hfind,
    fun c c' u hrun => (h.fields c c' u hrun).congr hfind⟩

/-- The maps show the last property of each name in the last class that has one. -/
theorem mapsShow_lastProperty? (hs : s.Coherent r) (o : BuildOptions) (chain : List ClassRecord) :
    MapsShow o r s ClassRecord.lastProperty? chain := by
  constructor
  · intro values values' u hrun
    obtain ⟨vs, hvs, rfl⟩ := inputValues_merges hs hrun
    exact showsFound_putMany (fun _ _ => rfl) (fun _ _ hx => hx.name.symm) hvs
  · intro c c' u hrun
    obtain ⟨-, fs, hfs, hfields⟩ := compose_composes hs hrun
    rw [Contribution.filter_ofClass] at hfs
    rw [hfields]
    exact showsFound_putMany (fun _ _ => rfl) (fun _ _ hx => hx.name.symm) hfs

end Realize

namespace Registry

/-- Behind the names in the first record of a class come only new ones, each once, whatever is
declared and added. So no class repeats a name exactly if no first record does. The fields and input
values of some classes show the last property of each name, which is the one that a search finds if
no name is repeated. Finishing declarations makes no other registries. -/
theorem ofEdits_namesDistinct_iff (l : List Edit) :
    (∀ kind id, (ofEdits l).NamesFrom kind id (firstNames? kind id l)) ∧
    ((ofEdits l).NamesDistinct ↔ ∀ kind id, ∀ names ∈ firstNames? kind id l, names.Nodup) ∧
    (∀ o s, Realization.Passes (ofEdits l) .empty s → ∀ chain : List ClassRecord,
      Realize.MapsShow o (ofEdits l) s ClassRecord.lastProperty? chain ∧
      ((∀ c ∈ chain, c.schemaNames.Nodup) →
        Realize.MapsShow o (ofEdits l) s ClassRecord.property? chain)) ∧
    ∀ (ds : Declarations) declared r, ds.Collects declared → ds.finish.outcome = .ok r →
      ∃ l, r = ofEdits l := by
  refine ⟨namesFrom_ofEdits l, namesDistinct_ofEdits_iff l, ?_, fun _ _ _ h => h.exists_edits⟩
  intro o s hs chain
  have hlast := Realize.mapsShow_lastProperty? (hs.coherent Realization.coherent_empty) o chain
  refine ⟨hlast, fun hnodup => hlast.congr fun c hc => ?_⟩
  exact (ClassRecord.property?_eq_lastProperty? (hnodup c hc)).symm

end Registry

def Declaration.ofInput (id : EntityId) (properties : List (String × String)) : Declaration :=
  .class .input ⟨id, none, none, false, properties.map fun p =>
    ⟨p.1, none, some (.scalar p.2), .plain, none, none, none, []⟩, [], []⟩

/-- Filters are declared twice; the second time titles are of another type. -/
def Declarations.filters : List Declaration :=
  [.ofInput 0 [("title", "String"), ("stars", "Int")],
    .ofInput 0 [("title", "Int"), ("cook", "ID")]]

namespace Registry

def filters : List Edit := .entities (.declare "Filter" none) :: Declarations.filters.map .declare

/-- The titles of filters stay what they were declared as first. -/
theorem ofEdits_namesDistinct_iff_filters : (ofEdits filters).NamesDistinct ∧
    (∃ c values u, (ofEdits filters).class? .input 0 = some c ∧
      c.schemaNames = ["title", "stars", "cook"] ∧
      (Realize.inputFields .standard 0 : Realize (ofEdits filters) InputValues).run .empty =
        (.ok values, u) ∧
      ShowsFound (InputContribution.Shows .standard (ofEdits filters) u.origins) .property
        ClassRecord.property? [c] ∅ values) ∧
    ∃ ds r, Declarations.Collects ds Declarations.filters ∧ ds.finish.outcome = .ok r ∧
      ∃ l, r = ofEdits l := by
  obtain ⟨-, hdistinct, hmaps, hfinish⟩ := ofEdits_namesDistinct_iff filters
  refine ⟨hdistinct.2 ?_, ?_, ?_⟩
  · intro kind id names hnames
    by_cases h : .input = kind ∧ 0 = id
    · obtain ⟨rfl, rfl⟩ := h
      cases hnames
      decide
    · have hnone : firstNames? kind id filters = none := by
        simp only [firstNames?, filters, Declarations.filters, Declaration.ofInput, List.map_cons,
          List.map_nil, List.findSome?_cons, List.findSome?_nil, Edit.names?, Declaration.names?,
          if_neg h]
      rw [hnone] at hnames
      cases hnames
  · have hclass : ((ofEdits filters).class? .input 0).map (·.schemaNames) =
        some ["title", "stars", "cook"] := by decide +kernel
    have hfields : ((Realize.inputFields .standard 0 :
        Realize (ofEdits filters) InputValues).run .empty).1.toOption.isSome = true := by
      decide +kernel
    have hlineage : (ofEdits filters).entities.lineage 0 = [0] := by decide +kernel
    obtain ⟨c, hc, hnames⟩ := Option.map_eq_some_iff.1 hclass
    obtain ⟨values, hvalues⟩ := Option.isSome_iff_exists.1 hfields
    have hchain : (ofEdits filters).classChain .input 0 = [c] := by
      simp [classChain, hlineage, hc]
    obtain ⟨u, hrun⟩ : ∃ u, (Realize.inputFields .standard 0 :
        Realize (ofEdits filters) InputValues).run .empty = (.ok values, u) :=
      ⟨_, Prod.ext (ok_of_toOption hvalues) rfl⟩
    have hnodup : ∀ c' ∈ [c], c'.schemaNames.Nodup := by simp [hnames]
    refine ⟨c, values, u, hc, hnames, hrun, ?_⟩
    rw [Realize.inputFields, hchain] at hrun
    exact ((hmaps .standard .empty ⟨_, _, .refl⟩ [c]).2 hnodup).inputs _ _ _ hrun
  · obtain ⟨ds, hcollects, hfinishes⟩ : ∃ ds : Declarations, ds.Collects Declarations.filters ∧
        ds.finish.outcome.toOption.isSome = true :=
      ⟨_, ((Declarations.Collects.empty.entity "Filter" none).add
        (.ofInput 0 [("title", "String"), ("stars", "Int")])).add
          (.ofInput 0 [("title", "Int"), ("cook", "ID")]), by decide +kernel⟩
    obtain ⟨r, hr⟩ := Option.isSome_iff_exists.1 hfinishes
    exact ⟨ds, r, hcollects, ok_of_toOption hr, hfinish ds _ r hcollects (ok_of_toOption hr)⟩

end Registry

def ClassRecord.titledTwice : ClassRecord :=
  ⟨0, "Recipe", none, false,
    [⟨"title", "title", .scalar "String", .plain, none, none, none, []⟩,
      ⟨"title", "title", .scalar "Int", .plain, none, none, none, []⟩], [], []⟩

namespace Registry

def titledTwice : List Edit :=
  [.entities (.declare "Recipe" none), .add (.class .object .titledTwice)]

/-- The titles of a class are added at once. A search finds the first one, which is a text, and the
fields show the second one. -/
theorem titledTwice_not_namesDistinct : ¬ (ofEdits titledTwice).NamesDistinct ∧
    ∃ c composition u, (ofEdits titledTwice).class? .object 0 = some c ∧
      (c.property? "title").map (·.type) = some (.scalar "String") ∧
      (Realize.compose .standard ∅ (Contribution.ofClass c) :
        Realize (ofEdits titledTwice) Composition).run .empty = (.ok composition, u) ∧
      (composition.fields.get? "title").map (fun f => u.origins[f.type.base]?) =
        some (some (.scalar "Int")) := by
  have hclass : (ofEdits titledTwice).class? .object 0 = some .titledTwice := rfl
  constructor
  · intro hdistinct
    exact absurd (hdistinct .object 0 _ hclass) (by decide)
  · have hshown : (let run := (Realize.compose .standard ∅ (Contribution.ofClass .titledTwice) :
          Realize (ofEdits titledTwice) Composition).run .empty
        run.1.toOption.map fun c => (c.fields.get? "title").map fun f =>
          run.2.origins[f.type.base]?) = some (some (some (.scalar "Int"))) := by decide +kernel
    obtain ⟨composition, hok, hfield⟩ := Option.map_eq_some_iff.1 hshown
    exact ⟨_, composition, _, hclass, rfl, Prod.ext (ok_of_toOption hok) rfl, hfield⟩

end Registry

end CodeFirst
