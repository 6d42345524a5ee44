import CodeFirst.Document.Declared
import CodeFirst.Proofs.Counterpart
import CodeFirst.Proofs.Deferrals
import CodeFirst.Proofs.Lineage
import CodeFirst.Proofs.Rounds

/-! What becomes of the instance defaults of a document. Of the entries of one entity only the last
that has any decides what the entity assigns; what it leaves out is taken from the parent, or is
lost. -/

namespace CodeFirst

theorem exists_of_bind_eq_ok {ε α β : Type} {x : Except ε α} {f : α → Except ε β} {b : β}
    (h : (x >>= f) = .ok b) : ∃ a, x = .ok a ∧ f a = .ok b := by
  cases x with
  | error e => cases h
  | ok a => exact ⟨a, rfl, h⟩

theorem foldlM_keeps {ε α β : Type} {P : List α → β → Prop} {f : β → α → Except ε β}
    (hstep : ∀ l b a b', P l b → f b a = .ok b' → P (l ++ [a]) b') {l m : List α} {b b' : β}
    (hb : P l b) (h : m.foldlM f b = .ok b') : P (l ++ m) b' := by
  induction m generalizing l b with
  | nil =>
    cases h
    rwa [List.append_nil]
  | cons a rest ih =>
    rw [List.foldlM_cons] at h
    obtain ⟨c, hc, hrest⟩ := exists_of_bind_eq_ok h
    rw [List.append_cons]
    exact ih (hstep l b a c hb hc) hrest

def lastValue {κ ν : Type} [DecidableEq κ] (l : List (κ × ν)) (k : κ) : Option ν :=
  lookupEntry k l.reverse

section Lookup

variable {κ ν : Type} [DecidableEq κ] {m : OrderedMap κ ν} {l l' : List (κ × ν)} {k : κ} {v : ν}

theorem lookupEntry_append : lookupEntry k (l ++ l') = (lookupEntry k l).or (lookupEntry k l') := by
  rw [lookupEntry, findRecord_append, Option.map_or]
  rfl

theorem lastValue_append : lastValue (l ++ l') k = (lastValue l' k).or (lastValue l k) := by
  rw [lastValue, List.reverse_append, lookupEntry_append]
  rfl

theorem lastValue_eq_none_iff : lastValue l k = none ↔ k ∉ l.map Prod.fst := by
  rw [lastValue, lookupEntry_eq_none_iff, List.map_reverse, List.mem_reverse]

theorem lastValue_cons (e : κ × ν) (l : List (κ × ν)) :
    lastValue (e :: l) k = (lastValue l k).or (if e.1 = k then some e.2 else none) := by
  rw [lastValue, List.reverse_cons, lookupEntry_append, lookupEntry_cons, lookupEntry_nil]
  rfl

theorem mem_of_lastValue (h : lastValue l k = some v) : (k, v) ∈ l :=
  List.mem_reverse.1 (mem_of_lookupEntry h)

theorem exists_of_lastValue (h : lastValue l k = some v) :
    ∃ pre post, l = pre ++ (k, v) :: post ∧ k ∉ post.map Prod.fst := by
  induction l with
  | nil => cases h
  | cons e rest ih =>
    rw [lastValue_cons] at h
    cases hrest : lastValue rest k with
    | some w =>
      rw [hrest, Option.some_or, Option.some.injEq] at h
      obtain ⟨pre, post, rfl, hpost⟩ := ih (h ▸ hrest)
      exact ⟨e :: pre, post, rfl, hpost⟩
    | none =>
      rw [hrest, Option.none_or] at h
      obtain ⟨rfl, rfl⟩ : e.1 = k ∧ e.2 = v := by
        by_cases hk : e.1 = k
        · rw [if_pos hk, Option.some.injEq] at h
          exact ⟨hk, h⟩
        · rw [if_neg hk] at h
          cases h
      exact ⟨[], rest, rfl, lastValue_eq_none_iff.1 hrest⟩

theorem get?_insertMany : (m.insertMany l).get? k = (lastValue l k).or (m.get? k) := by
  have hpairs : (m.pairs.putMany l).get? k =
      (findRecord Prod.fst k l.reverse).or (m.pairs.get? k) :=
    Catalog.get?_putMany ..
  exact (congrArg (Option.map Prod.snd) hpairs).trans Option.map_or

theorem get?_ofList : (OrderedMap.ofList l).get? k = lastValue l k := by
  rw [OrderedMap.ofList, get?_insertMany, OrderedMap.get?_empty, Option.or_none]

theorem mem_keys_ofList : k ∈ (OrderedMap.ofList l).keys ↔ k ∈ l.map Prod.fst := by
  rw [← not_iff_not, ← OrderedMap.get?_eq_none_iff, get?_ofList, lastValue_eq_none_iff]

theorem lastValue_entries : lastValue m.entries k = m.get? k := by
  rw [lastValue, lookupEntry, findRecord_eq_of_perm (List.reverse_perm _)]
  · rfl
  · rw [List.map_reverse, List.nodup_reverse]
    exact m.keys_nodup

theorem isEmpty_ofList : (OrderedMap.ofList l).isEmpty = l.isEmpty := by
  cases l with
  | nil => rfl
  | cons x rest =>
    rw [List.isEmpty_cons, Bool.eq_false_iff]
    intro hempty
    have hrecords : (OrderedMap.ofList (x :: rest)).entries = [] := List.isEmpty_iff.1 hempty
    have hnone : lastValue (x :: rest) x.1 = none := by
      rw [← get?_ofList, OrderedMap.get?, hrecords]
      rfl
    exact lastValue_eq_none_iff.1 hnone (List.mem_map_of_mem List.mem_cons_self)

end Lookup

namespace EntityTable

variable {t : EntityTable} {id : EntityId} {k : String}

theorem get?_setDefaults (t : EntityTable) (id i : EntityId) (values : Defaults) :
    (t.setDefaults id values).get? i =
      (t.get? i).map fun e => if id = i then { e with defaults := some values } else e :=
  List.getElem?_modify ..

theorem parent?_setDefaults (t : EntityTable) (id i : EntityId) (values : Defaults) :
    (t.setDefaults id values).parent? i = t.parent? i := by
  rw [parent?, parent?, get?_setDefaults]
  by_cases hi : id = i <;> cases t.get? i <;> simp [hi]

theorem defaults?_setDefaults {i : EntityId} {values : Defaults} (hid : id < t.size) :
    (t.setDefaults id values).defaults? i = if id = i then some values else t.defaults? i := by
  rw [defaults?, defaults?, get?_setDefaults]
  by_cases hi : id = i
  · subst hi
    have hget : t.get? id = some t.entities[id] := List.getElem?_eq_getElem hid
    simp [hget]
  · cases t.get? i <;> simp [hi]

theorem get?_construct (values own : Option Defaults) :
    (construct values own).bind (·.get? k) =
      (own.bind (·.get? k)).or (values.bind (·.get? k)) := by
  cases own with
  | none => rfl
  | some d =>
    rw [construct, Option.bind_some, Option.bind_some, get?_insertMany, lastValue_entries]
    cases values <;> rfl

theorem instantiate_eq_construct (t : EntityTable) (id : EntityId) :
    t.instantiate id = construct ((t.parent? id).bind t.instantiate) (t.defaults? id) := by
  cases hp : t.parent? id with
  | none =>
    rw [instantiate, lineage, ancestors_of_parent?_eq_none hp]
    rfl
  | some p =>
    rw [instantiate, lineage, ancestors_of_parent? hp, List.foldl_append]
    rfl

/-- An instance has its own value of a property before an inherited one. -/
theorem get?_instantiate (t : EntityTable) (id : EntityId) (k : String) :
    (t.instantiate id).bind (·.get? k) = ((t.defaults? id).bind (·.get? k)).or
      ((t.parent? id).bind fun p => (t.instantiate p).bind (·.get? k)) := by
  rw [instantiate_eq_construct, get?_construct, Option.bind_assoc]

end EntityTable

/-- What a new instance of an entity assigns to a property. -/
def DeclaredDocument.assigns? (D : DeclaredDocument) (name property : String) : Option Json :=
  (D.entities.get? name).bind fun id =>
    (D.registry.entities.instantiate id).bind (·.get? property)

/-- Only declaring an entity or giving it defaults changes the entities. -/
theorem Declaration.entities_register (d : Declaration) (r : Registry) :
    (d.register r).result.1.entities = r.entities := by
  have hclasses : ∀ kind c, (r.setClasses kind c).entities = r.entities := by
    intro kind c
    cases kind <;> rfl
  have hhandlers : ∀ kind c, (r.setHandlers kind c).entities = r.entities := by
    intro kind c
    rcases kind with (_ | _ | _) | _ <;> rfl
  cases d with
  | «class» kind d =>
    rw [register]
    cases d.compile r with
    | error e => rfl
    | ok c =>
      simp only [Logged.result_bind, Logged.result_pure, Registry.addClass]
      split <;> exact hclasses kind _
  | scalar target name description => rfl
  | resolver record =>
    change (r.addResolver record).entities = _
    rw [Registry.addResolver]
    split <;> rfl
  | handler kind d =>
    rw [register]
    cases d.compile kind r with
    | error e => rfl
    | ok x =>
      simp only [Logged.result_bind, Logged.result_pure, Registry.addHandler]
      split <;> exact hhandlers kind _

theorem Queue.entities_run (l : List Declaration) (n : Nat) (r : Registry) :
    (run n (l.map Declaration.deferral) r).result.1.entities = r.entities := by
  induction l generalizing n r with
  | nil => rfl
  | cons d rest ih =>
    rw [List.map_cons, run, Logged.result_bind]
    have hd : (d.deferral.action r).result.1.entities = r.entities := d.entities_register r
    cases hx : (d.deferral.action r).result with
    | mk r' result =>
      rw [hx] at hd
      cases result with
      | error e => exact hd
      | ok u => exact (ih (n + 1) r').trans hd

namespace Declarations

variable {ds : Declarations} {r : Registry}

/-- Nothing but declarations waits to be registered. -/
def Queued (ds : Declarations) : Prop :=
  ∃ l : List Declaration, ds.queue.deferrals = l.map Declaration.deferral

theorem Queued.add (h : ds.Queued) (x : Declaration) : (ds.add x).Queued := by
  obtain ⟨l, hl⟩ := h
  refine ⟨l ++ [x], ?_⟩
  rw [List.map_append, ← hl]
  rfl

theorem Queued.entities_finish (hq : ds.Queued) (h : ds.finish.outcome = .ok r) :
    r.entities = ds.registry.entities := by
  obtain ⟨l, hl⟩ := hq
  obtain ⟨⟨q, r', result⟩, hdrain, hlast⟩ := Trial.bind_eq_ok h
  rw [Trial.outcome_ofLogged, Except.ok.injEq] at hdrain
  have hrun := Queue.entities_run l 0 ds.registry
  rw [← hl] at hrun
  have hr' : (Queue.run 0 ds.queue.deferrals ds.registry).result.1 = r' :=
    congrArg (·.2.1) hdrain
  cases result with
  | error e => cases hlast
  | ok n =>
    have hr : r' = r := Except.ok.inj hlast
    rw [← hr, ← hr', hrun]

end Declarations

namespace Document

/-- What an entry says a new instance assigns, in the order of its fields. -/
def TypeEntry.assignments (e : TypeEntry) : List (String × Json) :=
  e.fields.filterMap fun f => f.instanceDefault.map (f.name, ·)

/-- The lists of assignments that the entries of an entity make, scalars left out. -/
def assigning (entries : List TypeEntry) (name : String) : List (List (String × Json)) :=
  ((entries.filter fun e => e.name = name ∧ e.kind ≠ .scalar).map TypeEntry.assignments).filter
    (!·.isEmpty)

/-- All assignments to instances of an entity, in the order of the document. -/
def assigned (d : Document) (name : String) : List (String × Json) :=
  (assigning d.types name).flatten

/-- The assignments of the last entry of an entity that makes any. -/
def lastAssigned (entries : List TypeEntry) (name : String) : List (String × Json) :=
  (assigning entries name).getLastD []

variable {d : Document} {e : TypeEntry} {l : List TypeEntry} {n k : String}

theorem lastAssigned_concat : lastAssigned (l ++ [e]) n =
    if e.name = n ∧ e.kind ≠ .scalar ∧ e.assignments ≠ [] then e.assignments
    else lastAssigned l n := by
  rw [lastAssigned, assigning, List.filter_append, List.map_append, List.filter_append]
  by_cases he : e.name = n ∧ e.kind ≠ .scalar
  · by_cases hassigns : e.assignments = []
    · simp [he, hassigns, lastAssigned, assigning]
    · simp [he, hassigns]
  · have hcond : ¬ (e.name = n ∧ e.kind ≠ .scalar ∧ e.assignments ≠ []) :=
      fun hc => he ⟨hc.1, hc.2.1⟩
    rw [if_neg hcond]
    simp [he, lastAssigned, assigning]

theorem lastAssigned_eq_nil (h : n ∉ d.names) : lastAssigned d.types n = [] := by
  have hnone : (d.types.filter fun e => e.name = n ∧ e.kind ≠ .scalar) = [] := by
    refine List.filter_eq_nil_iff.2 fun e he hn => h (mem_names.2 ⟨(e.name, e.parent), ?_, ?_⟩)
    · exact List.mem_append_left _ (List.mem_map_of_mem he)
    · exact (of_decide_eq_true hn).1
  rw [lastAssigned, assigning, hnone]
  rfl

/-- The last assignments of an entity end the list of all of them. -/
theorem exists_assigned_eq (d : Document) (n : String) :
    ∃ earlier, d.assigned n = earlier ++ lastAssigned d.types n := by
  rw [assigned, lastAssigned]
  rcases List.eq_nil_or_concat (assigning d.types n) with hnil | ⟨pre, last, hlast⟩
  · exact ⟨[], by rw [hnil]; rfl⟩
  · exact ⟨pre.flatten, by simp [hlast]⟩

/-- A value that the last assignments of an entity give is the last of all that it is given. -/
theorem lastValue_assigned {k : String} {v : Json}
    (h : lastValue (lastAssigned d.types n) k = some v) : lastValue (d.assigned n) k = some v := by
  obtain ⟨earlier, hearlier⟩ := exists_assigned_eq d n
  rw [hearlier, lastValue_append, h, Option.some_or]

section Declare

variable {scope : Scope} {ds ds' : Declarations}

theorem Scope.entity_eq_ok {id : EntityId} (h : scope.entity n = .ok id) :
    scope.get? n = some id := by
  rw [Scope.entity] at h
  cases hx : scope.get? n with
  | none =>
    rw [hx] at h
    cases h
  | some i =>
    rw [hx] at h
    cases h
    rfl

theorem TypeEntry.declare_eq_ok (h : e.declare scope ds = .ok ds') :
    ∃ target x, scope.get? e.name = some target ∧
      ds' = Declarations.add (if e.kind ≠ .scalar ∧ e.assignments ≠ [] then
        ds.setDefaults target e.defaults else ds) x := by
  obtain ⟨target, htarget, h⟩ := exists_of_bind_eq_ok h
  refine ⟨target, ?_⟩
  have hempty : e.defaults.isEmpty = e.assignments.isEmpty := isEmpty_ofList
  have hscope : scope.get? e.name = some target := Scope.entity_eq_ok htarget
  have hkind : e.kind.classKind? = none ↔ e.kind = .scalar := by
    cases e.kind <;> simp [EntryKind.classKind?]
  cases hclass : e.kind.classKind? with
  | none =>
    rw [hclass] at h
    rw [if_neg fun hc => hc.1 (hkind.1 hclass)]
    exact ⟨_, hscope, (Except.ok.inj h).symm⟩
  | some kind =>
    rw [hclass] at h
    have hne : e.kind ≠ .scalar := by
      rw [ne_eq, ← hkind, hclass]
      simp
    obtain ⟨c, -, h⟩ := exists_of_bind_eq_ok h
    refine ⟨.class kind c, hscope, ?_⟩
    rw [← Except.ok.inj h]
    by_cases hassigns : e.assignments = []
    · rw [if_pos (hempty.trans (List.isEmpty_iff.2 hassigns)), if_neg fun hc => hc.2 hassigns]
    · have hnot : ¬ e.defaults.isEmpty = true := by simpa [hempty] using hassigns
      rw [if_neg hnot, if_pos ⟨hne, hassigns⟩]

def Adds (ds ds' : Declarations) : Prop := ∃ l : List Declaration, ds' = l.foldl .add ds

theorem Adds.refl : Adds ds ds := ⟨[], rfl⟩

theorem Adds.trans {ds'' : Declarations} (h : Adds ds ds') (h' : Adds ds' ds'') :
    Adds ds ds'' := by
  obtain ⟨l, rfl⟩ := h
  obtain ⟨l', rfl⟩ := h'
  exact ⟨l ++ l', List.foldl_append.symm⟩

theorem Adds.registry_eq (h : Adds ds ds') : ds'.registry = ds.registry := by
  obtain ⟨l, rfl⟩ := h
  rw [Declarations.foldl_add]

theorem Adds.queued (h : Adds ds ds') (hq : ds.Queued) : ds'.Queued := by
  obtain ⟨l, rfl⟩ := h
  induction l generalizing ds with
  | nil => exact hq
  | cons x rest ih => exact ih (hq.add x)

theorem adds_declareHandlers {target : EntityId} {kind : HandlerKind} {es : List HandlerEntry}
    (h : declareHandlers scope target kind ds es = .ok ds') : Adds ds ds' := by
  refine foldlM_keeps (P := fun _ => Adds ds) (l := []) ?_ .refl h
  intro _ ds₁ e ds₂ hds₁ hstep
  obtain ⟨x, -, hx⟩ := exists_of_bind_eq_ok hstep
  exact hds₁.trans ⟨[.handler kind x], (Except.ok.inj hx).symm⟩

theorem ResolverEntry.adds_handlers {e : ResolverEntry} {target : EntityId} (h : (do
      let ds ← declareHandlers scope target (.root .query) ds e.queries
      let ds ← declareHandlers scope target (.root .mutation) ds e.mutations
      let ds ← declareHandlers scope target (.root .subscription) ds e.subscriptions
      declareHandlers scope target .field ds e.fields) = .ok ds') : Adds ds ds' := by
  obtain ⟨ds₁, h₁, h⟩ := exists_of_bind_eq_ok h
  obtain ⟨ds₂, h₂, h⟩ := exists_of_bind_eq_ok h
  obtain ⟨ds₃, h₃, h⟩ := exists_of_bind_eq_ok h
  exact (adds_declareHandlers h₁).trans (adds_declareHandlers h₂) |>.trans
    (adds_declareHandlers h₃) |>.trans (adds_declareHandlers h)

theorem ResolverEntry.adds_declare {e : ResolverEntry} (h : e.declare scope ds = .ok ds') :
    Adds ds ds' := by
  obtain ⟨target, -, h⟩ := exists_of_bind_eq_ok h
  have hclass : ∀ object, Adds ds (ds.add (.resolver ⟨target, object, e.isAbstract⟩)) :=
    fun _ => ⟨[_], rfl⟩
  cases hof : e.of with
  | none =>
    rw [hof] at h
    exact (hclass none).trans (adds_handlers h)
  | some name =>
    rw [hof] at h
    obtain ⟨object, -, h⟩ := exists_of_bind_eq_ok h
    exact (hclass object).trans (adds_handlers h)

/-- Some type entries are declared: the entities extend what they did, and each of them assigns what
the last of its entries that assigns anything says. -/
structure Filled (p : Progress) (l : List TypeEntry) (ds : Declarations) : Prop where
  queued : ds.Queued
  size_eq : ds.registry.entities.size = p.table.size
  parent?_eq : ∀ id, ds.registry.entities.parent? id = p.table.parent? id
  assigns : ∀ n id k, p.scope.get? n = some id →
    (ds.registry.entities.defaults? id).bind (·.get? k) = lastValue (lastAssigned l n) k

variable {p : Progress}

theorem Filled.start (h : d.Grown p) : Filled p [] p.declarations := by
  refine ⟨⟨[], ?_⟩, rfl, fun _ => rfl, ?_⟩
  · rw [h.blank]
    rfl
  · intro n id k _
    change (p.table.defaults? id).bind _ = _
    have hnone : p.table.defaults? id = none := by
      refine Option.bind_eq_none_iff.2 fun x hx => ?_
      exact h.unassigned x (List.mem_of_getElem? hx)
    rw [hnone]
    rfl

theorem Filled.adds (h : Filled p l ds) (hadds : Adds ds ds') : Filled p l ds' := by
  refine ⟨hadds.queued h.queued, ?_, ?_, ?_⟩
  · rw [hadds.registry_eq]
    exact h.size_eq
  · rw [hadds.registry_eq]
    exact h.parent?_eq
  · rw [hadds.registry_eq]
    exact h.assigns

theorem Filled.declare (h : Filled p l ds) (hp : d.Grown p) (hds : e.declare p.scope ds = .ok ds') :
    Filled p (l ++ [e]) ds' := by
  obtain ⟨target, x, htarget, rfl⟩ := TypeEntry.declare_eq_ok hds
  refine Filled.adds ?_ ⟨[x], rfl⟩
  by_cases hassigns : e.kind ≠ .scalar ∧ e.assignments ≠ []
  · rw [if_pos hassigns]
    have hsize : target < ds.registry.entities.size := h.size_eq ▸ hp.lt_of_get? htarget
    refine ⟨h.queued, ?_, ?_, ?_⟩
    · refine Eq.trans ?_ h.size_eq
      exact List.length_modify ..
    · intro id
      exact (EntityTable.parent?_setDefaults ..).trans (h.parent?_eq id)
    · intro n id k hn
      have hname : target = id ↔ e.name = n := by
        constructor
        · rintro rfl
          rw [hp.get?_eq_some_iff] at htarget hn
          exact Option.some.inj (htarget.symm.trans hn)
        · rintro rfl
          exact Option.some.inj (htarget.symm.trans hn)
      change ((ds.registry.entities.setDefaults target e.defaults).defaults? id).bind _ = _
      rw [EntityTable.defaults?_setDefaults hsize, lastAssigned_concat]
      by_cases he : e.name = n
      · rw [if_pos (hname.2 he), if_pos ⟨he, hassigns⟩]
        exact get?_ofList
      · rw [if_neg (mt hname.1 he), if_neg fun hc => he hc.1]
        exact h.assigns n id k hn
  · rw [if_neg hassigns]
    refine ⟨h.queued, h.size_eq, h.parent?_eq, ?_⟩
    intro n id k hn
    rw [lastAssigned_concat, if_neg fun hc => hassigns hc.2]
    exact h.assigns n id k hn

end Declare

/-- No instance default is lost: a property has the value that its entry gives to it, or one that a
later entry does. -/
def KeepsDefaults (d : Document) (D : DeclaredDocument) : Prop :=
  ∀ name pre property v post, d.assigned name = pre ++ (property, v) :: post →
    ∃ w, D.assigns? name property = some w ∧ (w = v ∨ (property, w) ∈ post)

variable {D : DeclaredDocument}

theorem ofBuild_eq_ok {α : Type} {x : Trial BuildError α} {a : α}
    (h : (ofBuild x).outcome = .ok a) : x.outcome = .ok a := by
  have hmap : (ofBuild x).outcome = x.outcome.mapError DocumentError.build := rfl
  rw [hmap] at h
  cases hx : x.outcome with
  | error e =>
    rw [hx] at h
    cases h
  | ok b =>
    rw [hx] at h
    cases h
    rfl

/-- A declared document has the entities of its names, filled by all of its type entries. -/
theorem declare_eq_ok (h : d.declare.outcome = .ok D) :
    ∃ p ds, d.Grown p ∧ p.scope.keys.Perm d.names ∧ Filled p d.types ds ∧
      D.entities = p.scope ∧ D.registry.entities = ds.registry.entities := by
  obtain ⟨⟨ds, scope, orphaned⟩, hds, h⟩ := Trial.bind_eq_ok h
  obtain ⟨p, hp, hds⟩ := exists_of_bind_eq_ok hds
  obtain ⟨ds₁, htypes, hds⟩ := exists_of_bind_eq_ok hds
  obtain ⟨ds₂, hresolvers, hds⟩ := exists_of_bind_eq_ok hds
  obtain ⟨ids, -, hds⟩ := exists_of_bind_eq_ok hds
  cases hds
  have hsorts : d.Sorts d.declareEntities := (Halfway.start d).declareAll
  rw [hp] at hsorts
  cases hsorts with
  | sorted grown complete =>
    have hfilled : Filled p d.types ds₁ := by
      refine foldlM_keeps (P := Filled p) (l := []) ?_ (.start grown) htypes
      intro l ds e ds' hl he
      exact hl.declare grown he
    have hadds : Adds ds₁ ds := by
      refine foldlM_keeps (P := fun _ => Adds ds₁) (l := []) ?_ .refl hresolvers
      intro _ ds e ds' hds he
      exact hds.trans (ResolverEntry.adds_declare he)
    obtain ⟨r, hfinish, h⟩ := Trial.bind_eq_ok h
    obtain ⟨_, -, h⟩ := Trial.bind_eq_ok h
    cases h
    refine ⟨p, ds, grown, complete, hfilled.adds hadds, rfl, ?_⟩
    exact (hfilled.adds hadds).queued.entities_finish (ofBuild_eq_ok hfinish)

theorem assigns?_eq (h : d.declare.outcome = .ok D) (name property : String) :
    D.assigns? name property = (lastValue (lastAssigned d.types name) property).or
      ((d.parent? name).bind fun parent => D.assigns? parent property) := by
  obtain ⟨p, ds, grown, complete, hfilled, hscope, htable⟩ := declare_eq_ok h
  have hassigns : ∀ n, D.assigns? n property = (p.scope.get? n).bind fun id =>
      (ds.registry.entities.instantiate id).bind (·.get? property) := by
    intro n
    rw [DeclaredDocument.assigns?, hscope, htable]
  rw [hassigns]
  cases hid : p.scope.get? name with
  | none =>
    have hout : name ∉ d.names := fun hn =>
      OrderedMap.get?_eq_none_iff.1 hid (complete.mem_iff.2 hn)
    have hparent : d.parent? name = none :=
      Option.eq_none_iff_forall_not_mem.2 fun q hq => hout (mem_names_of_parent? hq)
    rw [hparent, lastAssigned_eq_nil hout]
    rfl
  | some id =>
    rw [Option.bind_some, EntityTable.get?_instantiate, hfilled.assigns name id property hid,
      hfilled.parent?_eq]
    congr 1
    cases hparent : d.parent? name with
    | none =>
      rw [grown.roots name id hid hparent]
      rfl
    | some q =>
      obtain ⟨above, habove, -, hup⟩ := grown.children name id q hid hparent
      rw [hup, Option.bind_some, Option.bind_some, hassigns, habove]
      rfl

/-- Defaults are kept if every property has the last of the values that entries give to it. -/
theorem keepsDefaults_iff_lastValue :
    d.KeepsDefaults D ↔ ∀ name property v, lastValue (d.assigned name) property = some v →
      D.assigns? name property = some v := by
  constructor
  · intro hkeeps name property v hv
    obtain ⟨pre, post, hsplit, hpost⟩ := exists_of_lastValue hv
    obtain ⟨w, hw, rfl | hlater⟩ := hkeeps name pre property v post hsplit
    · exact hw
    · exact absurd (List.mem_map_of_mem hlater) hpost
  · intro hlast name pre property v post hsplit
    have hvalue : lastValue (d.assigned name) property =
        (lastValue post property).or (some v) := by
      rw [hsplit, lastValue_append, lastValue_cons, if_pos rfl]
      cases lastValue post property <;> rfl
    cases hpost : lastValue post property with
    | none =>
      rw [hpost, Option.none_or] at hvalue
      exact ⟨v, hlast name property v hvalue, .inl rfl⟩
    | some w =>
      rw [hpost, Option.some_or] at hvalue
      exact ⟨w, hlast name property w hvalue, .inr (mem_of_lastValue hpost)⟩

/-- A property has the value that the last entry with instance defaults gives to it, or else the one
that the parent's instances have. So defaults are kept exactly if, whenever that entry has none for
a property of an earlier one, the parent's instances have the earlier one's. -/
theorem declare_keepsDefaults_iff (h : d.declare.outcome = .ok D) :
    (∀ name property, D.assigns? name property =
      (lastValue (lastAssigned d.types name) property).or
        ((d.parent? name).bind fun parent => D.assigns? parent property)) ∧
    (d.KeepsDefaults D ↔ ∀ name property v, lastValue (d.assigned name) property = some v →
      property ∈ (lastAssigned d.types name).map Prod.fst ∨
        (d.parent? name).bind (fun parent => D.assigns? parent property) = some v) := by
  refine ⟨assigns?_eq h, ?_⟩
  rw [keepsDefaults_iff_lastValue]
  refine forall₄_congr fun name property v hv => ?_
  rw [assigns?_eq h]
  cases hlast : lastValue (lastAssigned d.types name) property with
  | none =>
    rw [Option.none_or]
    exact (or_iff_right (lastValue_eq_none_iff.1 hlast)).symm
  | some w =>
    -- the entry that decides has the property, and its value is the last of all
    have hmem := List.mem_map_of_mem (f := Prod.fst) (mem_of_lastValue hlast)
    have hwv : some w = some v := (lastValue_assigned hlast).symm.trans hv
    exact iff_of_true (by rw [Option.some_or, hwv]) (.inl hmem)

def FieldEntry.ofInt (name : String) (value : Nat) : FieldEntry :=
  ⟨name, some "Int", none, false, none, none, none, none, some (.ofNat value), []⟩

/-- An input type and an arguments type that share an entity, each with its own instance default. -/
def recipeEntries : Document :=
  ⟨[⟨"Recipe", .input, some "RecipeInput", none, none, false, [], [.ofInt "servings" 4], []⟩,
    ⟨"Recipe", .args, none, none, none, false, [], [.ofInt "take" 25], []⟩], [], [], .standard⟩

theorem declare_keepsDefaults_iff_recipeEntries :
    ∃ D, recipeEntries.declare.outcome = .ok D ∧
      D.assigns? "Recipe" "take" = some (.ofNat 25) ∧ D.assigns? "Recipe" "servings" = none := by
  have hdeclares : (recipeEntries.declare.outcome.toOption.isSome) = true := by decide +kernel
  obtain ⟨D, hD⟩ := Option.isSome_iff_exists.1 hdeclares
  have hassigns := (declare_keepsDefaults_iff (ok_of_toOption hD)).1 "Recipe"
  refine ⟨D, ok_of_toOption hD, ?_, ?_⟩
  · exact hassigns "take"
  · exact hassigns "servings"

theorem recipeEntries_not_keepsDefaults :
    ∃ D, recipeEntries.declare.outcome = .ok D ∧ ¬ recipeEntries.KeepsDefaults D := by
  have hlost : (recipeEntries.declare.outcome.toOption.map fun D =>
      (D.assigns? "Recipe" "servings").isNone) = some true := by decide +kernel
  obtain ⟨D, hD, hnone⟩ := Option.map_eq_some_iff.1 hlost
  refine ⟨D, ok_of_toOption hD, fun hkeeps => ?_⟩
  obtain ⟨w, hw, -⟩ := hkeeps "Recipe" [] "servings" (.ofNat 4) [("take", .ofNat 25)] rfl
  rw [hw] at hnone
  cases hnone

end Document

end CodeFirst
