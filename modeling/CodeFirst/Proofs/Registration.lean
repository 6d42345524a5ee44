import CodeFirst.Declaration
import CodeFirst.Proofs.Exposed

/-! What finishing declarations leaves. When no two of them are about the same thing, nothing is
merged: each catalog holds what its declarations compile to, in their order, so another order of
declarations leaves the same records. -/

namespace CodeFirst

/-- What a declaration is about. -/
inductive DeclarationKey where
  | class (kind : ClassKind) (target : EntityId)
  | scalar (target : EntityId)
  | resolver (target : EntityId)
  | handler (kind : HandlerKind) (target : EntityId) (method : String)
  deriving DecidableEq, Repr

namespace Declaration

def key : Declaration → DeclarationKey
  | .class kind d => .class kind d.target
  | .scalar target .. => .scalar target
  | .resolver record => .resolver record.target
  | .handler kind d => .handler kind d.target d.method

/-- The field that a handler serves: its kind and class, and its name in the schema. -/
def place? : Declaration → Option (HandlerKind × EntityId × String)
  | .handler kind d => some (kind, d.target, d.name.getD d.method)
  | _ => none

section Records

variable (t : Registry)

/-- Only the names of entities matter to what a declaration compiles to. -/
def Compiles : Declaration → Prop
  | .class _ d => ∃ c, d.compile t = .ok c
  | .handler kind d => ∃ h, d.compile kind t = .ok h
  | _ => True

def class? (k : ClassKind) : Declaration → Option ClassRecord
  | .class kind d => if kind = k then (d.compile t).toOption else none
  | _ => none

def scalar? : Declaration → Option ScalarRecord
  | .scalar target name description =>
    some ⟨target, name.getD (t.entityName target), description, none⟩
  | _ => none

def resolver? : Declaration → Option ResolverRecord
  | .resolver record => some record
  | _ => none

def handler? (k : HandlerKind) : Declaration → Option Handler
  | .handler kind d => if kind = k then (d.compile kind t).toOption else none
  | _ => none

end Records

end Declaration

theorem ClassDeclaration.target_compile {d : ClassDeclaration} {r : Registry} {c : ClassRecord}
    (h : d.compile r = .ok c) : c.target = d.target := by
  rw [ClassDeclaration.compile] at h
  cases hp : d.properties.mapM (·.compile (d.name.getD (r.entityName d.target))) with
  | error e =>
    simp only [hp] at h
    cases h
  | ok ps =>
    simp only [hp] at h
    cases h
    rfl

theorem HandlerDeclaration.of_compile {d : HandlerDeclaration} {kind : HandlerKind} {r : Registry}
    {h : Handler} (hc : d.compile kind r = .ok h) :
    h.key = (d.target, d.method) ∧ h.place = (d.target, d.name.getD d.method) := by
  rw [HandlerDeclaration.compile] at hc
  by_cases hreturn : (d.type.isNone && kind != .field) = true
  · simp only [hreturn, if_true] at hc
    cases hc
  · simp only [hreturn] at hc
    cases hp : ParameterDeclaration.compileAll
        (Location.ofMember (r.entityName d.target) d.method) 0 d.parameters with
    | error e =>
      simp only [hp] at hc
      cases hc
    | ok ps =>
      simp only [hp] at hc
      cases hc
      exact ⟨rfl, rfl⟩

namespace Declaration

variable {t r : Registry} {d : Declaration}

theorem key_of_class? {k : ClassKind} {c : ClassRecord} (h : d.class? t k = some c) :
    d.key = .class k c.target := by
  cases d with
  | «class» kind d =>
    by_cases hk : kind = k
    · rw [class?, if_pos hk] at h
      rw [key, hk, ClassDeclaration.target_compile (ok_of_toOption h)]
    · rw [class?, if_neg hk] at h
      cases h
  | _ => cases h

theorem key_of_scalar? {x : ScalarRecord} (h : d.scalar? t = some x) :
    d.key = .scalar x.target := by
  cases d with
  | scalar target name description =>
    cases h
    rfl
  | _ => cases h

theorem key_of_resolver? {x : ResolverRecord} (h : d.resolver? = some x) :
    d.key = .resolver x.target := by
  cases d with
  | resolver record =>
    cases h
    rfl
  | _ => cases h

theorem of_handler? {k : HandlerKind} {x : Handler} (h : d.handler? t k = some x) :
    d.key = .handler k x.target x.method ∧ d.place? = some (k, x.place) := by
  cases d with
  | handler kind d =>
    by_cases hk : kind = k
    · rw [handler?, if_pos hk] at h
      obtain ⟨hkey, hplace⟩ := HandlerDeclaration.of_compile (ok_of_toOption h)
      obtain ⟨htarget, hmethod⟩ := Prod.mk.inj hkey
      rw [key, place?, hk, htarget, hmethod, hplace]
      exact ⟨rfl, rfl⟩
    · rw [handler?, if_neg hk] at h
      cases h
  | _ => cases h

end Declaration

/-- A registry over the entities of another one with the records of some declarations. -/
structure Registry.Holds (t : Registry) (l : List Declaration) (r : Registry) : Prop where
  entities : r.entities = t.entities
  classes : ∀ k, (r.classes k).records = l.filterMap (Declaration.class? t k)
  scalars : r.scalars.records = l.filterMap (Declaration.scalar? t)
  resolvers : r.resolvers.records = l.filterMap Declaration.resolver?
  handlers : ∀ k, (r.handlers k).records = l.filterMap (Declaration.handler? t k)

theorem not_mem_of_key {α κ : Type} {l : List Declaration} {f : Declaration → Option α}
    {g : α → κ} {k : κ} {key : DeclarationKey} (hf : ∀ d x, f d = some x → g x = k → d.key = key)
    (hkey : key ∉ l.map Declaration.key) : k ∉ (l.filterMap f).map g := by
  intro hk
  obtain ⟨x, hx, hxk⟩ := List.mem_map.1 hk
  obtain ⟨d, hd, hdx⟩ := List.mem_filterMap.1 hx
  exact hkey (List.mem_map.2 ⟨d, hd, hf d x hdx hxk⟩)

namespace Registry.Holds

variable {t r : Registry} {l : List Declaration}

theorem not_mem_classes (h : t.Holds l r) {k : ClassKind} {id : EntityId}
    (hkey : .class k id ∉ l.map Declaration.key) : id ∉ (r.classes k).keys := by
  change id ∉ (r.classes k).records.map ClassRecord.target
  rw [h.classes]
  refine not_mem_of_key (fun d x hx hid => ?_) hkey
  rw [Declaration.key_of_class? hx, hid]

theorem not_mem_scalars (h : t.Holds l r) {id : EntityId}
    (hkey : .scalar id ∉ l.map Declaration.key) : id ∉ r.scalars.keys := by
  change id ∉ r.scalars.records.map ScalarRecord.target
  rw [h.scalars]
  refine not_mem_of_key (fun d x hx hid => ?_) hkey
  rw [Declaration.key_of_scalar? hx, hid]

theorem not_mem_resolvers (h : t.Holds l r) {id : EntityId}
    (hkey : .resolver id ∉ l.map Declaration.key) : id ∉ r.resolvers.keys := by
  change id ∉ r.resolvers.records.map ResolverRecord.target
  rw [h.resolvers]
  refine not_mem_of_key (fun d x hx hid => ?_) hkey
  rw [Declaration.key_of_resolver? hx, hid]

theorem not_mem_handlers (h : t.Holds l r) {k : HandlerKind} {id : EntityId} {method : String}
    (hkey : .handler k id method ∉ l.map Declaration.key) : (id, method) ∉ (r.handlers k).keys := by
  change (id, method) ∉ (r.handlers k).records.map Handler.key
  rw [h.handlers]
  refine not_mem_of_key (fun d x hx hid => ?_) hkey
  obtain ⟨htarget, hmethod⟩ := Prod.mk.inj hid
  rw [(Declaration.of_handler? hx).1, htarget, hmethod]

theorem addClass (h : t.Holds l r) {kind : ClassKind} {d : ClassDeclaration} {c : ClassRecord}
    (hc : d.compile t = .ok c) (hnew : c.target ∉ (r.classes kind).keys) :
    t.Holds (l ++ [.class kind d]) (r.setClasses kind ((r.classes kind).put c)) := by
  have hothers : (r.setClasses kind ((r.classes kind).put c)).entities = r.entities ∧
      (r.setClasses kind ((r.classes kind).put c)).scalars = r.scalars ∧
      (r.setClasses kind ((r.classes kind).put c)).resolvers = r.resolvers ∧
      ∀ k, (r.setClasses kind ((r.classes kind).put c)).handlers k = r.handlers k := by
    cases kind <;> exact ⟨rfl, rfl, rfl, fun _ => rfl⟩
  obtain ⟨hentities, hscalars, hresolvers, hhandlers⟩ := hothers
  refine ⟨hentities.trans h.entities, ?_, ?_, ?_, ?_⟩
  · intro k
    rw [Registry.classes_setClasses, List.filterMap_append]
    by_cases hk : k = kind
    · subst hk
      have hone : [Declaration.class k d].filterMap (Declaration.class? t k) = [c] := by
        simp [Declaration.class?, hc, Except.toOption]
      rw [if_pos rfl, Catalog.records_put, putRecord_of_not_mem hnew, h.classes, hone]
    · have hnone : [Declaration.class kind d].filterMap (Declaration.class? t k) = [] := by
        simp [Declaration.class?, Ne.symm hk]
      rw [if_neg hk, h.classes, hnone, List.append_nil]
  · rw [hscalars, h.scalars, List.filterMap_append]
    exact (List.append_nil _).symm
  · rw [hresolvers, h.resolvers, List.filterMap_append]
    exact (List.append_nil _).symm
  · intro k
    rw [hhandlers, h.handlers, List.filterMap_append]
    exact (List.append_nil _).symm

theorem addHandler (h : t.Holds l r) {kind : HandlerKind} {d : HandlerDeclaration} {x : Handler}
    (hx : d.compile kind t = .ok x) (hnew : x.key ∉ (r.handlers kind).keys) :
    t.Holds (l ++ [.handler kind d]) (r.setHandlers kind ((r.handlers kind).put x)) := by
  have hothers : (r.setHandlers kind ((r.handlers kind).put x)).entities = r.entities ∧
      (r.setHandlers kind ((r.handlers kind).put x)).scalars = r.scalars ∧
      (r.setHandlers kind ((r.handlers kind).put x)).resolvers = r.resolvers ∧
      ∀ k, (r.setHandlers kind ((r.handlers kind).put x)).classes k = r.classes k := by
    rcases kind with (_ | _ | _) | _ <;> exact ⟨rfl, rfl, rfl, fun k => by cases k <;> rfl⟩
  obtain ⟨hentities, hscalars, hresolvers, hclasses⟩ := hothers
  refine ⟨hentities.trans h.entities, ?_, ?_, ?_, ?_⟩
  · intro k
    rw [hclasses, h.classes, List.filterMap_append]
    exact (List.append_nil _).symm
  · rw [hscalars, h.scalars, List.filterMap_append]
    exact (List.append_nil _).symm
  · rw [hresolvers, h.resolvers, List.filterMap_append]
    exact (List.append_nil _).symm
  · intro k
    rw [Registry.handlers_setHandlers, List.filterMap_append]
    by_cases hk : k = kind
    · subst hk
      have hone : [Declaration.handler k d].filterMap (Declaration.handler? t k) = [x] := by
        simp [Declaration.handler?, hx, Except.toOption]
      rw [if_pos rfl, Catalog.records_put, putRecord_of_not_mem hnew, h.handlers, hone]
    · have hnone : [Declaration.handler kind d].filterMap (Declaration.handler? t k) = [] := by
        simp [Declaration.handler?, Ne.symm hk]
      rw [if_neg hk, h.handlers, hnone, List.append_nil]

theorem addScalar (h : t.Holds l r) {target : EntityId} {name description : Option String}
    (hnew : target ∉ r.scalars.keys) :
    t.Holds (l ++ [.scalar target name description]) { r with
      scalars := r.scalars.put ⟨target, name.getD (t.entityName target), description, none⟩ } := by
  refine ⟨h.entities, ?_, ?_, ?_, ?_⟩
  · intro k
    rw [List.filterMap_append, ← h.classes]
    cases k <;> exact (List.append_nil _).symm
  · rw [List.filterMap_append, ← h.scalars]
    exact putRecord_of_not_mem hnew
  · rw [List.filterMap_append, ← h.resolvers]
    exact (List.append_nil _).symm
  · intro k
    rw [List.filterMap_append, ← h.handlers]
    rcases k with (_ | _ | _) | _ <;> exact (List.append_nil _).symm

theorem addResolver (h : t.Holds l r) {record : ResolverRecord}
    (hnew : record.target ∉ r.resolvers.keys) :
    t.Holds (l ++ [.resolver record]) { r with resolvers := r.resolvers.put record } := by
  refine ⟨h.entities, ?_, ?_, ?_, ?_⟩
  · intro k
    rw [List.filterMap_append, ← h.classes]
    cases k <;> exact (List.append_nil _).symm
  · rw [List.filterMap_append, ← h.scalars]
    exact (List.append_nil _).symm
  · rw [List.filterMap_append, ← h.resolvers]
    exact putRecord_of_not_mem hnew
  · intro k
    rw [List.filterMap_append, ← h.handlers]
    rcases k with (_ | _ | _) | _ <;> exact (List.append_nil _).symm

theorem register (h : t.Holds l r) {d : Declaration} (hd : d.key ∉ l.map Declaration.key) :
    (d.Compiles t ∧ ∃ r', (d.register r).result = (r', .ok ()) ∧ t.Holds (l ++ [d]) r') ∨
      (¬ d.Compiles t ∧ ∃ e, (d.register r).result = (r, .error e)) := by
  have hnames : r.entityName = t.entityName := by
    funext id
    rw [Registry.entityName, Registry.entityName, h.entities]
  cases d with
  | «class» kind d =>
    have hcompile : d.compile r = d.compile t := by
      unfold ClassDeclaration.compile
      rw [hnames]
    cases hc : d.compile t with
    | error e =>
      refine .inr ⟨?_, e, ?_⟩
      · rintro ⟨c, hc'⟩
        rw [hc] at hc'
        cases hc'
      · simp only [Declaration.register, hcompile, hc]
        rfl
    | ok c =>
      have htarget := ClassDeclaration.target_compile hc
      have hnew : c.target ∉ (r.classes kind).keys := h.not_mem_classes (htarget ▸ hd)
      have hnone : r.class? kind c.target = none := Catalog.get?_eq_none_iff.2 hnew
      refine .inl ⟨⟨c, hc⟩, _, ?_, h.addClass hc hnew⟩
      simp only [Declaration.register, hcompile, hc, Registry.addClass, hnone]
      rfl
  | scalar target name description =>
    refine .inl ⟨trivial, _, ?_, h.addScalar (h.not_mem_scalars hd)⟩
    rw [← hnames]
    rfl
  | resolver record =>
    have hnew := h.not_mem_resolvers hd
    have hnone : r.resolver? record.target = none := Catalog.get?_eq_none_iff.2 hnew
    refine .inl ⟨trivial, _, ?_, h.addResolver hnew⟩
    simp only [Declaration.register, Registry.addResolver, hnone]
    rfl
  | handler kind d =>
    have hcompile : d.compile kind r = d.compile kind t := by
      unfold HandlerDeclaration.compile
      rw [hnames]
    cases hc : d.compile kind t with
    | error e =>
      refine .inr ⟨?_, e, ?_⟩
      · rintro ⟨x, hx⟩
        rw [hc] at hx
        cases hx
      · simp only [Declaration.register, hcompile, hc]
        rfl
    | ok x =>
      obtain ⟨hkey, -⟩ := HandlerDeclaration.of_compile hc
      have hnew : x.key ∉ (r.handlers kind).keys := by
        rw [hkey]
        exact h.not_mem_handlers hd
      have hnone : (r.handlers kind).get? x.key = none := Catalog.get?_eq_none_iff.2 hnew
      refine .inl ⟨⟨x, hc⟩, _, ?_, h.addHandler hc hnew⟩
      simp only [Declaration.register, hcompile, hc, Registry.addHandler, hnone]
      rfl

theorem run (h : t.Holds l r) {rest : List Declaration}
    (hkeys : ((l ++ rest).map Declaration.key).Nodup) (n : Nat) :
    ((∀ d ∈ rest, d.Compiles t) ∧ ∃ r' m,
        (Queue.run n (rest.map fun d => ⟨some d.target, d.register⟩) r).result = (r', .ok m) ∧
          t.Holds (l ++ rest) r') ∨
      ((¬ ∀ d ∈ rest, d.Compiles t) ∧ ∃ r' e,
        (Queue.run n (rest.map fun d => ⟨some d.target, d.register⟩) r).result =
          (r', .error e)) := by
  induction rest generalizing l r n with
  | nil =>
    refine .inl ⟨by simp, r, n, rfl, ?_⟩
    rwa [List.append_nil]
  | cons d rest ih =>
    have happend : l ++ d :: rest = l ++ [d] ++ rest := by simp
    have hd : d.key ∉ l.map Declaration.key := by
      intro hmem
      rw [List.map_append, List.map_cons] at hkeys
      exact (List.nodup_append.1 hkeys).2.2 _ hmem _ List.mem_cons_self rfl
    rw [happend] at hkeys ⊢
    rcases h.register hd with ⟨hcompiles, r', hr', hholds⟩ | ⟨hnot, e, he⟩
    · have hstep : (Queue.run n ((d :: rest).map fun d => ⟨some d.target, d.register⟩) r).result =
          (Queue.run (n + 1) (rest.map fun d => ⟨some d.target, d.register⟩) r').result := by
        rw [List.map_cons, Queue.run, Logged.result_bind, hr']
      rw [hstep]
      have hall : (∀ x ∈ d :: rest, x.Compiles t) ↔ ∀ x ∈ rest, x.Compiles t := by
        simp [hcompiles]
      rw [hall]
      exact ih hholds hkeys (n + 1)
    · refine .inr ⟨fun hall => hnot (hall d List.mem_cons_self), r,
        .deferred (Queue.ownerName r (some d.target)) e, ?_⟩
      rw [List.map_cons, Queue.run, Logged.result_bind, he]
      rfl

theorem alike {l' : List Declaration} {r' : Registry} (h : t.Holds l r) (h' : t.Holds l' r')
    (hp : l.Perm l') : r.Alike r' := by
  refine ⟨h.entities.trans h'.entities.symm, ?_, ?_, ?_, ?_⟩
  · intro k
    rw [h.classes, h'.classes]
    exact hp.filterMap _
  · rw [h.scalars, h'.scalars]
    exact hp.filterMap _
  · rw [h.resolvers, h'.resolvers]
    exact hp.filterMap _
  · intro k
    rw [h.handlers, h'.handlers]
    exact hp.filterMap _

theorem handlersApart (h : t.Holds l r) (hplaces : (l.filterMap Declaration.place?).Nodup) :
    r.HandlersApart := by
  intro k
  rw [h.handlers]
  rw [List.Nodup, List.pairwise_filterMap] at hplaces
  rw [List.Nodup, List.pairwise_map, List.pairwise_filterMap]
  refine hplaces.imp ?_
  intro d e hde x hx y hy hxy
  refine hde _ (Declaration.of_handler? hx).2 _ (Declaration.of_handler? hy).2 ?_
  rw [hxy]

end Registry.Holds

def Registry.ofEntities (t : EntityTable) : Registry := { (∅ : Registry) with entities := t }

namespace Declarations

def ofList (t : EntityTable) (l : List Declaration) : Declarations :=
  l.foldl add ⟨.ofEntities t, ∅⟩

theorem foldl_add (ds : Declarations) (l : List Declaration) :
    l.foldl add ds = ⟨ds.registry,
      ⟨ds.queue.deferrals ++ l.map fun d => ⟨some d.target, d.register⟩⟩⟩ := by
  induction l generalizing ds with
  | nil =>
    rw [List.map_nil, List.append_nil]
    rfl
  | cons d rest ih =>
    rw [List.foldl_cons, ih]
    simp [add, Queue.enqueue]

variable {t : EntityTable} {l : List Declaration}

/-- Declarations about different things are finished if each of them compiles. -/
theorem finish_ofList (hkeys : (l.map Declaration.key).Nodup) :
    ((∀ d ∈ l, d.Compiles (.ofEntities t)) ∧ ∃ r, (ofList t l).finish.outcome = .ok r ∧
        (Registry.ofEntities t).Holds l r) ∨
      ((¬ ∀ d ∈ l, d.Compiles (.ofEntities t)) ∧ ∀ r, (ofList t l).finish.outcome ≠ .ok r) := by
  have hstart : (Registry.ofEntities t).Holds [] (.ofEntities t) := by
    refine ⟨rfl, ?_, rfl, rfl, ?_⟩
    · intro k
      cases k <;> rfl
    · intro k
      rcases k with (_ | _ | _) | _ <;> rfl
  have hqueue : ofList t l = ⟨.ofEntities t, ⟨l.map fun d => ⟨some d.target, d.register⟩⟩⟩ :=
    foldl_add _ l
  have hfinish : ∀ x, (Queue.run 0 (l.map fun d => ⟨some d.target, d.register⟩)
      (.ofEntities t)).result = x → (ofList t l).finish.outcome = x.2.map fun _ => x.1 := by
    rintro x rfl
    rw [hqueue]
    refine (Trial.outcome_bind (Trial.outcome_ofLogged _) _).trans ?_
    simp only [Queue.drain, Logged.result_bind, Logged.result_pure]
    cases (Queue.run 0 (l.map fun d => ⟨some d.target, d.register⟩) (.ofEntities t)).result with
    | mk r result =>
      cases result <;> rfl
  rcases hstart.run hkeys 0 with ⟨hall, r, n, hr, hholds⟩ | ⟨hnot, r, e, he⟩
  · exact .inl ⟨hall, r, hfinish _ hr, hholds⟩
  · refine .inr ⟨hnot, ?_⟩
    intro r' hr'
    rw [hfinish _ he] at hr'
    cases hr'

theorem finish_holds (hkeys : (l.map Declaration.key).Nodup) {r : Registry}
    (h : (ofList t l).finish.outcome = .ok r) : (Registry.ofEntities t).Holds l r := by
  rcases finish_ofList (t := t) hkeys with ⟨-, r', hr', hholds⟩ | ⟨-, hnot⟩
  · rw [h, Except.ok.injEq] at hr'
    rwa [hr']
  · exact absurd h (hnot r)

/-- Declarations about different things are finished in any order or in none. -/
theorem finish_of_perm {l' : List Declaration} (hp : l.Perm l')
    (hkeys : (l.map Declaration.key).Nodup) (h : ∃ r, (ofList t l).finish.outcome = .ok r) :
    ∃ r, (ofList t l').finish.outcome = .ok r := by
  have hkeys' : (l'.map Declaration.key).Nodup := (hp.map _).nodup_iff.1 hkeys
  obtain ⟨r, hr⟩ := h
  rcases finish_ofList (t := t) hkeys with ⟨hall, -⟩ | ⟨-, hnot⟩
  · rcases finish_ofList (t := t) hkeys' with ⟨-, r', hr', -⟩ | ⟨hnot, -⟩
    · exact ⟨r', hr'⟩
    · exact absurd (fun d hd => hall d (hp.symm.subset hd)) hnot
  · exact absurd hr (hnot r)

end Declarations

end CodeFirst
