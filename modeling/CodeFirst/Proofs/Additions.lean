import CodeFirst.Proofs.Registration
import CodeFirst.Proofs.Upsert

/-! What additions leave in a registry. Every store takes in the additions to it and no others, and
what it holds under a key comes from the additions under that key. -/

namespace CodeFirst

inductive Addition where
  | class (kind : ClassKind) (record : ClassRecord)
  | scalar (record : ScalarRecord)
  | resolver (record : ResolverRecord)
  | handler (kind : HandlerKind) (record : Handler)

namespace Addition

def key : Addition → DeclarationKey
  | .class kind c => .class kind c.target
  | .scalar s => .scalar s.target
  | .resolver x => .resolver x.target
  | .handler kind h => .handler kind h.target h.method

def class? (k : ClassKind) : Addition → Option ClassRecord
  | .class kind c => if kind = k then some c else none
  | _ => none

def scalar? : Addition → Option ScalarRecord
  | .scalar s => some s
  | _ => none

def resolver? : Addition → Option ResolverRecord
  | .resolver x => some x
  | _ => none

def handler? (k : HandlerKind) : Addition → Option Handler
  | .handler kind h => if kind = k then some h else none
  | _ => none

end Addition

def classCalls (kind : ClassKind) (id : EntityId) (l : List Addition) : List ClassRecord :=
  (l.filterMap (Addition.class? kind)).filter (·.target = id)

def handlerCalls (kind : HandlerKind) (key : EntityId × String) (l : List Addition) :
    List Handler :=
  (l.filterMap (Addition.handler? kind)).filter (·.key = key)

namespace ClassRecord

def pool? : List ClassRecord → Option ClassRecord
  | [] => none
  | first :: later => some (first.pool later)

end ClassRecord

namespace Registry

def add (r : Registry) : Addition → Logged Registry
  | .class kind c => r.addClass kind c
  | .scalar s => r.addScalar s
  | .resolver x => pure (r.addResolver x)
  | .handler kind h => r.addHandler kind h

def addAll (r : Registry) (l : List Addition) : Registry :=
  l.foldl (fun r a => (r.add a).result) r

def find? (r : Registry) : DeclarationKey → Option Addition
  | .class kind id => (r.class? kind id).map (.class kind)
  | .scalar id => (r.scalar? id).map .scalar
  | .resolver id => (r.resolver? id).map .resolver
  | .handler kind id method => ((r.handlers kind).get? (id, method)).map (.handler kind)

theorem setClasses_classes (r : Registry) (kind : ClassKind) :
    r.setClasses kind (r.classes kind) = r := by cases kind <;> rfl

theorem setHandlers_handlers (r : Registry) (kind : HandlerKind) :
    r.setHandlers kind (r.handlers kind) = r := by rcases kind with (_ | _ | _) | _ <;> rfl

theorem result_addClass (r : Registry) (kind : ClassKind) (c : ClassRecord) :
    (r.addClass kind c).result =
      r.setClasses kind ((r.classes kind).upsert ClassRecord.merge c) := by
  rw [addClass, Catalog.upsert, class?]
  cases (r.classes kind).get? c.target <;> rfl

theorem result_addHandler (r : Registry) (kind : HandlerKind) (h : Handler) :
    (r.addHandler kind h).result =
      r.setHandlers kind ((r.handlers kind).upsert Handler.merge h) := by
  rw [addHandler, Catalog.upsert]
  cases (r.handlers kind).get? h.key <;> rfl

theorem addResolver_eq (r : Registry) (x : ResolverRecord) :
    r.addResolver x = { r with resolvers := r.resolvers.upsert ResolverRecord.merge x } := by
  rw [addResolver, Catalog.upsert, resolver?]
  cases r.resolvers.get? x.target <;> rfl

theorem result_addScalar (r : Registry) (s : ScalarRecord) :
    (r.addScalar s).result = { r with scalars := r.scalars.upsert (fun _ s => s) s } := by
  rw [addScalar, Catalog.upsert]
  cases r.scalars.get? s.target <;> rfl

theorem result_add (r : Registry) (a : Addition) : (r.add a).result = match a with
    | .class kind c => r.setClasses kind ((r.classes kind).upsert ClassRecord.merge c)
    | .scalar s => { r with scalars := r.scalars.upsert (fun _ s => s) s }
    | .resolver x => { r with resolvers := r.resolvers.upsert ResolverRecord.merge x }
    | .handler kind h => r.setHandlers kind ((r.handlers kind).upsert Handler.merge h) := by
  cases a with
  | «class» kind c => exact result_addClass r kind c
  | scalar s => exact result_addScalar r s
  | resolver x => exact addResolver_eq r x
  | handler kind h => exact result_addHandler r kind h

section Stores

variable (r : Registry)

@[simp] theorem handlers_setClasses (kind : ClassKind) (c : ClassCatalog) (k : HandlerKind) :
    (r.setClasses kind c).handlers k = r.handlers k := by cases kind <;> rfl

@[simp] theorem scalars_setClasses (kind : ClassKind) (c : ClassCatalog) :
    (r.setClasses kind c).scalars = r.scalars := by cases kind <;> rfl

@[simp] theorem resolvers_setClasses (kind : ClassKind) (c : ClassCatalog) :
    (r.setClasses kind c).resolvers = r.resolvers := by cases kind <;> rfl

@[simp] theorem classes_setHandlers (kind : HandlerKind) (c : HandlerCatalog) (k : ClassKind) :
    (r.setHandlers kind c).classes k = r.classes k := by
  rcases kind with (_ | _ | _) | _ <;> cases k <;> rfl

@[simp] theorem scalars_setHandlers (kind : HandlerKind) (c : HandlerCatalog) :
    (r.setHandlers kind c).scalars = r.scalars := by rcases kind with (_ | _ | _) | _ <;> rfl

@[simp] theorem resolvers_setHandlers (kind : HandlerKind) (c : HandlerCatalog) :
    (r.setHandlers kind c).resolvers = r.resolvers := by rcases kind with (_ | _ | _) | _ <;> rfl

theorem classes_add (a : Addition) (k : ClassKind) :
    (r.add a).result.classes k = (r.classes k).upsertAll ClassRecord.merge (a.class? k).toList := by
  rw [result_add]
  cases a with
  | «class» kind c =>
    by_cases hk : k = kind
    · subst hk
      simp [classes_setClasses, Addition.class?, Catalog.upsertAll]
    · simp [classes_setClasses, Addition.class?, Catalog.upsertAll, hk, Ne.symm hk]
  | handler kind h => simp [Addition.class?, Catalog.upsertAll]
  | _ => cases k <;> rfl

theorem handlers_add (a : Addition) (k : HandlerKind) :
    (r.add a).result.handlers k =
      (r.handlers k).upsertAll Handler.merge (a.handler? k).toList := by
  rw [result_add]
  cases a with
  | «class» kind c => simp [Addition.handler?, Catalog.upsertAll]
  | handler kind h =>
    by_cases hk : k = kind
    · subst hk
      simp [handlers_setHandlers, Addition.handler?, Catalog.upsertAll]
    · simp [handlers_setHandlers, Addition.handler?, Catalog.upsertAll, hk, Ne.symm hk]
  | _ => rcases k with (_ | _ | _) | _ <;> rfl

theorem scalars_add (a : Addition) :
    (r.add a).result.scalars = r.scalars.upsertAll (fun _ s => s) a.scalar?.toList := by
  rw [result_add]
  cases a <;> simp [Addition.scalar?, Catalog.upsertAll]

theorem resolvers_add (a : Addition) :
    (r.add a).result.resolvers =
      r.resolvers.upsertAll ResolverRecord.merge a.resolver?.toList := by
  rw [result_add]
  cases a <;> simp [Addition.resolver?, Catalog.upsertAll]

end Stores

theorem store_addAll {κ ν : Type} [DecidableEq κ] {key : ν → κ} {merge : ν → ν → ν}
    (store : Registry → Catalog key) (f : Addition → Option ν)
    (hstep : ∀ r a, store (r.add a).result = (store r).upsertAll merge (f a).toList)
    (r : Registry) (l : List Addition) :
    store (r.addAll l) = (store r).upsertAll merge (l.filterMap f) := by
  induction l generalizing r with
  | nil => rfl
  | cons a rest ih =>
    have hrest : r.addAll (a :: rest) = (r.add a).result.addAll rest := rfl
    rw [hrest, ih, hstep, ← Catalog.upsertAll_append]
    cases h : f a <;> simp [h]

theorem classes_addAll (r : Registry) (l : List Addition) (k : ClassKind) :
    (r.addAll l).classes k =
      (r.classes k).upsertAll ClassRecord.merge (l.filterMap (Addition.class? k)) :=
  store_addAll (·.classes k) (Addition.class? k) (fun r a => classes_add r a k) r l

theorem handlers_addAll (r : Registry) (l : List Addition) (k : HandlerKind) :
    (r.addAll l).handlers k =
      (r.handlers k).upsertAll Handler.merge (l.filterMap (Addition.handler? k)) :=
  store_addAll (·.handlers k) (Addition.handler? k) (fun r a => handlers_add r a k) r l

end Registry

theorem ClassRecord.keepsKey_merge : Catalog.KeepsKey merge ClassRecord.target :=
  fun _ _ h => h

theorem Handler.keepsKey_merge : Catalog.KeepsKey merge Handler.key :=
  fun _ _ h => h

theorem ScalarRecord.keepsKey_replace :
    Catalog.KeepsKey (fun _ s => s) ScalarRecord.target :=
  fun _ _ _ => rfl

theorem ResolverRecord.keepsKey_merge : Catalog.KeepsKey merge ResolverRecord.target :=
  fun _ _ h => h

namespace Registry

variable {r : Registry}

/-- An addition leaves alone what it is not about. -/
theorem find?_add_of_ne {a : Addition} {k : DeclarationKey} (h : k ≠ a.key) :
    (r.add a).result.find? k = r.find? k := by
  cases k with
  | «class» kind id =>
    simp only [find?, class?, classes_add, Catalog.get?_upsertAll ClassRecord.keepsKey_merge]
    cases a with
    | «class» kind' c =>
      by_cases hk : kind' = kind
      · have hid : c.target ≠ id := fun hid => h (by rw [Addition.key, hk, hid])
        simp [Addition.class?, hk, hid]
      · simp [Addition.class?, hk]
    | _ => rfl
  | scalar id =>
    simp only [find?, scalar?, scalars_add, Catalog.get?_upsertAll ScalarRecord.keepsKey_replace]
    cases a with
    | scalar s =>
      have hid : s.target ≠ id := fun hid => h (by rw [Addition.key, hid])
      simp [Addition.scalar?, hid]
    | _ => rfl
  | resolver id =>
    simp only [find?, resolver?, resolvers_add,
      Catalog.get?_upsertAll ResolverRecord.keepsKey_merge]
    cases a with
    | resolver x =>
      have hid : x.target ≠ id := fun hid => h (by rw [Addition.key, hid])
      simp [Addition.resolver?, hid]
    | _ => rfl
  | handler kind id method =>
    simp only [find?, handlers_add, Catalog.get?_upsertAll Handler.keepsKey_merge]
    cases a with
    | handler kind' x =>
      by_cases hk : kind' = kind
      · have hid : x.key ≠ (id, method) := by
          intro hid
          obtain ⟨htarget, hmethod⟩ := Prod.mk.inj hid
          exact h (by rw [Addition.key, hk, htarget, hmethod])
        simp [Addition.handler?, hk, hid]
      · simp [Addition.handler?, hk]
    | _ => rfl

theorem addClass_addAll_of_mem {l : List Addition} {kind : ClassKind} {c : ClassRecord}
    (hc : .class kind c ∈ l) (hd : ∀ d ∈ c.directives, d.Regular) :
    ((r.addAll l).addClass kind c).result = r.addAll l := by
  have hmem : c ∈ l.filterMap (Addition.class? kind) :=
    List.mem_filterMap.2 ⟨_, hc, by simp [Addition.class?]⟩
  have hstore := Catalog.upsert_upsertAll_of_mem ClassRecord.keepsKey_merge
    (ClassRecord.absorbs hd) (r.classes kind) hmem
  rw [← classes_addAll] at hstore
  rw [result_addClass, hstore, setClasses_classes]

/-- Adding a handler again changes nothing. -/
theorem addHandler_addAll_of_mem {l : List Addition} {kind : HandlerKind} {h : Handler}
    (hh : .handler kind h ∈ l) (hd : ∀ d ∈ h.directives, d.Regular) :
    ((r.addAll l).addHandler kind h).result = r.addAll l := by
  have hmem : h ∈ l.filterMap (Addition.handler? kind) :=
    List.mem_filterMap.2 ⟨_, hh, by simp [Addition.handler?]⟩
  have hstore := Catalog.upsert_upsertAll_of_mem Handler.keepsKey_merge
    (Handler.absorbs hd) (r.handlers kind) hmem
  rw [← handlers_addAll] at hstore
  rw [result_addHandler, hstore, setHandlers_handlers]

/-- A class record is the pool of the additions to it. -/
theorem class?_addAll (t : EntityTable) (l : List Addition) (kind : ClassKind) (id : EntityId) :
    ((ofEntities t).addAll l).class? kind id = ClassRecord.pool? (classCalls kind id l) := by
  have hempty : ((ofEntities t).classes kind).get? id = none := by cases kind <;> rfl
  rw [class?, classes_addAll, Catalog.get?_upsertAll ClassRecord.keepsKey_merge, hempty]
  change (classCalls kind id l).foldl _ none = _
  cases classCalls kind id l with
  | nil => rfl
  | cons first later =>
    rw [List.foldl_cons, Option.map_none, Option.getD_none, Catalog.foldl_some,
      ClassRecord.foldl_merge, ClassRecord.pool?]

/-- A handler is what merging the additions to it in order gives. -/
theorem handler_addAll (t : EntityTable) (l : List Addition) (kind : HandlerKind)
    (key : EntityId × String) :
    (((ofEntities t).addAll l).handlers kind).get? key = match handlerCalls kind key l with
      | [] => none
      | first :: later => some (later.foldl Handler.merge first) := by
  have hempty : ((ofEntities t).handlers kind).get? key = none := by
    rcases kind with (_ | _ | _) | _ <;> rfl
  rw [handlers_addAll, Catalog.get?_upsertAll Handler.keepsKey_merge, hempty]
  change (handlerCalls kind key l).foldl _ none = _
  cases handlerCalls kind key l with
  | nil => rfl
  | cons first later =>
    rw [List.foldl_cons, Option.map_none, Option.getD_none, Catalog.foldl_some]

/-- The keys of each store come in the order of the first additions. -/
theorem keys_addAll (t : EntityTable) (l : List Addition) :
    (∀ kind, (((ofEntities t).addAll l).classes kind).keys =
      ((l.filterMap (Addition.class? kind)).map (·.target)).eraseDups) ∧
    (∀ kind, (((ofEntities t).addAll l).handlers kind).keys =
      ((l.filterMap (Addition.handler? kind)).map (·.key)).eraseDups) ∧
    ((ofEntities t).addAll l).scalars.keys =
      ((l.filterMap Addition.scalar?).map (·.target)).eraseDups ∧
    ((ofEntities t).addAll l).resolvers.keys =
      ((l.filterMap Addition.resolver?).map (·.target)).eraseDups := by
  refine ⟨?_, ?_, ?_, ?_⟩
  · intro kind
    have hempty : (ofEntities t).classes kind = ∅ := by cases kind <;> rfl
    rw [classes_addAll, hempty, Catalog.keys_upsertAll ClassRecord.keepsKey_merge]
  · intro kind
    have hempty : (ofEntities t).handlers kind = ∅ := by
      rcases kind with (_ | _ | _) | _ <;> rfl
    rw [handlers_addAll, hempty, Catalog.keys_upsertAll Handler.keepsKey_merge]
  · have hempty : (ofEntities t).scalars = ∅ := rfl
    rw [store_addAll (·.scalars) Addition.scalar? scalars_add, hempty,
      Catalog.keys_upsertAll ScalarRecord.keepsKey_replace]
  · have hempty : (ofEntities t).resolvers = ∅ := rfl
    rw [store_addAll (·.resolvers) Addition.resolver? resolvers_add, hempty,
      Catalog.keys_upsertAll ResolverRecord.keepsKey_merge]

/-- Every property of a class record is stored or passed over, and each one that is passed over is
warned about. -/
theorem addClass_addAll (t : EntityTable) (l : List Addition) (kind : ClassKind)
    (c : ClassRecord) :
    let r := (ofEntities t).addAll l
    let earlier := classCalls kind c.target l
    (c.stored earlier ++ c.passedOver earlier).Perm c.properties ∧
    ((r.addClass kind c).result.class? kind c.target).map (·.properties) =
      some ((r.class? kind c.target).elim [] (·.properties) ++ c.stored earlier) ∧
    (r.addClass kind c).events.filter (·.level = .warn) = (c.passedOver earlier).map
      fun p => .skippedField kind (earlier.headD c).name p.schemaName := by
  intro r earlier
  have hr : r.class? kind c.target = ClassRecord.pool? earlier := class?_addAll t l kind c.target
  have hresult : (r.addClass kind c).result.class? kind c.target =
      some (((r.class? kind c.target).map (·.merge c)).getD c) := by
    rw [class?, result_addClass, classes_setClasses, if_pos rfl,
      Catalog.get?_upsert ClassRecord.keepsKey_merge, if_pos rfl]
    rfl
  cases hcalls : earlier with
  | nil =>
    have hnone : r.class? kind c.target = none := by rw [hr, hcalls]; rfl
    refine ⟨by simp [ClassRecord.stored, ClassRecord.passedOver], ?_, ?_⟩
    · simp [hresult, hnone, ClassRecord.stored]
    · simp [addClass, hnone, ClassRecord.passedOver, Event.level]
  | cons first later =>
    have hsome : r.class? kind c.target = some (first.pool later) := by rw [hr, hcalls]; rfl
    refine ⟨perm_firsts_append_repeats _ _, ?_, ?_⟩
    · have hmerged : (r.addClass kind c).result.class? kind c.target =
          some (first.pool (later ++ [c])) := by
        rw [hresult, hsome, ClassRecord.pool_append]
        rfl
      rw [hmerged, Option.map_some, ClassRecord.properties_pool_append, hsome, Option.elim_some]
    · have hevents : (r.addClass kind c).events =
          ((first.pool later).skipped c).map (.skippedField kind first.name ·) ++
            [.classMerged kind first.name] := by
        simp [addClass, hsome, ClassRecord.pool]
      rw [hevents, ClassRecord.skipped_pool]
      simp [Event.level, List.filter_map, Function.comp_def]

/-- Whatever is added in whatever order: the records are pooled by what they are about, in the order
of the first ones, no property is lost without a warning, an addition of a class or a handler made
again changes nothing, and none changes the record of anything else. -/
theorem addAll_upserts (t : EntityTable) (l : List Addition) :
    let r := (ofEntities t).addAll l
    (∀ kind id, r.class? kind id = ClassRecord.pool? (classCalls kind id l)) ∧
    (∀ kind key, (r.handlers kind).get? key = match handlerCalls kind key l with
      | [] => none
      | first :: later => some (later.foldl Handler.merge first)) ∧
    (∀ kind, (r.classes kind).keys =
      ((l.filterMap (Addition.class? kind)).map (·.target)).eraseDups) ∧
    (∀ kind, (r.handlers kind).keys =
      ((l.filterMap (Addition.handler? kind)).map (·.key)).eraseDups) ∧
    r.scalars.keys = ((l.filterMap Addition.scalar?).map (·.target)).eraseDups ∧
    r.resolvers.keys = ((l.filterMap Addition.resolver?).map (·.target)).eraseDups ∧
    (∀ kind c, let earlier := classCalls kind c.target l
      (c.stored earlier ++ c.passedOver earlier).Perm c.properties ∧
      ((r.addClass kind c).result.class? kind c.target).map (·.properties) =
        some ((r.class? kind c.target).elim [] (·.properties) ++ c.stored earlier) ∧
      (r.addClass kind c).events.filter (·.level = .warn) = (c.passedOver earlier).map
        fun p => .skippedField kind (earlier.headD c).name p.schemaName) ∧
    (∀ kind c, .class kind c ∈ l → (∀ d ∈ c.directives, d.Regular) →
      (r.addClass kind c).result = r) ∧
    (∀ kind h, .handler kind h ∈ l → (∀ d ∈ h.directives, d.Regular) →
      (r.addHandler kind h).result = r) ∧
    (∀ a k, k ≠ a.key → (r.add a).result.find? k = r.find? k) := by
  obtain ⟨hclasses, hhandlers, hscalars, hresolvers⟩ := keys_addAll t l
  exact ⟨class?_addAll t l, handler_addAll t l, hclasses, hhandlers, hscalars, hresolvers,
    addClass_addAll t l,
    fun _ _ => addClass_addAll_of_mem, fun _ _ => addHandler_addAll_of_mem,
    fun _ _ => find?_add_of_ne⟩

end Registry

def ClassRecord.dish : ClassRecord :=
  ⟨0, "Dish", none, false, [⟨"title", "title", .scalar "String", .plain, none, none, none, []⟩], [],
    [⟨"key", .ofList [("fields", .str "title")]⟩]⟩

/-- The same dishes under another name, with titles of another type. -/
def ClassRecord.meal : ClassRecord :=
  ⟨0, "Meal", some "What is cooked.", true,
    [⟨"title", "title", .scalar "Int", .plain, none, none, none, []⟩,
      ⟨"stars", "stars", .scalar "Int", .plain, none, none, none, []⟩], [], []⟩

def Addition.dishes : List Addition :=
  [.class .object .dish, .handler (.root .query) (.node 1 (.declared 0)), .class .object .meal]

namespace Registry

theorem addAll_upserts_dishes :
    let r := (ofEntities (EntityTable.empty.declare "Dish" none)).addAll Addition.dishes
    (r.class? .object 0).map (fun c => (c.name, c.description, c.isAbstract,
        c.properties.map fun p => (p.schemaName, p.type))) =
      some ("Dish", some "What is cooked.", true,
        [("title", .scalar "String"), ("stars", .scalar "Int")]) ∧
    (r.addClass .object .meal).events.filter (·.level = .warn) =
      [.skippedField .object "Dish" "title", .skippedField .object "Dish" "stars"] ∧
    (r.addClass .object .dish).result = r ∧
    (r.addHandler (.root .query) (.node 1 (.declared 0))).result = r ∧
    (r.add (.class .input .dish)).result.find? (.class .object 0) =
      r.find? (.class .object 0) := by
  intro r
  obtain ⟨hclass, -, -, -, -, -, hproperties, habsorbs, habsorbs', hother⟩ :=
    addAll_upserts (EntityTable.empty.declare "Dish" none) Addition.dishes
  obtain ⟨-, -, hwarned⟩ := hproperties .object .meal
  refine ⟨?_, hwarned, ?_, ?_, ?_⟩
  · rw [hclass .object 0]
    decide +kernel
  · refine habsorbs .object .dish List.mem_cons_self fun d hd v hv => ?_
    rw [List.mem_singleton.1 hd] at hv
    rw [List.mem_singleton.1 hv]
    exact .str "title"
  · refine habsorbs' _ _ (List.mem_cons_of_mem _ List.mem_cons_self) ?_
    exact fun d hd => absurd hd List.not_mem_nil
  · exact hother _ _ (by decide)

end Registry

end CodeFirst
