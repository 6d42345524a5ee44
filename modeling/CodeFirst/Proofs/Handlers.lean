import CodeFirst.Proofs.Course
import CodeFirst.Proofs.Slots

/-! What becomes of exposed handlers. Each handler of a root is shown by one field of the root, and
each field resolver by one field of its object unless another one of its class came first. When two
handlers compete for a field in any other way, the build stops there. -/

namespace CodeFirst

/-- Whether a field shows a binding: it has its name and its slot. -/
def Binding.isShownBy (b : Binding) (f : Field) : Bool :=
  f.name == b.handler.schemaName && f.resolver == some b.slot

theorem Binding.isShownBy_iff {b : Binding} {f : Field} :
    b.isShownBy f = true ↔ f.name = b.handler.schemaName ∧ f.resolver = some b.slot := by
  rw [isShownBy, Bool.and_eq_true, beq_iff_eq, beq_iff_eq]

/-- The handlers of one kind that a build exposes. -/
def BuildRequest.exposed (q : BuildRequest) (r : Registry) (kind : HandlerKind) : List Binding :=
  (Exposure.exposed r q.resolvers kind).result

/-- A schema in which no exposed handler is lost: each is shown by exactly one field of its root, or
of the object type that its class augments if that is realized. -/
structure BuildRequest.ShowsHandlers (q : BuildRequest) (r : Registry) (s : Schema) : Prop where
  roots : ∀ kind, ∀ b ∈ q.exposed r (.root kind),
    ∃ t, s.root? kind = some t ∧ t.fields.countP b.isShownBy = 1
  resolvers : ∀ b ∈ q.exposed r .field, ∀ c, Exposure.augmented? r b.owner = some c →
    ∀ t, .object t ∈ s.types → t.origin = some c.target → t.fields.countP b.isShownBy = 1

theorem countP_eq_one_iff {α κ : Type} {key : α → κ} {l : List α} (hl : (l.map key).Nodup)
    {p : α → Bool} {k : κ} (hp : ∀ x ∈ l, p x = true → key x = k) :
    l.countP p = 1 ↔ ∃ x ∈ l, p x = true := by
  constructor
  · intro h
    exact List.countP_pos_iff.1 (h ▸ Nat.one_pos)
  · intro h
    have hpos : 0 < l.countP p := List.countP_pos_iff.2 h
    have hle : l.countP p ≤ 1 := by
      rw [List.countP_eq_length_filter]
      have hnodup : ((l.filter p).map key).Nodup := (List.filter_sublist.map key).nodup hl
      have hall : ∀ y ∈ (l.filter p).map key, y = k := by
        intro y hy
        obtain ⟨x, hx, rfl⟩ := List.mem_map.1 hy
        obtain ⟨hmem, hpx⟩ := List.mem_filter.1 hx
        exact hp x hmem hpx
      have hrep := List.eq_replicate_of_mem hall
      rw [hrep] at hnodup
      simpa using List.nodup_replicate.1 hnodup
    omega

/-- Contributed after everything else and under different names, bindings are all shown. -/
theorem Composes.exists_isShownBy {o : BuildOptions} {r : Registry} {H : List Origin}
    {base : List Contribution} {bs : List Binding} {type : Binding → Option (Reference × Wrapping)}
    {c : Composition} (h : Composes o r H (base ++ bs.map fun b => .resolver b (type b)) c)
    (hnodup : (bs.map (·.handler.schemaName)).Nodup) {b : Binding} (hb : b ∈ bs) :
    ∃ f ∈ c.fields.records, b.isShownBy f = true := by
  have hall : ∀ x ∈ bs.map (fun b => Contribution.resolver b (type b)),
      x.interface?.isNone = true := by
    intro x hx
    obtain ⟨b, -, rfl⟩ := List.mem_map.1 hx
    rfl
  have hnames : ((bs.map fun b => Contribution.resolver b (type b)).reverse.map
      Contribution.fieldName).Nodup := by
    rw [List.map_reverse, List.nodup_reverse, List.map_map]
    exact hnodup
  have hlast : findRecord Contribution.fieldName b.handler.schemaName
      (bs.map fun b => Contribution.resolver b (type b)).reverse = some (.resolver b (type b)) :=
    findRecord_of_mem hnames (List.mem_reverse.2 (List.mem_map.2 ⟨b, hb, rfl⟩))
  have hrel := h.get?_rel b.handler.schemaName
  rw [List.filter_append, List.filter_eq_self.2 hall, List.reverse_append, findRecord_append, hlast,
    Option.some_or] at hrel
  generalize hf : c.fields.get? b.handler.schemaName = f? at hrel
  cases hrel with
  | some hshows =>
    refine ⟨_, (h.keyed.get?_eq_some_iff.1 hf).1, Binding.isShownBy_iff.2 ?_⟩
    exact ⟨hshows.name, hshows.resolver_eq⟩

namespace Setting

variable {r : Registry} {o : BuildOptions} {filter : ResolverFilter} {set : Setting}

theorem nodup_fieldResolvers (h : (prepare r o filter).outcome = .ok set) (id : EntityId) :
    ((set.fieldResolvers id).map (·.handler.schemaName)).Nodup :=
  Attachment.nodup_names
    (Attachment.attached_of_attach (BuildRequest.prepare_eq_ok h).1).slots id

/-- An exposed field resolver is attached if it is the first one of its class for its field. -/
theorem mem_fieldResolvers_iff (h : (prepare r o filter).outcome = .ok set) {b : Binding}
    (hb : b ∈ (Exposure.exposed r filter .field).result) {c : ClassRecord}
    (hc : Exposure.augmented? r b.owner = some c) : b ∈ set.fieldResolvers c.target ↔
      (Exposure.exposed r filter .field).result.find? (·.place == b.place) = some b := by
  have hattached := Attachment.attached_of_attach (BuildRequest.prepare_eq_ok h).1
  constructor
  · intro hmem
    obtain ⟨a, ha, rfl⟩ := List.mem_map.1 hmem
    exact hattached.first a (List.mem_filter.1 ha).1
  · intro hfirst
    obtain ⟨a, ha, hplace⟩ := hattached.covered b hb
    have hbinding : a.binding = b := by
      have hfirst' := hattached.first a ha
      rw [hplace, hfirst, Option.some.injEq] at hfirst'
      exact hfirst'.symm
    obtain ⟨d, hd, htarget⟩ := hattached.object a ha
    rw [hbinding, hc, Option.some.injEq] at hd
    refine List.mem_map.2 ⟨a, List.mem_filter.2 ⟨ha, ?_⟩, hbinding⟩
    rw [beq_iff_eq, ← htarget, hd]

end Setting

namespace Schema.Composed

variable {r : Registry} {o : BuildOptions} {filter : ResolverFilter} {set : Setting} {s : Schema}

theorem nodup_names (h : s.Composed set) {t : NamedType} (ht : t ∈ s.types) :
    (t.fields.map Field.name).Nodup := by
  obtain ⟨fields, hc, he⟩ := h.composes t ht
  rw [he]
  exact hc.keyed.nodup

/-- One field shows a binding if any does. -/
theorem countP_isShownBy_iff (h : s.Composed set) {t : NamedType} (ht : t ∈ s.types)
    (b : Binding) : t.fields.countP b.isShownBy = 1 ↔ ∃ f ∈ t.fields, b.isShownBy f = true :=
  countP_eq_one_iff (h.nodup_names ht) fun _ _ hf => (Binding.isShownBy_iff.1 hf).1

theorem shows_root (h : s.Composed set) {kind : RootKind} {b : Binding}
    (hb : b ∈ set.rootBindings kind) :
    ∃ t, s.root? kind = some t ∧ t.fields.countP b.isShownBy = 1 := by
  obtain ⟨t, hroot⟩ := h.root_present kind (List.ne_nil_of_mem hb)
  have ht := h.root_mem kind t hroot
  refine ⟨t, hroot, (h.countP_isShownBy_iff ht b).2 ?_⟩
  obtain ⟨fields, hc, he⟩ := h.composes _ ht
  rw [h.root_origin kind t hroot, Setting.contributionsTo_root, ← List.nil_append
    (set.rootContributions kind)] at hc
  rw [he]
  exact hc.exists_isShownBy (h.root_names kind) hb

theorem shows_resolver_iff (hset : (Setting.prepare r o filter).outcome = .ok set)
    (h : s.Composed set) {b : Binding} (hb : b ∈ (Exposure.exposed r filter .field).result)
    {c : ClassRecord} (hc : Exposure.augmented? r b.owner = some c) {t : CompositeType}
    (ht : .object t ∈ s.types) (ho : t.origin = some c.target) :
    t.fields.countP b.isShownBy = 1 ↔
      (Exposure.exposed r filter .field).result.find? (·.place == b.place) = some b := by
  have hcontributions : set.contributionsTo (NamedType.object t).origin =
      set.contributions .object c.target := by
    rw [NamedType.origin_object ho]
    rfl
  refine (h.countP_isShownBy_iff ht b).trans ?_
  rw [← Setting.mem_fieldResolvers_iff hset hb hc]
  constructor
  · rintro ⟨f, hf, hshown⟩
    obtain ⟨hname, hslot⟩ := Binding.isShownBy_iff.1 hshown
    obtain ⟨-, b', hb', hslot', hname'⟩ := h.slot_of_declared ht hcontributions hf hslot
    obtain ⟨howner, hmethod⟩ := ResolverSlot.mk.inj hslot'
    have hplace : b'.place = b.place := Prod.ext howner (hname'.symm.trans hname)
    obtain ⟨hexposed, -⟩ := Setting.mem_fieldResolvers hset hb'
    rwa [← Exposure.binding_inj hexposed hb hplace hmethod]
  · intro hmem
    obtain ⟨fields, hcomposes, he⟩ := h.composes _ ht
    obtain ⟨record, hrecord⟩ := h.known _ ht _ _ (NamedType.origin_object ho)
    rw [hcontributions, Setting.contributions,
      show set.registry.class? CompositeCategory.object.classKind c.target = some record
        from hrecord] at hcomposes
    rw [he]
    exact hcomposes.exists_isShownBy (Setting.nodup_fieldResolvers hset c.target) hmem

end Schema.Composed

namespace BuildRequest

variable {q : BuildRequest} {r : Registry} {o : BuildOptions} {scalars : List ScalarType}
  {e : BuildError}

theorem buildWith_of_prepare (hnames : r.checkNames = .ok ())
    (h : (Setting.prepare r o q.resolvers).outcome = .error e) :
    (q.buildWith r o scalars).outcome = .error e := by
  have hchecked : (Trial.ofExcept r.checkNames).outcome = .ok () := hnames
  refine Trial.outcome_bind_error ?_ _
  exact (Trial.outcome_bind hchecked _).trans (Trial.outcome_bind_error h _)

theorem buildWith_of_construct (hnames : r.checkNames = .ok ()) {set : Setting}
    (hset : (Setting.prepare r o q.resolvers).outcome = .ok set)
    (h : (set.construct q.orphaned scalars .empty).1 = .error e) :
    (q.buildWith r o scalars).outcome = .error e := by
  have hchecked : (Trial.ofExcept r.checkNames).outcome = .ok () := hnames
  refine Trial.outcome_bind_error ?_ _
  refine (Trial.outcome_bind hchecked _).trans ((Trial.outcome_bind hset _).trans ?_)
  cases hc : set.construct q.orphaned scalars .empty with
  | mk result s =>
    rw [hc] at h
    have hresult : result = .error e := h
    rw [hresult]
    exact (Trial.outcome_bind (Trial.outcome_forM_tell s.log) _).trans
      (Trial.outcome_bind_error (Trial.outcome_ofExcept _) _)

theorem buildWith_of_competes (hnames : r.checkNames = .ok ())
    (hall : ∀ b ∈ q.exposed r .field, Exposure.augmented? r b.owner ≠ none) {b b' : Binding}
    (hb : b ∈ q.exposed r .field) (hb' : b' ∈ q.exposed r .field) (h : b.Competes r b') :
    ∃ x ∈ q.exposed r .field, ∃ y ∈ q.exposed r .field, x.Competes r y ∧
      ∃ c, Exposure.augmented? r x.owner = some c ∧ (q.buildWith r o scalars).outcome =
        .error (.duplicateField c.name x.handler.schemaName) := by
  obtain ⟨x, hx, y, hy, hxy, c, hc, hattach⟩ := Attachment.attach_of_competes hall hb hb' h
  refine ⟨x, hx, y, hy, hxy, c, hc, buildWith_of_prepare hnames ?_⟩
  have hrefused : (Trial.ofExcept (Attachment.attach r [] (q.exposed r .field))).outcome =
      .error (.duplicateField c.name x.handler.schemaName) := hattach
  exact (Trial.outcome_bind (Trial.outcome_ofLogged _) _).trans
    (Trial.outcome_bind_error hrefused _)

end BuildRequest

namespace Setting

variable {set : Setting} {kind : RootKind} {fields fields' : Fields} {s t : Realization}

theorem rootField_name {b : Binding} {f : Field}
    (h : (set.rootField kind fields b).run s = (.ok f, t)) : f.name = b.handler.schemaName := by
  obtain ⟨type, s₁, -, hrest⟩ := Realize.run_bind_eq_ok h
  split at hrest
  · simp at hrest
  · obtain ⟨_, s₂, -, hfield⟩ := Realize.run_bind_eq_ok hrest
    obtain ⟨n, s₃, -, hlast⟩ := Realize.run_bind_eq_ok hfield
    obtain ⟨values, s₄, -, hpure⟩ := Realize.run_bind_eq_ok hlast
    obtain ⟨rfl, -⟩ := Realize.run_pure_eq_ok hpure
    rfl

/-- Realized fields stand under the names of their handlers, and further ones go on top of them. -/
theorem rootFields_append {l : List Binding}
    (h : (set.rootFields kind fields l).run s = (.ok fields', t)) (rest : List Binding) :
    (set.rootFields kind fields (l ++ rest)).run s = (set.rootFields kind fields' rest).run t ∧
      ∀ name, name ∈ fields'.keys ↔ name ∈ fields.keys ∨ name ∈ l.map (·.handler.schemaName) := by
  induction l generalizing fields s with
  | nil =>
    obtain ⟨rfl, rfl⟩ := Realize.run_pure_eq_ok h
    exact ⟨rfl, by simp⟩
  | cons b l ih =>
    obtain ⟨f, u, hf, hrest⟩ := Realize.run_bind_eq_ok h
    obtain ⟨hrun, hkeys⟩ := ih hrest
    refine ⟨(Realize.run_bind_ok hf).trans hrun, ?_⟩
    intro name
    rw [hkeys, OrderedMap.mem_keys_insert, rootField_name hf, List.map_cons, List.mem_cons,
      or_comm (a := name = _), or_assoc]

/-- A handler whose name is taken is refused. -/
theorem rootFields_of_mem {b : Binding} {type : Reference} (htype : b.handler.type = some type)
    (h : b.handler.schemaName ∈ fields.keys) (rest : List Binding) :
    (set.rootFields kind fields (b :: rest)).run s =
      (.error (.duplicateField kind.typeName b.handler.schemaName), s) := by
  refine Realize.run_bind_error ?_
  rw [rootField, htype]
  have hok : (Realize.ofOption (.undefinedReturnType kind.typeName
      (b.handler.location set.registry)) (some type) : Realize set.registry Reference).run s =
        (.ok type, s) := rfl
  rw [Realize.run_bind_ok hok, if_pos (OrderedMap.contains_iff.2 h)]
  rfl

/-- A construction ends when a root fails. -/
theorem Course.construct_error {orphaned : List EntityId} {scalars : List ScalarType}
    {acts : List Act} {place : TypeId} {left : List RootKind} {e : BuildError}
    (h : set.Course orphaned scalars acts (.fields kind place left) s)
    (hr : (set.rootFields kind ∅ (set.rootBindings kind)).run s = (.error e, t)) :
    (set.construct orphaned scalars .empty).1 = .error e := by
  obtain ⟨l, hl⟩ := construct_course set orphaned scalars
  obtain ⟨herror, -⟩ := (h.step (.failedRoot hr)).finished_unique hl
  cases hc : (set.construct orphaned scalars .empty).1 with
  | error e' =>
    rw [hc] at herror
    rw [Option.some.inj herror]
  | ok x =>
    rw [hc] at herror
    cases herror

end Setting

namespace BuildRequest

variable {q : BuildRequest} {r : Registry} {o : BuildOptions} {scalars : List ScalarType}

/-- Two handlers of one name on a root are refused when the second one is reached. -/
theorem buildWith_of_duplicate (hnames : r.checkNames = .ok ()) {set : Setting}
    (hset : (Setting.prepare r o q.resolvers).outcome = .ok set) {acts : List Setting.Act}
    {kind : RootKind} {place : TypeId} {left : List RootKind} {s t : Realization}
    (hcourse : set.Course q.orphaned scalars acts (.fields kind place left) s)
    {l rest : List Binding} {b : Binding} (hl : set.rootBindings kind = l ++ b :: rest)
    {fields : Fields} (hfields : (set.rootFields kind ∅ l).run s = (.ok fields, t))
    (htype : b.handler.type ≠ none)
    (hb : b.handler.schemaName ∈ l.map (·.handler.schemaName)) :
    (q.buildWith r o scalars).outcome =
      .error (.duplicateField kind.typeName b.handler.schemaName) := by
  obtain ⟨type, htype⟩ := Option.ne_none_iff_exists'.1 htype
  obtain ⟨hrun, hkeys⟩ := Setting.rootFields_append hfields (b :: rest)
  have herror : (set.rootFields kind ∅ (set.rootBindings kind)).run s =
      (.error (.duplicateField kind.typeName b.handler.schemaName), t) := by
    rw [hl, hrun]
    exact Setting.rootFields_of_mem htype ((hkeys _).2 (.inr hb)) rest
  exact buildWith_of_construct hnames hset (hcourse.construct_error herror)

/-- In every schema that is built each exposed handler of a root is shown by one field, and each
field resolver of a realized object type exactly if it is the first one of its class for its field.
Nothing is built from field resolvers of two classes for one field, nor from two handlers of one
name on a root; such a field is what the build stops at, unless something else stops it before. -/
theorem exposed_shown_or_refused (q : BuildRequest) (r : Registry) :
    (∀ source schema, (q.buildFrom r source).outcome = .ok schema →
      (∀ kind, ∀ b ∈ q.exposed r (.root kind),
        ∃ t, schema.root? kind = some t ∧ t.fields.countP b.isShownBy = 1) ∧
      ∀ b ∈ q.exposed r .field, ∀ c, Exposure.augmented? r b.owner = some c →
        ∀ t, .object t ∈ schema.types → t.origin = some c.target →
          (t.fields.countP b.isShownBy = 1 ↔
            (q.exposed r .field).find? (·.place == b.place) = some b)) ∧
    (∀ source schema, (q.buildFrom r source).outcome = .ok schema →
      (∀ kind, ((q.exposed r (.root kind)).map (·.handler.schemaName)).Nodup) ∧
      ∀ b ∈ q.exposed r .field, ∀ b' ∈ q.exposed r .field, ¬ b.Competes r b') ∧
    (∀ o scalars, r.checkNames = .ok () →
      (∀ b ∈ q.exposed r .field, Exposure.augmented? r b.owner ≠ none) →
        ∀ b ∈ q.exposed r .field, ∀ b' ∈ q.exposed r .field, b.Competes r b' →
          ∃ x ∈ q.exposed r .field, ∃ y ∈ q.exposed r .field, x.Competes r y ∧
            ∃ c, Exposure.augmented? r x.owner = some c ∧ (q.buildWith r o scalars).outcome =
              .error (.duplicateField c.name x.handler.schemaName)) ∧
    ∀ o scalars set, r.checkNames = .ok () →
      (Setting.prepare r o q.resolvers).outcome = .ok set →
        ∀ acts kind place left s,
          set.Course q.orphaned scalars acts (.fields kind place left) s →
            ∀ l b rest, q.exposed r (.root kind) = l ++ b :: rest →
              ∀ fields t, (set.rootFields kind ∅ l).run s = (.ok fields, t) →
                b.handler.type ≠ none →
                  b.handler.schemaName ∈ l.map (·.handler.schemaName) →
                    (q.buildWith r o scalars).outcome =
                      .error (.duplicateField kind.typeName b.handler.schemaName) := by
  refine ⟨?_, ?_, ?_, ?_⟩
  · intro source schema h
    obtain ⟨o, set, hset, hcomposed⟩ := buildFrom_composed h
    obtain ⟨-, he⟩ := prepare_eq_ok hset
    refine ⟨?_, ?_⟩
    · intro kind b hb
      refine hcomposed.shows_root ?_
      rw [he]
      exact hb
    · intro b hb c hc t ht ho
      exact hcomposed.shows_resolver_iff hset hb hc ht ho
  · intro source schema h
    obtain ⟨o, set, hset, hcomposed⟩ := buildFrom_composed h
    obtain ⟨hattach, he⟩ := prepare_eq_ok hset
    have hnames := hcomposed.root_names
    rw [he] at hnames
    refine ⟨hnames, ?_⟩
    intro b hb b' hb'
    exact (Attachment.attached_of_attach hattach).not_competes hb hb'
  · intro o scalars hnames hall b hb b' hb' h
    exact buildWith_of_competes hnames hall hb hb' h
  · intro o scalars set hnames hset acts kind place left s hcourse l b rest hl fields t hfields
      htype hb
    have hroot : set.rootBindings kind = l ++ b :: rest := by
      obtain ⟨-, he⟩ := prepare_eq_ok hset
      rw [he]
      exact hl
    exact buildWith_of_duplicate hnames hset hcourse hroot hfields htype hb

end BuildRequest

theorem find?_of_nodup {α κ : Type} [BEq κ] [LawfulBEq κ] {key : α → κ} {l : List α}
    (hl : (l.map key).Nodup) {x : α} (hx : x ∈ l) : l.find? (key · == key x) = some x := by
  cases hfind : l.find? (key · == key x) with
  | none => exact absurd (by simp) (List.find?_eq_none.1 hfind x hx)
  | some y =>
    have hkey : key y = key x := by simpa using List.find?_some hfind
    rw [List.inj_on_of_nodup_map hl (List.mem_of_find?_eq_some hfind) hx hkey]

namespace Registry

/-- As `recipes`, with field resolvers for the object type in two classes. -/
def ratedRecipes (queries fieldResolvers : List Handler) : Registry :=
  { ofRecords
      (((((EntityTable.empty.declare "Node" none).declare "Recipe" none).declare "R"
        none).declare "Ratings" none).declare "Scores" none)
      [.identified 0 "Node" false []] [.identified 1 "Recipe" false [.declared 0]] queries with
    resolvers := (∅ : Catalog ResolverRecord.target).putMany
      [⟨3, some (.declared 1), false⟩, ⟨4, some (.declared 1), false⟩]
    fieldResolvers := (∅ : HandlerCatalog).putMany fieldResolvers }

def ratedApart : Registry := ratedRecipes [.node 2 (.declared 0)]
  [.ofScalar 3 "rate" "rating" "Int", .ofScalar 4 "score" "score" "Float"]

def ratedByBoth : Registry := ratedRecipes [.node 2 (.declared 0)]
  [.ofScalar 3 "rate" "rating" "Int", .ofScalar 4 "score" "rating" "Float"]

def ratedTwice : Registry := ratedRecipes [.node 2 (.declared 0)]
  [.ofScalar 3 "rate" "rating" "Int", .ofScalar 3 "average" "rating" "Float"]

def queriedTwice : Registry :=
  ratedRecipes [.node 2 (.declared 0), .ofScalar 2 "find" "node" "ID"] []

end Registry

namespace BuildRequest

theorem exposed_shown_or_refused_recipes :
    (∃ schema, (plain.buildFrom .ratedApart none).outcome = .ok schema ∧
      plain.ShowsHandlers .ratedApart schema) ∧
    (∃ type field, (plain.buildWith .ratedByBoth .standard []).outcome =
      .error (.duplicateField type field)) ∧
    (plain.buildWith .queriedTwice .standard []).outcome =
      .error (.duplicateField "Query" "node") := by
  refine ⟨?_, ?_, ?_⟩
  · have hok : (plain.buildFrom .ratedApart none).outcome.toOption.isSome = true := by
      decide +kernel
    have hplaces : ((plain.exposed .ratedApart .field).map Binding.place).Nodup := by
      decide +kernel
    obtain ⟨schema, hschema⟩ := Option.isSome_iff_exists.1 hok
    have h := ok_of_toOption hschema
    obtain ⟨hroots, hresolvers⟩ := (exposed_shown_or_refused plain .ratedApart).1 none schema h
    refine ⟨schema, h, hroots, ?_⟩
    intro b hb c hc t ht ho
    exact (hresolvers b hb c hc t ht ho).2 (find?_of_nodup hplaces hb)
  · have hall : ∀ id ∈ (plain.exposed .ratedByBoth .field).map Binding.owner,
        (Exposure.augmented? .ratedByBoth id).isSome = true := by decide +kernel
    have hexposed : ∀ h ∈ [Handler.ofScalar 3 "rate" "rating" "Int",
        .ofScalar 4 "score" "rating" "Float"],
          ⟨h.target, h⟩ ∈ plain.exposed .ratedByBoth .field := by
      intro h hh
      refine List.mem_append_left _ (Exposure.mem_direct_iff.2 ⟨hh, rfl, ?_, rfl⟩)
      simp only [List.mem_cons, List.not_mem_nil, or_false] at hh
      rcases hh with rfl | rfl <;> rfl
    obtain ⟨x, -, -, -, -, c, -, herror⟩ := (exposed_shown_or_refused plain .ratedByBoth).2.2.1
      .standard [] (by decide +kernel)
      (fun b hb => Option.isSome_iff_ne_none.1 (hall _ (List.mem_map_of_mem hb)))
      _ (hexposed _ List.mem_cons_self) _ (hexposed _ (List.mem_cons_of_mem _ List.mem_cons_self))
      ⟨by decide, rfl, _, rfl, rfl⟩
    exact ⟨_, _, herror⟩
  · let set : Setting := ⟨.queriedTwice, .standard, none, []⟩
    let opened := (set.announce .query .empty).addType RootKind.query.shell
    have hset : (Setting.prepare .queriedTwice .standard none).outcome = .ok set := by
      have hnone : (plain.exposed .queriedTwice .field).isEmpty = true := by decide +kernel
      have hattach : (Trial.ofExcept (Attachment.attach .queriedTwice []
          (plain.exposed .queriedTwice .field))).outcome = .ok [] := by
        rw [List.isEmpty_iff.1 hnone]
        rfl
      exact (Trial.outcome_bind (Trial.outcome_ofLogged _) _).trans (Trial.outcome_bind hattach _)
    have hexposed : plain.exposed .queriedTwice (.root .query) =
        [⟨2, .node 2 (.declared 0)⟩] ++ ⟨2, .ofScalar 2 "find" "node" "ID"⟩ ::
          Exposure.inherited .queriedTwice none (Registry.queriedTwice.handlers
            (.root .query)).records := rfl
    have hfirst : ((set.rootFields .query ∅ [⟨2, .node 2 (.declared 0)⟩]).run
        opened).1.toOption.isSome = true := by decide +kernel
    obtain ⟨fields, hfields⟩ := Option.isSome_iff_exists.1 hfirst
    have hbindings : set.rootBindings .query ≠ [] := by
      rw [show set.rootBindings .query = _ from hexposed]
      exact List.cons_ne_nil _ _
    have hopened : set.Course [] [] ([] ++ [.other])
        (.fields .query 0 [.mutation, .subscription]) opened := .step .start (.opened hbindings rfl)
    exact (exposed_shown_or_refused plain .queriedTwice).2.2.2 .standard [] set (by decide +kernel)
      hset _ .query 0 _ opened hopened _ _ _ hexposed fields _
      (Prod.ext (ok_of_toOption hfields) rfl) (by decide) (by decide)

theorem ratedTwice_not_showsHandlers :
    ∃ schema, (plain.buildFrom .ratedTwice none).outcome = .ok schema ∧
      ¬ plain.ShowsHandlers .ratedTwice schema := by
  have hcounts : ((plain.buildFrom .ratedTwice none).outcome.toOption.map fun s =>
      (s.types.filterMap NamedType.object?).map fun t => (t.origin, t.fields.countP
        (Binding.isShownBy ⟨3, .ofScalar 3 "average" "rating" "Float"⟩))) =
      some [(none, 0), (some 1, 0)] := by decide +kernel
  obtain ⟨schema, hschema, hcount⟩ := Option.map_eq_some_iff.1 hcounts
  refine ⟨schema, ok_of_toOption hschema, ?_⟩
  intro hall
  have hmem : (some 1, 0) ∈ [(none, 0), (some (1 : EntityId), 0)] :=
    List.mem_cons_of_mem _ List.mem_cons_self
  rw [← hcount] at hmem
  obtain ⟨t, ht, hpair⟩ := List.mem_map.1 hmem
  obtain ⟨x, hx, hobject⟩ := List.mem_filterMap.1 ht
  obtain ⟨ho, hzero⟩ := Prod.mk.inj hpair
  have hx' : .object t ∈ schema.types := by
    cases x with
    | object t' => exact Option.some.inj hobject ▸ hx
    | _ => cases hobject
  have hone := hall.resolvers ⟨3, .ofScalar 3 "average" "rating" "Float"⟩
    (List.mem_append_left _ (Exposure.mem_direct_iff.2
      ⟨List.mem_cons_of_mem _ List.mem_cons_self, rfl, rfl, rfl⟩)) _ rfl t hx' ho
  rw [hzero] at hone
  exact absurd hone (by decide)

end BuildRequest

end CodeFirst
