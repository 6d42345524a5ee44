import CodeFirst.Proofs.Layers
import CodeFirst.Proofs.Merging

/-! Field resolvers without a type of their own. Such a resolver is to take the type of the field
that it replaces. It is given the type of the first property of its name in the nearest class that
has one, which is another field's type, or nobody's, if an interface or a later property gives the
field. -/

namespace CodeFirst

namespace Realize

variable {r : Registry} {o : BuildOptions} {s : Realization} {host : Location} {ref : Reference}
  {i : TypeId}

theorem run_scalar_of_origin (hs : s.Coherent r) {t : ScalarType}
    (h : s.origins[i]? = some (.scalar t.name)) :
    (scalar t : Realize r TypeId).run s = (.ok i, s) := by
  rw [Realization.getElem?_origins] at h
  obtain ⟨x, hx, horigin⟩ := Option.map_eq_some_iff.1 h
  have hscalar : x.isScalar = true := NamedType.isScalar_of_origin horigin
  have hname : x.name = t.name := by
    rw [NamedType.origin_of_isScalar hscalar] at horigin
    exact Origin.scalar.inj horigin
  have hplace : s.typeId? t.name = some i := (hs.typeId?_iff t.name i).2 ⟨x, hx, hname⟩
  simp [scalar, hplace, hx, hscalar]

theorem run_declared?_of_origin (hs : s.Coherent r) {k : TypeCategory} {id : EntityId}
    (h : s.origins[i]? = some (.declared k id)) :
    (declared? k id : Realize r (Option TypeId)).run s = (.ok (some i), s) := by
  have hplace : s.place? k id = some i := (hs.place?_iff k id i).2 h
  simp only [declared?, hplace]

theorem run_declared?_of_class?_eq_none (hs : s.Coherent r) {k : TypeCategory} {id : EntityId}
    (h : r.class? k.classKind id = none) :
    (declared? k id : Realize r (Option TypeId)).run s = (.ok none, s) := by
  have hplace : s.place? k id = none := by
    by_contra hne
    obtain ⟨i, hi⟩ := Option.ne_none_iff_exists'.1 hne
    obtain ⟨c, hc⟩ := hs.known (List.mem_of_getElem? ((hs.place?_iff k id i).1 hi))
    rw [h] at hc
    cases hc
  simp only [declared?, hplace, h]

theorem run_outputBase_of_origin (hs : s.Coherent r) {x : Origin}
    (hx : outputOrigin? o r ref = some x) (hi : s.origins[i]? = some x) :
    (outputBase o host ref : Realize r TypeId).run s = (.ok i, s) := by
  rw [outputOrigin?] at hx
  rw [outputBase]
  cases hscalar : scalarOf? o r ref with
  | some t =>
    simp only [hscalar, Option.some.injEq] at hx
    subst hx
    exact run_scalar_of_origin hs hi
  | none =>
    simp only [hscalar] at hx
    obtain ⟨id, hid, hx⟩ := Option.bind_eq_some_iff.1 hx
    simp only [hid]
    split_ifs at hx with hobject hinterface
    · cases hx
      rw [run_bind_ok (run_declared?_of_origin hs hi)]
      rfl
    · cases hx
      have hnone : r.class? .object id = none := by simpa using hobject
      rw [run_bind_ok (run_declared?_of_class?_eq_none (k := .object) hs hnone)]
      exact run_bind_ok (run_declared?_of_origin hs hi)

/-- What has been resolved before is found again, and nothing changes. -/
theorem run_output_of_denotes (hs : s.Coherent r) {w : Wrapping} {n : TypeNode}
    (h : Denotes s.origins (outputOrigin? o r ref) ref w n) :
    (output o host ref w : Realize r TypeNode).run s = (.ok n, s) := by
  obtain ⟨i, x, hx, hi, rfl⟩ := h
  exact run_bind_ok (run_outputBase_of_origin hs hx hi)

end Realize

theorem getLast?_filter_of_nodup {α κ : Type} [DecidableEq κ] {key : α → κ} {l : List α}
    (h : (l.map key).Nodup) (k : κ) :
    (l.filter fun x => key x = k).getLast? = l.find? fun x => key x == k := by
  induction l with
  | nil => rfl
  | cons x rest ih =>
    rw [List.map_cons, List.nodup_cons] at h
    by_cases hx : key x = k
    · have hrest : rest.filter (fun y => key y = k) = [] := by
        apply List.filter_eq_nil_iff.2
        intro y hy
        simp only [decide_eq_true_eq]
        rintro rfl
        exact h.1 (hx ▸ List.mem_map_of_mem hy)
      simp [hx, hrest]
    · simp [hx, ih h.2]

/-- Two properties that ask for the same type, however they spell it. -/
structure Property.TypedAs (o : BuildOptions) (r : Registry) (p q : Property) : Prop where
  origin : outputOrigin? o r p.type = outputOrigin? o r q.type
  depth : p.type.wrappedDepth p.wrapping = q.type.wrappedDepth q.wrapping
  nullable : p.wrapping.nullable = q.wrapping.nullable
  items : ∀ k < p.type.wrappedDepth p.wrapping,
    p.wrapping.arrayNullable.at? k = q.wrapping.arrayNullable.at? k

theorem Property.TypedAs.refl {o : BuildOptions} {r : Registry} (p : Property) :
    p.TypedAs o r p := ⟨rfl, rfl, rfl, fun _ _ => rfl⟩

/-- Properties that were resolved have one node exactly if they ask for the same type. -/
theorem Realization.Coherent.node_eq_iff {o : BuildOptions} {r : Registry} {s : Realization}
    (hs : s.Coherent r) {p q : Property} {n m : TypeNode}
    (hn : Denotes s.origins (outputOrigin? o r p.type) p.type p.wrapping n)
    (hm : Denotes s.origins (outputOrigin? o r q.type) q.type q.wrapping m) :
    n = m ↔ p.TypedAs o r q := by
  obtain ⟨i, x, hx, hi, hn⟩ := hn
  obtain ⟨j, y, hy, hj, hm⟩ := hm
  have hp := eq_wrap_withReferenceDepth_iff.1 hn
  have hq := eq_wrap_withReferenceDepth_iff.1 hm
  constructor
  · rintro rfl
    have hij : i = j := hp.base.symm.trans hq.base
    subst hij
    rw [hi, Option.some.injEq] at hj
    refine ⟨by rw [hx, hy, hj], hp.lists.symm.trans hq.lists, ?_, fun k hk => ?_⟩
    · rw [Bool.eq_iff_iff, ← not_iff_not]
      simp only [Bool.not_eq_true]
      exact hp.outermost.symm.trans hq.outermost
    · obtain ⟨t, ht, hmark⟩ := hp.items k hk
      obtain ⟨t', ht', hmark'⟩ := hq.items k (by rwa [← hq.lists, hp.lists])
      rw [ht, Option.some.injEq] at ht'
      subst ht'
      rw [Bool.eq_iff_iff, ← not_iff_not]
      simp only [Bool.not_eq_true]
      exact hmark.symm.trans hmark'
  · intro h
    have hxy : x = y := Option.some.inj (by rw [← hx, ← hy, h.origin])
    subst hxy
    obtain rfl : i = j := hs.origin_inj hi hj
    rw [← h.depth, ← h.nullable] at hq
    refine hp.unique (hq.congr fun k hk => ?_)
    exact (h.items k hk).symm

namespace Setting

variable (set : Setting) (id : EntityId) (b : Binding)

/-- The setting without any field resolvers. -/
def bare : Setting := { set with attachments := [] }

/-- The property that gives the field of a name, before field resolvers come: the last one among
those of the interfaces, of the ancestors and of the object type itself. -/
def Gives (name : String) (c : ClassRecord) (p : Property) : Prop :=
  ((set.bare.contributors .object id).filter fun x => x.fieldName = name).getLast? =
    some (.property c p)

/-- The first property of a name in the nearest class of an object type that has one. -/
def nearest? (name : String) : Option Property :=
  (set.registry.classChain .object id).reverse.findSome? (·.property? name)

/-- What a field resolver contributes to an object type. -/
def resolution : Contribution :=
  .resolver b (Contribution.resolverType (set.registry.classChain .object id) b.handler)

def resolverNode : Realize set.registry TypeNode :=
  match Contribution.resolverType (set.registry.classChain .object id) b.handler with
  | none =>
    .fail (.undefinedReturnType HandlerKind.field.title (b.handler.location set.registry))
  | some (ref, w) => Realize.output set.options (b.handler.location set.registry) ref w

/-- A field resolver that takes the type of the field of its name among some fields, and fails for a
missing return type if there is none. -/
def TakesType (fields : Fields) (u : Realization) : Prop :=
  (∀ f, fields.get? b.handler.schemaName = some f →
    ∃ v, (set.resolverNode id b).run u = (.ok f.type, v)) ∧
  (fields.get? b.handler.schemaName = none →
    ∃ v, (set.resolverNode id b).run u = (.error (.undefinedReturnType HandlerKind.field.title
      (b.handler.location set.registry)), v))

/-- How a field resolver without a type of its own comes to one. -/
inductive Borrows (u : Realization) : Prop
  | missing (absent : set.nearest? id b.handler.schemaName = none)
    (run : (set.resolverNode id b).run u =
      (.error (.undefinedReturnType HandlerKind.field.title (b.handler.location set.registry)), u))
  | nearest {p : Property} {n : TypeNode} (found : set.nearest? id b.handler.schemaName = some p)
    (denotes :
      Denotes u.origins (outputOrigin? set.options set.registry p.type) p.type p.wrapping n)
    (run : (set.resolverNode id b).run u = (.ok n, u))

variable {set id b} {record : ClassRecord} {s t u : Realization} {name : String} {p : Property}

theorem contribute_resolution (c : Composition) :
    (Realize.contribute set.options c (set.resolution id b) : Realize set.registry Composition) = do
      let n ← set.resolverNode id b
      let values ← Realize.arguments set.options (b.handler.location set.registry)
        b.handler.parameters
      return { c with fields := c.fields.insert b.handler.schemaName (b.field n values) } := by
  rw [resolution, resolverNode]
  cases Contribution.resolverType (set.registry.classChain .object id) b.handler with
  | none => rfl
  | some type =>
    simp only [Realize.contribute, Realize.handlerField, bind_assoc, pure_bind]
    rfl

theorem contributions_bare (hrecord : set.registry.class? .object id = some record) :
    set.bare.contributions .object id = Contribution.ofType set.registry record
      (set.registry.classChain .object id) [] :=
  contributions_of_some (k := .object) hrecord

/-- The field resolvers come after everything else. -/
theorem contributions_eq_append (hrecord : set.registry.class? .object id = some record) :
    set.contributions .object id = set.bare.contributions .object id ++
      (set.fieldResolvers id).map (set.resolution id) := by
  rw [contributions_of_some (k := .object) hrecord, contributions_bare hrecord]
  simp only [if_true, Contribution.ofType, List.map_nil, List.append_nil]
  rfl

/-- What is left at a field resolver: to give it its type, then its arguments, then the others. -/
theorem run_composition_of_split {c₀ c₁ : Composition} {pre post : List Binding}
    (hrecord : set.registry.class? .object id = some record)
    (hbase : (set.bare.composition .object id).run s = (.ok c₀, t))
    (hsplit : set.fieldResolvers id = pre ++ b :: post)
    (hpre : (Realize.compose set.options c₀ (pre.map (set.resolution id)) :
      Realize set.registry Composition).run t = (.ok c₁, u)) :
    (set.composition .object id).run s = (do
      let n ← set.resolverNode id b
      let values ← Realize.arguments set.options (b.handler.location set.registry)
        b.handler.parameters
      Realize.compose set.options
        { c₁ with fields := c₁.fields.insert b.handler.schemaName (b.field n values) }
        (post.map (set.resolution id)) : Realize set.registry Composition).run u := by
  have hbase' : (Realize.compose set.options ∅ (set.bare.contributions .object id) :
      Realize set.registry Composition).run s = (.ok c₀, t) := hbase
  rw [composition, contributions_eq_append hrecord, Realize.compose_append,
    Realize.run_bind_ok hbase', hsplit, List.map_append, Realize.compose_append,
    Realize.run_bind_ok hpre, List.map_cons, Realize.compose, contribute_resolution]
  simp only [bind_assoc, pure_bind]

theorem contributors_bare : set.bare.contributors .object id =
    ((set.registry.implemented .object id).flatMap (set.registry.classChain .interface) ++
      set.registry.classChain .object id).flatMap Contribution.ofClass := by
  rw [Registry.classChain_eq, List.flatMap_append, List.flatMap_append, contributors,
    ← List.append_assoc]
  exact List.append_nil _

theorem mem_ofClass_iff {l : List ClassRecord} {x : Contribution} :
    x ∈ l.flatMap Contribution.ofClass ↔ ∃ c ∈ l, ∃ p ∈ c.properties, .property c p = x := by
  simp only [Contribution.ofClass, List.mem_flatMap, List.mem_map]

theorem nearest?_mem (h : set.nearest? id name = some p) : p.schemaName = name ∧
    ∃ c ∈ set.registry.classChain .object id, p ∈ c.properties := by
  obtain ⟨c, hc, hp⟩ := List.exists_of_findSome?_eq_some h
  exact ⟨by simpa using List.find?_some hp, c, List.mem_reverse.1 hc, List.mem_of_find?_eq_some hp⟩

theorem Gives.unique {c c' : ClassRecord} {p' : Property} (h : set.Gives id name c p)
    (h' : set.Gives id name c' p') : p = p' := by
  rw [Gives, h, Option.some.injEq, Contribution.property.injEq] at h'
  exact h'.2

/-- Before field resolvers come, a name has a field exactly if a property gives it one; then the
field has the type that the property asks for. If no property does, no class has one of the name. -/
theorem gives_cases {c₀ : Composition} {H : List Origin} (h : set.bare.Merged H .object id c₀)
    (name : String) :
    (c₀.fields.get? name = none ∧ (∀ c p, ¬ set.Gives id name c p) ∧ set.nearest? id name = none) ∨
    ∃ c p f, set.Gives id name c p ∧ c₀.fields.get? name = some f ∧
      Denotes H (outputOrigin? set.options set.registry p.type) p.type p.wrapping f.type := by
  have hshown := h.fields.shown name
  generalize hlast : ((set.bare.contributors .object id).filter
    fun x => x.fieldName = name).getLast? = x? at hshown
  generalize hget : c₀.fields.get? name = f? at hshown
  cases hshown with
  | none =>
    refine .inl ⟨rfl, fun c p hp => ?_, ?_⟩
    · rw [Gives, hlast] at hp
      cases hp
    · by_contra hne
      obtain ⟨p, hp⟩ := Option.ne_none_iff_exists'.1 hne
      obtain ⟨rfl, c, hc, hmem⟩ := nearest?_mem hp
      have hcontributor : .property c p ∈ set.bare.contributors .object id := by
        rw [contributors_bare]
        exact mem_ofClass_iff.2 ⟨c, List.mem_append_right _ hc, p, hmem, rfl⟩
      have hnil := List.filter_eq_nil_iff.1 (List.getLast?_eq_none_iff.1 hlast) _ hcontributor
      simp [Contribution.fieldName] at hnil
  | @some x f hshows =>
    have hx := List.mem_of_mem_filter (List.mem_of_getLast? hlast)
    rw [contributors_bare] at hx
    obtain ⟨c, -, p, -, rfl⟩ := mem_ofClass_iff.1 hx
    obtain ⟨n, hn, rfl⟩ := hshows
    exact .inr ⟨c, p, _, hlast, rfl, hn⟩

/-- The nearest property has been resolved when a field resolver asks for its type. -/
theorem borrows_of_base {c₀ : Composition} (hs : s.Coherent set.registry)
    (hrecord : set.registry.class? .object id = some record)
    (hbase : (set.bare.composition .object id).run s = (.ok c₀, t))
    (hu : u.Coherent set.registry) (htu : t.origins <+: u.origins)
    (htype : b.handler.type = none) : set.Borrows id b u := by
  have hresolver : Contribution.resolverType (set.registry.classChain .object id) b.handler =
      (set.nearest? id b.handler.schemaName).map fun p => (p.type, p.wrapping) := by
    simp only [Contribution.resolverType, htype, nearest?]
  cases hnearest : set.nearest? id b.handler.schemaName with
  | none =>
    refine .missing hnearest ?_
    rw [resolverNode, hresolver, hnearest]
    rfl
  | some p =>
    obtain ⟨-, c, hc, hmem⟩ := nearest?_mem hnearest
    have hcontribution : .property c p ∈ set.bare.contributions .object id := by
      rw [contributions_bare hrecord, Contribution.ofType]
      refine List.mem_append_left _ (List.mem_append_right _ ?_)
      exact mem_ofClass_iff.2 ⟨c, hc, p, hmem, rfl⟩
    obtain ⟨n, hn⟩ := Realize.denotes_of_compose hs hbase hcontribution
    refine .nearest hnearest (hn.mono htu) ?_
    rw [resolverNode, hresolver, hnearest]
    exact Realize.run_output_of_denotes hu (hn.mono htu)

/-- The type that is borrowed is that of the replaced field exactly if the property it comes from
asks for the same type as the one that gives the field. -/
theorem Borrows.takesType_iff {c₀ : Composition} {H : List Origin} (h : set.Borrows id b u)
    (hmerged : set.bare.Merged H .object id c₀) (hu : u.Coherent set.registry)
    (hH : H <+: u.origins) :
    set.TakesType id b c₀.fields u ↔ ∀ c p, set.Gives id b.handler.schemaName c p →
      ∃ q, set.nearest? id b.handler.schemaName = some q ∧
        q.TypedAs set.options set.registry p := by
  rcases gives_cases hmerged b.handler.schemaName with
    ⟨hget, hgives, hnearest⟩ | ⟨c, p, f, hp, hget, hf⟩
  · refine iff_of_true ⟨by simp [hget], fun _ => ?_⟩ fun c p hp => absurd hp (hgives c p)
    cases h with
    | missing absent run => exact ⟨u, run⟩
    | nearest found denotes run => simp [hnearest] at found
  · cases h with
    | missing absent run =>
      -- there is a field, but no property to take a type from
      refine iff_of_false (fun htakes => ?_) fun htyped => ?_
      · obtain ⟨v, hv⟩ := htakes.1 f hget
        rw [run] at hv
        cases hv
      · obtain ⟨q, hq, -⟩ := htyped c p hp
        simp [absent] at hq
    | @nearest q n found denotes run =>
      have hsame : n = f.type ↔ q.TypedAs set.options set.registry p :=
        hu.node_eq_iff denotes (hf.mono hH)
      constructor
      · intro htakes c' p' hp'
        obtain ⟨v, hv⟩ := htakes.1 f hget
        rw [run] at hv
        cases hv
        rw [hp'.unique hp]
        exact ⟨q, found, hsame.1 rfl⟩
      · intro htyped
        obtain ⟨q', hq', htyped⟩ := htyped c p hp
        rw [found, Option.some.injEq] at hq'
        subst hq'
        refine ⟨fun f' hf' => ?_, by simp [hget]⟩
        rw [hget, Option.some.injEq] at hf'
        rw [← hf', ← hsame.2 htyped]
        exact ⟨u, run⟩

theorem getLast?_filter_ofClass {c : ClassRecord} (h : (c.properties.map (·.schemaName)).Nodup)
    (name : String) : ((Contribution.ofClass c).filter fun x => x.fieldName = name).getLast? =
      (c.property? name).map (.property c) := by
  have hmap : (Contribution.ofClass c).filter (fun x => x.fieldName = name) =
      (c.properties.filter (·.schemaName = name)).map (.property c) := by
    rw [Contribution.ofClass, List.filter_map]
    rfl
  rw [hmap, List.getLast?_map, getLast?_filter_of_nodup h]
  rfl

/-- If no class of the chain repeats a name, the nearest property of a name gives its field. -/
theorem gives_of_nearest? {c : ClassRecord} {q : Property}
    (hnodup : ∀ c ∈ set.registry.classChain .object id, (c.properties.map (·.schemaName)).Nodup)
    (hnearest : set.nearest? id name = some q) (h : set.Gives id name c p) : q = p := by
  obtain ⟨nearer, c', farther, hsplit, hq, hnone⟩ := List.findSome?_eq_some_iff.1 hnearest
  have hchain : ∀ a ∈ nearer ++ c' :: farther, (a.properties.map (·.schemaName)).Nodup := by
    intro a ha
    rw [← hsplit, List.mem_reverse] at ha
    exact hnodup a ha
  have hlast : (((set.registry.classChain .object id).flatMap Contribution.ofClass).filter
      fun x => x.fieldName = name).getLast? = some (.property c' q) := by
    rw [List.filter_flatMap, List.getLast?_flatMap, hsplit, List.findSome?_eq_some_iff]
    refine ⟨nearer, c', farther, rfl, ?_, fun a ha => ?_⟩
    · rw [getLast?_filter_ofClass (hchain c' (by simp)), hq, Option.map_some]
    · rw [getLast?_filter_ofClass (hchain a (by simp [ha])), hnone a ha, Option.map_none]
  rw [Gives, contributors_bare, List.flatMap_append, List.filter_append, List.getLast?_append,
    hlast, Option.some_or, Option.some.injEq, Contribution.property.injEq] at h
  exact h.2

/-- At a field resolver without a type of its own, the rest of an object type depends on the type
that it is given: that of the nearest property of its name, or else none, which is an error. So it
takes the type of the field that it replaces exactly if the nearest property asks for the same type
as the one that gives the field. If no class repeats a name, the two are one as soon as there is a
nearest property. -/
theorem composition_takesType_iff {c₀ c₁ : Composition} {pre post : List Binding}
    (hs : Realization.Passes set.registry .empty s)
    (hrecord : set.registry.class? .object id = some record)
    (hbase : (set.bare.composition .object id).run s = (.ok c₀, t))
    (hsplit : set.fieldResolvers id = pre ++ b :: post) (htype : b.handler.type = none)
    (hpre : (Realize.compose set.options c₀ (pre.map (set.resolution id)) :
      Realize set.registry Composition).run t = (.ok c₁, u)) :
    (set.composition .object id).run s = (do
      let n ← set.resolverNode id b
      let values ← Realize.arguments set.options (b.handler.location set.registry)
        b.handler.parameters
      Realize.compose set.options
        { c₁ with fields := c₁.fields.insert b.handler.schemaName (b.field n values) }
        (post.map (set.resolution id)) : Realize set.registry Composition).run u ∧
    set.Borrows id b u ∧
    (set.TakesType id b c₀.fields u ↔ ∀ c p, set.Gives id b.handler.schemaName c p →
      ∃ q, set.nearest? id b.handler.schemaName = some q ∧
        q.TypedAs set.options set.registry p) ∧
    ((∀ c ∈ set.registry.classChain .object id, (c.properties.map (·.schemaName)).Nodup) →
      set.nearest? id b.handler.schemaName ≠ none → set.TakesType id b c₀.fields u) := by
  have hcoherent : s.Coherent set.registry := hs.coherent Realization.coherent_empty
  have ht : t.Coherent set.registry := Realize.coherent_run hcoherent hbase
  have hu : u.Coherent set.registry := Realize.coherent_run ht hpre
  have htu : t.origins <+: u.origins := Realize.origins_extend hpre
  have hborrows := borrows_of_base hcoherent hrecord hbase hu htu htype
  have hiff := hborrows.takesType_iff (composition_merged hs hrecord hbase) hu htu
  refine ⟨run_composition_of_split hrecord hbase hsplit hpre, hborrows, hiff, fun hnodup hne => ?_⟩
  obtain ⟨q, hq⟩ := Option.ne_none_iff_exists'.1 hne
  refine hiff.2 fun c p hp => ⟨q, hq, ?_⟩
  rw [gives_of_nearest? hnodup hq hp]
  exact .refl p

end Setting

namespace Setting

theorem composition_takesType_iff_titled : ∃ set c t,
    (prepare .titled .standard none).outcome = .ok set ∧
    set.fieldResolvers 2 = [.untyped 3 "title", .rated 3] ∧
    (set.bare.composition .object 2).run .empty = (.ok c, t) ∧
      set.TakesType 2 (.untyped 3 "title") c.fields t := by
  have hbase : ((titled.bare.composition .object 2).run .empty).1.toOption.isSome = true := by
    decide +kernel
  obtain ⟨c, hc⟩ := Option.isSome_iff_exists.1 hbase
  have hrun : (titled.bare.composition .object 2).run .empty = (.ok c, _) :=
    Prod.ext (ok_of_toOption hc) rfl
  have hsplit : titled.fieldResolvers 2 = [] ++ .untyped 3 "title" :: [.rated 3] := rfl
  have hnodup : (titled.registry.classChain .object 2).all
      (fun c => decide (c.properties.map (·.schemaName)).Nodup) = true := by decide +kernel
  have hnearest : (titled.nearest? 2 "title").isSome = true := by decide +kernel
  obtain ⟨-, -, -, htakes⟩ :=
    composition_takesType_iff ⟨_, _, .refl⟩ rfl hrun hsplit rfl rfl
  refine ⟨titled, c, _, prepare_titled, rfl, hrun, htakes ?_ ?_⟩
  · intro c hc
    exact of_decide_eq_true (List.all_eq_true.1 hnodup c hc)
  · exact Option.isSome_iff_ne_none.1 hnearest

/-- Recipes have their identifier from an interface, and a resolver for it without a type. -/
def identifiers : Setting where
  registry := .ofRecords
    (((EntityTable.empty.declare "Node" none).declare "Recipe" none).declare "R" none)
    [.identified 0 "Node" false []] [.ofField 1 "Recipe" "title" "String" [.declared 0]] []
  options := .standard
  filter := none
  attachments := [⟨1, .untyped 2 "id"⟩]

/-- The resolver of identifiers has no type, though it replaces a field. -/
theorem identifiers_not_takesType : ∃ c t f, identifiers.fieldResolvers 1 = [.untyped 2 "id"] ∧
    (identifiers.bare.composition .object 1).run .empty = (.ok c, t) ∧
      c.fields.get? "id" = some f ∧ ¬ identifiers.TakesType 1 (.untyped 2 "id") c.fields t := by
  have hbase : ((identifiers.bare.composition .object 1).run .empty).1.toOption.map
      (fun c => (c.fields.get? "id").isSome) = some true := by decide +kernel
  obtain ⟨c, hc, hfield⟩ := Option.map_eq_some_iff.1 hbase
  obtain ⟨f, hf⟩ := Option.isSome_iff_exists.1 hfield
  have hrun : (identifiers.bare.composition .object 1).run .empty = (.ok c, _) :=
    Prod.ext (ok_of_toOption hc) rfl
  refine ⟨c, _, f, rfl, hrun, hf, fun htakes => ?_⟩
  obtain ⟨v, hv⟩ := htakes.1 f hf
  have hnone : (Contribution.resolverType (identifiers.registry.classChain .object 1)
      (Binding.untyped 2 "id").handler).isNone = true := by decide +kernel
  rw [resolverNode, Option.isNone_iff_eq_none.1 hnone] at hv
  cases hv

end Setting

end CodeFirst
