import CodeFirst.Proofs.Origin
import CodeFirst.Proofs.Visits
import Mathlib.Data.List.Forall2
import Mathlib.Tactic.SplitIfs

/-! What references denote and what contributions show, read off an arena of origins without running
anything. Each resolution that succeeds leaves an arena in which its result says what it should, and
stays true when the arena grows. -/

namespace CodeFirst

theorem getElem?_of_isPrefix {α : Type} {l m : List α} (h : l <+: m) {i : Nat} {x : α}
    (hx : l[i]? = some x) : m[i]? = some x := by
  obtain ⟨n, rfl⟩ := h
  rw [List.getElem?_append_left (List.getElem?_eq_some_iff.1 hx).1]
  exact hx

theorem exists_left_of_forall₂ {α β : Type} {R : α → β → Prop} {l : List α}
    {m : List β} (h : List.Forall₂ R l m) {b : β} (hb : b ∈ m) : ∃ a ∈ l, R a b := by
  induction h with
  | nil => exact absurd hb List.not_mem_nil
  | cons hab _ ih =>
    rcases List.mem_cons.1 hb with rfl | hb
    · exact ⟨_, List.mem_cons_self, hab⟩
    · obtain ⟨a, ha, hr⟩ := ih hb
      exact ⟨a, List.mem_cons_of_mem _ ha, hr⟩

/-- The origin of the type that a reference denotes in output position: a scalar, an object type or
an interface. -/
def outputOrigin? (o : BuildOptions) (r : Registry) (ref : Reference) : Option Origin :=
  match scalarOf? o r ref with
  | some t => some (.scalar t.name)
  | none => ref.entity?.bind fun id =>
    if (r.class? .object id).isSome then some (.declared .object id)
    else if (r.class? .interface id).isSome then some (.declared .interface id)
    else none

/-- The origin of the type that a reference denotes in input position: a scalar or an input type. -/
def inputOrigin? (o : BuildOptions) (r : Registry) (ref : Reference) : Option Origin :=
  match scalarOf? o r ref with
  | some t => some (.scalar t.name)
  | none => ref.entity?.bind fun id =>
    if (r.class? .input id).isSome then some (.declared .input id) else none

def TypeKind.isOutput : TypeKind → Bool
  | .input => false
  | _ => true

def TypeKind.isInput : TypeKind → Bool
  | .scalar | .input => true
  | _ => false

theorem isOutput_of_outputOrigin? {o : BuildOptions} {r : Registry} {ref : Reference} {x : Origin}
    (h : outputOrigin? o r ref = some x) : x.kind.isOutput = true := by
  rw [outputOrigin?] at h
  split at h
  · rw [Option.some.injEq] at h
    subst h; rfl
  · obtain ⟨id, -, hid⟩ := Option.bind_eq_some_iff.1 h
    split_ifs at hid
    · rw [Option.some.injEq] at hid
      subst hid; rfl
    · rw [Option.some.injEq] at hid
      subst hid; rfl

theorem isInput_of_inputOrigin? {o : BuildOptions} {r : Registry} {ref : Reference} {x : Origin}
    (h : inputOrigin? o r ref = some x) : x.kind.isInput = true := by
  rw [inputOrigin?] at h
  split at h
  · rw [Option.some.injEq] at h
    subst h; rfl
  · obtain ⟨id, -, hid⟩ := Option.bind_eq_some_iff.1 h
    split_ifs at hid
    rw [Option.some.injEq] at hid
    subst hid; rfl

/-- A node over the place of an origin, wrapped as a reference with options asks for. -/
def Denotes (H : List Origin) (origin? : Option Origin) (ref : Reference) (w : Wrapping)
    (n : TypeNode) : Prop :=
  ∃ i x, origin? = some x ∧ H[i]? = some x ∧ n = .wrap i (w.withReferenceDepth ref.depth)

theorem Denotes.mono {H H' : List Origin} (hH : H <+: H') {origin? : Option Origin}
    {ref : Reference} {w : Wrapping} {n : TypeNode} (h : Denotes H origin? ref w n) :
    Denotes H' origin? ref w n := by
  obtain ⟨i, x, ho, hi, hn⟩ := h
  exact ⟨i, x, ho, getElem?_of_isPrefix hH hi, hn⟩

theorem Denotes.base {H : List Origin} {origin? : Option Origin} {ref : Reference} {w : Wrapping}
    {n : TypeNode} (h : Denotes H origin? ref w n) :
    ∃ x, origin? = some x ∧ H[n.base]? = some x := by
  obtain ⟨i, x, ho, hi, rfl⟩ := h
  exact ⟨x, ho, by rwa [TypeNode.base_wrap]⟩

section Shown

variable (o : BuildOptions) (r : Registry) (H : List Origin)

/-- An argument or input field that is as its contribution says. The default of a property is what
an instance of its class assigns to it, else its own. -/
def InputContribution.Shows : InputContribution → InputValue → Prop
  | .parameter _ name type wrapping description default, v =>
    ∃ n, Denotes H (inputOrigin? o r type) type wrapping n ∧ v = ⟨name, description, n, default⟩
  | .property declaring p, v =>
    ∃ n, Denotes H (inputOrigin? o r p.type) p.type p.wrapping n ∧
      v = ⟨p.schemaName, p.description, n,
        ((r.entities.instantiate declaring.target).bind (·.get? p.name)).or p.default⟩
  | .noBundle .., _ => False

/-- One value for each contribution, merged by name. -/
def Merges (l : List InputContribution) (values : InputValues) : Prop :=
  ∃ vs, List.Forall₂ (InputContribution.Shows o r H) l vs ∧
    values = (∅ : InputValues).putMany InputValue.name vs

/-- The arguments that the parameters of a handler contribute if they are visited in order. Each
bundle among them has an arguments type. -/
def Gathers (host : Location) (ps : List Parameter) (values : InputValues) : Prop :=
  ∃ l, Parameter.Visits ps l ∧ (∀ p ∈ l, ∀ b, ¬ p.Missing r b) ∧
    Merges o r H (l.flatMap (Parameter.contributors r host)) values

/-- A field that is as its contribution says. Only resolvers take arguments. -/
def Contribution.Shows : Contribution → Field → Prop
  | .property _ p, f =>
    ∃ n, Denotes H (outputOrigin? o r p.type) p.type p.wrapping n ∧ f =
      { name := p.schemaName
        description := p.description
        deprecation := p.deprecation
        type := n
        arguments := ∅
        resolver := none
        node := if p.directives.isEmpty then none else some ⟨p.schemaName, n, p.directives⟩
        extensions := ∅ }
  | .resolver ⟨owner, h⟩ (some (ref, w)), f =>
    ∃ n values, Denotes H (outputOrigin? o r ref) ref w n ∧
      Gathers o r H (.ofMember (r.entityName h.target) h.method) h.parameters values ∧ f =
      { name := h.schemaName
        description := h.description
        deprecation := h.deprecation
        type := n
        arguments := values
        resolver := some ⟨owner, h.method⟩
        node := some ⟨h.schemaName, n, h.directives⟩
        extensions := .ofList ((h.complexity.toList.map fun c => ("complexity", .ofNat c)) ++
          h.extensions.entries) }
  | _, _ => False

/-- The name of the field that a contribution shows. -/
def Contribution.fieldName : Contribution → String
  | .property _ p => p.schemaName
  | .resolver b _ => b.handler.schemaName
  | _ => ""

def Contribution.interface? : Contribution → Option EntityId
  | .interface _ id => some id
  | _ => none

/-- One place for each implemented interface, and one field for each other contribution, merged by
name. -/
structure Composes (l : List Contribution) (c : Composition) : Prop where
  interfaces : List.Forall₂ (fun id i => H[i]? = some (.declared .interface id))
    (l.filterMap Contribution.interface?) c.interfaces
  fields : ∃ fs, List.Forall₂ (Contribution.Shows o r H)
    (l.filter (·.interface?.isNone)) fs ∧ c.fields = (∅ : Fields).putMany Field.name fs

variable {o r H} {H' : List Origin}

theorem InputContribution.Shows.mono (hH : H <+: H') {x : InputContribution} {v : InputValue}
    (h : x.Shows o r H v) : x.Shows o r H' v := by
  cases x with
  | parameter host name type wrapping description default =>
    obtain ⟨n, hn, rfl⟩ := h
    exact ⟨n, hn.mono hH, rfl⟩
  | property declaring p =>
    obtain ⟨n, hn, rfl⟩ := h
    exact ⟨n, hn.mono hH, rfl⟩
  | noBundle host bundle => exact h.elim

theorem InputContribution.Shows.name {x : InputContribution} {v : InputValue}
    (h : x.Shows o r H v) : v.name = x.key := by
  cases x with
  | parameter host name type wrapping description default =>
    obtain ⟨n, -, rfl⟩ := h
    rfl
  | property declaring p =>
    obtain ⟨n, -, rfl⟩ := h
    rfl
  | noBundle host bundle => exact h.elim

theorem Merges.keyed {l : List InputContribution} {values : InputValues}
    (h : Merges o r H l values) : values.Keyed InputValue.name := by
  obtain ⟨vs, -, rfl⟩ := h
  exact OrderedMap.keyed_putMany _ _

theorem Merges.mono (hH : H <+: H') {l : List InputContribution} {values : InputValues}
    (h : Merges o r H l values) : Merges o r H' l values := by
  obtain ⟨vs, hvs, rfl⟩ := h
  exact ⟨vs, hvs.imp fun _ _ hv => hv.mono hH, rfl⟩

/-- Contributions of parameters that are all shown come with no bundle that lacks its type. -/
theorem gathers_iff {host : Location} {ps : List Parameter} {values : InputValues} :
    Gathers o r H host ps values ↔
      Merges o r H (InputContribution.ofParameters r host ps) values := by
  have hvisits := InputContribution.visits_inOrder ps
  have hsame (hmissing : ∀ p ∈ InputContribution.inOrder ps, ∀ b, ¬ p.Missing r b) :
      InputContribution.ofParameters r host ps =
        (InputContribution.inOrder ps).flatMap (Parameter.contributors r host) :=
    List.flatMap_congr fun p hp => InputContribution.ofParameter_of_not_missing (hmissing p hp)
  constructor
  · rintro ⟨l, hl, hmissing, hvalues⟩
    obtain rfl := hl.unique hvisits
    rwa [hsame hmissing]
  · intro h
    have hmissing : ∀ p ∈ InputContribution.inOrder ps, ∀ b, ¬ p.Missing r b := by
      intro p hp b hb
      have hmem : .noBundle (host.withIndex p.index) b ∈ InputContribution.ofParameters r host ps :=
        List.mem_flatMap.2 ⟨p, hp, by simp [InputContribution.ofParameter_of_missing hb]⟩
      obtain ⟨vs, hvs, -⟩ := h
      obtain ⟨v, -, hv⟩ := exists_left_of_forall₂ hvs.flip hmem
      exact hv
    rw [hsame hmissing] at h
    exact ⟨_, hvisits, hmissing, h⟩

theorem Gathers.merges {host : Location} {ps : List Parameter} {values : InputValues}
    (h : Gathers o r H host ps values) :
    Merges o r H (InputContribution.ofParameters r host ps) values := gathers_iff.1 h

theorem Gathers.mono (hH : H <+: H') {host : Location} {ps : List Parameter} {values : InputValues}
    (h : Gathers o r H host ps values) : Gathers o r H' host ps values :=
  gathers_iff.2 (h.merges.mono hH)

theorem Contribution.Shows.mono (hH : H <+: H') {x : Contribution} {f : Field}
    (h : x.Shows o r H f) : x.Shows o r H' f := by
  match x, h with
  | .property declaring p, h =>
    obtain ⟨n, hn, rfl⟩ := h
    exact ⟨n, hn.mono hH, rfl⟩
  | .resolver b (some (ref, w)), h =>
    obtain ⟨n, values, hn, hv, rfl⟩ := h
    exact ⟨n, values, hn.mono hH, hv.mono hH, rfl⟩

theorem Contribution.Shows.name {x : Contribution} {f : Field} (h : x.Shows o r H f) :
    f.name = x.fieldName := by
  match x, h with
  | .property declaring p, h =>
    obtain ⟨n, -, rfl⟩ := h
    rfl
  | .resolver b (some (ref, w)), h =>
    obtain ⟨n, values, -, -, rfl⟩ := h
    rfl

theorem Contribution.Shows.keyed {x : Contribution} {f : Field} (h : x.Shows o r H f) :
    f.arguments.Keyed InputValue.name := by
  match x, h with
  | .property declaring p, h =>
    obtain ⟨n, -, rfl⟩ := h
    exact fun e he => absurd he List.not_mem_nil
  | .resolver b (some (ref, w)), h =>
    obtain ⟨n, values, -, hv, rfl⟩ := h
    exact hv.merges.keyed

theorem Composes.keyed {l : List Contribution} {c : Composition} (h : Composes o r H l c) :
    c.fields.Keyed Field.name := by
  obtain ⟨fs, -, hc⟩ := h.fields
  rw [hc]
  exact OrderedMap.keyed_putMany _ _

theorem Composes.mono (hH : H <+: H') {l : List Contribution} {c : Composition}
    (h : Composes o r H l c) : Composes o r H' l c := by
  refine ⟨h.interfaces.imp fun _ _ hi => getElem?_of_isPrefix hH hi, ?_⟩
  obtain ⟨fs, hfs, hc⟩ := h.fields
  exact ⟨fs, hfs.imp fun _ _ hf => hf.mono hH, hc⟩

end Shown

/-- A root shows its handlers as an object type shows its field resolvers. -/
def Binding.rootContribution (b : Binding) : Contribution :=
  .resolver b (b.handler.type.map fun ref => (ref, b.handler.wrapping))

namespace Setting

variable (set : Setting)

def rootBindings (kind : RootKind) : List Binding :=
  (Exposure.exposed set.registry set.filter (.root kind)).result

def rootContributions (kind : RootKind) : List Contribution :=
  (set.rootBindings kind).map Binding.rootContribution

/-- What the type of an origin is to be wired with. -/
def Wires (H : List Origin) : Origin → Wiring → Prop
  | .declared .object id, .composite c =>
    Composes set.options set.registry H (set.contributions .object id) c
  | .declared .interface id, .composite c =>
    Composes set.options set.registry H (set.contributions .interface id) c
  | .declared .input id, .input values =>
    Merges set.options set.registry H
      (InputContribution.ofChain (set.registry.classChain .input id)) values
  | .root name, .composite c =>
    ∃ kind : RootKind, name = kind.typeName ∧
      Composes set.options set.registry H (set.rootContributions kind) c
  | _, _ => False

variable {set}

theorem Wires.mono {H H' : List Origin} (hH : H <+: H') {x : Origin} {w : Wiring}
    (h : set.Wires H x w) : set.Wires H' x w := by
  match x, w, h with
  | .declared .object id, .composite c, h => exact Composes.mono hH h
  | .declared .interface id, .composite c, h => exact Composes.mono hH h
  | .declared .input id, .input values, h => exact Merges.mono hH h
  | .root name, .composite c, ⟨kind, hn, hc⟩ => exact ⟨kind, hn, hc.mono hH⟩

end Setting

namespace Realize

variable {r : Registry} {o : BuildOptions} {s u : Realization}

theorem grows_run {α : Type} {x : Realize r α} {a : Except BuildError α}
    (h : x.run s = (a, u)) : Realization.Grows r s u := by
  have hg := x.grows s
  rwa [h] at hg

theorem origins_extend {α : Type} {x : Realize r α} {a : Except BuildError α}
    (h : x.run s = (a, u)) : s.origins <+: u.origins := (grows_run h).origins

theorem coherent_run {α : Type} {x : Realize r α} {a : Except BuildError α} (hs : s.Coherent r)
    (h : x.run s = (a, u)) : u.Coherent r := (grows_run h).coherent hs

theorem run_pure_eq_ok {α : Type} {a b : α}
    (h : (pure a : Realize r α).run s = (.ok b, u)) : a = b ∧ s = u := by
  simpa only [run_pure, Prod.mk.injEq, Except.ok.injEq] using h

theorem run_ofOption_eq_ok {α : Type} {e : BuildError} {x : Option α} {a : α}
    (h : (ofOption e x : Realize r α).run s = (.ok a, u)) : x = some a ∧ u = s := by
  cases x with
  | none => simp [ofOption] at h
  | some b =>
    simp only [ofOption, run_pure, Prod.mk.injEq, Except.ok.injEq] at h
    exact ⟨by rw [h.1], h.2.symm⟩

theorem scalar_origin (hs : s.Coherent r) {t : ScalarType} {i : TypeId}
    (h : (scalar t : Realize r TypeId).run s = (.ok i, u)) :
    u.origins[i]? = some (.scalar t.name) := by
  simp only [scalar] at h
  split at h
  · simp only [Prod.mk.injEq, Except.ok.injEq] at h
    obtain ⟨rfl, rfl⟩ := h
    rw [Realization.getElem?_origins]
    simp [Realization.addType]
  · next j hj =>
    split at h
    · next hscalar =>
      simp only [Prod.mk.injEq, Except.ok.injEq] at h
      obtain ⟨rfl, rfl⟩ := h
      obtain ⟨x, hx, hn⟩ := (hs.typeId?_iff t.name j).1 hj
      have hxs : x.isScalar = true := by simpa [hx] using hscalar
      rw [Realization.getElem?_origins, hx, Option.map_some, NamedType.origin_of_isScalar hxs, hn]
    · simp at h

theorem declared?_origin (hs : s.Coherent r) {k : TypeCategory} {id : EntityId} {i : TypeId}
    (h : (declared? k id : Realize r (Option TypeId)).run s = (.ok (some i), u)) :
    u.origins[i]? = some (.declared k id) := by
  simp only [declared?] at h
  split at h
  · next j hj =>
    simp only [Prod.mk.injEq, Except.ok.injEq, Option.some.injEq] at h
    obtain ⟨rfl, rfl⟩ := h
    exact (hs.place?_iff k id j).1 hj
  · split at h
    · simp at h
    · next c hc =>
      split at h
      · simp at h
      · simp only [Prod.mk.injEq, Except.ok.injEq, Option.some.injEq] at h
        obtain ⟨rfl, rfl⟩ := h
        have ht := Registry.target_of_class? hc
        rw [Realization.getElem?_origins, Realization.types_addDeclared]
        simp [ht]

theorem declared?_none {k : TypeCategory} {id : EntityId}
    (h : (declared? k id : Realize r (Option TypeId)).run s = (.ok none, u)) :
    r.class? k.classKind id = none := by
  simp only [declared?] at h
  split at h
  · simp at h
  · split at h
    · next hc => exact hc
    · split at h <;> simp at h

theorem declared?_known (hs : s.Coherent r) {k : TypeCategory} {id : EntityId} {i : TypeId}
    (h : (declared? k id : Realize r (Option TypeId)).run s = (.ok (some i), u)) :
    (r.class? k.classKind id).isSome = true := by
  have hi := declared?_origin hs h
  obtain ⟨c, hc⟩ := (coherent_run hs h).known (List.mem_of_getElem? hi)
  rw [hc, Option.isSome_some]

theorem outputBase_origin (hs : s.Coherent r) {host : Location} {ref : Reference} {i : TypeId}
    (h : (outputBase o host ref : Realize r TypeId).run s = (.ok i, u)) :
    ∃ x, outputOrigin? o r ref = some x ∧ u.origins[i]? = some x := by
  rw [outputBase] at h
  split at h
  · next t hscalar =>
    exact ⟨.scalar t.name, by simp only [outputOrigin?, hscalar], scalar_origin hs h⟩
  · next hscalar =>
    split at h
    · simp at h
    · next id hid =>
      simp only [outputOrigin?, hscalar, hid, Option.bind_some]
      obtain ⟨place?, t, ht, h⟩ := run_bind_eq_ok h
      cases place? with
      | some place =>
        obtain ⟨rfl, rfl⟩ := run_pure_eq_ok h
        have hobject : (r.class? .object id).isSome = true := declared?_known hs ht
        rw [if_pos hobject]
        exact ⟨_, rfl, declared?_origin hs ht⟩
      | none =>
        have hobject : r.class? .object id = none := declared?_none ht
        obtain ⟨place?, v, hv, h⟩ := run_bind_eq_ok h
        obtain ⟨rfl, rfl⟩ := run_ofOption_eq_ok h
        have hinterface : (r.class? .interface id).isSome = true :=
          declared?_known (coherent_run hs ht) hv
        rw [if_neg (by simp [hobject]), if_pos hinterface]
        exact ⟨_, rfl, declared?_origin (coherent_run hs ht) hv⟩

theorem inputBase_origin (hs : s.Coherent r) {host : Location} {ref : Reference} {i : TypeId}
    (h : (inputBase o host ref : Realize r TypeId).run s = (.ok i, u)) :
    ∃ x, inputOrigin? o r ref = some x ∧ u.origins[i]? = some x := by
  rw [inputBase] at h
  split at h
  · next t hscalar =>
    exact ⟨.scalar t.name, by simp only [inputOrigin?, hscalar], scalar_origin hs h⟩
  · next hscalar =>
    split at h
    · simp at h
    · next id hid =>
      simp only [inputOrigin?, hscalar, hid, Option.bind_some]
      obtain ⟨place?, t, ht, h⟩ := run_bind_eq_ok h
      obtain ⟨rfl, rfl⟩ := run_ofOption_eq_ok h
      have hinput : (r.class? .input id).isSome = true := declared?_known hs ht
      rw [if_pos hinput]
      exact ⟨_, rfl, declared?_origin hs ht⟩

theorem output_denotes (hs : s.Coherent r) {host : Location} {ref : Reference} {w : Wrapping}
    {n : TypeNode} (h : (output o host ref w : Realize r TypeNode).run s = (.ok n, u)) :
    Denotes u.origins (outputOrigin? o r ref) ref w n := by
  obtain ⟨i, t, ht, h⟩ := run_bind_eq_ok h
  obtain ⟨rfl, rfl⟩ := run_pure_eq_ok h
  obtain ⟨x, hx, hi⟩ := outputBase_origin hs ht
  exact ⟨i, x, hx, hi, rfl⟩

theorem input_denotes (hs : s.Coherent r) {host : Location} {ref : Reference} {w : Wrapping}
    {n : TypeNode} (h : (input o host ref w : Realize r TypeNode).run s = (.ok n, u)) :
    Denotes u.origins (inputOrigin? o r ref) ref w n := by
  obtain ⟨i, t, ht, h⟩ := run_bind_eq_ok h
  obtain ⟨rfl, rfl⟩ := run_pure_eq_ok h
  obtain ⟨x, hx, hi⟩ := inputBase_origin hs ht
  exact ⟨i, x, hx, hi, rfl⟩

theorem inputValue_shows (hs : s.Coherent r) {x : InputContribution} {v : InputValue}
    (h : (inputValue o x : Realize r InputValue).run s = (.ok v, u)) :
    x.Shows o r u.origins v := by
  cases x with
  | parameter host name type wrapping description default =>
    obtain ⟨n, t, ht, h⟩ := run_bind_eq_ok h
    obtain ⟨rfl, rfl⟩ := run_pure_eq_ok h
    exact ⟨n, input_denotes hs ht, rfl⟩
  | property declaring p =>
    obtain ⟨n, t, ht, h⟩ := run_bind_eq_ok h
    obtain ⟨_, t', ht', h⟩ := run_bind_eq_ok h
    obtain ⟨rfl, rfl⟩ := run_pure_eq_ok h
    refine ⟨n, (input_denotes hs ht).mono (origins_extend ht'), ?_⟩
    rw [Property.inputValue, Property.resolvedDefault_eq_or]
  | noBundle host bundle => simp [inputValue] at h

theorem inputValues_merges (hs : s.Coherent r) {l : List InputContribution}
    {values values' : InputValues}
    (h : (inputValues o values l : Realize r InputValues).run s = (.ok values', u)) :
    ∃ vs, List.Forall₂ (InputContribution.Shows o r u.origins) l vs ∧
      values' = values.putMany InputValue.name vs := by
  induction l generalizing values s with
  | nil =>
    simp only [inputValues, run_pure, Prod.mk.injEq, Except.ok.injEq] at h
    exact ⟨[], .nil, h.1.symm⟩
  | cons x rest ih =>
    obtain ⟨v, t, ht, h⟩ := run_bind_eq_ok h
    obtain ⟨vs, hvs, hv⟩ := ih (coherent_run hs ht) h
    have hshows := inputValue_shows hs ht
    refine ⟨v :: vs, .cons (hshows.mono (origins_extend h)) hvs, ?_⟩
    rw [hv, OrderedMap.putMany_cons, hshows.name]

theorem arguments_merges (hs : s.Coherent r) {host : Location} {ps : List Parameter}
    {values : InputValues}
    (h : (arguments o host ps : Realize r InputValues).run s = (.ok values, u)) :
    Merges o r u.origins (InputContribution.ofParameters r host ps) values :=
  inputValues_merges hs h

theorem inputFields_merges (hs : s.Coherent r) {id : EntityId} {values : InputValues}
    (h : (inputFields o id : Realize r InputValues).run s = (.ok values, u)) :
    Merges o r u.origins (InputContribution.ofChain (r.classChain .input id)) values :=
  inputValues_merges hs h

theorem fieldExtensions_eq (h : Handler) :
    h.fieldExtensions = .ofList ((h.complexity.toList.map fun c => ("complexity", .ofNat c)) ++
      h.extensions.entries) := by
  rw [Handler.fieldExtensions]
  cases h.complexity <;> rfl

theorem handlerField_shows (hs : s.Coherent r) {b : Binding} {ref : Reference} {w : Wrapping}
    {f : Field} (h : (handlerField o b ref w : Realize r Field).run s = (.ok f, u)) :
    (Contribution.resolver b (some (ref, w))).Shows o r u.origins f := by
  obtain ⟨n, t, ht, h⟩ := run_bind_eq_ok h
  obtain ⟨values, t', ht', h⟩ := run_bind_eq_ok h
  obtain ⟨rfl, rfl⟩ := run_pure_eq_ok h
  refine ⟨n, values, (output_denotes hs ht).mono (origins_extend ht'),
    gathers_iff.2 (arguments_merges (coherent_run hs ht) ht'), ?_⟩
  rw [Binding.field, fieldExtensions_eq]
  rfl

theorem propertyField_shows (hs : s.Coherent r) {declaring : ClassRecord} {p : Property}
    {f : Field} (h : (propertyField o declaring p : Realize r Field).run s = (.ok f, u)) :
    (Contribution.property declaring p).Shows o r u.origins f := by
  obtain ⟨n, t, ht, h⟩ := run_bind_eq_ok h
  obtain ⟨rfl, rfl⟩ := run_pure_eq_ok h
  exact ⟨n, output_denotes hs ht, rfl⟩

/-- A contribution is an implemented interface or a field. -/
theorem contribute_shows (hs : s.Coherent r) {c c' : Composition} {x : Contribution}
    (h : (contribute o c x : Realize r Composition).run s = (.ok c', u)) :
    (∃ host id i, x = .interface host id ∧ u.origins[i]? = some (.declared .interface id) ∧
      c' = { c with interfaces := c.interfaces ++ [i] }) ∨
    (x.interface? = none ∧ ∃ f, x.Shows o r u.origins f ∧
      c' = { c with fields := c.fields.insert f.name f }) := by
  match x, h with
  | .interface host id, h =>
    obtain ⟨place?, t, ht, h⟩ := run_bind_eq_ok h
    obtain ⟨i, t', ht', h⟩ := run_bind_eq_ok h
    obtain ⟨rfl, rfl⟩ := run_pure_eq_ok h
    obtain ⟨rfl, rfl⟩ := run_ofOption_eq_ok ht'
    exact .inl ⟨host, id, i, rfl, declared?_origin hs ht, rfl⟩
  | .noInterface host, h => simp [contribute] at h
  | .property declaring p, h =>
    obtain ⟨f, t, ht, h⟩ := run_bind_eq_ok h
    obtain ⟨rfl, rfl⟩ := run_pure_eq_ok h
    exact .inr ⟨rfl, f, propertyField_shows hs ht, rfl⟩
  | .resolver b none, h => simp [contribute] at h
  | .resolver b (some (ref, w)), h =>
    obtain ⟨f, t, ht, h⟩ := run_bind_eq_ok h
    obtain ⟨rfl, rfl⟩ := run_pure_eq_ok h
    exact .inr ⟨rfl, f, handlerField_shows hs ht, rfl⟩

theorem compose_composes (hs : s.Coherent r) {l : List Contribution} {c c' : Composition}
    (h : (compose o c l : Realize r Composition).run s = (.ok c', u)) :
    (∃ is, List.Forall₂ (fun id i => u.origins[i]? = some (.declared .interface id))
      (l.filterMap Contribution.interface?) is ∧ c'.interfaces = c.interfaces ++ is) ∧
    ∃ fs, List.Forall₂ (Contribution.Shows o r u.origins)
      (l.filter (·.interface?.isNone)) fs ∧ c'.fields = c.fields.putMany Field.name fs := by
  induction l generalizing c s with
  | nil =>
    simp only [compose, run_pure, Prod.mk.injEq, Except.ok.injEq] at h
    obtain ⟨rfl, rfl⟩ := h
    exact ⟨⟨[], .nil, (List.append_nil _).symm⟩, [], .nil, rfl⟩
  | cons x rest ih =>
    obtain ⟨c₁, t, ht, h⟩ := run_bind_eq_ok h
    obtain ⟨⟨is, his, hi⟩, fs, hfs, hf⟩ := ih (coherent_run hs ht) h
    rcases contribute_shows hs ht with ⟨host, id, i, rfl, hx, rfl⟩ | ⟨hx, f, hshows, rfl⟩
    · refine ⟨⟨i :: is, ?_, ?_⟩, fs, hfs, hf⟩
      · exact .cons (getElem?_of_isPrefix (origins_extend h) hx) his
      · rw [hi, List.append_assoc, List.singleton_append]
    · refine ⟨⟨is, ?_, hi⟩, f :: fs, ?_, hf⟩
      · rwa [List.filterMap_cons_none hx]
      · rw [List.filter_cons_of_pos (by simp [hx])]
        exact .cons (hshows.mono (origins_extend h)) hfs

end Realize

namespace Setting

variable {set : Setting} {s u : Realization}

theorem composition_composes (hs : s.Coherent set.registry) {k : CompositeCategory} {id : EntityId}
    {c : Composition} (h : (set.composition k id).run s = (.ok c, u)) :
    Composes set.options set.registry u.origins (set.contributions k id) c := by
  obtain ⟨⟨is, his, hi⟩, fs, hfs, hf⟩ := Realize.compose_composes hs h
  refine ⟨?_, fs, hfs, hf⟩
  have he : c.interfaces = is := by
    rw [hi]
    exact List.nil_append is
  rwa [he]

theorem wiring_wires (hs : s.Coherent set.registry) {k : TypeCategory} {id : EntityId} {w : Wiring}
    (h : (set.wiring k id).run s = (.ok w, u)) : set.Wires u.origins (.declared k id) w := by
  cases k with
  | object =>
    obtain ⟨c, t, ht, h⟩ := Realize.run_bind_eq_ok h
    obtain ⟨rfl, rfl⟩ := Realize.run_pure_eq_ok h
    exact composition_composes hs ht
  | interface =>
    obtain ⟨c, t, ht, h⟩ := Realize.run_bind_eq_ok h
    obtain ⟨rfl, rfl⟩ := Realize.run_pure_eq_ok h
    exact composition_composes hs ht
  | input =>
    obtain ⟨values, t, ht, h⟩ := Realize.run_bind_eq_ok h
    obtain ⟨rfl, rfl⟩ := Realize.run_pure_eq_ok h
    exact Realize.inputFields_merges hs ht

end Setting

end CodeFirst
