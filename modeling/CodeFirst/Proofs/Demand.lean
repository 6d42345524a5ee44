import CodeFirst.Proofs.Composed

/-! What realizing a type asks for. Each resolution is bound to add only types that its
contributions ask for and orphans that it names, or the interfaces among these types; and when it
fails with a naming conflict, two different types claim one name, or one of them is a root. -/

namespace CodeFirst

section Asked

variable (o : BuildOptions) (r : Registry)

/-- The origin of the type of an argument or input field. -/
def InputContribution.asked? : InputContribution → Option Origin
  | .parameter _ _ type .. => inputOrigin? o r type
  | .property _ p => inputOrigin? o r p.type
  | .noBundle .. => none

/-- The origin of an implemented interface or of the type of a field. -/
def Contribution.origin? : Contribution → Option Origin
  | .interface _ id => some (.declared .interface id)
  | .noInterface _ => none
  | .property _ p => outputOrigin? o r p.type
  | .resolver _ type => type.bind fun t => outputOrigin? o r t.1

def Contribution.parameters : Contribution → List InputContribution
  | .resolver b _ => InputContribution.ofParameters r (b.handler.location r) b.handler.parameters
  | _ => []

def Contribution.asked (z : Contribution) : List Origin :=
  (z.origin? o r).toList ++ (z.parameters r).filterMap (InputContribution.asked? o r)

end Asked

section Shown

variable {o : BuildOptions} {r : Registry} {H : List Origin} {y : Origin}

theorem Contribution.mem_asked_iff {z : Contribution} :
    y ∈ z.asked o r ↔
      z.origin? o r = some y ∨ ∃ p ∈ z.parameters r, p.asked? o r = some y := by
  rw [asked, List.mem_append, Option.mem_toList, List.mem_filterMap]

theorem InputContribution.Shows.type {z : InputContribution} {v : InputValue}
    (h : z.Shows o r H v) (hy : z.asked? o r = some y) : H[v.type.base]? = some y := by
  have hbase : ∀ {ref : Reference} {w : Wrapping} {n : TypeNode},
      Denotes H (inputOrigin? o r ref) ref w n → inputOrigin? o r ref = some y →
        H[n.base]? = some y := by
    intro ref w n hn ho
    obtain ⟨x, hx, hplace⟩ := hn.base
    rwa [← Option.some.inj (hx.symm.trans ho)]
  cases z with
  | parameter host name type wrapping description default =>
    obtain ⟨n, hn, rfl⟩ := h
    exact hbase hn hy
  | property declaring p =>
    obtain ⟨n, hn, rfl⟩ := h
    exact hbase hn hy
  | noBundle host bundle => exact h.elim

theorem Contribution.Shows.type {z : Contribution} {f : Field} (h : z.Shows o r H f)
    (hy : z.origin? o r = some y) : H[f.type.base]? = some y := by
  match z, h with
  | .property declaring p, ⟨n, hn, hf⟩ =>
    obtain ⟨x, hx, hplace⟩ := hn.base
    rwa [hf, ← Option.some.inj (hx.symm.trans hy)]
  | .resolver b (some (ref, w)), ⟨n, values, hn, hv, hf⟩ =>
    obtain ⟨x, hx, hplace⟩ := hn.base
    rwa [hf, ← Option.some.inj (hx.symm.trans hy)]

theorem Contribution.Shows.arguments {z : Contribution} {f : Field} (h : z.Shows o r H f) :
    Merges o r H (z.parameters r) f.arguments := by
  match z, h with
  | .property declaring p, ⟨n, hn, hf⟩ =>
    rw [hf]
    exact ⟨[], .nil, rfl⟩
  | .resolver b (some (ref, w)), ⟨n, values, hn, hv, hf⟩ =>
    rw [hf]
    exact hv.merges

theorem Merges.mem_of_asked? {l : List InputContribution} {values : InputValues}
    (h : Merges o r H l values) {z : InputContribution} (hz : z ∈ l)
    (hy : z.asked? o r = some y) : y ∈ H := by
  obtain ⟨v, hv⟩ := h.grounded z hz
  exact List.mem_of_getElem? (hv.type hy)

theorem Contribution.asked_of_interface? {z : Contribution} {id : EntityId}
    (h : z.interface? = some id) : z.asked o r = [.declared .interface id] := by
  cases z <;> cases h
  rfl

theorem Composes.mem_of_asked {l : List Contribution} {c : Composition} (h : Composes o r H l c)
    {z : Contribution} (hz : z ∈ l) (hy : y ∈ z.asked o r) : y ∈ H := by
  have hgrounded := h.grounded z hz
  cases hi : z.interface? with
  | some id =>
    rw [Contribution.asked_of_interface? hi, List.mem_singleton] at hy
    rw [hy]
    exact hgrounded.interface id hi
  | none =>
    obtain ⟨f, hf⟩ := hgrounded.shows hi
    rcases Contribution.mem_asked_iff.1 hy with hy | ⟨p, hp, hy⟩
    · exact List.mem_of_getElem? (hf.type hy)
    · exact hf.arguments.mem_of_asked? hp hy

end Shown

namespace Setting

variable (set : Setting)

def inputContributionsTo : Origin → List InputContribution
  | .declared .input id => InputContribution.ofChain (set.registry.classChain .input id)
  | _ => []

/-- The origins of the types that the type of an origin asks for. -/
def asked (x : Origin) : List Origin :=
  (set.contributionsTo x).flatMap (Contribution.asked set.options set.registry) ++
    (set.inputContributionsTo x).filterMap (InputContribution.asked? set.options set.registry)

variable {set}

theorem mem_asked_iff {x y : Origin} :
    y ∈ set.asked x ↔
      (∃ z ∈ set.contributionsTo x, y ∈ z.asked set.options set.registry) ∨
        ∃ z ∈ set.inputContributionsTo x, z.asked? set.options set.registry = some y := by
  rw [asked, List.mem_append, List.mem_flatMap, List.mem_filterMap]

/-- A wired input type is made up of what contributes to it; other types have no input fields. -/
theorem Fits.merges {H : List Origin} {t : NamedType} (h : set.Fits H t)
    (ht : t.unwired.IsShell set.registry) : ∃ values : InputValues,
      Merges set.options set.registry H (set.inputContributionsTo t.origin) values ∧
        t.inputFields = values.records := by
  have hnone : set.inputContributionsTo t.origin = [] → t.inputFields = [] →
      ∃ values : InputValues, Merges set.options set.registry H
        (set.inputContributionsTo t.origin) values ∧ t.inputFields = values.records := by
    intro hl hfields
    rw [hl, hfields]
    exact ⟨∅, ⟨[], .nil, rfl⟩, rfl⟩
  rcases h with h | ⟨w, hw, he⟩
  · cases t with
    | scalar t => exact hnone rfl rfl
    | _ => cases h
  · cases t with
    | scalar t => exact hnone rfl rfl
    | object t =>
      refine hnone ?_ rfl
      cases ho : t.origin <;> simp [inputContributionsTo, NamedType.origin, ho]
    | interface t =>
      refine hnone ?_ rfl
      cases ho : t.origin <;> simp [inputContributionsTo, NamedType.origin, ho]
    | input t =>
      cases ho : t.origin with
      | none =>
        -- an input type of no declaration would have the origin of a root
        have hkind := ht.kind_eq
        simp [NamedType.kind, NamedType.unwired, NamedType.origin, ho, Origin.kind] at hkind
      | some id =>
        have horigin : (NamedType.input t).origin = .declared .input id := by
          rw [NamedType.origin, ho, Option.elim_some]
        rw [horigin] at hw ⊢
        cases w with
        | composite c => exact hw.elim
        | input values => exact ⟨values, hw, congrArg NamedType.inputFields he⟩

/-- What a type with all it will ever have asks for is there. -/
theorem Fits.asked_subset {H : List Origin} {t : NamedType} (h : set.Fits H t)
    (ht : t.unwired.IsShell set.registry) : set.asked t.origin ⊆ H := by
  intro y hy
  rcases mem_asked_iff.1 hy with ⟨z, hz, hy⟩ | ⟨z, hz, hy⟩
  · obtain ⟨fields, hc, -⟩ := h.composes ht
    exact hc.mem_of_asked hz hy
  · obtain ⟨values, hv, -⟩ := h.merges ht
    exact hv.mem_of_asked? hz hy

end Setting

/-- A naming conflict is about two types of one name: types of different origins, or a root. -/
def Clash (r : Registry) (e : BuildError) : Prop :=
  ∀ name first second, e = .namingConflict name first second →
    ∃ x y : NamedType, x.IsShell r ∧ y.IsShell r ∧ x.name = name ∧ y.name = name ∧
      first = typeLabel r x ∧ second = typeLabel r y ∧
        (x.origin = y.origin → ∃ kind : RootKind, y = kind.shell)

def BuildError.isConflict : BuildError → Bool
  | .namingConflict .. => true
  | _ => false

theorem Clash.of_isConflict {r : Registry} {e : BuildError} (h : e.isConflict = false) :
    Clash r e := by
  intro name first second he
  rw [he] at h
  cases h

theorem typeLabel_unwired (r : Registry) (t : NamedType) :
    typeLabel r t.unwired = typeLabel r t := by cases t <;> rfl

namespace Realization

variable {r : Registry} {s t u : Realization}

theorem Coherent.clash (hs : s.Coherent r) {i : TypeId} {y : NamedType}
    (hi : s.typeId? y.name = some i) (hy : y.IsShell r)
    (hne : ∀ x, s.types[i]? = some x → x.origin = y.origin → ∃ kind : RootKind, y = kind.shell) :
    Clash r (nameClash r s i y) := by
  obtain ⟨x, hx, hn⟩ := (hs.typeId?_iff y.name i).1 hi
  intro name first second he
  rw [nameClash, hx] at he
  cases he
  refine ⟨x.unwired, y, hs.isShell x (List.mem_of_getElem? hx), hy, ?_, rfl, ?_, rfl, ?_⟩
  · rw [NamedType.name_unwired, hn]
  · exact (typeLabel_unwired r x).symm
  · rw [NamedType.origin_unwired]
    exact hne x hx

/-- New types come from some origins only; new orphans are their interfaces or among some
entities. -/
structure Adds (A : Origin → Prop) (B : EntityId → Prop) (s t : Realization) : Prop where
  origins : ∀ x ∈ t.origins, x ∈ s.origins ∨ A x
  seen : ∀ id ∈ t.orphans.seen,
    id ∈ s.orphans.seen ∨ .declared .interface id ∈ t.origins ∨ B id

variable {A A' : Origin → Prop} {B B' : EntityId → Prop}

theorem Adds.refl (s : Realization) : s.Adds A B s := ⟨fun _ h => .inl h, fun _ h => .inl h⟩

theorem Adds.trans (h : s.Adds A B t) (h' : t.Adds A B u) (htu : t.origins <+: u.origins) :
    s.Adds A B u := by
  refine ⟨?_, ?_⟩
  · intro x hx
    rcases h'.origins x hx with hx | hx
    · exact h.origins x hx
    · exact .inr hx
  · intro id hid
    rcases h'.seen id hid with hid | hid
    · exact (h.seen id hid).imp_right fun hid => hid.imp_left fun hi => htu.subset hi
    · exact .inr hid

theorem Adds.mono (h : s.Adds A B t) (hA : ∀ x, A x → A' x) (hB : ∀ id, B id → B' id) :
    s.Adds A' B' t :=
  ⟨fun x hx => (h.origins x hx).imp_right (hA x),
    fun id hid => (h.seen id hid).imp_right fun hid => hid.imp_right (hB id)⟩

theorem Adds.of_eq (ho : t.origins = s.origins) (hseen : t.orphans.seen = s.orphans.seen) :
    s.Adds A B t :=
  ⟨fun _ hx => .inl (ho ▸ hx), fun _ hid => .inl (hseen ▸ hid)⟩

theorem adds_addType {x : NamedType} (hx : A x.origin) : s.Adds A B (s.addType x) := by
  refine ⟨?_, fun _ hid => .inl hid⟩
  intro y hy
  rw [origins, addType, List.map_append, List.mem_append] at hy
  rcases hy with hy | hy
  · exact .inl hy
  · rw [List.map_singleton, List.mem_singleton] at hy
    exact .inr (hy ▸ hx)

theorem adds_addDeclared {k : TypeCategory} {c : ClassRecord} (hc : A (.declared k c.target)) :
    s.Adds A B (s.addDeclared k c) := by
  have ho : (s.addDeclared k c).origins = s.origins ++ [.declared k c.target] := by
    rw [origins, types_addDeclared, List.map_append, List.map_singleton, NamedType.origin_shell]
    rfl
  refine ⟨?_, ?_⟩
  · intro y hy
    rw [ho, List.mem_append, List.mem_singleton] at hy
    rcases hy with hy | rfl
    · exact .inl hy
    · exact .inr hc
  · intro id hid
    rw [orphans_addDeclared] at hid
    split at hid
    · next hk =>
      refine (Orphans.mem_seen_register.1 hid).imp_right fun he => .inl ?_
      rw [ho, hk, he]
      exact List.mem_append_right _ (List.mem_singleton.2 rfl)
    · exact .inl hid

theorem adds_addOrphan {id : EntityId} (hid : B id) : s.Adds A B (s.addOrphan id) := by
  refine ⟨fun _ hx => .inl hx, ?_⟩
  intro x hx
  rcases Orphans.mem_seen_register.1 hx with hx | rfl
  · exact .inl hx
  · exact .inr (.inr hid)

end Realization

namespace Realize

variable {r : Registry} {α β : Type} {o : BuildOptions}

/-- What a computation may add and how it may fail, from any coherent realization. -/
structure Bound (A : Origin → Prop) (B : EntityId → Prop) (x : Realize r α) : Prop where
  adds : ∀ s : Realization, s.Coherent r → s.Adds A B (x.run s).2
  clash : ∀ (s : Realization) e, s.Coherent r → (x.run s).1 = .error e → Clash r e

variable {A A' : Origin → Prop} {B B' : EntityId → Prop} {x : Realize r α}

namespace Bound

theorem mono (h : Bound A B x) (hA : ∀ y, A y → A' y) (hB : ∀ id, B id → B' id) : Bound A' B' x :=
  ⟨fun s hs => (h.adds s hs).mono hA hB, h.clash⟩

theorem monoOrigins (h : Bound A B x) (hA : ∀ y, A y → A' y) : Bound A' B x :=
  h.mono hA fun _ hid => hid

theorem pure (a : α) : Bound A B (Pure.pure a : Realize r α) := by
  refine ⟨fun s _ => .refl s, ?_⟩
  intro s e _ h
  cases h

/-- The second part only needs to be bound for what the first one gives. -/
theorem bind (hx : Bound A B x) {f : α → Realize r β}
    (hf : ∀ s a t, s.Coherent r → x.run s = (.ok a, t) → Bound A B (f a)) :
    Bound A B (x >>= f) := by
  refine ⟨?_, ?_⟩
  · intro s hs
    have hadds := hx.adds s hs
    rcases hrun : x.run s with ⟨e | a, t⟩
    · rw [run_bind_error hrun]
      rwa [hrun] at hadds
    · rw [run_bind_ok hrun]
      rw [hrun] at hadds
      exact hadds.trans ((hf s a t hs hrun).adds t (coherent_run hs hrun)) ((f a).grows t).origins
  · intro s e hs he
    rcases hrun : x.run s with ⟨e' | a, t⟩
    · rw [run_bind_error hrun] at he
      cases he
      exact hx.clash s e hs (congrArg Prod.fst hrun)
    · rw [run_bind_ok hrun] at he
      exact (hf s a t hs hrun).clash t e (coherent_run hs hrun) he

theorem fail {e : BuildError} (h : Clash r e) : Bound A B (Realize.fail e : Realize r α) := by
  refine ⟨fun s _ => .refl s, ?_⟩
  intro s e' _ he
  cases he
  exact h

theorem ofOption {e : BuildError} (h : Clash r e) (a? : Option α) :
    Bound A B (Realize.ofOption e a? : Realize r α) := by
  cases a? with
  | none => exact fail h
  | some a => exact pure a

theorem report (e : Event) : Bound A B (Realize.report e : Realize r Unit) := by
  refine ⟨fun s _ => .of_eq rfl rfl, ?_⟩
  intro s e' _ h
  cases h

theorem reportIfAny (e? : Option Event) : Bound A B (Realize.reportIfAny e? : Realize r Unit) := by
  cases e? with
  | none => exact pure ()
  | some e => exact report e

theorem isRealized (k : TypeCategory) (id : EntityId) :
    Bound A B (Realize.isRealized k id : Realize r Bool) := by
  refine ⟨fun s _ => .refl s, ?_⟩
  intro s e _ h
  cases h

theorem registerReference (ref : Reference) :
    Bound A (fun id => ref.entity? = some id) (Realize.registerReference ref : Realize r Unit) := by
  rw [Realize.registerReference]
  split
  · next id hid =>
    refine ⟨fun s _ => Realization.adds_addOrphan hid, ?_⟩
    intro s e _ h
    cases h
  · exact pure ()

theorem scalar (t : ScalarType) :
    Bound (· = .scalar t.name) B (Realize.scalar t : Realize r TypeId) := by
  refine ⟨?_, ?_⟩
  · intro s hs
    rw [Realize.scalar]
    dsimp only
    split
    · exact Realization.adds_addType rfl
    · split <;> exact .refl s
  · intro s e hs he
    rw [Realize.scalar] at he
    dsimp only at he
    split at he
    · cases he
    · next i hi =>
      split at he
      · cases he
      · next hscalar =>
        cases he
        refine hs.clash hi (.scalar t) fun x hx ho => ?_
        refine absurd ?_ hscalar
        rw [hx]
        exact NamedType.isScalar_of_origin ho

theorem declared? (k : TypeCategory) (id : EntityId) :
    Bound (fun y => y = .declared k id ∧ (r.class? k.classKind id).isSome = true) B
      (Realize.declared? k id : Realize r (Option TypeId)) := by
  refine ⟨?_, ?_⟩
  · intro s hs
    rw [Realize.declared?]
    dsimp only
    split
    · exact .refl s
    · split
      · exact .refl s
      · next c hc =>
        split
        · exact .refl s
        · refine Realization.adds_addDeclared ⟨?_, by rw [hc, Option.isSome_some]⟩
          rw [Registry.target_of_class? hc]
  · intro s e hs he
    rw [Realize.declared?] at he
    dsimp only at he
    split at he
    · cases he
    · next hplace =>
      split at he
      · cases he
      · next c hc =>
        have ht := Registry.target_of_class? hc
        subst ht
        split at he
        · next i hi =>
          cases he
          rw [← ClassRecord.name_shell c k] at hi
          refine hs.clash hi (.declared k c hc) fun x hx ho => ?_
          refine absurd ?_ ((hs.place?_eq_none_iff).1 hplace)
          rw [← NamedType.origin_shell, ← ho]
          exact List.mem_map_of_mem (List.mem_of_getElem? hx)
        · cases he

theorem outputBase (host : Location) (ref : Reference) :
    Bound (fun y => outputOrigin? o r ref = some y) B
      (Realize.outputBase o host ref : Realize r TypeId) := by
  rw [Realize.outputBase]
  split
  · next t hscalar =>
    refine (scalar t).monoOrigins fun y hy => ?_
    rw [outputOrigin?, hscalar, hy]
  · next hscalar =>
    have horigin : ∀ id, ref.entity? = some id → outputOrigin? o r ref =
        if (r.class? .object id).isSome then some (.declared .object id)
        else if (r.class? .interface id).isSome then some (.declared .interface id)
        else none := by
      intro id hid
      simp only [outputOrigin?, hscalar, hid, Option.bind_some]
    split
    · exact fail (.of_isConflict rfl)
    · next id hid =>
      refine bind ((declared? .object id).monoOrigins ?_) ?_
      · rintro y ⟨rfl, hknown⟩
        exact (horigin id hid).trans (if_pos hknown)
      · intro s place? t _ hobject
        cases place? with
        | some place => exact pure place
        | none =>
          have hnone : r.class? .object id = none := Realize.declared?_none hobject
          refine bind ((declared? .interface id).monoOrigins ?_) fun _ place? _ _ _ =>
            ofOption (.of_isConflict rfl) place?
          rintro y ⟨rfl, hknown⟩
          rw [horigin id hid, hnone, if_neg (by simp)]
          exact if_pos hknown

theorem output (host : Location) (ref : Reference) (w : Wrapping) :
    Bound (fun y => outputOrigin? o r ref = some y) B
      (Realize.output o host ref w : Realize r TypeNode) :=
  bind (outputBase host ref) fun _ _ _ _ _ => pure _

theorem inputBase (host : Location) (ref : Reference) :
    Bound (fun y => inputOrigin? o r ref = some y) B
      (Realize.inputBase o host ref : Realize r TypeId) := by
  rw [Realize.inputBase]
  split
  · next t hscalar =>
    refine (scalar t).monoOrigins fun y hy => ?_
    rw [inputOrigin?, hscalar, hy]
  · next hscalar =>
    split
    · exact fail (.of_isConflict rfl)
    · next id hid =>
      refine bind ((declared? .input id).monoOrigins ?_) fun _ place? _ _ _ =>
        ofOption (.of_isConflict rfl) place?
      rintro y ⟨rfl, hknown⟩
      simp only [inputOrigin?, hscalar, hid, Option.bind_some]
      exact if_pos hknown

theorem input (host : Location) (ref : Reference) (w : Wrapping) :
    Bound (fun y => inputOrigin? o r ref = some y) B
      (Realize.input o host ref w : Realize r TypeNode) :=
  bind (inputBase host ref) fun _ _ _ _ _ => pure _

theorem inputValue (z : InputContribution) :
    Bound (fun y => z.asked? o r = some y) B (Realize.inputValue o z : Realize r InputValue) := by
  cases z with
  | parameter host name type wrapping description default =>
    exact bind (input host type wrapping) fun _ _ _ _ _ => pure _
  | property declaring p =>
    exact bind (input _ p.type p.wrapping) fun _ _ _ _ _ =>
      bind (reportIfAny _) fun _ _ _ _ _ => pure _
  | noBundle host bundle => exact fail (.of_isConflict rfl)

theorem inputValues (values : InputValues) (l : List InputContribution) :
    Bound (fun y => ∃ z ∈ l, z.asked? o r = some y) B
      (Realize.inputValues o values l : Realize r InputValues) := by
  induction l generalizing values with
  | nil => exact pure values
  | cons z rest ih =>
    refine bind ((inputValue z).monoOrigins fun y hy => ⟨z, List.mem_cons_self, hy⟩) ?_
    intro _ v _ _ _
    refine (ih _).monoOrigins ?_
    rintro y ⟨z', hz', hy⟩
    exact ⟨z', List.mem_cons_of_mem z hz', hy⟩

theorem propertyField (declaring : ClassRecord) (p : Property) :
    Bound (fun y => y ∈ (Contribution.property declaring p).asked o r) B
      (Realize.propertyField o declaring p : Realize r Field) := by
  refine bind ((output _ p.type p.wrapping).monoOrigins fun y hy => ?_) fun _ _ _ _ _ => pure _
  exact Contribution.mem_asked_iff.2 (.inl hy)

theorem handlerField (b : Binding) (ref : Reference) (w : Wrapping) :
    Bound (fun y => y ∈ (Contribution.resolver b (some (ref, w))).asked o r) B
      (Realize.handlerField o b ref w : Realize r Field) := by
  refine bind ((output _ ref w).monoOrigins fun y hy => ?_) fun _ _ _ _ _ =>
    bind ((inputValues ∅ _).monoOrigins ?_) fun _ _ _ _ _ => pure _
  · exact Contribution.mem_asked_iff.2 (.inl hy)
  · rintro y ⟨z, hz, hy⟩
    exact Contribution.mem_asked_iff.2 (.inr ⟨z, hz, hy⟩)

theorem contribute (c : Composition) (z : Contribution) :
    Bound (fun y => y ∈ z.asked o r) B (Realize.contribute o c z : Realize r Composition) := by
  match z with
  | .interface host id =>
    refine bind ((declared? .interface id).monoOrigins ?_) fun _ place? _ _ _ =>
      bind (ofOption (.of_isConflict rfl) place?) fun _ _ _ _ _ => pure _
    rintro y ⟨rfl, -⟩
    exact Contribution.mem_asked_iff.2 (.inl rfl)
  | .noInterface host => exact fail (.of_isConflict rfl)
  | .property declaring p => exact bind (propertyField declaring p) fun _ _ _ _ _ => pure _
  | .resolver b none => exact fail (.of_isConflict rfl)
  | .resolver b (some (ref, w)) => exact bind (handlerField b ref w) fun _ _ _ _ _ => pure _

theorem compose (c : Composition) (l : List Contribution) :
    Bound (fun y => ∃ z ∈ l, y ∈ z.asked o r) B
      (Realize.compose o c l : Realize r Composition) := by
  induction l generalizing c with
  | nil => exact pure c
  | cons z rest ih =>
    refine bind ((contribute c z).monoOrigins fun y hy => ⟨z, List.mem_cons_self, hy⟩) ?_
    intro _ c' _ _ _
    refine (ih c').monoOrigins ?_
    rintro y ⟨z', hz', hy⟩
    exact ⟨z', List.mem_cons_of_mem z hz', hy⟩

end Bound

end Realize

namespace Setting

open Realize

variable {set : Setting} {B : EntityId → Prop}

theorem bound_wiring (k : TypeCategory) (id : EntityId) :
    Bound (fun y => y ∈ set.asked (.declared k id)) B (set.wiring k id) := by
  have hcomposite : ∀ c : CompositeCategory, ∀ k : TypeCategory,
      set.contributionsTo (.declared k id) = set.contributions c id →
      Bound (fun y => y ∈ set.asked (.declared k id)) B (set.composition c id) := by
    intro c k hk
    refine (Bound.compose ∅ _).monoOrigins ?_
    rintro y ⟨z, hz, hy⟩
    exact mem_asked_iff.2 (.inl ⟨z, hk ▸ hz, hy⟩)
  cases k with
  | object => exact .bind (hcomposite .object .object rfl) fun _ _ _ _ _ => .pure _
  | interface => exact .bind (hcomposite .interface .interface rfl) fun _ _ _ _ _ => .pure _
  | input =>
    refine .bind ((Bound.inputValues ∅ _).monoOrigins ?_) fun _ _ _ _ _ => .pure _
    rintro y ⟨z, hz, hy⟩
    exact mem_asked_iff.2 (.inr ⟨z, hz, hy⟩)

theorem bound_wiringAt (s : Realization) (place : TypeId) :
    Bound (fun y => ∃ x, s.origins[place]? = some x ∧ y ∈ set.asked x) B
      (set.wiringAt s place) := by
  rw [wiringAt]
  split
  · next k id hd =>
    refine .bind ((bound_wiring k id).monoOrigins fun y hy => ?_) fun _ _ _ _ _ => .pure _
    exact ⟨_, Realization.declaration?_eq_some_iff.1 hd, hy⟩
  · exact .pure none

theorem bound_rootField (kind : RootKind) (fields : Fields) (b : Binding) :
    Bound (fun y => y ∈ b.rootContribution.asked set.options set.registry)
      (fun id => b.handler.returned? = some id) (set.rootField kind fields b) := by
  refine .bind (.ofOption (.of_isConflict rfl) _) ?_
  intro s type t _ htype
  obtain ⟨htype, -⟩ := run_ofOption_eq_ok htype
  split
  · exact .fail (.of_isConflict rfl)
  · refine .bind ((Bound.registerReference type).mono (fun _ hy => hy) fun id hid => ?_) ?_
    · rw [Handler.returned?, htype]
      exact hid
    · intro _ _ _ _ _
      have hcontribution : b.rootContribution = .resolver b (some (type, b.handler.wrapping)) := by
        rw [Binding.rootContribution, htype]
        rfl
      rw [hcontribution]
      exact .handlerField b type b.handler.wrapping

theorem bound_rootFields (kind : RootKind) (fields : Fields) (l : List Binding) :
    Bound (fun y => ∃ b ∈ l, y ∈ b.rootContribution.asked set.options set.registry)
      (fun id => ∃ b ∈ l, b.handler.returned? = some id) (set.rootFields kind fields l) := by
  induction l generalizing fields with
  | nil => exact .pure fields
  | cons b rest ih =>
    refine .bind ((bound_rootField kind fields b).mono (fun y hy => ⟨b, List.mem_cons_self, hy⟩)
      fun id hid => ⟨b, List.mem_cons_self, hid⟩) ?_
    intro _ f _ _ _
    refine (ih _).mono ?_ ?_
    · rintro y ⟨b', hb', hy⟩
      exact ⟨b', List.mem_cons_of_mem b hb', hy⟩
    · rintro id ⟨b', hb', hid⟩
      exact ⟨b', List.mem_cons_of_mem b hb', hid⟩

theorem bound_realizeDrained (n : Nat) (l : List (TypeCategory × ClassRecord)) :
    Bound (fun y => ∃ x ∈ l, y = .declared x.1 x.2.target) B (set.realizeDrained n l) := by
  induction l generalizing n with
  | nil => exact .pure n
  | cons x rest ih =>
    refine .bind (.isRealized _ _) fun _ known _ _ _ => ?_
    refine .bind ((Bound.declared? x.1 x.2.target).monoOrigins ?_) fun _ place? _ _ _ => ?_
    · rintro y ⟨rfl, -⟩
      exact ⟨x, List.mem_cons_self, rfl⟩
    · refine (ih _).monoOrigins ?_
      rintro y ⟨x', hx', hy⟩
      exact ⟨x', List.mem_cons_of_mem x hx', hy⟩

theorem bound_addScalars (l : List ScalarType) :
    Bound (fun y => ∃ t ∈ l, y = .scalar t.name) B (set.addScalars l) := by
  induction l with
  | nil => exact .pure ()
  | cons t rest ih =>
    refine .bind ((Bound.scalar t).monoOrigins fun y hy => ⟨t, List.mem_cons_self, hy⟩) ?_
    intro _ _ _ _ _
    refine ih.monoOrigins ?_
    rintro y ⟨t', ht', hy⟩
    exact ⟨t', List.mem_cons_of_mem t ht', hy⟩

end Setting

namespace BuildRequest

variable {q : BuildRequest} {r : Registry} {source : Option DirectiveSource} {o : BuildOptions}
  {scalars : List ScalarType}

/-- The options and extra scalars of a build whose directive source, if it has one, is loaded. -/
inductive Resolves (q : BuildRequest) :
    Option DirectiveSource → BuildOptions → List ScalarType → Prop
  | plain : Resolves q none q.options []
  | federated {source : DirectiveSource} {f : FederationSet} (h : source.load.outcome = .ok f) :
    Resolves q (some source) (federatedOptions q.options f) f.scalars

theorem Resolves.outcome_eq (h : q.Resolves source o scalars) :
    (q.buildFrom r source).outcome = (q.buildWith r o scalars).outcome := by
  cases h with
  | plain => rfl
  | federated h =>
    refine (Trial.outcome_bind h _).trans ?_
    exact Trial.outcome_bind rfl _

theorem exists_resolves {schema : Schema} (h : (q.buildFrom r source).outcome = .ok schema) :
    ∃ o scalars, q.Resolves source o scalars ∧ (q.buildWith r o scalars).outcome = .ok schema := by
  cases source with
  | none => exact ⟨_, _, .plain, h⟩
  | some source =>
    obtain ⟨f, hf, -⟩ := Trial.bind_eq_ok h
    exact ⟨_, _, .federated hf, (Resolves.federated hf).outcome_eq.symm.trans h⟩

end BuildRequest

end CodeFirst
