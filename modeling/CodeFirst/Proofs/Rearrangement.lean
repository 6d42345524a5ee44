import CodeFirst.Proofs.Listings
import Mathlib.Logic.Equiv.Basic

/-! Schemas that differ in nothing but order. Types may stand at other places, with every reference
to them renamed, and directives, fields and arguments may come in another order: sorted, the text
stays the same. -/

namespace CodeFirst

/-- Lists of related elements, in whatever order. -/
def Shuffled {α β : Type} (R : α → β → Prop) (l : List α) (m : List β) : Prop :=
  ∃ k, List.Forall₂ R l k ∧ k.Perm m

def OrderedMap.Shuffled {ν : Type} (R : ν → ν → Prop) (m m' : OrderedMap String ν) : Prop :=
  CodeFirst.Shuffled (fun e e' => e.1 = e'.1 ∧ R e.2 e'.2) m.entries m'.entries

section Rearranged

variable (σ : Equiv.Perm TypeId)

/-- A node that refers to the new place of its type. -/
def TypeNode.rename : TypeNode → TypeNode
  | .named i => .named (σ i)
  | .list t => .list t.rename
  | .nonNull t => .nonNull t.rename

def InputValue.rename (v : InputValue) : InputValue := { v with type := v.type.rename σ }

def FieldNode.rename (n : FieldNode) : FieldNode := { n with type := n.type.rename σ }

structure Field.Rearranged (f f' : Field) : Prop where
  name : f'.name = f.name
  description : f'.description = f.description
  deprecation : f'.deprecation = f.deprecation
  type : f'.type = f.type.rename σ
  arguments : f.arguments.Shuffled (fun v v' => v' = v.rename σ) f'.arguments
  resolver : f'.resolver = f.resolver
  node : f'.node = f.node.map (·.rename σ)
  extensions : f'.extensions = f.extensions

structure CompositeType.Rearranged (t t' : CompositeType) : Prop where
  name : t'.name = t.name
  description : t'.description = t.description
  interfaces : t'.interfaces = t.interfaces.map σ
  node : t'.node = t.node
  origin : t'.origin = t.origin
  fields : Option.Rel (OrderedMap.Shuffled (Field.Rearranged σ)) t.fields? t'.fields?

structure InputType.Rearranged (t t' : InputType) : Prop where
  name : t'.name = t.name
  description : t'.description = t.description
  origin : t'.origin = t.origin
  fields : Option.Rel (OrderedMap.Shuffled fun v v' => v' = v.rename σ) t.fields? t'.fields?

abbrev NamedType.Rearranged : NamedType → NamedType → Prop :=
  NamedType.Lift (CompositeType.Rearranged σ) (InputType.Rearranged σ)

/-- A schema whose type at each place has moved to another one, with directives, fields and
arguments in another order. -/
structure Schema.Rearranged (s s' : Schema) : Prop where
  types : ∀ i, Option.Rel (NamedType.Rearranged σ) (s.get? i) (s'.get? (σ i))
  names : s.names.Shuffled (fun i i' => i' = σ i) s'.names
  roots : ∀ kind, s'.rootId? kind = (s.rootId? kind).map σ
  directives : s.directives.Perm s'.directives

end Rearranged

namespace Shuffled

variable {α β : Type} {R : α → β → Prop} {l : List α} {m : List β}

theorem matched (h : Shuffled R l m) : Matched R l m := by
  obtain ⟨k, hk, hp⟩ := h
  obtain ⟨hleft, hright⟩ := Matched.of_forall₂ hk
  refine ⟨?_, ?_⟩
  · intro a ha
    obtain ⟨b, hb, hab⟩ := hleft a ha
    exact ⟨b, hp.subset hb, hab⟩
  · intro b hb
    exact hright b (hp.symm.subset hb)

theorem map_perm (h : Shuffled R l m) {γ : Type} {f : α → γ} {g : β → γ}
    (hR : ∀ a b, R a b → f a = g b) : (l.map f).Perm (m.map g) := by
  obtain ⟨k, hk, hp⟩ := h
  rw [map_eq_of_forall₂ hk hR]
  exact hp.map g

end Shuffled

namespace OrderedMap

variable {ν : Type} {R : ν → ν → Prop} {m m' : OrderedMap String ν}

theorem Shuffled.values (h : m.Shuffled R m') : CodeFirst.Shuffled R m.values m'.values := by
  obtain ⟨k, hk, hp⟩ := h
  refine ⟨k.map Prod.snd, ?_, hp.map Prod.snd⟩
  rw [OrderedMap.values, List.forall₂_map_left_iff, List.forall₂_map_right_iff]
  exact hk.imp fun _ _ he => he.2

theorem shuffled_values? {m? m'? : Option (OrderedMap String ν)}
    (h : Option.Rel (OrderedMap.Shuffled R) m? m'?) :
    CodeFirst.Shuffled R ((m?.map OrderedMap.values).getD [])
      ((m'?.map OrderedMap.values).getD []) := by
  cases h with
  | none => exact ⟨[], .nil, .refl _⟩
  | some h => exact h.values

end OrderedMap

section Looks

variable {σ : Equiv.Perm TypeId} {s s' : Schema}

theorem TypeNode.text_rename {name name' : TypeId → String} (h : ∀ i, name' (σ i) = name i)
    (t : TypeNode) : (t.rename σ).text name' = t.text name := by
  induction t with
  | named i => exact h i
  | list t ih => rw [rename, text, text, ih]
  | nonNull t ih => rw [rename, text, text, ih]

theorem NamedType.Rearranged.name {t t' : NamedType} (h : t.Rearranged σ t') :
    t.name = t'.name := Lift.name h (fun _ _ h => h.name.symm) fun _ _ h => h.name.symm

namespace Schema.Rearranged

variable (h : s.Rearranged σ s')
include h

theorem exists_get? {i : TypeId} {t : NamedType} (ht : s.get? i = some t) :
    ∃ t', s'.get? (σ i) = some t' ∧ t.Rearranged σ t' := by
  have hrel := h.types i
  rw [ht] at hrel
  generalize s'.get? (σ i) = t? at hrel
  cases hrel with
  | some hr => exact ⟨_, rfl, hr⟩

theorem exists_of_get? {i : TypeId} {t' : NamedType} (ht : s'.get? (σ i) = some t') :
    ∃ t, s.get? i = some t ∧ t.Rearranged σ t' := by
  have hrel := h.types i
  rw [ht] at hrel
  generalize s.get? i = t? at hrel
  cases hrel with
  | some hr => exact ⟨_, rfl, hr⟩

theorem name_get? (i : TypeId) :
    (s'.get? (σ i)).map NamedType.name = (s.get? i).map NamedType.name := by
  have hrel := h.types i
  generalize s.get? i = t?, s'.get? (σ i) = t'? at hrel
  cases hrel with
  | none => rfl
  | some hr => simp [hr.name]

theorem typeName (i : TypeId) : s'.typeName (σ i) = s.typeName i :=
  congrArg (Option.getD · "") (h.name_get? i)

theorem typeText (t : TypeNode) : s'.typeText (t.rename σ) = s.typeText t :=
  TypeNode.text_rename h.typeName t

theorem inputValue {v v' : InputValue} (hv : v' = v.rename σ) : v.Alike s s' v' := by
  subst hv
  exact ⟨rfl, rfl, rfl, (h.typeText v.type).symm⟩

theorem field {f f' : Field} (hf : f.Rearranged σ f')
    (hnodup : (f.arguments.records.map InputValue.name).Nodup) : f.LooksLike s s' f' := by
  have harguments := hf.arguments.values
  have hnames := harguments.map_perm fun _ _ hv => (h.inputValue hv).name
  refine ⟨hf.name.symm, hf.description.symm, hf.deprecation.symm, ?_, ?_, ?_, hnodup,
    hnames.nodup_iff.1 hnodup⟩
  · rw [hf.type, h.typeText]
  · exact harguments.matched.mono fun _ _ => h.inputValue
  · rw [hf.node, Option.map_map]
    rfl

theorem composite {t t' : CompositeType} (ht : t.Rearranged σ t')
    (hnodup : (t.fields.map Field.name).Nodup)
    (harguments : ∀ f ∈ t.fields, (f.arguments.records.map InputValue.name).Nodup) :
    t.LooksLike s s' t' := by
  have hfields : Shuffled (Field.Rearranged σ) t.fields t'.fields :=
    OrderedMap.shuffled_values? ht.fields
  have hnames := hfields.map_perm fun _ _ hf => hf.name.symm
  refine ⟨ht.name.symm, ht.description.symm, ?_, by rw [ht.node], ?_, hnodup,
    hnames.nodup_iff.1 hnodup⟩
  · rw [ht.interfaces, List.map_map]
    exact List.map_congr_left fun i _ => (h.typeName i).symm
  · obtain ⟨hleft, hright⟩ := hfields.matched
    refine ⟨?_, ?_⟩
    · intro f hf
      obtain ⟨f', hf', hr⟩ := hleft f hf
      exact ⟨f', hf', h.field hr (harguments f hf)⟩
    · intro f' hf'
      obtain ⟨f, hf, hr⟩ := hright f' hf'
      exact ⟨f, hf, h.field hr (harguments f hf)⟩

theorem input {t t' : InputType} (ht : t.Rearranged σ t')
    (hnodup : (t.fields.map InputValue.name).Nodup) : t.LooksLike s s' t' := by
  have hfields : Shuffled (fun v v' => v' = InputValue.rename σ v) t.fields t'.fields :=
    OrderedMap.shuffled_values? ht.fields
  have hnames := hfields.map_perm fun _ _ hv => (h.inputValue hv).name
  exact ⟨ht.name.symm, ht.description.symm, hfields.matched.mono fun _ _ => h.inputValue, hnodup,
    hnames.nodup_iff.1 hnodup⟩

theorem namedType (hs : s.Apart) {t t' : NamedType} (ht : t.Rearranged σ t') (hmem : t ∈ s.types) :
    t.LooksLike s s' t' := by
  have hcomposite : ∀ {c c' : CompositeType}, s.IsComposite c → c.Rearranged σ c' →
      c.LooksLike s s' c' := by
    intro c c' hc hr
    exact h.composite hr (hs.fields c hc) fun f hf => hs.arguments f ⟨c, hc, hf⟩
  cases ht with
  | scalar t => exact .scalar t
  | object hr => exact .object (hcomposite (.inl hmem) hr)
  | interface hr => exact .interface (hcomposite (.inr hmem) hr)
  | input hr => exact .input (h.input hr (hs.inputFields _ hmem))

theorem nodup_types (hs : (s.types.map NamedType.name).Nodup) :
    (s'.types.map NamedType.name).Nodup := by
  rw [List.nodup_iff_getElem?_ne_getElem?]
  intro i j hij hj heq
  obtain ⟨a, rfl⟩ := σ.surjective i
  obtain ⟨b, rfl⟩ := σ.surjective j
  have hnames : ∀ i, (s'.types.map NamedType.name)[σ i]? = (s.types.map NamedType.name)[i]? := by
    intro i
    rw [List.getElem?_map, List.getElem?_map]
    exact h.name_get? i
  rw [hnames, hnames] at heq
  have hb : b < (s.types.map NamedType.name).length := by
    by_contra hb
    have hnone := hnames b
    rw [List.getElem?_eq_getElem hj, List.getElem?_eq_none (Nat.le_of_not_lt hb)] at hnone
    cases hnone
  have hab : b = a := (List.getElem?_inj hb hs).1 heq.symm
  subst hab
  exact Nat.lt_irrefl _ hij

theorem looksLike (hs : s.Apart) : s.LooksLike s' := by
  refine ⟨⟨?_, ?_⟩, hs.types, h.nodup_types hs.types⟩
  · intro t ht
    obtain ⟨i, hi⟩ := List.mem_iff_getElem?.1 ht
    obtain ⟨t', hi', hr⟩ := h.exists_get? hi
    exact ⟨t', List.mem_of_getElem? hi', h.namedType hs hr ht⟩
  · intro t' ht'
    obtain ⟨j, hj⟩ := List.mem_iff_getElem?.1 ht'
    obtain ⟨i, rfl⟩ := σ.surjective j
    obtain ⟨t, hi, hr⟩ := h.exists_of_get? hj
    have ht : t ∈ s.types := List.mem_of_getElem? hi
    exact ⟨t, ht, h.namedType hs hr ht⟩

theorem orderedDirectives_eq (hs : s.Apart) {o : PrintOptions} (ho : o.sortTypes = true) :
    Sdl.orderedDirectives o s = Sdl.orderedDirectives o s' := by
  let own (d : DirectiveDefinition) : Bool := !DirectiveDefinition.isSpecified d.name
  have hperm : (s.directives.filter own).Perm (s'.directives.filter own) := h.directives.filter own
  have hnodup : ((s.directives.filter own).map (·.name)).Nodup :=
    (List.filter_sublist.map _).nodup hs.directives
  have hnodup' : ((s'.directives.filter own).map (·.name)).Nodup :=
    (hperm.map _).nodup_iff.1 hnodup
  have hsorted : List.Forall₂ Eq (Sdl.orderedDirectives o s) (Sdl.orderedDirectives o s') := by
    have hsame : Shuffled Eq (s.directives.filter own) (s'.directives.filter own) :=
      ⟨_, List.forall₂_same.2 fun _ _ => rfl, hperm⟩
    apply Sdl.Matched.arranged ho hsame.matched _ hnodup hnodup'
    rintro d d' rfl
    rfl
  rwa [List.forall₂_eq_eq_eq] at hsorted

end Schema.Rearranged

end Looks

/-- Sorted printing sees only content: the text of a rearranged schema is the same as long as names
are apart, as they are in every schema that is built. -/
theorem Sdl.print_rearranged :
    (∀ s s' σ, s.Apart → Schema.Rearranged σ s s' → ∀ o : PrintOptions, o.sortTypes = true →
      print o s = print o s') ∧
    ∀ (q : BuildRequest) r source s, (q.buildFrom r source).outcome = .ok s → s.Apart := by
  refine ⟨?_, fun q r source s => BuildRequest.buildFrom_apart⟩
  intro s s' σ hs h o ho
  exact print_eq_of_looksLike ho (h.looksLike hs) (h.orderedDirectives_eq hs ho)

namespace Schema

def counting (int : TypeId) (arguments : List InputValue) : Field :=
  ⟨"count", none, none, .named int, .ofList (arguments.map fun v => (v.name, v)), none, none, ∅⟩

def first (int : TypeId) : Field := ⟨"first", none, none, .named int, ∅, none, none, ∅⟩

def bound (name : String) (int : TypeId) : InputValue := ⟨name, none, .named int, none⟩

def queries (fields : List Field) : NamedType :=
  .object ⟨"Query", none, [], none, none, some (.ofList (fields.map fun f => (f.name, f)))⟩

def counts : Schema :=
  ⟨[queries [counting 1 [bound "skip" 1, bound "take" 1], first 1], .scalar (.named "Int")],
    .ofList [("Query", 0), ("Int", 1)], some 0, none, none,
    [FederationSet.key, FederationSet.external]⟩

/-- The scalar comes first, and everything else is in reverse, too. -/
def countsReversed : Schema :=
  ⟨[.scalar (.named "Int"), queries [first 0, counting 0 [bound "take" 0, bound "skip" 0]]],
    .ofList [("Int", 0), ("Query", 1)], some 1, none, none,
    [FederationSet.external, FederationSet.key]⟩

theorem apart_counts : counts.Apart := by
  have hroot : ∀ t, counts.IsComposite t → t.fields = [counting 1 [bound "skip" 1, bound "take" 1],
      first 1] := by
    rintro t (ht | ht)
    · obtain rfl : t = _ := by simpa [counts, queries] using ht
      rfl
    · simp [counts, queries] at ht
  refine ⟨by decide, by decide, ?_, ?_, ?_⟩
  · intro t ht
    rw [hroot t ht]
    decide
  · rintro f ⟨t, ht, hf⟩
    rw [hroot t ht, List.mem_pair] at hf
    rcases hf with rfl | rfl
    · decide
    · decide
  · intro t ht
    simp [counts, queries] at ht

theorem rearranged_counts : Rearranged (Equiv.swap 0 1) counts countsReversed := by
  have hcounting : Field.Rearranged (Equiv.swap 0 1) (counting 1 [bound "skip" 1, bound "take" 1])
      (counting 0 [bound "take" 0, bound "skip" 0]) := by
    have harguments : OrderedMap.Shuffled (fun v v' => v' = v.rename (Equiv.swap 0 1))
        (counting 1 [bound "skip" 1, bound "take" 1]).arguments
        (counting 0 [bound "take" 0, bound "skip" 0]).arguments :=
      ⟨[("skip", bound "skip" 0), ("take", bound "take" 0)],
        .cons ⟨rfl, rfl⟩ (.cons ⟨rfl, rfl⟩ .nil), .swap _ _ _⟩
    exact ⟨rfl, rfl, rfl, rfl, harguments, rfl, rfl, rfl⟩
  have hfirst : Field.Rearranged (Equiv.swap 0 1) (first 1) (first 0) :=
    ⟨rfl, rfl, rfl, rfl, ⟨[], .nil, .refl _⟩, rfl, rfl, rfl⟩
  refine ⟨?_, ?_, ?_, .swap _ _ _⟩
  · intro i
    match i with
    | 0 =>
      refine .some (.object ⟨rfl, rfl, rfl, rfl, rfl, .some ?_⟩)
      exact ⟨[("count", counting 0 [bound "take" 0, bound "skip" 0]), ("first", first 0)],
        .cons ⟨rfl, hcounting⟩ (.cons ⟨rfl, hfirst⟩ .nil), .swap _ _ _⟩
    | 1 => exact .some (.scalar _)
    | n + 2 =>
      have hplace : Equiv.swap 0 1 (n + 2) = n + 2 :=
        Equiv.swap_apply_of_ne_of_ne (by simp) (by simp)
      rw [hplace]
      exact .none
  · exact ⟨[("Query", 1), ("Int", 0)], .cons ⟨rfl, rfl⟩ (.cons ⟨rfl, rfl⟩ .nil), .swap _ _ _⟩
  · intro kind
    cases kind <;> rfl

end Schema

theorem Sdl.print_rearranged_counts : Schema.counts.Apart ∧
    Schema.Rearranged (Equiv.swap 0 1) .counts .countsReversed ∧
    print ⟨4, true, false⟩ .counts = print ⟨4, true, false⟩ .countsReversed :=
  ⟨Schema.apart_counts, Schema.rearranged_counts,
    print_rearranged.1 _ _ _ Schema.apart_counts Schema.rearranged_counts _ rfl⟩

end CodeFirst
