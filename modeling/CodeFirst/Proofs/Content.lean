import CodeFirst.Proofs.Appearance

/-! What validation and sorted printing see of a schema. Schemas are alike if each type of one has a
type of the same content in the other, wherever the two stand; alike schemas have findings together
and print the same when sorted. -/

namespace CodeFirst

section Content

variable (s s' : Schema)

structure Field.Alike (f f' : Field) : Prop where
  name : f.name = f'.name
  description : f.description = f'.description
  deprecation : f.deprecation = f'.deprecation
  type : s.typeText f.type = s'.typeText f'.type
  arguments : List.Forall₂ (InputValue.Alike s s') f.arguments.records f'.arguments.records
  directives : f.node.map (·.directives) = f'.node.map (·.directives)
  keyed : f.arguments.Keyed InputValue.name
  keyed' : f'.arguments.Keyed InputValue.name

def Schema.SamePlace (i i' : TypeId) : Prop :=
  ∃ t t', s.get? i = some t ∧ s'.get? i' = some t' ∧ t.name = t'.name

structure CompositeType.Alike (t t' : CompositeType) : Prop where
  name : t.name = t'.name
  description : t.description = t'.description
  interfaces : List.Forall₂ (s.SamePlace s') t.interfaces t'.interfaces
  directives : t.node.map (·.directives) = t'.node.map (·.directives)
  fields : Matched (Field.Alike s s') t.fields t'.fields
  keyed : ∀ c ∈ t.fields?, c.Keyed Field.name
  keyed' : ∀ c ∈ t'.fields?, c.Keyed Field.name

structure InputType.Alike (t t' : InputType) : Prop where
  name : t.name = t'.name
  description : t.description = t'.description
  fields : List.Forall₂ (InputValue.Alike s s') t.fields t'.fields
  keyed : ∀ c ∈ t.fields?, c.Keyed InputValue.name
  keyed' : ∀ c ∈ t'.fields?, c.Keyed InputValue.name

abbrev NamedType.Alike : NamedType → NamedType → Prop :=
  NamedType.Lift (CompositeType.Alike s s') (InputType.Alike s s')

/-- Schemas of the same content. -/
structure Schema.Alike : Prop where
  types : Matched (NamedType.Alike s s') s.types s'.types
  nodup : (s.types.map NamedType.name).Nodup
  nodup' : (s'.types.map NamedType.name).Nodup
  directives : s.directives = s'.directives

variable {s s'}

theorem Schema.SamePlace.typeName {i i' : TypeId} (h : s.SamePlace s' i i') :
    s.typeName i = s'.typeName i' := by
  obtain ⟨t, t', ht, ht', hn⟩ := h
  unfold Schema.typeName
  rw [ht, ht', Option.map_some, Option.map_some, hn]

theorem CompositeType.fields_nodup {t : CompositeType} (h : ∀ c ∈ t.fields?, c.Keyed Field.name) :
    (t.fields.map Field.name).Nodup := by
  rw [fields]
  cases hc : t.fields? with
  | none => exact List.nodup_nil
  | some c => exact (h c hc).nodup

theorem InputType.fields_nodup {t : InputType} (h : ∀ c ∈ t.fields?, c.Keyed InputValue.name) :
    (t.fields.map InputValue.name).Nodup := by
  rw [fields]
  cases hc : t.fields? with
  | none => exact List.nodup_nil
  | some c => exact (h c hc).nodup

theorem Field.Alike.looksLike {f f' : Field} (h : f.Alike s s' f') : f.LooksLike s s' f' :=
  ⟨h.name, h.description, h.deprecation, h.type, .of_forall₂ h.arguments, h.directives,
    h.keyed.nodup, h.keyed'.nodup⟩

theorem CompositeType.Alike.looksLike {t t' : CompositeType} (h : t.Alike s s' t') :
    t.LooksLike s s' t' :=
  ⟨h.name, h.description, map_eq_of_forall₂ h.interfaces fun _ _ hi => hi.typeName, h.directives,
    h.fields.mono fun _ _ hf => hf.looksLike, fields_nodup h.keyed, fields_nodup h.keyed'⟩

theorem InputType.Alike.looksLike {t t' : InputType} (h : t.Alike s s' t') :
    t.LooksLike s s' t' :=
  ⟨h.name, h.description, .of_forall₂ h.fields, fields_nodup h.keyed, fields_nodup h.keyed'⟩

theorem NamedType.Alike.looksLike {t t' : NamedType} (h : t.Alike s s' t') :
    t.LooksLike s s' t' :=
  Lift.mono h (fun _ _ h => h.looksLike) fun _ _ h => h.looksLike

/-- Schemas of the same content print the same when sorted. -/
theorem Sdl.print_eq {o : PrintOptions} (ho : o.sortTypes = true) (h : s.Alike s') :
    print o s = print o s' := by
  have hlooks : s.LooksLike s' := ⟨h.types.mono fun _ _ ht => ht.looksLike, h.nodup, h.nodup'⟩
  apply print_eq_of_looksLike ho hlooks
  rw [orderedDirectives, orderedDirectives, h.directives]

/-- A name that validation lets pass. -/
def NameFine (name : String) : Prop := isValidName name = true ∧ isReservedName name = false

namespace Schema

theorem nameFindings_eq_nil_iff {location : Location} {name : String} :
    nameFindings location name = [] ↔ NameFine name := by
  rw [nameFindings, NameFine]
  cases isValidName name with
  | false => simp
  | true => cases isReservedName name <;> simp

theorem emptyFindings_eq_nil_iff {what name : String} {n : Nat} :
    emptyFindings what name n = [] ↔ n ≠ 0 := by
  rw [emptyFindings]
  by_cases h : n = 0
  · simp [h]
  · simp [h]

theorem directiveFindings_eq_nil_iff {location : Location} {ds : List Directive} :
    s.directiveFindings location ds = [] ↔ ∀ d ∈ ds, (s.directive? d.name).isSome = true := by
  simp [directiveFindings, List.filter_eq_nil_iff, Option.isSome_iff_ne_none]

theorem nodeFindings_eq_nil_iff {location : Location} {ds : Option (List Directive)} :
    (ds.map (s.directiveFindings location)).getD [] = [] ↔
      ∀ l, ds = some l → ∀ d ∈ l, (s.directive? d.name).isSome = true := by
  cases ds with
  | none => simp
  | some l => simp [directiveFindings_eq_nil_iff]

theorem argumentFindings_eq_nil_iff {location : Location} {vs : List InputValue} :
    argumentFindings location vs = [] ↔ ∀ v ∈ vs, NameFine v.name := by
  rw [argumentFindings]
  rw [List.flatMap_eq_nil_iff]
  constructor
  · intro h v hv
    obtain ⟨i, hi⟩ := List.getElem?_of_mem hv
    exact nameFindings_eq_nil_iff.1 (h (v, i) (List.mem_zipIdx_iff_getElem?.2 hi))
  · rintro h ⟨v, i⟩ hv
    exact nameFindings_eq_nil_iff.2 (h v (List.mem_of_getElem? (List.mem_zipIdx_iff_getElem?.1 hv)))

end Schema

theorem Field.Alike.findings_iff {f f' : Field} (h : f.Alike s s' f')
    (hd : s.directives = s'.directives) (owner owner' : String) :
    s.fieldFindings owner f = [] ↔ s'.fieldFindings owner' f' = [] := by
  have hdirective : ∀ n, s.directive? n = s'.directive? n := by
    intro n
    unfold Schema.directive?
    rw [hd]
  have hmap : ∀ (s : Schema) (f : Field) (l : Location),
      (f.node.map fun n => s.directiveFindings l n.directives) =
        (f.node.map (·.directives)).map (s.directiveFindings l) := by
    intro s f l
    rw [Option.map_map]
    rfl
  have hvalues := (Matched.of_forall₂ h.arguments).forall_iff
    (P := fun v => NameFine v.name) (Q := fun v => NameFine v.name)
    (fun v v' hv => by rw [hv.name])
  unfold Schema.fieldFindings
  simp only [List.append_eq_nil_iff, Schema.nameFindings_eq_nil_iff,
    Schema.argumentFindings_eq_nil_iff, hmap, Schema.nodeFindings_eq_nil_iff, h.name, hvalues,
    h.directives, hdirective]

namespace CompositeType

variable {t t' : CompositeType}

theorem Alike.names_iff (h : t.Alike s s' t') (name : String) :
    (t.field? name).isSome = true ↔ (t'.field? name).isSome = true := by
  have hfield : ∀ u : CompositeType, (∀ c ∈ u.fields?, c.Keyed Field.name) →
      ((u.field? name).isSome = true ↔ name ∈ u.fields.map Field.name) := by
    intro u hu
    rw [field?, CompositeType.fields]
    cases hc : u.fields? with
    | none => simp
    | some c =>
      rw [Option.bind_some, Option.map_some, Option.getD_some, Fields.records, ← (hu c hc).keys_eq,
        Option.isSome_iff_ne_none, ne_eq, OrderedMap.get?_eq_none_iff, Decidable.not_not]
  rw [hfield t h.keyed, hfield t' h.keyed']
  exact (h.fields.map_perm (fun _ _ hf => hf.name) (fields_nodup h.keyed)
    (fields_nodup h.keyed')).mem_iff

theorem Alike.findings_iff (h : t.Alike s s' t') (hd : s.directives = s'.directives) :
    s.compositeFindings t = [] ↔ s'.compositeFindings t' = [] := by
  have hdirective : ∀ n, s.directive? n = s'.directive? n := by
    intro n
    unfold Schema.directive?
    rw [hd]
  have hmap : ∀ (s : Schema) (t : CompositeType) (l : Location),
      (t.node.map fun n => s.directiveFindings l n.directives) =
        (t.node.map (·.directives)).map (s.directiveFindings l) := by
    intro s t l
    rw [Option.map_map]
    rfl
  have hfields := h.fields.forall_iff (P := fun f => s.fieldFindings t.name f = [])
    (Q := fun f => s'.fieldFindings t'.name f = []) (fun f f' hf => hf.findings_iff hd _ _)
  have hempty : t.fields.length ≠ 0 ↔ t'.fields.length ≠ 0 := by
    rw [ne_eq, ne_eq, List.length_eq_zero_iff, List.length_eq_zero_iff, h.fields.eq_nil_iff]
  unfold Schema.compositeFindings
  simp only [List.append_eq_nil_iff, Schema.emptyFindings_eq_nil_iff, hmap,
    Schema.nodeFindings_eq_nil_iff, List.flatMap_eq_nil_iff, hfields, hempty, h.directives,
    hdirective]

end CompositeType

namespace Schema

theorem Alike.of_name (h : s.Alike s') {t t' : NamedType} (ht : t ∈ s.types) (ht' : t' ∈ s'.types)
    (hn : t.name = t'.name) : t.Alike s s' t' := by
  obtain ⟨u, hu, halike⟩ := h.types.1 t ht
  have hname : u.name = t'.name := by rw [← halike.looksLike.name, hn]
  have he : u = t' := List.inj_on_of_nodup_map h.nodup' hu ht' hname
  rwa [← he]

theorem Alike.implementation_iff (h : s.Alike s') {t t' : CompositeType} (ht : t.Alike s s' t') :
    s.implementationFindings t = [] ↔ s'.implementationFindings t' = [] := by
  unfold implementationFindings
  rw [List.flatMap_eq_nil_iff, List.flatMap_eq_nil_iff]
  refine (Matched.of_forall₂ ht.interfaces).forall_iff ?_
  rintro i i' ⟨u, u', hu, hu', hn⟩
  have hmem : u ∈ s.types := List.mem_of_getElem? hu
  have hmem' : u' ∈ s'.types := List.mem_of_getElem? hu'
  rw [hu, hu', Option.bind_some, Option.bind_some]
  cases h.of_name hmem hmem' hn with
  | scalar t => exact Iff.rfl
  | object h => exact Iff.rfl
  | input h => exact Iff.rfl
  | interface hi =>
    simp only [NamedType.interface?, List.map_eq_nil_iff, List.filter_eq_nil_iff]
    refine hi.fields.forall_iff ?_
    intro f f' hf
    have hiff := ht.names_iff f'.name
    rw [hf.name]
    cases hv : t.field? f'.name <;> cases hv' : t'.field? f'.name <;> simp_all

/-- Alike schemas have findings together. -/
theorem Alike.findings_iff (h : s.Alike s') : s.findings = [] ↔ s'.findings = [] := by
  unfold findings
  rw [List.flatMap_eq_nil_iff, List.flatMap_eq_nil_iff]
  refine h.types.forall_iff ?_
  intro t t' ht
  unfold typeFindings
  rw [List.append_eq_nil_iff, List.append_eq_nil_iff, nameFindings_eq_nil_iff,
    nameFindings_eq_nil_iff, ht.looksLike.name]
  refine and_congr Iff.rfl ?_
  cases ht with
  | scalar t => exact Iff.rfl
  | object ht =>
    simp only [List.append_eq_nil_iff]
    exact and_congr (ht.findings_iff h.directives) (h.implementation_iff ht)
  | interface ht => exact ht.findings_iff h.directives
  | input ht =>
    have hfields := (Matched.of_forall₂ ht.fields).forall_iff
      (P := fun v => NameFine v.name) (Q := fun v => NameFine v.name)
      (fun v v' hv => by rw [hv.name])
    have hlength := ht.fields.length_eq
    unfold inputFindings
    simp only [List.append_eq_nil_iff, emptyFindings_eq_nil_iff, List.flatMap_eq_nil_iff,
      nameFindings_eq_nil_iff, hfields, hlength]

end Schema

end Content

end CodeFirst
