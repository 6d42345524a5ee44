import CodeFirst.Proofs.Soundness

/-! Names lead to types. In a schema that is built the index of names is the inverse of the list of
types, and below every type fields and arguments stand under their names, so that looking one up
finds what goes by that name among all of them. -/

namespace CodeFirst

def CompositeType.Keyed (t : CompositeType) : Prop :=
  ∀ c ∈ t.fields?, c.Keyed Field.name ∧ ∀ f ∈ c.records, f.arguments.Keyed InputValue.name

def InputType.Keyed (t : InputType) : Prop := ∀ c ∈ t.fields?, c.Keyed InputValue.name

def NamedType.Keyed : NamedType → Prop
  | .scalar _ => True
  | .object t => t.Keyed
  | .interface t => t.Keyed
  | .input t => t.Keyed

theorem CompositeType.Keyed.field?_iff {t : CompositeType} (h : t.Keyed) {name : String}
    {f : Field} : t.field? name = some f ↔ f ∈ t.fields ∧ f.name = name := by
  rw [field?, fields]
  cases hc : t.fields? with
  | none => simp
  | some c => exact (h c hc).1.get?_eq_some_iff

theorem CompositeType.Keyed.arguments {t : CompositeType} (h : t.Keyed) {f : Field}
    (hf : f ∈ t.fields) : f.arguments.Keyed InputValue.name := by
  rw [fields] at hf
  cases hc : t.fields? with
  | none =>
    rw [hc] at hf
    exact absurd hf List.not_mem_nil
  | some c =>
    rw [hc] at hf
    exact (h c hc).2 f hf

theorem InputType.Keyed.field?_iff {t : InputType} (h : t.Keyed) {name : String}
    {v : InputValue} : t.field? name = some v ↔ v ∈ t.fields ∧ v.name = name := by
  rw [field?, fields]
  cases hc : t.fields? with
  | none => simp
  | some c => exact (h c hc).get?_eq_some_iff

namespace Setting

variable {set : Setting} {H : List Origin}

theorem Wires.keyed {x : Origin} {c : Composition} (h : set.Wires H x (.composite c)) :
    c.fields.Keyed Field.name ∧ ∀ f ∈ c.fields.records, f.arguments.Keyed InputValue.name := by
  obtain ⟨l, hl, -⟩ := h.composite
  refine ⟨hl.keyed, ?_⟩
  obtain ⟨fs, hfs, he⟩ := hl.fields
  intro f hf
  rw [he] at hf
  obtain ⟨x, -, hx⟩ := exists_left_of_forall₂ hfs (OrderedMap.mem_of_mem_putMany hf)
  exact hx.keyed

/-- Wiring writes fields under their names. -/
theorem Fits.keyed {t : NamedType} (h : set.Fits H t) : t.Keyed := by
  rcases h with h | ⟨w, hw, ht⟩
  · cases t with
    | scalar t => trivial
    | _ => cases h
  · rw [ht]
    cases t with
    | scalar t => trivial
    | object t =>
      cases w with
      | composite c =>
        rintro x ⟨⟩
        exact hw.keyed
      | input values => exact fun x hx => nomatch hx
    | interface t =>
      cases w with
      | composite c =>
        rintro x ⟨⟩
        exact hw.keyed
      | input values => exact fun x hx => nomatch hx
    | input t =>
      cases w with
      | composite c => exact fun x hx => nomatch hx
      | input values =>
        rintro x ⟨⟩
        obtain ⟨l, hl⟩ := hw.input
        exact hl.keyed

end Setting

/-- A schema in which names and what they stand for belong together: types by the index, fields and
arguments by their maps. Looking up finds exactly what iterating comes across. -/
structure Schema.Indexed (s : Schema) : Prop where
  names_nodup : (s.types.map NamedType.name).Nodup
  typeId?_name : ∀ i t, s.get? i = some t → s.typeId? t.name = some i
  name_of_typeId? : ∀ name i, s.typeId? name = some i → ∃ t, s.get? i = some t ∧ t.name = name
  keyed : ∀ t ∈ s.types, t.Keyed
  field?_iff : ∀ t : CompositeType, .object t ∈ s.types ∨ .interface t ∈ s.types → ∀ name f,
    t.field? name = some f ↔ f ∈ t.fields ∧ f.name = name
  argument?_iff : ∀ t : CompositeType, .object t ∈ s.types ∨ .interface t ∈ s.types →
    ∀ f ∈ t.fields, ∀ name v,
      f.arguments.get? name = some v ↔ v ∈ f.arguments.records ∧ v.name = name
  inputField?_iff : ∀ t : InputType, .input t ∈ s.types → ∀ name v,
    t.field? name = some v ↔ v ∈ t.fields ∧ v.name = name

theorem Schema.indexed_of_keyed {s : Schema} (hnodup : (s.types.map NamedType.name).Nodup)
    (hindex : ∀ name i, s.typeId? name = some i ↔ ∃ t, s.get? i = some t ∧ t.name = name)
    (hkeyed : ∀ t ∈ s.types, t.Keyed) : s.Indexed := by
  have hcomposite : ∀ t : CompositeType, .object t ∈ s.types ∨ .interface t ∈ s.types →
      t.Keyed := by
    rintro t (ht | ht)
    · exact hkeyed _ ht
    · exact hkeyed _ ht
  refine ⟨hnodup, ?_, fun name i => (hindex name i).1, hkeyed, ?_, ?_, ?_⟩
  · intro i t ht
    exact (hindex t.name i).2 ⟨t, ht, rfl⟩
  · intro t ht name f
    exact (hcomposite t ht).field?_iff
  · intro t ht f hf name v
    exact ((hcomposite t ht).arguments hf).get?_eq_some_iff
  · intro t ht name v
    have hinput : t.Keyed := hkeyed _ ht
    exact hinput.field?_iff

namespace BuildRequest

theorem buildFrom_indexed {q : BuildRequest} {r : Registry} {source : Option DirectiveSource}
    {schema : Schema} (h : (q.buildFrom r source).outcome = .ok schema) : schema.Indexed := by
  obtain ⟨o, scalars, hwith⟩ := buildFrom_eq_ok h
  obtain ⟨b, hb, rfl, -⟩ := buildWith_eq_ok hwith
  obtain ⟨set, -, -, -, hcomplete⟩ := realize_complete hb
  have hprog := hcomplete.rounds.progress
  refine Schema.indexed_of_keyed hprog.coherent.names_nodup hprog.coherent.typeId?_iff ?_
  intro t ht
  exact (hprog.fits_of_pending_eq_nil hcomplete.pending ht).keyed

theorem buildFrom_indexed_recipes :
    ∃ schema, (plain.buildFrom .recipes none).outcome = .ok schema ∧ schema.Indexed ∧
      schema.typeId? "Node" = some 1 := by
  have hnode : ((plain.buildFrom .recipes none).outcome.toOption.map fun s => s.typeId? "Node") =
      some (some 1) := by decide +kernel
  obtain ⟨schema, hschema, hn⟩ := Option.map_eq_some_iff.1 hnode
  have h := ok_of_toOption hschema
  exact ⟨schema, h, buildFrom_indexed h, hn⟩

end BuildRequest

end CodeFirst
