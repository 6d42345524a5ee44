import CodeFirst.Proofs.Federated
import CodeFirst.Proofs.Layout

/-! What the text of a built schema lists. There is one block for each directive definition of its
own and for each type that is not built in, and in each block every field and argument stands once;
sorted all of it comes by name, and else the roots come before the other types. -/

namespace CodeFirst

/-- A schema in which no two things that are listed together have one name. -/
structure Schema.Apart (s : Schema) : Prop where
  types : (s.types.map NamedType.name).Nodup
  directives : (s.directives.map (·.name)).Nodup
  fields : ∀ t, s.IsComposite t → (t.fields.map Field.name).Nodup
  arguments : ∀ f, s.IsField f → (f.arguments.records.map InputValue.name).Nodup
  inputFields : ∀ t, .input t ∈ s.types → (t.fields.map InputValue.name).Nodup

inductive NamedType.IsBuiltin : NamedType → Prop where
  | scalar {t : ScalarType} (h : t.name ∈ builtinScalars) : IsBuiltin (.scalar t)

namespace Sdl

variable {o : PrintOptions} {s : Schema}

/-- The order in which types are printed: all that are not built in, each of them once; sorted by
name, and else the roots in the order of the operations, then the others in the order they have. -/
structure TypeOrder (o : PrintOptions) (s : Schema) (ts : List NamedType) : Prop where
  mem_iff : ∀ t, t ∈ ts ↔ t ∈ s.types ∧ ¬ t.IsBuiltin
  nodup : (ts.map NamedType.name).Nodup
  ascending : o.sortTypes = true → ts.Pairwise fun t u => t.name < u.name
  roots_first : o.sortTypes = false → ∃ others : List NamedType, others.Sublist s.types ∧
    ts = ([.query, .mutation, .subscription].filterMap s.root?).map .object ++ others

/-- What printing relies on in a schema: names are apart, and roots are objects with the names of
the operations. -/
structure Printable (s : Schema) : Prop extends s.Apart where
  root : ∀ kind i, s.rootId? kind = some i → ∃ t : CompositeType, s.get? i = some (.object t) ∧
    t.name = kind.typeName

theorem isPrinted_iff {t : NamedType} : isPrinted t = true ↔ ¬ t.IsBuiltin := by
  cases t with
  | scalar t =>
    have hbuiltin : (NamedType.scalar t).IsBuiltin ↔ t.name ∈ builtinScalars := by
      refine ⟨?_, .scalar⟩
      intro h
      cases h with
      | scalar h => exact h
    simp [isPrinted, hbuiltin]
  | _ =>
    refine ⟨?_, fun _ => rfl⟩
    intro _ h
    cases h

theorem otherTypes_sublist (s : Schema) : (otherTypes s).Sublist s.types := by
  have hsublist := (List.filter_sublist (l := s.types.zipIdx)
    (p := fun x => !(rootIds s).contains x.2)).map Prod.fst
  rwa [List.zipIdx_map_fst] at hsublist

theorem mem_otherTypes_iff {t : NamedType} :
    t ∈ otherTypes s ↔ ∃ i, i ∉ rootIds s ∧ s.get? i = some t := by
  rw [otherTypes, List.mem_map]
  simp only [List.mem_filter, List.mem_zipIdx_iff_getElem?, List.contains_eq_mem,
    Bool.not_eq_true', decide_eq_false_iff_not]
  constructor
  · rintro ⟨⟨u, i⟩, ⟨hu, hi⟩, rfl⟩
    exact ⟨i, hi, hu⟩
  · rintro ⟨i, hi, ht⟩
    exact ⟨(t, i), ⟨ht, hi⟩, rfl⟩

/-- The roots and the other types are all types. -/
theorem perm_orderedTypes (ht : s.types.Nodup) (hr : (rootIds s).Nodup) :
    (orderedTypes o s).Perm s.types := by
  have hinj : ∀ i j t, s.get? i = some t → s.get? j = some t → i = j := by
    intro i j t hi hj
    obtain ⟨hlt, -⟩ := List.getElem?_eq_some_iff.1 hi
    exact (List.getElem?_inj hlt ht).1 (hi.trans hj.symm)
  have hroots : ((rootIds s).filterMap s.get?).Nodup := hr.filterMap fun i j t => hinj i j t
  have hapart : ∀ t ∈ (rootIds s).filterMap s.get?, t ∉ otherTypes s := by
    intro t hroot hother
    obtain ⟨i, hi, hget⟩ := List.mem_filterMap.1 hroot
    obtain ⟨j, hj, hget'⟩ := mem_otherTypes_iff.1 hother
    exact hj (hinj i j t hget hget' ▸ hi)
  rw [orderedTypes]
  split
  · exact perm_sortedByName _ _
  · rw [List.perm_ext_iff_of_nodup _ ht]
    · intro t
      rw [List.mem_append, List.mem_filterMap, mem_otherTypes_iff, List.mem_iff_getElem?]
      constructor
      · rintro (⟨i, -, hi⟩ | ⟨i, -, hi⟩)
        · exact ⟨i, hi⟩
        · exact ⟨i, hi⟩
      · rintro ⟨i, hi⟩
        by_cases hroot : i ∈ rootIds s
        · exact .inl ⟨i, hroot, hi⟩
        · exact .inr ⟨i, hroot, hi⟩
    · rw [List.nodup_append]
      refine ⟨hroots, (otherTypes_sublist s).nodup ht, ?_⟩
      intro t hroot u hother heq
      exact hapart t hroot (heq ▸ hother)

namespace Printable

theorem nodup_rootIds (h : Printable s) : (rootIds s).Nodup := by
  have hkinds : RootKind.all.Nodup := by decide
  apply hkinds.filterMap
  intro k k' i hk hk'
  obtain ⟨t, ht, hname⟩ := h.root k i hk
  obtain ⟨t', ht', hname'⟩ := h.root k' i hk'
  rw [ht, Option.some.injEq, NamedType.object.injEq] at ht'
  subst ht'
  exact RootKind.typeName_injective (hname.symm.trans hname')

theorem filterMap_rootIds (h : Printable s) : (rootIds s).filterMap s.get? =
    ([.query, .mutation, .subscription].filterMap s.root?).map .object := by
  have hroot : ∀ kind, (s.rootId? kind).bind s.get? = (s.root? kind).map .object := by
    intro kind
    rw [Schema.root?]
    cases hid : s.rootId? kind with
    | none => rfl
    | some i =>
      obtain ⟨t, ht, -⟩ := h.root kind i hid
      rw [Option.bind_some, ht]
      rfl
  rw [rootIds, List.filterMap_filterMap, List.map_filterMap]
  exact List.filterMap_congr fun kind _ => hroot kind

theorem typeOrder (h : Printable s) (o : PrintOptions) :
    TypeOrder o s ((orderedTypes o s).filter isPrinted) := by
  have hperm : (orderedTypes o s).Perm s.types :=
    perm_orderedTypes h.types.of_map h.nodup_rootIds
  refine ⟨?_, ?_, ?_, ?_⟩
  · intro t
    rw [List.mem_filter, hperm.mem_iff, isPrinted_iff]
  · have hnodup : ((orderedTypes o s).map NamedType.name).Nodup :=
      (hperm.map NamedType.name).nodup_iff.2 h.types
    exact (List.filter_sublist.map NamedType.name).nodup hnodup
  · intro ho
    rw [orderedTypes, if_pos ho]
    exact (pairwise_sortedByName h.types).filter _
  · intro ho
    have hroots : ∀ t ∈ (rootIds s).filterMap s.get?, isPrinted t = true := by
      intro t ht
      rw [h.filterMap_rootIds] at ht
      obtain ⟨c, -, rfl⟩ := List.mem_map.1 ht
      rfl
    refine ⟨(otherTypes s).filter isPrinted,
      List.filter_sublist.trans (otherTypes_sublist s), ?_⟩
    rw [orderedTypes, ho, if_neg Bool.false_ne_true, List.filter_append,
      List.filter_eq_self.2 hroots, h.filterMap_rootIds]

end Printable

theorem isBlock_typeBlock (h : s.Apart) {t : NamedType} (ht : t ∈ s.types) :
    IsBlock o s t (typeBlock o s t) := by
  have hcomposite : ∀ c (keyword : String), s.IsComposite c →
      IsComposite o s keyword c (compositeBlock o s keyword c) := fun c keyword hc =>
    isComposite_compositeBlock keyword (h.fields c hc) fun f hf => h.arguments f ⟨c, hc, hf⟩
  cases t with
  | scalar t => exact isBlock_scalarBlock t
  | object t => exact .object (hcomposite t "type" (.inl ht))
  | interface t => exact .interface (hcomposite t "interface" (.inr ht))
  | input t => exact isBlock_inputBlock (h.inputFields t ht)

/-- Blocks with a blank line between them and a line feed at the end; nothing if there are none. -/
def paragraphs (blocks : List (List Char)) : List Char :=
  if blocks.isEmpty then [] else ['\n', '\n'].intercalate blocks ++ ['\n']

theorem print_eq_paragraphs (o : PrintOptions) (s : Schema) :
    print o s = String.ofList (paragraphs (blocks o s)) := by
  rw [print, chars, paragraphs, joined_eq_intercalate]

/-- The definitions that a schema has besides the specified ones. -/
def ownDirectives (s : Schema) : List DirectiveDefinition :=
  s.directives.filter fun d => d.name ∉ DirectiveDefinition.specified.map (·.name)

theorem Printable.directives_listed (h : Printable s) (o : PrintOptions) :
    Listed o DirectiveDefinition.name (ownDirectives s) (orderedDirectives o s) := by
  have hown : ownDirectives s =
      s.directives.filter fun d => !DirectiveDefinition.isSpecified d.name := by
    apply List.filter_congr
    intro d _
    rw [Bool.eq_iff_iff, decide_eq_true_iff, ← DirectiveDefinition.isSpecified_iff,
      Bool.not_eq_true', Bool.not_eq_true]
  rw [hown, orderedDirectives]
  exact listed_arranged ((List.filter_sublist.map _).nodup h.directives)

end Sdl

namespace BuildRequest

variable {q : BuildRequest} {r : Registry} {source : Option DirectiveSource} {schema : Schema}

/-- In a built schema fields and arguments stand under their names, and so do types and
directives. -/
theorem buildFrom_apart (h : (q.buildFrom r source).outcome = .ok schema) : schema.Apart := by
  have hindexed := buildFrom_indexed h
  have hcomposite : ∀ t, schema.IsComposite t → t.Keyed := by
    rintro t (ht | ht)
    · exact hindexed.keyed _ ht
    · exact hindexed.keyed _ ht
  obtain ⟨o, scalars, hwith⟩ := buildFrom_eq_ok h
  obtain ⟨b, -, rfl, -⟩ := buildWith_eq_ok hwith
  refine ⟨hindexed.names_nodup, nodup_mergeDirectives DirectiveDefinition.nodup_specified, ?_, ?_,
    ?_⟩
  · intro t ht
    exact CompositeType.fields_nodup fun c hc => (hcomposite t ht c hc).1
  · rintro f ⟨t, ht, hf⟩
    exact ((hcomposite t ht).arguments hf).nodup
  · intro t ht
    exact InputType.fields_nodup (hindexed.keyed _ ht)

theorem buildFrom_printable (h : (q.buildFrom r source).outcome = .ok schema) :
    Sdl.Printable schema := by
  refine ⟨buildFrom_apart h, ?_⟩
  obtain ⟨o, scalars, hwith⟩ := buildFrom_eq_ok h
  obtain ⟨b, hb, rfl, -⟩ := buildWith_eq_ok hwith
  obtain ⟨set, -, -, -, hcomplete⟩ := realize_complete hb
  intro kind i hi
  have hroot : b.roots.get kind = some i := by
    cases kind <;> exact hi
  obtain ⟨fields, hfields, -⟩ := (hcomplete.roots kind).present i hroot
  exact ⟨_, hfields, rfl⟩

/-- Every definition is printed once. The text of a built schema is made of a block for each
directive definition of its own and then of one for each type that is not built in, in their order;
each block is laid out by its form, in which every field and argument is listed. -/
theorem buildFrom_printed (h : (q.buildFrom r source).outcome = .ok schema) (o : PrintOptions) :
    ∃ ds ts definitions blocks,
      Sdl.Listed o DirectiveDefinition.name (Sdl.ownDirectives schema) ds ∧
      Sdl.TypeOrder o schema ts ∧ List.Forall₂ Sdl.IsDirective ds definitions ∧
      List.Forall₂ (Sdl.IsBlock o schema) ts blocks ∧
      Sdl.print o schema = String.ofList (Sdl.paragraphs (definitions ++ blocks)) := by
  have hprintable := buildFrom_printable h
  have horder := hprintable.typeOrder o
  refine ⟨_, _, _, _, hprintable.directives_listed o, horder, ?_, ?_,
    Sdl.print_eq_paragraphs o schema⟩
  · exact Sdl.forall₂_map _ fun d _ => Sdl.isDirective_directiveBlock d
  · exact Sdl.forall₂_map _ fun t ht =>
      Sdl.isBlock_typeBlock hprintable.toApart ((horder.mem_iff t).1 ht).1

theorem buildFrom_printed_recipes :
    ∃ schema, (plain.buildFrom .recipes none).outcome = .ok schema ∧
      schema.types.map NamedType.name = ["Query", "Node", "ID", "Recipe"] ∧
      Sdl.print .standard schema =
        "type Query \x7b\n  node(id: ID!): Node!\n\x7d\n\n" ++
        "interface Node \x7b\n  id: ID!\n\x7d\n\n" ++
        "type Recipe implements Node \x7b\n  id: ID!\n\x7d\n" ∧
      ∃ ds ts definitions blocks,
        Sdl.Listed .standard DirectiveDefinition.name (Sdl.ownDirectives schema) ds ∧
        Sdl.TypeOrder .standard schema ts ∧ List.Forall₂ Sdl.IsDirective ds definitions ∧
        List.Forall₂ (Sdl.IsBlock .standard schema) ts blocks ∧
        Sdl.print .standard schema = String.ofList (Sdl.paragraphs (definitions ++ blocks)) := by
  have hprints : ((plain.buildFrom .recipes none).outcome.toOption.map fun s =>
      (s.types.map NamedType.name, Sdl.print .standard s)) =
        some (["Query", "Node", "ID", "Recipe"],
          "type Query \x7b\n  node(id: ID!): Node!\n\x7d\n\n" ++
          "interface Node \x7b\n  id: ID!\n\x7d\n\n" ++
          "type Recipe implements Node \x7b\n  id: ID!\n\x7d\n") := by decide +kernel
  obtain ⟨schema, hschema, hparts⟩ := Option.map_eq_some_iff.1 hprints
  obtain ⟨hnames, htext⟩ := Prod.mk.inj hparts
  have h := ok_of_toOption hschema
  exact ⟨schema, h, hnames, htext, buildFrom_printed h .standard⟩

end BuildRequest

end CodeFirst
