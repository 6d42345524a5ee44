import CodeFirst.Proofs.Literals
import CodeFirst.Sdl.Printer

/-! Where values stand in the text of a schema. Each of them is followed by a character that ends a
literal, so a reader that starts at a default or at an argument of a directive reads the value that
was printed there, and goes on right behind it. -/

namespace CodeFirst

namespace Schema

def IsComposite (s : Schema) (t : CompositeType) : Prop :=
  .object t ∈ s.types ∨ .interface t ∈ s.types

def IsField (s : Schema) (f : Field) : Prop := ∃ t, s.IsComposite t ∧ f ∈ t.fields

/-- Arguments of fields and fields of input types. -/
inductive IsInput (s : Schema) : InputValue → Prop
  | argument {f : Field} {i : InputValue} (hf : s.IsField f) (hi : i ∈ f.arguments.records) :
    IsInput s i
  | field {t : InputType} {i : InputValue} (ht : .input t ∈ s.types) (hi : i ∈ t.fields) :
    IsInput s i

/-- Directives on types and on fields. -/
inductive IsApplied (s : Schema) : Directive → Prop
  | type {t : CompositeType} {n : TypeDefinitionNode} {d : Directive} (ht : s.IsComposite t)
    (hn : t.node = some n) (hd : d ∈ n.directives) : IsApplied s d
  | field {f : Field} {n : FieldNode} {d : Directive} (hf : s.IsField f) (hn : f.node = some n)
    (hd : d ∈ n.directives) : IsApplied s d

end Schema

namespace Sdl

variable {o : PrintOptions} {s : Schema} {label item text text' : List Char} {v : Json}

/-- A value that is printed with a schema, and the label in front of it. -/
inductive Prints (o : PrintOptions) (s : Schema) : List Char → Json → Prop
  | default {i : InputValue} {v : Json} (hi : s.IsInput i) (hv : i.default = some v) :
    Prints o s (i.name.toList ++ ": ".toList ++ (s.typeText i.type).toList ++ " = ".toList) v
  | definition {d : DirectiveDefinition} {a : DirectiveArgument} {v : Json}
    (hd : d ∈ s.directives) (hown : DirectiveDefinition.isSpecified d.name = false)
    (ha : a ∈ d.arguments.values) (hv : a.default = some v) :
    Prints o s (a.name.toList ++ ": ".toList ++ a.type.toList ++ " = ".toList) v
  | argument {d : Directive} {k : String} {v : Json} (ho : o.appliedDirectives = true)
    (hd : s.IsApplied d) (ha : (k, v) ∈ d.arguments.entries) :
    Prints o s (k.toList ++ ": ".toList) v
  | reason {f : Field} {reason : String} (hf : s.IsField f) (hr : f.deprecation = some reason)
    (hown : reason ≠ defaultDeprecationReason) :
    Prints o s " @deprecated(reason: ".toList (.str reason)
  | url {t : ScalarType} {url : String} (ht : .scalar t ∈ s.types)
    (hown : t.name ∉ builtinScalars) (hu : t.specifiedByUrl = some url) :
    Prints o s " @specifiedBy(url: ".toList (.str url)

theorem infix_append_right (h : item <:+: text) (more : List Char) : item <:+: text ++ more :=
  h.trans (List.prefix_append text more).isInfix

theorem infix_append_left (h : item <:+: text) (more : List Char) : item <:+: more ++ text :=
  h.trans (List.suffix_append more text).isInfix

/-- A part of a text that is followed by a character that may follow a value. -/
def Enclosed (item text : List Char) : Prop := ∃ c ∈ delimiters, item ++ [c] <:+: text

theorem Enclosed.trans (h : Enclosed item text) (htext : text <:+: text') :
    Enclosed item text' := by
  obtain ⟨c, hc, hitem⟩ := h
  exact ⟨c, hc, hitem.trans htext⟩

theorem infix_joined {separator : List Char} {ts : List (List Char)} (h : item ∈ ts) :
    item <:+: joined separator ts := by
  induction ts with
  | nil => cases h
  | cons t ts ih =>
    cases ts with
    | nil =>
      rw [List.mem_singleton.1 h]
      exact List.infix_rfl
    | cons u ts =>
      rcases List.mem_cons.1 h with rfl | h
      · exact ⟨[], separator ++ joined separator (u :: ts), by simp [joined]⟩
      · exact (ih h).trans ⟨t ++ separator, [], by simp [joined]⟩

theorem enclosed_joined {ts : List (List Char)} (h : item ∈ ts) :
    Enclosed item (joined comma ts ++ [')']) := by
  induction ts with
  | nil => cases h
  | cons t ts ih =>
    cases ts with
    | nil =>
      rw [List.mem_singleton.1 h]
      exact ⟨')', by decide, List.infix_rfl⟩
    | cons u ts =>
      rcases List.mem_cons.1 h with rfl | h
      · exact ⟨',', by decide, [], ' ' :: joined comma (u :: ts) ++ [')'], by simp [joined, comma]⟩
      · exact (ih h).trans ⟨t ++ comma, [], by simp [joined]⟩

theorem enclosed_bracketed {ts : List (List Char)} (h : item ∈ ts) :
    Enclosed item (bracketed ts) := by
  have hne : ¬ ts.isEmpty = true := by
    rw [List.isEmpty_iff]
    exact List.ne_nil_of_mem h
  rw [bracketed, if_neg hne]
  exact (enclosed_joined h).trans (List.suffix_cons _ _).isInfix

theorem mem_arranged {α : Type} {name : α → String} {a : α} {l : List α} :
    a ∈ arranged o name l ↔ a ∈ l := by
  rw [arranged]
  split
  · exact (List.mergeSort_perm l _).mem_iff
  · exact Iff.rfl

theorem mem_orderedTypes {t : NamedType} (h : t ∈ s.types) : t ∈ orderedTypes o s := by
  rw [orderedTypes]
  split
  · exact (List.mergeSort_perm _ _).mem_iff.2 h
  · obtain ⟨i, hi, rfl⟩ := List.mem_iff_getElem.1 h
    rw [List.mem_append]
    by_cases hroot : (rootIds s).contains i = true
    · left
      refine List.mem_filterMap.2 ⟨i, by simpa using hroot, ?_⟩
      rw [Schema.get?, List.getElem?_eq_getElem hi]
    · right
      refine List.mem_map.2 ⟨(s.types[i], i), List.mem_filter.2 ⟨?_, ?_⟩, rfl⟩
      · exact List.mem_zipIdx_iff_getElem?.2 (List.getElem?_eq_getElem hi)
      · simpa using hroot

theorem infix_chars_of_mem_blocks (h : text ∈ blocks o s) : text <:+: chars o s := by
  have hne : ¬ (blocks o s).isEmpty = true := by
    rw [List.isEmpty_iff]
    exact List.ne_nil_of_mem h
  rw [chars, if_neg hne]
  exact infix_append_right (infix_joined h) _

theorem infix_chars_of_mem_types {t : NamedType} (ht : t ∈ s.types)
    (hprinted : isPrinted t = true) : typeBlock o s t <:+: chars o s := by
  refine infix_chars_of_mem_blocks (List.mem_append_right _ ?_)
  exact List.mem_map_of_mem (List.mem_filter.2 ⟨mem_orderedTypes ht, hprinted⟩)

theorem infix_chars_of_isComposite {t : CompositeType} (h : s.IsComposite t) :
    ∃ keyword, compositeBlock o s keyword t <:+: chars o s := by
  rcases h with h | h
  · exact ⟨"type", infix_chars_of_mem_types h rfl⟩
  · exact ⟨"interface", infix_chars_of_mem_types h rfl⟩

theorem infix_body {ls : List (List Char)} (h : text ∈ ls) : text <:+: body ls :=
  (List.infix_of_mem_flatten h).trans ⟨[' ', '{', '\n'], ['}'], rfl⟩

theorem infix_chars_of_isField {f : Field} (h : s.IsField f) : fieldLine o s f <:+: chars o s := by
  obtain ⟨t, ht, hf⟩ := h
  obtain ⟨keyword, hblock⟩ := infix_chars_of_isComposite (o := o) ht
  have hline : fieldLine o s f <:+: body ((arranged o Field.name t.fields).map (fieldLine o s)) :=
    infix_body (List.mem_map_of_mem (mem_arranged.2 hf))
  exact (infix_append_left hline _).trans hblock

theorem enclosed_inputValueLine (level : Nat) (i : InputValue) :
    Enclosed (inputValue s i) (inputValueLine o s level i) :=
  ⟨'\n', by decide, description (indent o level) i.description ++ indentation (indent o level), [],
    by simp [inputValueLine]⟩

theorem enclosed_arguments {i : InputValue} {is : List InputValue} (h : i ∈ is) :
    Enclosed (inputValue s i) (arguments o s is) := by
  rw [arguments]
  split
  · exact enclosed_bracketed (List.mem_map_of_mem h)
  · have hline : inputValueLine o s 2 i <:+: is.flatMap (inputValueLine o s 2) :=
      List.infix_of_mem_flatten (List.mem_map_of_mem h)
    refine ((enclosed_inputValueLine 2 i).trans hline).trans ?_
    exact ⟨['(', '\n'], indentation (indent o 1) ++ [')'], by simp⟩

theorem infix_fieldLine_arguments (f : Field) :
    arguments o s (arranged o InputValue.name f.arguments.records) <:+: fieldLine o s f := by
  iterate 4 refine infix_append_right ?_ _
  exact (List.suffix_append _ _).isInfix

theorem infix_fieldLine_deprecation (f : Field) :
    deprecationText f.deprecation <:+: fieldLine o s f := by
  iterate 2 refine infix_append_right ?_ _
  exact (List.suffix_append _ _).isInfix

theorem enclosed_of_isInput {i : InputValue} (h : s.IsInput i) :
    Enclosed (inputValue s i) (chars o s) := by
  cases h with
  | @argument f _ hf hi =>
    have hargument : i ∈ arranged o InputValue.name f.arguments.records := mem_arranged.2 hi
    have hline : Enclosed (inputValue s i) (fieldLine o s f) :=
      (enclosed_arguments hargument).trans (infix_fieldLine_arguments f)
    exact hline.trans (infix_chars_of_isField hf)
  | @field t _ ht hi =>
    have hline : inputValueLine o s 1 i <:+:
        body ((arranged o InputValue.name t.fields).map (inputValueLine o s 1)) :=
      infix_body (List.mem_map_of_mem (mem_arranged.2 hi))
    have hblock : inputValueLine o s 1 i <:+: typeBlock o s (.input t) := infix_append_left hline _
    exact ((enclosed_inputValueLine 1 i).trans hblock).trans (infix_chars_of_mem_types ht rfl)

theorem enclosed_appliedDirective {d : Directive} {k : String} (h : (k, v) ∈ d.arguments.entries) :
    Enclosed (k.toList ++ ':' :: ' ' :: literal v) (appliedDirective d) := by
  rw [appliedDirective]
  refine Enclosed.trans (enclosed_bracketed ?_) (List.suffix_append _ _).isInfix
  exact List.mem_map.2 ⟨(k, v), h, rfl⟩

theorem infix_appliedDirectives {d : Directive} {ds : List Directive}
    (ho : o.appliedDirectives = true) (h : d ∈ ds) :
    appliedDirective d <:+: appliedDirectives o ds := by
  rw [appliedDirectives, if_pos ho]
  exact List.infix_of_mem_flatten (List.mem_map_of_mem h)

theorem infix_chars_of_isApplied {d : Directive} (ho : o.appliedDirectives = true)
    (h : s.IsApplied d) : appliedDirective d <:+: chars o s := by
  cases h with
  | @type t n _ ht hn hd =>
    obtain ⟨keyword, hblock⟩ := infix_chars_of_isComposite (o := o) ht
    have happlied : appliedDirective d <:+: compositeBlock o s keyword t := by
      rw [compositeBlock, hn]
      exact infix_append_right (infix_append_left (infix_appliedDirectives ho hd) _) _
    exact happlied.trans hblock
  | @field f n _ hf hn hd =>
    have happlied : appliedDirective d <:+: fieldLine o s f := by
      rw [fieldLine, hn]
      exact infix_append_right (infix_append_left (infix_appliedDirectives ho hd) _) _
    exact happlied.trans (infix_chars_of_isField hf)

theorem enclosed_of_isSpecified_eq_false {d : DirectiveDefinition} {a : DirectiveArgument}
    (hd : d ∈ s.directives) (hown : DirectiveDefinition.isSpecified d.name = false)
    (ha : a ∈ d.arguments.values) : Enclosed (directiveArgument a) (chars o s) := by
  have hordered : d ∈ orderedDirectives o s :=
    mem_arranged.2 (List.mem_filter.2 ⟨hd, by rw [hown]; rfl⟩)
  have hblock : directiveBlock d <:+: chars o s :=
    infix_chars_of_mem_blocks (List.mem_append_left _ (List.mem_map_of_mem hordered))
  have harguments : bracketed (d.arguments.values.map directiveArgument) <:+: directiveBlock d := by
    iterate 3 refine infix_append_right ?_ _
    exact (List.suffix_append _ _).isInfix
  exact ((enclosed_bracketed (List.mem_map_of_mem ha)).trans harguments).trans hblock

/-- Whatever is printed with a schema is enclosed where it stands. -/
theorem Prints.enclosed (h : Prints o s label v) : Enclosed (label ++ literal v) (chars o s) := by
  cases h with
  | @default i _ hi hv =>
    have htext : inputValue s i = i.name.toList ++ ": ".toList ++ (s.typeText i.type).toList ++
        " = ".toList ++ literal v := by simp [inputValue, hv, defaultText]
    rw [← htext]
    exact enclosed_of_isInput hi
  | @definition d a _ hd hown ha hv =>
    have htext : directiveArgument a = a.name.toList ++ ": ".toList ++ a.type.toList ++
        " = ".toList ++ literal v := by simp [directiveArgument, hv, defaultText]
    rw [← htext]
    exact enclosed_of_isSpecified_eq_false hd hown ha
  | argument ho hd ha =>
    have h := (enclosed_appliedDirective ha).trans (infix_chars_of_isApplied ho hd)
    simpa using h
  | @reason f reason hf hr hown =>
    have htext : deprecationText f.deprecation =
        " @deprecated(reason: ".toList ++ literal (.str reason) ++ [')'] := by
      rw [hr, deprecationText, if_neg hown, literal]
    have hpart : Enclosed (" @deprecated(reason: ".toList ++ literal (.str reason))
        (deprecationText f.deprecation) := ⟨')', by decide, htext ▸ List.infix_rfl⟩
    exact (hpart.trans (infix_fieldLine_deprecation f)).trans (infix_chars_of_isField hf)
  | @url t url ht hown hu =>
    have hprinted : isPrinted (.scalar t) = true := by simpa [isPrinted] using hown
    have hblock : " @specifiedBy(url: ".toList ++ literal (.str url) ++ [')'] <:+:
        typeBlock o s (.scalar t) := by
      rw [typeBlock, scalarBlock, hu]
      exact (List.suffix_append _ _).isInfix
    exact ⟨')', by decide, hblock.trans (infix_chars_of_mem_types ht hprinted)⟩

/-- Literals survive printing. A reader that starts where the literal of a value was printed reads
that value and leaves what follows; so literals of different values differ, whatever follows them,
and the text of a schema can be read on behind each of its values. -/
theorem literals_survive (hv : v.NamedKeys) :
    (∀ rest, Delimited rest → readLiteral (literal v ++ rest) = some (.ofJson v, rest)) ∧
    (∀ w rest rest', w.NamedKeys → Delimited rest → Delimited rest' →
      literal v ++ rest = literal w ++ rest' →
      Literal.ofJson v = Literal.ofJson w ∧ rest = rest') ∧
    ∀ o s label, Prints o s label v → ∃ before after,
      chars o s = before ++ label ++ literal v ++ after ∧ after ≠ [] ∧ Delimited after ∧
      readLiteral (literal v ++ after) = some (.ofJson v, after) := by
  have hreads : ∀ rest, Delimited rest → readLiteral (literal v ++ rest) = some (.ofJson v, rest) :=
    fun _ hrest => readInside_literal v hv rfl hrest
  refine ⟨hreads, ?_, ?_⟩
  · intro w rest rest' hw hrest hrest' h
    have hw' : readLiteral (literal w ++ rest') = some (.ofJson w, rest') :=
      readInside_literal w hw rfl hrest'
    rw [← h, hreads rest hrest] at hw'
    exact Prod.mk.inj (Option.some.inj hw')
  · intro o s label h
    obtain ⟨c, hc, before, after, htext⟩ := h.enclosed
    have hafter : Delimited (c :: after) := by simpa [Delimited] using hc
    refine ⟨before, c :: after, ?_, by simp, hafter, hreads _ hafter⟩
    rw [← htext]
    simp

/-- A value with a quoted text, a control character and nested lists and objects. -/
def palette : Json :=
  .obj [("title", .str "\"warm\" \\ \n\x01"),
    ("shades", .arr [.num (.int (-3)), .null, .arr [], .obj [("plain", .bool true)]])]

def painting : Schema :=
  ⟨[.input ⟨"Painting", none, none,
      some (.ofList [("palette", ⟨"palette", none, .named 0, some palette⟩)])⟩],
    ∅, none, none, none, []⟩

theorem literals_survive_painting : palette.NamedKeys ∧
    Prints .standard painting "palette: Painting = ".toList palette ∧
    readLiteral (literal palette ++ ", next: 1".toList) =
      some (.ofJson palette, ", next: 1".toList) ∧
    ∃ before after, chars .standard painting =
      before ++ "palette: Painting = ".toList ++ literal palette ++ after ∧ after ≠ [] ∧
      Delimited after ∧ readLiteral (literal palette ++ after) = some (.ofJson palette, after) := by
  have hkeys : palette.NamedKeys :=
    ⟨by decide, trivial, by decide, ⟨trivial, trivial, trivial, ⟨by decide, trivial, trivial⟩,
      trivial⟩, trivial⟩
  have hprints : Prints .standard painting "palette: Painting = ".toList palette := by
    have hinput : painting.IsInput ⟨"palette", none, .named 0, some palette⟩ :=
      .field List.mem_cons_self List.mem_cons_self
    exact .default hinput rfl
  obtain ⟨hreads, -, hprinted⟩ := literals_survive hkeys
  exact ⟨hkeys, hprints, hreads _ (by simp [Delimited, delimiters]), hprinted _ _ _ hprints⟩

end Sdl

end CodeFirst
