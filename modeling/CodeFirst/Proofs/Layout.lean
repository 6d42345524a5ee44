import CodeFirst.Proofs.Appearance
import CodeFirst.Proofs.Surroundings

/-! How definitions are laid out in a text. Each kind of definition has its form, with a place for
everything that is known of it; only the lines of descriptions, literals and types are texts of
their own. Fields and arguments are listed once each, by name if the text is sorted. -/

namespace CodeFirst.Sdl

/-- How things are listed that have names: each of them once, by name if sorted and else in the
order they have. -/
structure Listed {α : Type} (o : PrintOptions) (name : α → String) (l m : List α) : Prop where
  perm : m.Perm l
  ascending : o.sortTypes = true → m.Pairwise fun a b => name a < name b
  kept : o.sortTypes = false → m = l

section Listed

variable {α : Type} {o : PrintOptions} {name : α → String} {l : List α}

theorem perm_sortedByName (name : α → String) (l : List α) : (sortedByName name l).Perm l :=
  List.mergeSort_perm l _

theorem pairwise_sortedByName (h : (l.map name).Nodup) :
    (sortedByName name l).Pairwise fun a b => name a < name b := by
  have hle : ((sortedByName name l).map name).Pairwise fun m n => m ≤ n := by
    rw [map_sortedByName]
    exact pairwise_mergeSort_nameLe _
  have hnodup : ((sortedByName name l).map name).Nodup :=
    ((perm_sortedByName name l).map name).nodup_iff.2 h
  have hlt : ((sortedByName name l).map name).Pairwise fun m n => m < n := by
    apply (hle.and hnodup).imp
    rintro m n ⟨hmn, hne⟩
    by_contra hlt
    exact hne (String.le_antisymm hmn (String.not_lt.1 hlt))
  exact List.pairwise_map.1 hlt

theorem listed_arranged (h : (l.map name).Nodup) : Listed o name l (arranged o name l) := by
  refine ⟨?_, ?_, ?_⟩
  · rw [arranged]
    split
    · exact perm_sortedByName name l
    · exact .refl l
  · intro ho
    rw [arranged, if_pos ho]
    exact pairwise_sortedByName h
  · intro ho
    rw [arranged, ho]
    rfl

end Listed

section Forms

variable (o : PrintOptions) (s : Schema)

/-- A block string, if there is a description: on one line, or with the quotes on lines of their
own. -/
inductive IsDescription (width : Nat) : Option String → List Char → Prop where
  | none : IsDescription width none []
  | oneLine {text : String} (h : '\n' ∉ text.toList) :
    IsDescription width (some text)
      (List.replicate width ' ' ++ ['"', '"', '"'] ++ escapeQuotes text.toList ++
        ['"', '"', '"', '\n'])
  | manyLines {text : String} (h : '\n' ∈ text.toList) :
    IsDescription width (some text)
      (List.replicate width ' ' ++ ['"', '"', '"', '\n'] ++
        ((lines text.toList).map fun line => List.replicate width ' ' ++ line ++ ['\n']).flatten ++
        List.replicate width ' ' ++ ['"', '"', '"', '\n'])

inductive IsDefault : Option Json → List Char → Prop where
  | none : IsDefault none []
  | some (v : Json) : IsDefault (some v) (' ' :: '=' :: ' ' :: literal v)

/-- Texts in round brackets, with commas between them; no texts, no brackets. -/
inductive InBrackets : List (List Char) → List Char → Prop where
  | none : InBrackets [] []
  | some {texts : List (List Char)} (h : texts ≠ []) :
    InBrackets texts ('(' :: [',', ' '].intercalate texts ++ [')'])

/-- An argument or input field: its name, its type and its default. -/
inductive IsValue (v : InputValue) : List Char → Prop where
  | text {default : List Char} (hdefault : IsDefault v.default default) :
    IsValue v (v.name.toList ++ ':' :: ' ' :: (s.typeText v.type).toList ++ default)

inductive IsValueLine (level : Nat) (v : InputValue) : List Char → Prop where
  | line {description text : List Char}
    (hdescription : IsDescription (level * o.indentSize) v.description description)
    (htext : IsValue s v text) :
    IsValueLine level v
      (description ++ List.replicate (level * o.indentSize) ' ' ++ text ++ ['\n'])

/-- The arguments of a field, which share its line unless one of them has a description. -/
inductive AreArguments (vs : List InputValue) : List Char → Prop where
  | oneLine {texts : List (List Char)} {text : List Char} (plain : ∀ v ∈ vs, v.description = none)
    (htexts : List.Forall₂ (IsValue s) vs texts) (htext : InBrackets texts text) :
    AreArguments vs text
  | manyLines {lines : List (List Char)} (described : ∃ v ∈ vs, v.description ≠ none)
    (hlines : List.Forall₂ (IsValueLine o s 2) vs lines) :
    AreArguments vs ('(' :: '\n' :: lines.flatten ++ List.replicate o.indentSize ' ' ++ [')'])

inductive IsApplied (d : Directive) : List Char → Prop where
  | text {arguments : List Char}
    (h : InBrackets (d.arguments.entries.map fun e => e.1.toList ++ ':' :: ' ' :: literal e.2)
      arguments) :
    IsApplied d (" @".toList ++ d.name.toList ++ arguments)

/-- The directives of a type or field, one behind the other, if they are to be shown. -/
inductive AreApplied (ds : List Directive) : List Char → Prop where
  | shown {texts : List (List Char)} (ho : o.appliedDirectives = true)
    (htexts : List.Forall₂ IsApplied ds texts) : AreApplied ds texts.flatten
  | hidden (ho : o.appliedDirectives = false) : AreApplied ds []

inductive IsDeprecation : Option String → List Char → Prop where
  | none : IsDeprecation none []
  | plain : IsDeprecation (some defaultDeprecationReason) " @deprecated".toList
  | reasoned {reason : String} (h : reason ≠ defaultDeprecationReason) :
    IsDeprecation (some reason) (" @deprecated(reason: ".toList ++ Json.quote reason ++ [')'])

/-- The line of a field, in which each of its arguments is listed. -/
inductive IsFieldLine (f : Field) : List Char → Prop where
  | line {vs : List InputValue} {description arguments deprecation applied : List Char}
    (listed : Listed o InputValue.name f.arguments.records vs)
    (hdescription : IsDescription o.indentSize f.description description)
    (harguments : AreArguments o s vs arguments)
    (hdeprecation : IsDeprecation f.deprecation deprecation)
    (happlied : AreApplied o (f.node.elim [] (·.directives)) applied) :
    IsFieldLine f
      (description ++ List.replicate o.indentSize ' ' ++ f.name.toList ++ arguments ++
        ':' :: ' ' :: (s.typeText f.type).toList ++ deprecation ++ applied ++ ['\n'])

inductive AreInterfaces : List TypeId → List Char → Prop where
  | none : AreInterfaces [] []
  | some {places : List TypeId} (h : places ≠ []) :
    AreInterfaces places (" implements ".toList ++
      " & ".toList.intercalate (places.map fun i => (s.typeName i).toList))

/-- An object type or interface, with one line for each of its fields. -/
inductive IsComposite (keyword : String) (t : CompositeType) : List Char → Prop where
  | block {fs : List Field} {lines : List (List Char)} {description interfaces applied : List Char}
    (listed : Listed o Field.name t.fields fs)
    (hdescription : IsDescription 0 t.description description)
    (hinterfaces : AreInterfaces s t.interfaces interfaces)
    (happlied : AreApplied o (t.node.elim [] (·.directives)) applied)
    (hlines : List.Forall₂ (IsFieldLine o s) fs lines) :
    IsComposite keyword t
      (description ++ keyword.toList ++ ' ' :: t.name.toList ++ interfaces ++ applied ++
        ' ' :: '{' :: '\n' :: lines.flatten ++ ['}'])

inductive IsUrl : Option String → List Char → Prop where
  | none : IsUrl none []
  | some (url : String) :
    IsUrl (some url) (" @specifiedBy(url: ".toList ++ Json.quote url ++ [')'])

/-- The block of a type. -/
inductive IsBlock : NamedType → List Char → Prop where
  | scalar {t : ScalarType} {description url : List Char}
    (hdescription : IsDescription 0 t.description description) (hurl : IsUrl t.specifiedByUrl url) :
    IsBlock (.scalar t) (description ++ "scalar ".toList ++ t.name.toList ++ url)
  | object {t : CompositeType} {text : List Char} (h : IsComposite o s "type" t text) :
    IsBlock (.object t) text
  | interface {t : CompositeType} {text : List Char} (h : IsComposite o s "interface" t text) :
    IsBlock (.interface t) text
  | input {t : InputType} {vs : List InputValue} {lines : List (List Char)}
    {description : List Char} (listed : Listed o InputValue.name t.fields vs)
    (hdescription : IsDescription 0 t.description description)
    (hlines : List.Forall₂ (IsValueLine o s 1) vs lines) :
    IsBlock (.input t) (description ++ "input ".toList ++ t.name.toList ++
      ' ' :: '{' :: '\n' :: lines.flatten ++ ['}'])

inductive IsParameter (a : DirectiveArgument) : List Char → Prop where
  | text {default : List Char} (hdefault : IsDefault a.default default) :
    IsParameter a (a.name.toList ++ ':' :: ' ' :: a.type.toList ++ default)

/-- The block of a directive definition. -/
inductive IsDirective (d : DirectiveDefinition) : List Char → Prop where
  | block {texts : List (List Char)} {description arguments : List Char}
    (hdescription : IsDescription 0 d.description description)
    (htexts : List.Forall₂ IsParameter d.arguments.values texts)
    (harguments : InBrackets texts arguments) :
    IsDirective d
      (description ++ "directive @".toList ++ d.name.toList ++ arguments ++
        (if d.repeatable then " repeatable".toList else []) ++ " on ".toList ++
        " | ".toList.intercalate (d.locations.map (·.text.toList)))

end Forms

variable {o : PrintOptions} {s : Schema}

theorem joined_eq_intercalate (separator : List Char) (ts : List (List Char)) :
    joined separator ts = separator.intercalate ts := by
  induction ts with
  | nil => rfl
  | cons t ts ih =>
    cases ts with
    | nil => simp [joined]
    | cons u ts =>
      rw [joined, ih, List.intercalate_cons_cons]
      exact List.cons_ne_nil u ts

theorem isDescription_description (width : Nat) (text? : Option String) :
    IsDescription width text? (description width text?) := by
  cases text? with
  | none => exact .none
  | some text =>
    rw [description, descriptionText]
    split
    · next h =>
      have hform : IsDescription width (some text) _ := .manyLines h
      simpa only [indentation, tripleQuote, List.flatMap_def, List.append_assoc, List.cons_append,
        List.nil_append] using hform
    · next h =>
      have hform : IsDescription width (some text) _ := .oneLine h
      simpa only [indentation, tripleQuote, List.append_assoc, List.cons_append,
        List.nil_append] using hform

theorem isDefault_defaultText (v? : Option Json) : IsDefault v? (defaultText v?) := by
  cases v? with
  | none => exact .none
  | some v => exact .some v

theorem inBrackets_bracketed (texts : List (List Char)) : InBrackets texts (bracketed texts) := by
  cases texts with
  | nil => exact .none
  | cons t ts =>
    rw [bracketed, if_neg (by simp), joined_eq_intercalate]
    exact .some (List.cons_ne_nil t ts)

theorem forall₂_map {α β : Type} {R : α → β → Prop} {f : α → β} (l : List α)
    (h : ∀ a ∈ l, R a (f a)) : List.Forall₂ R l (l.map f) := by
  rw [List.forall₂_map_right_iff, List.forall₂_same]
  exact h

theorem isValue_inputValue (v : InputValue) : IsValue s v (inputValue s v) :=
  .text (isDefault_defaultText v.default)

theorem isValueLine_inputValueLine (level : Nat) (v : InputValue) :
    IsValueLine o s level v (inputValueLine o s level v) :=
  .line (isDescription_description _ v.description) (isValue_inputValue v)

theorem areArguments_arguments (vs : List InputValue) :
    AreArguments o s vs (arguments o s vs) := by
  rw [arguments]
  split
  · next hplain =>
    refine .oneLine ?_ (forall₂_map vs fun v _ => isValue_inputValue v) (inBrackets_bracketed _)
    simpa using hplain
  · next hdescribed =>
    rw [indentation, indent, Nat.one_mul, List.flatMap_def]
    refine .manyLines ?_ (forall₂_map vs fun v _ => isValueLine_inputValueLine 2 v)
    simpa [Option.isSome_iff_ne_none] using hdescribed

theorem isApplied_appliedDirective (d : Directive) : IsApplied d (appliedDirective d) :=
  .text (inBrackets_bracketed _)

theorem areApplied_appliedDirectives (ds : List Directive) :
    AreApplied o ds (appliedDirectives o ds) := by
  rw [appliedDirectives]
  split
  · next ho =>
    rw [List.flatMap_def]
    exact .shown ho (forall₂_map ds fun d _ => isApplied_appliedDirective d)
  · next ho => exact .hidden (Bool.eq_false_iff.2 ho)

theorem areApplied_node {α : Type} (node? : Option α) (directives : α → List Directive) :
    AreApplied o (node?.elim [] directives)
      ((node?.map fun n => appliedDirectives o (directives n)).getD []) := by
  cases node? with
  | none =>
    have hnone : AreApplied o [] (appliedDirectives o []) := areApplied_appliedDirectives []
    rwa [appliedDirectives, List.flatMap_nil, ite_self] at hnone
  | some n => exact areApplied_appliedDirectives _

theorem isDeprecation_deprecationText (reason? : Option String) :
    IsDeprecation reason? (deprecationText reason?) := by
  cases reason? with
  | none => exact .none
  | some reason =>
    rw [deprecationText]
    split
    · next h =>
      rw [h]
      exact .plain
    · next h => exact .reasoned h

theorem isFieldLine_fieldLine {f : Field} (h : (f.arguments.records.map InputValue.name).Nodup) :
    IsFieldLine o s f (fieldLine o s f) := by
  rw [fieldLine, indentation, indent, Nat.one_mul]
  exact .line (listed_arranged h) (isDescription_description _ _) (areArguments_arguments _)
    (isDeprecation_deprecationText _) (areApplied_node f.node _)

theorem areInterfaces_implementsText (places : List TypeId) :
    AreInterfaces s places (implementsText s places) := by
  cases places with
  | nil => exact .none
  | cons i is =>
    rw [implementsText, if_neg (by simp), joined_eq_intercalate]
    exact .some (List.cons_ne_nil i is)

theorem isComposite_compositeBlock (keyword : String) {t : CompositeType}
    (hfields : (t.fields.map Field.name).Nodup)
    (harguments : ∀ f ∈ t.fields, (f.arguments.records.map InputValue.name).Nodup) :
    IsComposite o s keyword t (compositeBlock o s keyword t) := by
  have hlines := forall₂_map (arranged o Field.name t.fields) fun f hf =>
    isFieldLine_fieldLine (o := o) (s := s) (harguments f (mem_arranged.1 hf))
  have hform : IsComposite o s keyword t _ :=
    .block (listed_arranged hfields) (isDescription_description 0 t.description)
      (areInterfaces_implementsText t.interfaces) (areApplied_node t.node _) hlines
  rw [compositeBlock, body]
  simpa only [List.append_assoc, List.cons_append, List.nil_append] using hform

theorem isBlock_scalarBlock (t : ScalarType) : IsBlock o s (.scalar t) (scalarBlock t) := by
  rw [scalarBlock]
  refine .scalar (isDescription_description 0 t.description) ?_
  cases t.specifiedByUrl with
  | none => exact .none
  | some url => exact .some url

theorem isBlock_inputBlock {t : InputType} (h : (t.fields.map InputValue.name).Nodup) :
    IsBlock o s (.input t) (inputBlock o s t) := by
  have hlines := forall₂_map (arranged o InputValue.name t.fields) fun v _ =>
    isValueLine_inputValueLine (o := o) (s := s) 1 v
  have hform := IsBlock.input (listed_arranged h) (isDescription_description 0 t.description) hlines
  rw [inputBlock, body]
  simpa only [List.append_assoc, List.cons_append, List.nil_append] using hform

theorem isDirective_directiveBlock (d : DirectiveDefinition) :
    IsDirective d (directiveBlock d) := by
  rw [directiveBlock, joined_eq_intercalate]
  refine .block (isDescription_description 0 d.description) ?_ (inBrackets_bracketed _)
  exact forall₂_map d.arguments.values fun a _ => .text (isDefault_defaultText a.default)

end CodeFirst.Sdl
