import CodeFirst.Schema.Validation
import CodeFirst.Sdl.Printer
import Mathlib.Data.List.Forall2
import Mathlib.Data.List.Nodup

/-! What sorted printing sees of a schema. Places of types, the order of types and directives and
the order of fields and arguments are not among it; types, fields and arguments only have to
match. -/

namespace CodeFirst

section Matching

variable {α β : Type} {R : α → β → Prop}

/-- Each element of either list has a counterpart in the other. -/
def Matched (R : α → β → Prop) (l : List α) (m : List β) : Prop :=
  (∀ a ∈ l, ∃ b ∈ m, R a b) ∧ ∀ b ∈ m, ∃ a ∈ l, R a b

theorem Matched.eq_nil_iff {l : List α} {m : List β} (h : Matched R l m) : l = [] ↔ m = [] := by
  constructor
  · rintro rfl
    refine List.eq_nil_iff_forall_not_mem.2 ?_
    intro b hb
    obtain ⟨a, ha, -⟩ := h.2 b hb
    exact List.not_mem_nil ha
  · rintro rfl
    refine List.eq_nil_iff_forall_not_mem.2 ?_
    intro a ha
    obtain ⟨b, hb, -⟩ := h.1 a ha
    exact List.not_mem_nil hb

theorem Matched.mono {T : α → β → Prop} {l : List α} {m : List β} (h : Matched R l m)
    (hRT : ∀ a b, R a b → T a b) : Matched T l m := by
  refine ⟨?_, ?_⟩
  · intro a ha
    obtain ⟨b, hb, hab⟩ := h.1 a ha
    exact ⟨b, hb, hRT a b hab⟩
  · intro b hb
    obtain ⟨a, ha, hab⟩ := h.2 b hb
    exact ⟨a, ha, hRT a b hab⟩

theorem Matched.of_forall₂ {l : List α} {m : List β} (h : List.Forall₂ R l m) :
    Matched R l m := by
  induction h with
  | nil => exact ⟨by simp, by simp⟩
  | cons hab _ ih =>
    refine ⟨?_, ?_⟩
    · intro a ha
      rcases List.mem_cons.1 ha with rfl | ha
      · exact ⟨_, List.mem_cons_self, hab⟩
      · obtain ⟨b, hb, hr⟩ := ih.1 a ha
        exact ⟨b, List.mem_cons_of_mem _ hb, hr⟩
    · intro b hb
      rcases List.mem_cons.1 hb with rfl | hb
      · exact ⟨_, List.mem_cons_self, hab⟩
      · obtain ⟨a, ha, hr⟩ := ih.2 b hb
        exact ⟨a, List.mem_cons_of_mem _ ha, hr⟩

theorem Matched.forall_iff {l : List α} {m : List β} (h : Matched R l m) {P : α → Prop}
    {Q : β → Prop} (hR : ∀ a b, R a b → (P a ↔ Q b)) : (∀ a ∈ l, P a) ↔ ∀ b ∈ m, Q b := by
  constructor
  · intro hl b hb
    obtain ⟨a, ha, hab⟩ := h.2 b hb
    exact (hR a b hab).1 (hl a ha)
  · intro hm a ha
    obtain ⟨b, hb, hab⟩ := h.1 a ha
    exact (hR a b hab).2 (hm b hb)

theorem map_eq_of_forall₂ {γ : Type} {l : List α} {m : List β} (h : List.Forall₂ R l m)
    {f : α → γ} {g : β → γ} (hR : ∀ a b, R a b → f a = g b) : l.map f = m.map g := by
  induction h with
  | nil => rfl
  | cons hab _ ih => rw [List.map_cons, List.map_cons, hR _ _ hab, ih]

theorem Matched.map_perm {l : List α} {m : List β} (h : Matched R l m) {f : α → String}
    {g : β → String} (hR : ∀ a b, R a b → f a = g b) (hl : (l.map f).Nodup)
    (hm : (m.map g).Nodup) : (l.map f).Perm (m.map g) := by
  refine (List.perm_ext_iff_of_nodup hl hm).2 ?_
  intro n
  rw [List.mem_map, List.mem_map]
  constructor
  · rintro ⟨a, ha, rfl⟩
    obtain ⟨b, hb, hab⟩ := h.1 a ha
    exact ⟨b, hb, (hR a b hab).symm⟩
  · rintro ⟨b, hb, rfl⟩
    obtain ⟨a, ha, hab⟩ := h.2 b hb
    exact ⟨a, ha, hR a b hab⟩

def nameLe (m n : String) : Bool := !decide (n < m)

theorem nameLe_iff {m n : String} : nameLe m n = true ↔ m ≤ n := by
  rw [nameLe, Bool.not_eq_true', decide_eq_false_iff_not, String.not_lt]

theorem pairwise_mergeSort_nameLe (l : List String) :
    (l.mergeSort nameLe).Pairwise fun m n => m ≤ n := by
  have htrans : ∀ a b c, nameLe a b = true → nameLe b c = true → nameLe a c = true :=
    fun a b c hab hbc => nameLe_iff.2 (String.le_trans (nameLe_iff.1 hab) (nameLe_iff.1 hbc))
  have htotal : ∀ a b, (nameLe a b || nameLe b a) = true := by
    intro a b
    rw [Bool.or_eq_true, nameLe_iff, nameLe_iff]
    exact String.le_total a b
  exact (List.pairwise_mergeSort htrans htotal l).imp fun h => nameLe_iff.1 h

theorem mergeSort_eq_of_perm {l m : List String} (h : l.Perm m) :
    l.mergeSort nameLe = m.mergeSort nameLe := by
  have hperm : (l.mergeSort nameLe).Perm (m.mergeSort nameLe) :=
    ((List.mergeSort_perm l nameLe).trans h).trans (List.mergeSort_perm m nameLe).symm
  exact hperm.eq_of_pairwise (fun a b _ _ hab hba => String.le_antisymm hab hba)
    (pairwise_mergeSort_nameLe l) (pairwise_mergeSort_nameLe m)

theorem map_sortedByName (name : α → String) (l : List α) :
    (Sdl.sortedByName name l).map name = (l.map name).mergeSort nameLe :=
  List.map_mergeSort fun _ _ _ _ => rfl

theorem Matched.sortedByName {l : List α} {m : List β} (h : Matched R l m) {f : α → String}
    {g : β → String} (hR : ∀ a b, R a b → f a = g b) (hl : (l.map f).Nodup)
    (hm : (m.map g).Nodup) :
    List.Forall₂ R (Sdl.sortedByName f l) (Sdl.sortedByName g m) := by
  have hnames : (Sdl.sortedByName f l).map f = (Sdl.sortedByName g m).map g := by
    rw [map_sortedByName, map_sortedByName]
    exact mergeSort_eq_of_perm (h.map_perm hR hl hm)
  have hperm : (Sdl.sortedByName g m).Perm m := List.mergeSort_perm m _
  have hnodup : ((Sdl.sortedByName g m).map g).Nodup := ((hperm.map g).nodup_iff).2 hm
  have hlength : (Sdl.sortedByName f l).length = (Sdl.sortedByName g m).length := by
    have hlen := congrArg List.length hnames
    rwa [List.length_map, List.length_map] at hlen
  refine List.forall₂_iff_get.2 ⟨hlength, ?_⟩
  intro i hi hi'
  have hmem : (Sdl.sortedByName f l).get ⟨i, hi⟩ ∈ l :=
    (List.mergeSort_perm l _).subset (List.get_mem _ _)
  obtain ⟨b, hb, hab⟩ := h.1 _ hmem
  obtain ⟨j, hj, hjb⟩ := List.getElem_of_mem (hperm.symm.subset hb)
  have hname : g ((Sdl.sortedByName g m).get ⟨i, hi'⟩) = g b := by
    rw [← hR _ _ hab]
    have hget := congrArg (fun names => names[i]?) hnames
    simp only [List.getElem?_map, List.getElem?_eq_getElem hi, List.getElem?_eq_getElem hi',
      Option.map_some, Option.some.injEq] at hget
    exact hget.symm
  have hij : i = j := by
    have hi'' : i < ((Sdl.sortedByName g m).map g).length := by rwa [List.length_map]
    have hj'' : j < ((Sdl.sortedByName g m).map g).length := by rwa [List.length_map]
    have heq : ((Sdl.sortedByName g m).map g)[i] = ((Sdl.sortedByName g m).map g)[j] := by
      rw [List.getElem_map, List.getElem_map, hjb]
      exact hname
    exact (List.getElem_inj hnodup).1 heq
  subst hij
  rw [List.get_eq_getElem, List.get_eq_getElem, hjb]
  exact hab

end Matching

section Lift

inductive NamedType.Lift (C : CompositeType → CompositeType → Prop)
    (I : InputType → InputType → Prop) : NamedType → NamedType → Prop where
  | scalar (t : ScalarType) : Lift C I (.scalar t) (.scalar t)
  | object {t t' : CompositeType} (h : C t t') : Lift C I (.object t) (.object t')
  | interface {t t' : CompositeType} (h : C t t') : Lift C I (.interface t) (.interface t')
  | input {t t' : InputType} (h : I t t') : Lift C I (.input t) (.input t')

variable {C C' : CompositeType → CompositeType → Prop} {I I' : InputType → InputType → Prop}
  {t t' : NamedType}

theorem NamedType.Lift.mono (h : t.Lift C I t') (hC : ∀ c c', C c c' → C' c c')
    (hI : ∀ i i', I i i' → I' i i') : t.Lift C' I' t' := by
  cases h with
  | scalar t => exact .scalar t
  | object h => exact .object (hC _ _ h)
  | interface h => exact .interface (hC _ _ h)
  | input h => exact .input (hI _ _ h)

theorem NamedType.Lift.name (h : t.Lift C I t') (hC : ∀ c c', C c c' → c.name = c'.name)
    (hI : ∀ i i', I i i' → i.name = i'.name) : t.name = t'.name := by
  cases h with
  | scalar t => rfl
  | object h => exact hC _ _ h
  | interface h => exact hC _ _ h
  | input h => exact hI _ _ h

end Lift

section Appearance

variable (s s' : Schema)

/-- Arguments or input fields of the same content. -/
structure InputValue.Alike (v v' : InputValue) : Prop where
  name : v.name = v'.name
  description : v.description = v'.description
  default : v.default = v'.default
  type : s.typeText v.type = s'.typeText v'.type

structure Field.LooksLike (f f' : Field) : Prop where
  name : f.name = f'.name
  description : f.description = f'.description
  deprecation : f.deprecation = f'.deprecation
  type : s.typeText f.type = s'.typeText f'.type
  arguments : Matched (InputValue.Alike s s') f.arguments.records f'.arguments.records
  directives : f.node.map (·.directives) = f'.node.map (·.directives)
  nodup : (f.arguments.records.map InputValue.name).Nodup
  nodup' : (f'.arguments.records.map InputValue.name).Nodup

structure CompositeType.LooksLike (t t' : CompositeType) : Prop where
  name : t.name = t'.name
  description : t.description = t'.description
  interfaces : t.interfaces.map s.typeName = t'.interfaces.map s'.typeName
  directives : t.node.map (·.directives) = t'.node.map (·.directives)
  fields : Matched (Field.LooksLike s s') t.fields t'.fields
  nodup : (t.fields.map Field.name).Nodup
  nodup' : (t'.fields.map Field.name).Nodup

structure InputType.LooksLike (t t' : InputType) : Prop where
  name : t.name = t'.name
  description : t.description = t'.description
  fields : Matched (InputValue.Alike s s') t.fields t'.fields
  nodup : (t.fields.map InputValue.name).Nodup
  nodup' : (t'.fields.map InputValue.name).Nodup

abbrev NamedType.LooksLike : NamedType → NamedType → Prop :=
  NamedType.Lift (CompositeType.LooksLike s s') (InputType.LooksLike s s')

/-- Schemas whose types look the same when sorted. -/
structure Schema.LooksLike : Prop where
  types : Matched (NamedType.LooksLike s s') s.types s'.types
  nodup : (s.types.map NamedType.name).Nodup
  nodup' : (s'.types.map NamedType.name).Nodup

variable {s s'}

theorem NamedType.LooksLike.name {t t' : NamedType} (h : t.LooksLike s s' t') :
    t.name = t'.name := Lift.name h (fun _ _ h => h.name) fun _ _ h => h.name

namespace Sdl

variable {o : PrintOptions}

theorem inputValue_eq {v v' : InputValue} (h : v.Alike s s' v') :
    inputValue s v = inputValue s' v' := by
  unfold inputValue
  rw [h.name, h.type, h.default]

theorem inputValueLine_eq {v v' : InputValue} (h : v.Alike s s' v') (level : Nat) :
    inputValueLine o s level v = inputValueLine o s' level v' := by
  unfold inputValueLine
  rw [h.description, inputValue_eq h]

theorem arguments_eq {vs vs' : List InputValue}
    (h : List.Forall₂ (InputValue.Alike s s') vs vs') : arguments o s vs = arguments o s' vs' := by
  have hplain : vs.map (inputValue s) = vs'.map (inputValue s') :=
    map_eq_of_forall₂ h fun _ _ => inputValue_eq
  have hlines : vs.map (inputValueLine o s 2) = vs'.map (inputValueLine o s' 2) :=
    map_eq_of_forall₂ h fun _ _ hv => inputValueLine_eq hv 2
  have hnone : vs.map (·.description.isNone) = vs'.map (·.description.isNone) :=
    map_eq_of_forall₂ h fun _ _ hv => by rw [hv.description]
  have hall : vs.all (·.description.isNone) = vs'.all (·.description.isNone) := by
    have heq := congrArg (List.all · id) hnone
    simpa [List.all_map] using heq
  unfold arguments
  rw [hall, hplain, List.flatMap_def, List.flatMap_def, hlines]

/-- Matching lists of things with different names are in step once they are arranged by name. -/
theorem Matched.arranged (ho : o.sortTypes = true) {α β : Type} {R : α → β → Prop} {l : List α}
    {m : List β} (h : Matched R l m) {f : α → String} {g : β → String}
    (hR : ∀ a b, R a b → f a = g b) (hl : (l.map f).Nodup) (hm : (m.map g).Nodup) :
    List.Forall₂ R (arranged o f l) (arranged o g m) := by
  unfold Sdl.arranged
  rw [if_pos ho, if_pos ho]
  exact h.sortedByName hR hl hm

theorem appliedDirectives_eq {α β : Type} {ds : α → List Directive} {ds' : β → List Directive}
    {n : Option α} {n' : Option β} (h : n.map ds = n'.map ds') :
    (n.map fun x => appliedDirectives o (ds x)) = n'.map fun x => appliedDirectives o (ds' x) := by
  have heq := congrArg (Option.map (appliedDirectives o)) h
  simpa [Option.map_map, Function.comp_def] using heq

theorem fieldLine_eq (ho : o.sortTypes = true) {f f' : Field} (h : f.LooksLike s s' f') :
    fieldLine o s f = fieldLine o s' f' := by
  have hsorted : List.Forall₂ (InputValue.Alike s s')
      (arranged o InputValue.name f.arguments.records)
      (arranged o InputValue.name f'.arguments.records) :=
    Matched.arranged ho h.arguments (fun _ _ hv => hv.name) h.nodup h.nodup'
  have hnode := appliedDirectives_eq (o := o) h.directives
  unfold fieldLine
  rw [h.description, h.name, arguments_eq hsorted, h.type, h.deprecation, hnode]

theorem compositeBlock_eq (ho : o.sortTypes = true) (keyword : String) {t t' : CompositeType}
    (h : t.LooksLike s s' t') :
    compositeBlock o s keyword t = compositeBlock o s' keyword t' := by
  have hsorted : List.Forall₂ (Field.LooksLike s s') (arranged o Field.name t.fields)
      (arranged o Field.name t'.fields) :=
    Matched.arranged ho h.fields (fun _ _ hf => hf.name) h.nodup h.nodup'
  have hlines : (arranged o Field.name t.fields).map (fieldLine o s) =
      (arranged o Field.name t'.fields).map (fieldLine o s') :=
    map_eq_of_forall₂ hsorted fun _ _ hf => fieldLine_eq ho hf
  have hinterfaces : implementsText s t.interfaces = implementsText s' t'.interfaces := by
    have hnames : (t.interfaces.map fun i => (s.typeName i).toList) =
        t'.interfaces.map fun i => (s'.typeName i).toList := by
      have heq := congrArg (List.map String.toList) h.interfaces
      rwa [List.map_map, List.map_map] at heq
    have hempty : t.interfaces.isEmpty = t'.interfaces.isEmpty := by
      have heq := congrArg List.isEmpty hnames
      simpa using heq
    unfold implementsText
    rw [hempty, hnames]
  have hnode := appliedDirectives_eq (o := o) h.directives
  unfold compositeBlock
  rw [h.description, h.name, hinterfaces, hnode, hlines]

theorem inputBlock_eq (ho : o.sortTypes = true) {t t' : InputType} (h : t.LooksLike s s' t') :
    inputBlock o s t = inputBlock o s' t' := by
  have hsorted : List.Forall₂ (InputValue.Alike s s') (arranged o InputValue.name t.fields)
      (arranged o InputValue.name t'.fields) :=
    Matched.arranged ho h.fields (fun _ _ hv => hv.name) h.nodup h.nodup'
  have hlines : (arranged o InputValue.name t.fields).map (inputValueLine o s 1) =
      (arranged o InputValue.name t'.fields).map (inputValueLine o s' 1) :=
    map_eq_of_forall₂ hsorted fun _ _ hv => inputValueLine_eq hv 1
  unfold inputBlock
  rw [h.description, h.name, hlines]

theorem typeBlock_eq (ho : o.sortTypes = true) {t t' : NamedType} (h : t.LooksLike s s' t') :
    typeBlock o s t = typeBlock o s' t' := by
  cases h with
  | scalar t => rfl
  | object h => exact compositeBlock_eq ho "type" h
  | interface h => exact compositeBlock_eq ho "interface" h
  | input h => exact inputBlock_eq ho h

theorem isPrinted_eq {t t' : NamedType} (h : t.LooksLike s s' t') :
    isPrinted t = isPrinted t' := by
  cases h <;> rfl

/-- Schemas that look the same, with the same directives in order, print the same when sorted. -/
theorem print_eq_of_looksLike (ho : o.sortTypes = true) (h : s.LooksLike s')
    (hd : orderedDirectives o s = orderedDirectives o s') : print o s = print o s' := by
  have hsorted :
      List.Forall₂ (NamedType.LooksLike s s') (orderedTypes o s) (orderedTypes o s') := by
    unfold orderedTypes
    rw [if_pos ho, if_pos ho]
    exact h.types.sortedByName (fun _ _ ht => ht.name) h.nodup h.nodup'
  have htypes : ((orderedTypes o s).filter isPrinted).map (typeBlock o s) =
      ((orderedTypes o s').filter isPrinted).map (typeBlock o s') := by
    generalize orderedTypes o s = l, orderedTypes o s' = l' at hsorted
    induction hsorted with
    | nil => rfl
    | cons ht _ ih =>
      rw [List.filter_cons, List.filter_cons, isPrinted_eq ht]
      split
      · rw [List.map_cons, List.map_cons, typeBlock_eq ho ht, ih]
      · exact ih
  have hblocks : blocks o s = blocks o s' := by
    unfold blocks
    rw [hd, htypes]
  unfold print chars
  rw [hblocks]

end Sdl

end Appearance

end CodeFirst
