import CodeFirst.Proofs.Index
import Mathlib.Computability.Language

/-! What is structurally wrong with a schema, said without its validator: defects of names, of field
sets, of applied directives and of implementations, each at a site of one type. The findings of a
schema are itemized by the sites of its defects. -/

namespace CodeFirst

def IsNameStart (c : Char) : Prop := c = '_' ∨ ('A' ≤ c ∧ c ≤ 'Z') ∨ ('a' ≤ c ∧ c ≤ 'z')

def IsNamePart (c : Char) : Prop := IsNameStart c ∨ ('0' ≤ c ∧ c ≤ '9')

/-- The words of one character out of a class. -/
def oneOf (p : Char → Prop) : Language Char := {w | ∃ c, p c ∧ w = [c]}

/-- The language `[_A-Za-z][_0-9A-Za-z]*`. -/
def nameLanguage : Language Char := oneOf IsNameStart * KStar.kstar (oneOf IsNamePart)

theorem mem_kstar_oneOf {p : Char → Prop} {w : List Char} :
    w ∈ KStar.kstar (oneOf p) ↔ ∀ c ∈ w, p c := by
  rw [Language.mem_kstar]
  constructor
  · rintro ⟨L, rfl, hL⟩ c hc
    obtain ⟨y, hy, hcy⟩ := List.mem_flatten.1 hc
    obtain ⟨d, hd, rfl⟩ := hL y hy
    rwa [List.mem_singleton.1 hcy]
  · intro h
    refine ⟨w.map ([·]), by rw [← List.flatMap_def, List.flatMap_singleton'], ?_⟩
    intro y hy
    obtain ⟨c, hc, rfl⟩ := List.mem_map.1 hy
    exact ⟨c, h c hc, rfl⟩

theorem mem_nameLanguage_cons {c : Char} {w : List Char} :
    c :: w ∈ nameLanguage ↔ IsNameStart c ∧ ∀ d ∈ w, IsNamePart d := by
  rw [nameLanguage, Language.mem_mul]
  constructor
  · rintro ⟨a, ⟨d, hd, rfl⟩, b, hb, hab⟩
    obtain ⟨rfl, rfl⟩ := List.cons.inj hab
    exact ⟨hd, mem_kstar_oneOf.1 hb⟩
  · rintro ⟨hc, hw⟩
    exact ⟨[c], ⟨c, hc, rfl⟩, w, mem_kstar_oneOf.2 hw, rfl⟩

theorem nil_notMem_nameLanguage : [] ∉ nameLanguage := by
  rw [nameLanguage, Language.mem_mul]
  rintro ⟨a, ⟨c, -, rfl⟩, b, -, hab⟩
  cases hab

theorem isNameStart_iff {c : Char} : isNameStart c = true ↔ IsNameStart c := by
  simp [isNameStart, IsNameStart, or_assoc]

theorem isNameContinue_iff {c : Char} : isNameContinue c = true ↔ IsNamePart c := by
  simp [isNameContinue, IsNamePart, isNameStart_iff]

theorem isValidName_iff {name : String} : isValidName name = true ↔ name.toList ∈ nameLanguage := by
  rw [isValidName]
  cases name.toList with
  | nil => simp [isNameChars, nil_notMem_nameLanguage]
  | cons c w =>
    rw [isNameChars, mem_nameLanguage_cons, Bool.and_eq_true, List.all_eq_true, isNameStart_iff]
    simp only [isNameContinue_iff]

theorem isReservedName_iff {name : String} :
    isReservedName name = true ↔ ['_', '_'] <+: name.toList := by
  rw [isReservedName]
  split
  · next w hw => simp [hw]
  · next hne =>
    refine ⟨fun h => by simp at h, ?_⟩
    rintro ⟨w, hw⟩
    exact absurd hw.symm (hne w)

/-- Where a field has a defect. -/
inductive FieldSite where
  | name
  | argument (k : Nat)
  | directive (k : Nat)
  deriving DecidableEq

/-- Where a type has a defect. -/
inductive TypeSite where
  | name
  | fields
  | directive (k : Nat)
  | field (j : Nat) (site : FieldSite)
  /-- A field of one of the implemented interfaces. -/
  | implementation (k j : Nat)
  deriving DecidableEq

/-- A name that is no GraphQL name or is reserved, with what is found. -/
inductive NameDefect (location : Location) (name : String) : Finding → Prop
  | invalid (h : name.toList ∉ nameLanguage) :
    NameDefect location name (.ofSite "E0021" "invalid name" location
      ("`" ++ name ++ "` is not a valid GraphQL name"))
  | reserved (h : name.toList ∈ nameLanguage) (hr : ['_', '_'] <+: name.toList) :
    NameDefect location name (.ofSite "E0021" "reserved name" location
      ("`" ++ name ++ "` starts with `__`, which is reserved for introspection"))

def emptyFinding (what name : String) : Finding :=
  .ofSite "E0020" "empty field set" (.ofOwner name)
    (what ++ " `" ++ name ++ "` must define one or more fields")

def unknownFinding (location : Location) (d : Directive) : Finding :=
  .ofSite "E0030" "unknown directive" location ("directive `@" ++ d.name ++ "` is not defined")

/-- What is found where an object lacks a field of an interface. -/
def missingFinding (object interface field : String) : Finding :=
  .ofSite "E0022" "missing interface field" (.ofOwner object)
    ("`" ++ object ++ "` implements `" ++ interface ++ "` but has no field `" ++ field ++ "`")

namespace Schema

variable (s : Schema)

def Undefined (d : Directive) : Prop := ∀ e ∈ s.directives, e.name ≠ d.name

inductive FieldDefect (owner : String) (f : Field) : FieldSite → Finding → Prop
  | name {x : Finding} (h : NameDefect (.ofMember owner f.name) f.name x) :
    FieldDefect owner f .name x
  | argument {k : Nat} {a : InputValue} {x : Finding} (ha : f.arguments.records[k]? = some a)
    (h : NameDefect ((Location.ofMember owner f.name).withIndex k) a.name x) :
    FieldDefect owner f (.argument k) x
  | directive {n : FieldNode} {k : Nat} {d : Directive} (hn : f.node = some n)
    (hd : n.directives[k]? = some d) (h : s.Undefined d) :
    FieldDefect owner f (.directive k) (unknownFinding (.ofMember owner f.name) d)

inductive CompositeDefect (t : CompositeType) : TypeSite → Finding → Prop
  | fields (h : t.fields = []) : CompositeDefect t .fields (emptyFinding "type" t.name)
  | directive {n : TypeDefinitionNode} {k : Nat} {d : Directive} (hn : t.node = some n)
    (hd : n.directives[k]? = some d) (h : s.Undefined d) :
    CompositeDefect t (.directive k) (unknownFinding (.ofOwner t.name) d)
  | field {j : Nat} {f : Field} {site : FieldSite} {x : Finding} (hf : t.fields[j]? = some f)
    (h : s.FieldDefect t.name f site x) : CompositeDefect t (.field j site) x

/-- Fields of an interface that an object type implements and lacks. -/
inductive ImplementationDefect (t : CompositeType) : TypeSite → Finding → Prop
  | missing {k : Nat} {id : TypeId} {i : CompositeType} {j : Nat} {f : Field}
    (hk : t.interfaces[k]? = some id) (hi : s.get? id = some (.interface i))
    (hf : i.fields[j]? = some f) (h : ∀ g ∈ t.fields, g.name ≠ f.name) :
    ImplementationDefect t (.implementation k j) (missingFinding t.name i.name f.name)

inductive InputDefect (t : InputType) : TypeSite → Finding → Prop
  | fields (h : t.fields = []) : InputDefect t .fields (emptyFinding "input type" t.name)
  | field {j : Nat} {v : InputValue} {x : Finding} (hv : t.fields[j]? = some v)
    (h : NameDefect (.ofMember t.name v.name) v.name x) : InputDefect t (.field j .name) x

inductive TypeDefect : NamedType → TypeSite → Finding → Prop
  | name {t : NamedType} {x : Finding} (h : NameDefect (.ofOwner t.name) t.name x) :
    TypeDefect t .name x
  | object {t : CompositeType} {site : TypeSite} {x : Finding} (h : s.CompositeDefect t site x) :
    TypeDefect (.object t) site x
  | implementation {t : CompositeType} {site : TypeSite} {x : Finding}
    (h : s.ImplementationDefect t site x) : TypeDefect (.object t) site x
  | interface {t : CompositeType} {site : TypeSite} {x : Finding}
    (h : s.CompositeDefect t site x) : TypeDefect (.interface t) site x
  | input {t : InputType} {site : TypeSite} {x : Finding} (h : InputDefect t site x) :
    TypeDefect (.input t) site x

/-- The defects of a schema: the place of a type, where it has the defect and what is found. -/
def Defect (place : TypeId × TypeSite) (x : Finding) : Prop :=
  ∃ t, s.get? place.1 = some t ∧ s.TypeDefect t place.2 x

def Defective : Prop := ∃ place x, s.Defect place x

/-- A report of a schema: one finding for each place of a defect, in the order of the types. -/
structure Reports (l : List ((TypeId × TypeSite) × Finding)) : Prop where
  mem_iff : ∀ place x, (place, x) ∈ l ↔ s.Defect place x
  nodup : (l.map Prod.fst).Nodup
  ordered : l.Pairwise fun a b => a.1.1 ≤ b.1.1

end Schema

/-- Findings that are itemized by the sites of some defects: one for each site. -/
def Itemizes {σ : Type} (fs : List Finding) (D : σ → Finding → Prop) : Prop :=
  ∃ l : List (σ × Finding), l.map Prod.snd = fs ∧ (l.map Prod.fst).Nodup ∧
    ∀ site x, (site, x) ∈ l ↔ D site x

namespace Itemizes

variable {σ τ α : Type} {fs gs : List Finding} {D E : σ → Finding → Prop}

theorem nil (h : ∀ site x, ¬ D site x) : Itemizes [] D := by
  refine ⟨[], rfl, List.nodup_nil, ?_⟩
  intro site x
  exact ⟨fun hm => absurd hm List.not_mem_nil, fun hd => absurd hd (h site x)⟩

theorem congr (h : Itemizes fs D) (hDE : ∀ site x, D site x ↔ E site x) : Itemizes fs E := by
  obtain ⟨l, hl, hnodup, hmem⟩ := h
  exact ⟨l, hl, hnodup, fun site x => (hmem site x).trans (hDE site x)⟩

theorem nodup_sites_append {l m : List (σ × Finding)} (hl : (l.map Prod.fst).Nodup)
    (hm : (m.map Prod.fst).Nodup) (h : ∀ site x y, (site, x) ∈ l → (site, y) ∉ m) :
    ((l ++ m).map Prod.fst).Nodup := by
  rw [List.map_append, List.nodup_append]
  refine ⟨hl, hm, ?_⟩
  intro a ha b hb hab
  subst hab
  obtain ⟨⟨site, x⟩, hx, rfl⟩ := List.mem_map.1 ha
  obtain ⟨⟨site', y⟩, hy, hsite⟩ := List.mem_map.1 hb
  obtain rfl : site' = site := hsite
  exact h site' x y hx hy

theorem append (h : Itemizes fs D) (h' : Itemizes gs E)
    (hdisjoint : ∀ site x y, D site x → ¬ E site y) :
    Itemizes (fs ++ gs) fun site x => D site x ∨ E site x := by
  obtain ⟨l, rfl, hnodup, hmem⟩ := h
  obtain ⟨m, rfl, hnodup', hmem'⟩ := h'
  refine ⟨l ++ m, List.map_append, ?_, ?_⟩
  · refine nodup_sites_append hnodup hnodup' ?_
    intro site x y hx hy
    exact hdisjoint site x y ((hmem _ _).1 hx) ((hmem' _ _).1 hy)
  · intro site x
    rw [List.mem_append, hmem, hmem']

theorem embed (h : Itemizes fs D) {e : σ → τ} (he : Function.Injective e) :
    Itemizes fs fun site x => ∃ inner, site = e inner ∧ D inner x := by
  obtain ⟨l, rfl, hnodup, hmem⟩ := h
  refine ⟨l.map fun d => (e d.1, d.2), ?_, ?_, ?_⟩
  · rw [List.map_map]
    rfl
  · have hfst : (l.map fun d => (e d.1, d.2)).map Prod.fst = (l.map Prod.fst).map e := by
      rw [List.map_map, List.map_map]
      rfl
    rw [hfst]
    exact hnodup.map he
  · intro site x
    rw [List.mem_map]
    constructor
    · rintro ⟨⟨inner, y⟩, hy, hpair⟩
      obtain ⟨rfl, rfl⟩ := Prod.mk.inj hpair
      exact ⟨inner, rfl, (hmem _ _).1 hy⟩
    · rintro ⟨inner, rfl, hx⟩
      exact ⟨(inner, x), (hmem _ _).2 hx, rfl⟩

theorem zipIdx (xs : List α) {n : Nat} {g : α × Nat → List Finding}
    {D : Nat → α → σ → Finding → Prop}
    (h : ∀ i a, xs[i]? = some a → Itemizes (g (a, n + i)) (D (n + i) a)) :
    ∃ l : List ((Nat × σ) × Finding), l.map Prod.snd = (xs.zipIdx n).flatMap g ∧
      (l.map Prod.fst).Nodup ∧ l.Pairwise (fun a b => a.1.1 ≤ b.1.1) ∧
      ∀ place x, (place, x) ∈ l ↔
        ∃ i a, xs[i]? = some a ∧ place.1 = n + i ∧ D (n + i) a place.2 x := by
  induction xs generalizing n with
  | nil => exact ⟨[], rfl, List.nodup_nil, .nil, by simp⟩
  | cons a rest ih =>
    obtain ⟨l, hl, hnodup, hmem⟩ := (h 0 a rfl).embed (Prod.mk_right_injective n)
    obtain ⟨m, hm, hnodup', hordered, hmem'⟩ := ih (n := n + 1) fun i b hb => by
      have hblock := h (i + 1) b hb
      rwa [Nat.add_right_comm, ← Nat.add_assoc] at *
    have hfirst : ∀ place x, (place, x) ∈ l → place.1 = n := by
      intro place x hx
      obtain ⟨site, rfl, -⟩ := (hmem place x).1 hx
      rfl
    have hlater : ∀ place x, (place, x) ∈ m → n + 1 ≤ place.1 := by
      intro place x hx
      obtain ⟨i, b, -, hi, -⟩ := (hmem' place x).1 hx
      omega
    refine ⟨l ++ m, ?_, ?_, ?_, ?_⟩
    · rw [List.map_append, hl, hm, List.zipIdx_cons, List.flatMap_cons]
      rfl
    · refine nodup_sites_append hnodup hnodup' ?_
      intro place x y hx hy
      have hpn := hfirst place x hx
      have hpn' := hlater place y hy
      omega
    · rw [List.pairwise_append]
      refine ⟨?_, hordered, ?_⟩
      · refine List.pairwise_iff_forall_sublist.2 ?_
        intro d e hde
        have hd := hfirst d.1 d.2 (hde.subset List.mem_cons_self)
        have he := hfirst e.1 e.2 (hde.subset (List.mem_cons_of_mem _ List.mem_cons_self))
        omega
      · intro d hd e he
        have hdn := hfirst d.1 d.2 hd
        have hen := hlater e.1 e.2 he
        omega
    · intro place x
      rw [List.mem_append, hmem, hmem']
      constructor
      · rintro (⟨site, rfl, hx⟩ | ⟨i, b, hb, hplace, hx⟩)
        · exact ⟨0, a, rfl, rfl, hx⟩
        · refine ⟨i + 1, b, hb, by omega, ?_⟩
          rwa [← Nat.add_assoc, Nat.add_right_comm]
      · rintro ⟨i, b, hb, hplace, hx⟩
        cases i with
        | zero =>
          obtain rfl := Option.some.inj hb
          exact .inl ⟨place.2, Prod.ext hplace rfl, hx⟩
        | succ i =>
          refine .inr ⟨i, b, hb, by omega, ?_⟩
          rwa [Nat.add_right_comm, Nat.add_assoc]

theorem flatMapIdx (xs : List α) {g : α × Nat → List Finding}
    {D : Nat → α → σ → Finding → Prop}
    (h : ∀ i a, xs[i]? = some a → Itemizes (g (a, i)) (D i a)) :
    Itemizes (xs.zipIdx.flatMap g) fun (place : Nat × σ) x =>
      ∃ a, xs[place.1]? = some a ∧ D place.1 a place.2 x := by
  obtain ⟨l, hl, hnodup, -, hmem⟩ := Itemizes.zipIdx xs (n := 0) (g := g) (D := D) fun i a ha => by
    rw [Nat.zero_add]
    exact h i a ha
  refine ⟨l, hl, hnodup, ?_⟩
  intro place x
  rw [hmem]
  simp only [Nat.zero_add]
  constructor
  · rintro ⟨i, a, ha, rfl, hx⟩
    exact ⟨a, ha, hx⟩
  · rintro ⟨a, ha, hx⟩
    exact ⟨place.1, a, ha, rfl, hx⟩

theorem flatMap (xs : List α) {g : α → List Finding} {D : α → σ → Finding → Prop}
    (h : ∀ a ∈ xs, Itemizes (g a) (D a)) : Itemizes (xs.flatMap g) fun (place : Nat × σ) x =>
      ∃ a, xs[place.1]? = some a ∧ D a place.2 x := by
  have hzip : xs.zipIdx.flatMap (fun e => g e.1) = xs.flatMap g := by
    rw [← List.flatMap_map, List.zipIdx_map_fst]
  rw [← hzip]
  exact flatMapIdx xs (D := fun _ => D) fun i a ha => h a (List.mem_of_getElem? ha)

theorem single (x : Finding) : Itemizes [x] fun (_ : Unit) y => y = x := by
  refine ⟨[((), x)], rfl, by simp, ?_⟩
  intro site y
  simp

theorem ite {p : Prop} [Decidable p] {x : Finding} :
    Itemizes (if p then [x] else []) fun (_ : Unit) y => p ∧ y = x := by
  by_cases hp : p
  · rw [if_pos hp]
    exact (single x).congr fun _ y => ⟨fun h => ⟨hp, h⟩, fun h => h.2⟩
  · rw [if_neg hp]
    exact nil fun _ _ h => hp h.1

theorem filterMap {xs : List α} {p : α → Bool} {F : α → Finding} :
    Itemizes ((xs.filter p).map F) fun (k : Nat) x =>
      ∃ a, xs[k]? = some a ∧ p a = true ∧ x = F a := by
  have hflat : (xs.filter p).map F = xs.flatMap fun a => if p a = true then [F a] else [] := by
    induction xs with
    | nil => rfl
    | cons a rest ih =>
      rw [List.filter_cons, List.flatMap_cons, ← ih]
      split <;> rfl
  rw [hflat]
  have hplaces := (flatMap xs fun a _ => ite (p := p a = true) (x := F a)).embed
    (e := fun place => place.1) fun a b hab => Prod.ext hab rfl
  refine hplaces.congr ?_
  intro k x
  constructor
  · rintro ⟨place, rfl, hx⟩
    exact hx
  · intro hx
    exact ⟨(k, ()), rfl, hx⟩

end Itemizes

namespace Schema

theorem nameFindings_itemizes (location : Location) (name : String) :
    Itemizes (nameFindings location name) fun (_ : Unit) x => NameDefect location name x := by
  rw [nameFindings]
  by_cases hvalid : isValidName name = true
  · have hname := isValidName_iff.1 hvalid
    rw [if_neg (by simp [hvalid])]
    refine Itemizes.ite.congr ?_
    intro _ x
    constructor
    · rintro ⟨hr, rfl⟩
      exact .reserved hname (isReservedName_iff.1 hr)
    · rintro (hinvalid | ⟨-, hr⟩)
      · exact absurd hname hinvalid
      · exact ⟨isReservedName_iff.2 hr, rfl⟩
  · have hname : name.toList ∉ nameLanguage := fun h => hvalid (isValidName_iff.2 h)
    rw [if_pos (by simp [hvalid])]
    refine (Itemizes.single _).congr ?_
    intro _ x
    constructor
    · rintro rfl
      exact .invalid hname
    · rintro (- | ⟨hvalid', -⟩)
      · rfl
      · exact absurd hvalid' hname

theorem emptyFindings_itemizes (what name : String) {α : Type} (l : List α) :
    Itemizes (emptyFindings what name l.length) fun (_ : Unit) x =>
      l = [] ∧ x = emptyFinding what name := by
  rw [emptyFindings]
  exact Itemizes.ite.congr fun _ x => and_congr_left fun _ => List.length_eq_zero_iff

variable (s : Schema)

theorem undefined_iff {d : Directive} : (s.directive? d.name).isNone = true ↔ s.Undefined d := by
  rw [directive?, Option.isNone_iff_eq_none, List.find?_eq_none]
  simp [Undefined]

theorem directiveFindings_itemizes {α : Type} (directives : α → List Directive)
    (location : Location) (node? : Option α) :
    Itemizes ((node?.map fun n => s.directiveFindings location (directives n)).getD [])
      fun (k : Nat) x => ∃ n d, node? = some n ∧ (directives n)[k]? = some d ∧ s.Undefined d ∧
        x = unknownFinding location d := by
  cases node? with
  | none =>
    refine Itemizes.nil ?_
    rintro k x ⟨n, d, hn, -⟩
    cases hn
  | some n =>
    refine Itemizes.filterMap.congr ?_
    intro k x
    constructor
    · rintro ⟨d, hd, hundefined, rfl⟩
      exact ⟨n, d, rfl, hd, s.undefined_iff.1 hundefined, rfl⟩
    · rintro ⟨n', d, hn, hd, hundefined, rfl⟩
      obtain rfl := Option.some.inj hn
      exact ⟨d, hd, s.undefined_iff.2 hundefined, rfl⟩

theorem argumentFindings_itemizes (location : Location) (arguments : List InputValue) :
    Itemizes (argumentFindings location arguments) fun (k : Nat) x =>
      ∃ a, arguments[k]? = some a ∧ NameDefect (location.withIndex k) a.name x := by
  have hfst : Function.Injective (Prod.fst : Nat × Unit → Nat) :=
    fun _ _ h => Prod.ext h rfl
  refine ((Itemizes.flatMapIdx arguments fun i a _ =>
    nameFindings_itemizes (location.withIndex i) a.name).embed hfst).congr ?_
  intro k x
  constructor
  · rintro ⟨place, rfl, h⟩
    exact h
  · intro h
    exact ⟨(k, ()), rfl, h⟩

theorem fieldFindings_itemizes (owner : String) (f : Field) :
    Itemizes (s.fieldFindings owner f) (s.FieldDefect owner f) := by
  have hname := (nameFindings_itemizes (.ofMember owner f.name) f.name).embed
    (e := fun _ => FieldSite.name) fun _ _ _ => rfl
  have harguments := (argumentFindings_itemizes (.ofMember owner f.name)
    f.arguments.records).embed (e := FieldSite.argument) fun _ _ h => FieldSite.argument.inj h
  have hdirectives := (s.directiveFindings_itemizes FieldNode.directives
    (.ofMember owner f.name) f.node).embed (e := FieldSite.directive) fun _ _ h =>
      FieldSite.directive.inj h
  refine ((hname.append harguments ?_).append hdirectives ?_).congr ?_
  · rintro site x y ⟨_, rfl, -⟩ ⟨_, hsite, -⟩
    cases hsite
  · rintro site x y (⟨_, rfl, -⟩ | ⟨_, rfl, -⟩) ⟨_, hsite, -⟩ <;> cases hsite
  · intro site x
    constructor
    · rintro ((⟨_, rfl, h⟩ | ⟨k, rfl, a, ha, h⟩) | ⟨k, rfl, n, d, hn, hd, h, rfl⟩)
      · exact .name h
      · exact .argument ha h
      · exact .directive hn hd h
    · rintro (h | ⟨ha, h⟩ | ⟨hn, hd, h⟩)
      · exact .inl (.inl ⟨(), rfl, h⟩)
      · exact .inl (.inr ⟨_, rfl, _, ha, h⟩)
      · exact .inr ⟨_, rfl, _, _, hn, hd, h, rfl⟩

theorem compositeFindings_itemizes (t : CompositeType) :
    Itemizes (s.compositeFindings t) (s.CompositeDefect t) := by
  have hempty := (emptyFindings_itemizes "type" t.name t.fields).embed
    (e := fun _ => TypeSite.fields) fun _ _ _ => rfl
  have hdirectives := (s.directiveFindings_itemizes TypeDefinitionNode.directives
    (.ofOwner t.name) t.node).embed (e := TypeSite.directive) fun _ _ h =>
      TypeSite.directive.inj h
  have hfields := (Itemizes.flatMap t.fields fun f _ =>
    s.fieldFindings_itemizes t.name f).embed (e := fun place => TypeSite.field place.1 place.2)
      fun _ _ h => Prod.ext (TypeSite.field.inj h).1 (TypeSite.field.inj h).2
  refine ((hempty.append hdirectives ?_).append hfields ?_).congr ?_
  · rintro site x y ⟨_, rfl, -⟩ ⟨_, hsite, -⟩
    cases hsite
  · rintro site x y (⟨_, rfl, -⟩ | ⟨_, rfl, -⟩) ⟨_, hsite, -⟩ <;> cases hsite
  · intro site x
    constructor
    · rintro ((⟨_, rfl, h, rfl⟩ | ⟨k, rfl, n, d, hn, hd, h, rfl⟩) | ⟨place, rfl, f, hf, h⟩)
      · exact .fields h
      · exact .directive hn hd h
      · exact .field hf h
    · rintro (h | ⟨hn, hd, h⟩ | ⟨hf, h⟩)
      · exact .inl (.inl ⟨(), rfl, h, rfl⟩)
      · exact .inl (.inr ⟨_, rfl, _, _, hn, hd, h, rfl⟩)
      · exact .inr ⟨(_, _), rfl, _, hf, h⟩

theorem field?_isNone_iff {t : CompositeType} (ht : t.Keyed) {name : String} :
    (t.field? name).isNone = true ↔ ∀ g ∈ t.fields, g.name ≠ name := by
  rw [Option.isNone_iff_eq_none, Option.eq_none_iff_forall_ne_some]
  constructor
  · intro h g hg hname
    exact h g (ht.field?_iff.2 ⟨hg, hname⟩)
  · intro h g hg
    obtain ⟨hmem, hname⟩ := ht.field?_iff.1 hg
    exact h g hmem hname

theorem implementationFindings_itemizes {t : CompositeType} (ht : t.Keyed) :
    Itemizes (s.implementationFindings t) (s.ImplementationDefect t) := by
  refine ((Itemizes.flatMap t.interfaces (D := fun id (j : Nat) x => ∃ i f,
    s.get? id = some (.interface i) ∧ i.fields[j]? = some f ∧
      (∀ g ∈ t.fields, g.name ≠ f.name) ∧ x = missingFinding t.name i.name f.name) ?_).embed
    (e := fun place => TypeSite.implementation place.1 place.2) fun _ _ h =>
      Prod.ext (TypeSite.implementation.inj h).1 (TypeSite.implementation.inj h).2).congr ?_
  · intro id _
    cases hget : (s.get? id).bind NamedType.interface? with
    | none =>
      refine Itemizes.nil ?_
      rintro j x ⟨i, f, hi, -⟩
      rw [hi] at hget
      cases hget
    | some i =>
      have hi : s.get? id = some (.interface i) := by
        obtain ⟨u, hu, hui⟩ := Option.bind_eq_some_iff.1 hget
        cases u with
        | interface i' => rw [hu, Option.some.inj hui]
        | _ => cases hui
      refine Itemizes.filterMap.congr ?_
      intro j x
      constructor
      · rintro ⟨f, hf, hnone, rfl⟩
        exact ⟨i, f, hi, hf, (field?_isNone_iff ht).1 hnone, rfl⟩
      · rintro ⟨i', f, hi', hf, hmissing, rfl⟩
        rw [hi, Option.some.injEq, NamedType.interface.injEq] at hi'
        subst hi'
        exact ⟨f, hf, (field?_isNone_iff ht).2 hmissing, rfl⟩
  · intro site x
    constructor
    · rintro ⟨place, rfl, id, hk, i, f, hi, hf, h, rfl⟩
      exact .missing hk hi hf h
    · rintro ⟨hk, hi, hf, h⟩
      exact ⟨(_, _), rfl, _, hk, _, _, hi, hf, h, rfl⟩

theorem inputFindings_itemizes (t : InputType) : Itemizes (inputFindings t) (InputDefect t) := by
  have hempty := (emptyFindings_itemizes "input type" t.name t.fields).embed
    (e := fun _ => TypeSite.fields) fun _ _ _ => rfl
  have hfields := (Itemizes.flatMap t.fields fun v _ =>
    nameFindings_itemizes (.ofMember t.name v.name) v.name).embed
      (e := fun place => TypeSite.field place.1 .name) fun _ _ h =>
        Prod.ext (TypeSite.field.inj h).1 rfl
  refine (hempty.append hfields ?_).congr ?_
  · rintro site x y ⟨_, rfl, -⟩ ⟨_, hsite, -⟩
    cases hsite
  · intro site x
    constructor
    · rintro (⟨_, rfl, h, rfl⟩ | ⟨place, rfl, v, hv, h⟩)
      · exact .fields h
      · exact .field hv h
    · rintro (h | ⟨hv, h⟩)
      · exact .inl ⟨(), rfl, h, rfl⟩
      · exact .inr ⟨(_, ()), rfl, _, hv, h⟩

theorem typeFindings_itemizes {t : NamedType} (ht : t.Keyed) :
    Itemizes (s.typeFindings t) (s.TypeDefect t) := by
  have hname := (nameFindings_itemizes (.ofOwner t.name) t.name).embed
    (e := fun _ => TypeSite.name) fun _ _ _ => rfl
  cases t with
  | scalar t =>
    refine (hname.append (Itemizes.nil (D := fun _ _ => False) fun _ _ h => h) ?_).congr ?_
    · exact fun _ _ _ _ h => h
    · intro site x
      constructor
      · rintro (⟨_, rfl, h⟩ | h)
        · exact .name h
        · exact h.elim
      · rintro (h | _ | _ | _ | _)
        exact .inl ⟨(), rfl, h⟩
  | object t =>
    have hrest := (s.compositeFindings_itemizes t).append (s.implementationFindings_itemizes ht) ?_
    · refine (hname.append hrest ?_).congr ?_
      · rintro site x y ⟨_, rfl, -⟩ (h | h) <;> cases h
      · intro site x
        constructor
        · rintro (⟨_, rfl, h⟩ | h | h)
          · exact .name h
          · exact .object h
          · exact .implementation h
        · rintro (h | h | h | _ | _)
          · exact .inl ⟨(), rfl, h⟩
          · exact .inr (.inl h)
          · exact .inr (.inr h)
    · rintro site x y h ⟨_, _, _, _⟩
      cases h
  | interface t =>
    refine (hname.append (s.compositeFindings_itemizes t) ?_).congr ?_
    · rintro site x y ⟨_, rfl, -⟩ h
      cases h
    · intro site x
      constructor
      · rintro (⟨_, rfl, h⟩ | h)
        · exact .name h
        · exact .interface h
      · rintro (h | _ | _ | h | _)
        · exact .inl ⟨(), rfl, h⟩
        · exact .inr h
  | input t =>
    refine (hname.append (inputFindings_itemizes t) ?_).congr ?_
    · rintro site x y ⟨_, rfl, -⟩ h
      cases h
    · intro site x
      constructor
      · rintro (⟨_, rfl, h⟩ | h)
        · exact .name h
        · exact .input h
      · rintro (h | _ | _ | _ | h)
        · exact .inl ⟨(), rfl, h⟩
        · exact .inr h

/-- The findings of a schema with keyed types are those of a report. -/
theorem exists_report (hkeyed : ∀ t ∈ s.types, t.Keyed) :
    ∃ l, s.Reports l ∧ s.findings = l.map Prod.snd := by
  obtain ⟨l, hl, hnodup, hordered, hmem⟩ := Itemizes.zipIdx s.types (n := 0)
    (g := fun e => s.typeFindings e.1) (D := fun _ => s.TypeDefect) fun i t ht =>
      s.typeFindings_itemizes (hkeyed t (List.mem_of_getElem? ht))
  refine ⟨l, ⟨?_, hnodup, hordered⟩, ?_⟩
  · intro place x
    rw [hmem]
    constructor
    · rintro ⟨i, t, ht, hplace, hx⟩
      rw [Nat.zero_add] at hplace
      exact ⟨t, hplace ▸ ht, hx⟩
    · rintro ⟨t, ht, hx⟩
      exact ⟨place.1, t, ht, (Nat.zero_add _).symm, hx⟩
  · rw [hl, ← List.flatMap_map, List.zipIdx_map_fst]
    rfl

theorem findings_eq_nil_iff (hkeyed : ∀ t ∈ s.types, t.Keyed) :
    s.findings = [] ↔ ¬ s.Defective := by
  obtain ⟨l, hl, hfindings⟩ := s.exists_report hkeyed
  rw [hfindings, List.map_eq_nil_iff, List.eq_nil_iff_forall_not_mem]
  constructor
  · rintro h ⟨place, x, hx⟩
    exact h _ ((hl.mem_iff place x).2 hx)
  · rintro h ⟨place, x⟩ hx
    exact h ⟨place, x, (hl.mem_iff place x).1 hx⟩

theorem check_of_defective (hkeyed : ∀ t ∈ s.types, t.Keyed)
    (h : s.Defective) :
    ∃ l, s.Reports l ∧ s.check = .error (.invalidSchema l.length (l.map Prod.snd)) := by
  obtain ⟨l, hl, hfindings⟩ := s.exists_report hkeyed
  refine ⟨l, hl, ?_⟩
  have hne : s.findings ≠ [] := fun hnil => (s.findings_eq_nil_iff hkeyed).1 hnil h
  rw [check]
  split
  · next hnil => exact absurd hnil hne
  · rw [hfindings, List.length_map]

end Schema

end CodeFirst
