import CodeFirst.Proofs.JsonForms

/-! Options and federation directives read alike from an object and from one that leaves out members
at their defaults, also deep inside. With the way back from their JSON form, these are the laws that
both keep. -/

namespace CodeFirst

namespace Json

/-- Equal, or with items of an array or values of an object that are related one by one. -/
inductive Each (R : Json → Json → Prop) : Json → Json → Prop
  | same (v : Json) : Each R v v
  | arr {l m : List Json} (h : List.Forall₂ R l m) : Each R (.arr l) (.arr m)
  | obj {l m : List (String × Json)}
      (h : List.Forall₂ (fun e e' => e.1 = e'.1 ∧ R e.2 e'.2) l m) : Each R (.obj l) (.obj m)

/-- The first object leaves out members that stand in the second one at their defaults. The values
of the others are related. -/
structure Omits (defaults : List (String × Json)) (R : String → Json → Json → Prop)
    (m full : OrderedMap String Json) : Prop where
  shared : ∀ k v, m.get? k = some v → ∃ w, full.get? k = some w ∧ R k v w
  added : ∀ k w, full.get? k = some w → m.get? k = none → lookupEntry k defaults = some w

/-- Equal, or an object and the same one with more of the members that have a default. -/
inductive Abridges (defaults : List (String × Json)) (R : String → Json → Json → Prop) :
    Json → Json → Prop
  | same (v : Json) : Abridges defaults R v v
  | obj {m full : OrderedMap String Json} (h : Omits defaults R m full) :
      Abridges defaults R (.ofMap m) (.ofMap full)

end Json

namespace Shape

variable {α : Type} {shape : Shape α}

/-- Related values read alike, or neither of them does. -/
def Respects (shape : Shape α) (R : Json → Json → Prop) : Prop :=
  ∀ v w, R v w → shape.ofJson v = shape.ofJson w

theorem Respects.of_eq : shape.Respects Eq := fun _ _ h => congrArg shape.ofJson h

theorem Respects.list {R : Json → Json → Prop} (hR : shape.Respects R) :
    (list shape).Respects (Json.Each R) := by
  intro v w h
  cases h with
  | same => rfl
  | obj => rfl
  | arr h =>
    change items shape (Tree.ofItems _) = items shape (Tree.ofItems _)
    induction h with
    | nil => rfl
    | cons hvw _ ih =>
      have hhead : shape (.ofJson _) = shape (.ofJson _) := hR _ _ hvw
      simp only [Tree.ofItems, items, hhead, ih]

theorem Respects.map {R : Json → Json → Prop} (hR : shape.Respects R) :
    (map shape).Respects (Json.Each R) := by
  intro v w h
  cases h with
  | same => rfl
  | arr => rfl
  | @obj l m h =>
    have hmembers : members shape (Tree.ofMembers l) = members shape (Tree.ofMembers m) := by
      induction h with
      | nil => rfl
      | cons he _ ih =>
        have hhead : shape (.ofJson _) = shape (.ofJson _) := hR _ _ he.2
        simp only [Tree.ofMembers, members, he.1, hhead, ih]
    exact congrArg (Option.map OrderedMap.ofList) hmembers

end Shape

namespace Json.Omits

variable {α : Type} {defaults : List (String × Json)} {R : String → Json → Json → Prop}
  {m full : OrderedMap String Json} (h : Omits defaults R m full) (k : String)

include h

theorem member_eq (shape : Shape α) (hk : lookupEntry k defaults = none)
    (hR : shape.Respects (R k)) : shape.member k m.entries = shape.member k full.entries := by
  change (m.get? k).bind _ = (full.get? k).bind _
  cases hm : m.get? k with
  | some v =>
    obtain ⟨w, hw, hvw⟩ := h.shared k v hm
    rw [hw]
    exact hR v w hvw
  | none =>
    cases hw : full.get? k with
    | none => rfl
    | some w => rw [h.added k w hw hm] at hk; cases hk

theorem memberOr_eq (default : α) (shape : Shape α) {v₀ : Json}
    (hk : lookupEntry k defaults = some v₀) (hdefault : shape.ofJson v₀ = some default)
    (hR : shape.Respects (R k)) :
    shape.memberOr default k m.entries = shape.memberOr default k full.entries := by
  change (m.get? k).elim _ _ = (full.get? k).elim _ _
  cases hm : m.get? k with
  | some v =>
    obtain ⟨w, hw, hvw⟩ := h.shared k v hm
    rw [hw]
    exact hR v w hvw
  | none =>
    cases hw : full.get? k with
    | none => rfl
    | some w =>
      have hv : v₀ = w := Option.some.inj (hk.symm.trans (h.added k w hw hm))
      exact hv ▸ hdefault.symm

end Json.Omits

theorem Shape.respects_abridges {α : Type} {shape : Shape α}
    {read : List (String × Json) → Option α} {defaults : List (String × Json)}
    {R : String → Json → Json → Prop}
    (hread : ∀ {l}, (l.map Prod.fst).Nodup → shape.ofJson (.obj l) = read l)
    (h : ∀ {m full}, Json.Omits defaults R m full → read m.entries = read full.entries) :
    shape.Respects (Json.Abridges defaults R) := by
  intro v w hvw
  cases hvw with
  | same => rfl
  | @obj m full hm =>
    exact (hread m.keys_nodup).trans ((h hm).trans (hread full.keys_nodup).symm)

namespace ScalarType

def defaults : List (String × Json) := [("description", .null), ("specifiedByUrl", .null)]

/-- The first document is the second one, perhaps without members at their defaults. -/
def Abridges : Json → Json → Prop := Json.Abridges defaults fun _ => Eq

theorem respects_abridges : shape.Respects Abridges :=
  Shape.respects_abridges ofJson_obj fun h => by
    rw [h.member_eq "name" .string rfl .of_eq,
      h.memberOr_eq "description" none (.nullable .string) rfl rfl .of_eq,
      h.memberOr_eq "specifiedByUrl" none (.nullable .string) rfl rfl .of_eq]

end ScalarType

namespace DirectiveArgument

def defaults : List (String × Json) := [("description", .null), ("defaultValue", .null)]

def Abridges : Json → Json → Prop := Json.Abridges defaults fun _ => Eq

theorem respects_abridges : shape.Respects Abridges :=
  Shape.respects_abridges ofJson_obj fun h => by
    rw [h.member_eq "name" .string rfl .of_eq,
      h.memberOr_eq "description" none (.nullable .string) rfl rfl .of_eq,
      h.member_eq "type" .string rfl .of_eq,
      h.memberOr_eq "defaultValue" none (.nullable .value) rfl rfl .of_eq]

end DirectiveArgument

namespace DirectiveDefinition

def defaults : List (String × Json) :=
  [("description", .null), ("arguments", .obj []), ("repeatable", .bool false)]

def Abridges : Json → Json → Prop :=
  Json.Abridges defaults fun
    | "arguments" => Json.Each DirectiveArgument.Abridges
    | _ => Eq

theorem respects_abridges : shape.Respects Abridges :=
  Shape.respects_abridges ofJson_obj fun h => by
    rw [h.member_eq "name" .string rfl .of_eq,
      h.memberOr_eq "description" none (.nullable .string) rfl rfl .of_eq,
      h.memberOr_eq "arguments" ∅ (.map DirectiveArgument.shape) rfl rfl
        (.map DirectiveArgument.respects_abridges),
      h.member_eq "locations" (.list DirectiveLocation.shape) rfl .of_eq,
      h.memberOr_eq "repeatable" false .bool rfl rfl .of_eq]

end DirectiveDefinition

namespace BuildOptions

def defaults : List (String × Json) :=
  [("scalarsMap", .obj []), ("dateScalarMode", .str "isoDate"),
    ("numberScalarMode", .str "float"), ("directives", .arr []), ("skipCheck", .bool false),
    ("orphanDirectives", .arr [])]

def Abridges : Json → Json → Prop :=
  Json.Abridges defaults fun
    | "scalarsMap" => Json.Each ScalarType.Abridges
    | "directives" => Json.Each DirectiveDefinition.Abridges
    | _ => Eq

theorem respects_abridges : shape.Respects Abridges :=
  Shape.respects_abridges ofJson_obj fun h => by
    rw [h.memberOr_eq "scalarsMap" ∅ (.map ScalarType.shape) rfl rfl
        (.map ScalarType.respects_abridges),
      h.memberOr_eq "dateScalarMode" .isoDate DateMode.shape rfl rfl .of_eq,
      h.memberOr_eq "numberScalarMode" .float NumberMode.shape rfl rfl .of_eq,
      h.memberOr_eq "directives" [] (.list DirectiveDefinition.shape) rfl rfl
        (.list DirectiveDefinition.respects_abridges),
      h.memberOr_eq "skipCheck" false .bool rfl rfl .of_eq,
      h.memberOr_eq "orphanDirectives" [] (.list .string) rfl rfl .of_eq]

end BuildOptions

namespace FederationSet

def defaults : List (String × Json) :=
  [("directives", .arr []), ("scalars", .arr []), ("orphanDirectives", .arr [])]

def Abridges : Json → Json → Prop :=
  Json.Abridges defaults fun
    | "directives" => Json.Each DirectiveDefinition.Abridges
    | "scalars" => Json.Each ScalarType.Abridges
    | _ => Eq

theorem respects_abridges : shape.Respects Abridges :=
  Shape.respects_abridges ofJson_obj fun h => by
    rw [h.memberOr_eq "directives" [] (.list DirectiveDefinition.shape) rfl rfl
        (.list DirectiveDefinition.respects_abridges),
      h.memberOr_eq "scalars" [] (.list ScalarType.shape) rfl rfl
        (.list ScalarType.respects_abridges),
      h.memberOr_eq "orphanDirectives" [] (.list .string) rfl rfl .of_eq]

end FederationSet

theorem Tree.eq_null_of_value? {t : Tree} (h : t.value? = some .null) : t = .null := by
  cases t <;> simp [value?, Json.ofMap] at h ⊢

namespace Shape

theorem ensures_nullable_value :
    (nullable value).Ensures fun d => (∀ v ∈ d, v.Regular) ∧ d ≠ some .null := by
  intro t d hd
  by_cases ht : t = .null
  · subst ht
    cases hd
    simp
  · have hvalue : t.value?.map some = some d := by
      cases t with
      | null => exact absurd rfl ht
      | _ => exact hd
    obtain ⟨v, hv, rfl⟩ := Option.map_eq_some_iff.1 hvalue
    refine ⟨?_, ?_⟩
    · intro w hw
      cases hw
      exact Tree.regular_of_value? hv
    · intro hnull
      cases hnull
      exact ht (Tree.eq_null_of_value? hv)

end Shape

namespace DirectiveArgument

theorem ensures_default :
    shape.Ensures fun a => (∀ v ∈ a.default, v.Regular) ∧ a.default ≠ some .null := by
  intro t a ha
  simp only [shape, Option.bind_eq_bind, Option.bind_eq_some_iff, Option.pure_def,
    Option.some.injEq] at ha
  obtain ⟨fs, -, name, -, description, -, type, -, default, hdefault, rfl⟩ := ha
  exact Shape.ensures_nullable_value.defaulted ⟨by simp, by simp⟩ hdefault

end DirectiveArgument

namespace DirectiveDefinition

theorem ensures_arguments :
    shape.Ensures fun d => ∀ a ∈ d.arguments.values,
      (∀ v ∈ a.default, v.Regular) ∧ a.default ≠ some .null := by
  intro t d hd
  simp only [shape, Option.bind_eq_bind, Option.bind_eq_some_iff, Option.pure_def,
    Option.some.injEq] at hd
  obtain ⟨fs, -, name, -, description, -, arguments, harguments, -, -, -, -, rfl⟩ := hd
  exact DirectiveArgument.ensures_default.map.defaulted
    (fun a ha => absurd ha List.not_mem_nil) harguments

theorem settled_nil : RegularDefaults [] ∧ NoNullDefaults [] :=
  ⟨fun _ hd => absurd hd List.not_mem_nil, fun _ hd => absurd hd List.not_mem_nil⟩

theorem ensures_list :
    (Shape.list shape).Ensures fun l => RegularDefaults l ∧ NoNullDefaults l := by
  intro t l hl
  have hall := ensures_arguments.list t l hl
  exact ⟨fun d hd a ha => (hall d hd a ha).1, fun d hd a ha => (hall d hd a ha).2⟩

end DirectiveDefinition

/-- The laws of a form with directive definitions in it. What is written is read again unless a
`null` default is lost, and then its form is the same; members may be left out at their defaults;
and whatever has been read has no default that could be lost. -/
structure Shape.Faithful {α : Type} (encode : α → Json) (shape : Shape α)
    (directives : α → List DirectiveDefinition) (Abridges : Json → Json → Prop) : Prop where
  survives : ∀ x, DirectiveDefinition.RegularDefaults (directives x) →
    DirectiveDefinition.NoNullDefaults (directives x) → shape.ofJson (encode x) = some x
  stable : ∀ x, DirectiveDefinition.RegularDefaults (directives x) →
    ∃ y, shape.ofJson (encode x) = some y ∧ encode y = encode x
  fills : ∀ v w, Abridges v w → shape.ofJson v = shape.ofJson w
  settled : ∀ t x, shape t = some x → DirectiveDefinition.RegularDefaults (directives x) ∧
    DirectiveDefinition.NoNullDefaults (directives x)

theorem BuildOptions.faithful : Shape.Faithful toJson shape (·.directives) Abridges where
  survives o hregular hnull := by
    have hreads := (readsAs hregular).reads
    rwa [DirectiveDefinition.map_withoutNulls hnull] at hreads
  stable o hregular := ⟨_, (readsAs hregular).reads, (readsAs hregular).same⟩
  fills := respects_abridges
  settled t o ho := by
    simp only [shape, Option.bind_eq_bind, Option.bind_eq_some_iff, Option.pure_def,
      Option.some.injEq] at ho
    obtain ⟨fs, -, scalarsMap, -, dateMode, -, numberMode, -, directives, hdirectives, -, -, -, -,
      rfl⟩ := ho
    exact DirectiveDefinition.ensures_list.defaulted DirectiveDefinition.settled_nil hdirectives

theorem FederationSet.faithful : Shape.Faithful toJson shape (·.directives) Abridges where
  survives s hregular hnull := by
    have hreads := (readsAs hregular).reads
    rwa [DirectiveDefinition.map_withoutNulls hnull] at hreads
  stable s hregular := ⟨_, (readsAs hregular).reads, (readsAs hregular).same⟩
  fills := respects_abridges
  settled t s hs := by
    simp only [shape, Option.bind_eq_bind, Option.bind_eq_some_iff, Option.pure_def,
      Option.some.injEq] at hs
    obtain ⟨fs, -, directives, hdirectives, -, -, -, -, rfl⟩ := hs
    exact DirectiveDefinition.ensures_list.defaulted DirectiveDefinition.settled_nil hdirectives

/-- Options and federation directives survive their JSON form. -/
theorem Shape.faithful_options :
    Faithful BuildOptions.toJson BuildOptions.shape (·.directives) BuildOptions.Abridges ∧
      Faithful FederationSet.toJson FederationSet.shape (·.directives) FederationSet.Abridges :=
  ⟨BuildOptions.faithful, FederationSet.faithful⟩

def DirectiveDefinition.paged (default : Json) : DirectiveDefinition :=
  make "paged" "Splits a list into pages." [⟨"page", none, "Page", some default⟩] [.object]

def BuildOptions.paged (default : Json) : BuildOptions :=
  { standard with
    scalarsMap := .ofList [("Date", .named "LocalDate")], directives := [.paged default] }

def FederationSet.paged (default : Json) : FederationSet :=
  { apollo with directives := [external, .paged default] }

def BuildOptions.brief : OrderedMap String Json :=
  .ofList [("dateScalarMode", .str "timestamp"),
    ("scalarsMap", .obj [("Date", .obj [("name", .str "LocalDate")])]), ("skipCheck", .bool true)]

def BuildOptions.detailed : OrderedMap String Json :=
  .ofList [("scalarsMap", .obj [("Date", .obj [("name", .str "LocalDate"),
      ("description", .null)])]), ("dateScalarMode", .str "timestamp"), ("directives", .arr []),
    ("skipCheck", .bool true)]

theorem DirectiveDefinition.values_paged (v : Json) :
    (paged v).arguments.values = [⟨"page", none, "Page", some v⟩] := rfl

theorem ScalarType.abridges_named (name : String) :
    Abridges (.obj [("name", .str name)]) (.obj [("name", .str name), ("description", .null)]) := by
  change Abridges (.ofMap (.ofList [("name", .str name)]))
    (.ofMap (.ofList [("name", .str name), ("description", .null)]))
  refine .obj ⟨?_, ?_⟩
  · intro k v hk
    have hmem : (k, v) ∈ [("name", Json.str name)] := OrderedMap.get?_eq_some_iff.1 hk
    simp only [List.mem_singleton, Prod.mk.injEq] at hmem
    obtain ⟨rfl, rfl⟩ := hmem
    exact ⟨_, rfl, rfl⟩
  · intro k w hk hnone
    have hmem : (k, w) ∈ [("name", Json.str name), ("description", Json.null)] :=
      OrderedMap.get?_eq_some_iff.1 hk
    simp only [List.mem_cons, List.not_mem_nil, Prod.mk.injEq, or_false] at hmem
    obtain ⟨rfl, rfl⟩ | ⟨rfl, rfl⟩ := hmem
    · cases hnone
    · rfl

theorem BuildOptions.abridges_detailed : Abridges (.ofMap brief) (.ofMap detailed) := by
  refine .obj ⟨?_, ?_⟩
  · intro k v hk
    have hmem : (k, v) ∈ brief.entries := OrderedMap.get?_eq_some_iff.1 hk
    change (k, v) ∈ [("dateScalarMode", Json.str "timestamp"),
      ("scalarsMap", .obj [("Date", .obj [("name", .str "LocalDate")])]),
      ("skipCheck", .bool true)] at hmem
    simp only [List.mem_cons, List.not_mem_nil, Prod.mk.injEq, or_false] at hmem
    obtain ⟨rfl, rfl⟩ | ⟨rfl, rfl⟩ | ⟨rfl, rfl⟩ := hmem
    · exact ⟨_, rfl, rfl⟩
    · exact ⟨_, rfl, .obj (.cons ⟨rfl, ScalarType.abridges_named _⟩ .nil)⟩
    · exact ⟨_, rfl, rfl⟩
  · intro k w hk hnone
    have hmem : (k, w) ∈ detailed.entries := OrderedMap.get?_eq_some_iff.1 hk
    change (k, w) ∈ [("scalarsMap", Json.obj [("Date", .obj [("name", .str "LocalDate"),
      ("description", .null)])]), ("dateScalarMode", .str "timestamp"), ("directives", .arr []),
      ("skipCheck", .bool true)] at hmem
    simp only [List.mem_cons, List.not_mem_nil, Prod.mk.injEq, or_false] at hmem
    obtain ⟨rfl, rfl⟩ | ⟨rfl, rfl⟩ | ⟨rfl, rfl⟩ | ⟨rfl, rfl⟩ := hmem
    · cases hnone
    · cases hnone
    · rfl
    · cases hnone

theorem Shape.faithful_options_paged :
    BuildOptions.shape.ofJson (BuildOptions.paged (.arr [.null])).toJson =
        some (BuildOptions.paged (.arr [.null])) ∧
      (∃ s, FederationSet.shape.ofJson (FederationSet.paged .null).toJson = some s ∧
        s.toJson = (FederationSet.paged .null).toJson) ∧
      BuildOptions.shape.ofJson (.ofMap BuildOptions.brief) =
        BuildOptions.shape.ofJson (.ofMap BuildOptions.detailed) := by
  refine ⟨?_, ?_, ?_⟩
  · refine faithful_options.1.survives _ ?_ ?_
    · have hitem : (Json.arr [.null]).Regular := .arr (by simpa using Json.Regular.null)
      simp [DirectiveDefinition.RegularDefaults, BuildOptions.paged,
        DirectiveDefinition.values_paged, hitem]
    · simp [DirectiveDefinition.NoNullDefaults, BuildOptions.paged,
        DirectiveDefinition.values_paged]
  · refine faithful_options.2.stable _ ?_
    have hexternal : FederationSet.external.arguments.values = [] := rfl
    simp [DirectiveDefinition.RegularDefaults, FederationSet.paged,
      DirectiveDefinition.values_paged, hexternal, Json.Regular.null]
  · exact faithful_options.1.fills _ _ BuildOptions.abridges_detailed

end CodeFirst
