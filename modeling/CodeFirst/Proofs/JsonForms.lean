import CodeFirst.Directive.Federation
import CodeFirst.Proofs.Equality

/-! Build options and federation directives come back from their JSON form. Only a `null` default of
a directive argument is lost on the way, and it has the same form as no default. -/

namespace CodeFirst

theorem Catalog.records_putMany_of_nodup {κ ν : Type} [DecidableEq κ] {key : ν → κ}
    (c : Catalog key) (l : List ν) (h : ((c.records ++ l).map key).Nodup) :
    (c.putMany l).records = c.records ++ l := by
  induction l generalizing c with
  | nil => exact (List.append_nil _).symm
  | cons v rest ih =>
    have hnew : key v ∉ c.records.map key := by
      rw [List.map_append, List.nodup_append] at h
      intro hv
      exact h.2.2 _ hv _ (List.mem_map_of_mem List.mem_cons_self) rfl
    have hput : (c.put v).records = c.records ++ [v] := putRecord_of_not_mem hnew
    have hassoc : (c.put v).records ++ rest = c.records ++ v :: rest := by
      rw [hput, List.append_assoc, List.singleton_append]
    exact (ih (c.put v) (hassoc ▸ h)).trans hassoc

namespace OrderedMap

variable {κ ν : Type} [DecidableEq κ]

theorem entries_ofList_of_nodup {l : List (κ × ν)} (h : (l.map Prod.fst).Nodup) :
    (ofList l).entries = l :=
  Catalog.records_putMany_of_nodup ∅ l h

theorem ofList_entries (m : OrderedMap κ ν) : ofList m.entries = m :=
  ext (entries_ofList_of_nodup m.keys_nodup)

end OrderedMap

namespace Tree

theorem values?_ofItems {l : List Json} (h : ∀ v ∈ l, (ofJson v).value? = some v) :
    values? (ofItems l) = some l := by
  induction l with
  | nil => rfl
  | cons v rest ih =>
    rw [List.forall_mem_cons] at h
    simp [ofItems, values?, h.1, ih h.2]

theorem members?_ofMembers {l : List (String × Json)}
    (h : ∀ e ∈ l, (ofJson e.2).value? = some e.2) : members? (ofMembers l) = some l := by
  induction l with
  | nil => rfl
  | cons e rest ih =>
    rw [List.forall_mem_cons] at h
    simp [ofMembers, members?, h.1, ih h.2]

/-- A value is what its tree stands for, unless an object repeats a key. -/
theorem value?_ofJson {v : Json} (h : v.Regular) : (ofJson v).value? = some v := by
  induction h with
  | null | bool | num | str => rfl
  | @arr items _ ih => rw [ofJson, value?, values?_ofItems ih, Option.map_some]
  | @obj members distinct _ ih =>
    rw [ofJson, value?, members?_ofMembers ih, Option.map_some, Json.ofMap,
      OrderedMap.entries_ofList_of_nodup distinct]

end Tree

namespace Shape

variable {α : Type} {shape : Shape α} {encode : α → Json} {back : α → α}

structure ReadsAs (encode : α → Json) (shape : Shape α) (x y : α) : Prop where
  reads : shape.ofJson (encode x) = some y
  same : encode y = encode x

namespace ReadsAs

theorem string (s : String) : ReadsAs .str string s s := ⟨rfl, rfl⟩

theorem bool (b : Bool) : ReadsAs .bool bool b b := ⟨rfl, rfl⟩

theorem text (s : Option String) : ReadsAs (Option.elim · .null .str) (nullable .string) s s :=
  ⟨by cases s <;> rfl, rfl⟩

theorem list {l : List α} (h : ∀ a ∈ l, ReadsAs encode shape a (back a)) :
    ReadsAs (.arr <| List.map encode ·) (list shape) l (l.map back) := by
  refine ⟨?_, ?_⟩
  · change items shape (Tree.ofItems (l.map encode)) = _
    induction l with
    | nil => rfl
    | cons a rest ih =>
      rw [List.forall_mem_cons] at h
      have hhead : shape (.ofJson (encode a)) = some (back a) := h.1.reads
      simp [Tree.ofItems, items, hhead, ih h.2]
  · simpa using fun a ha => (h a ha).same

theorem members {l : List (String × α)} (h : ∀ e ∈ l, ReadsAs encode shape e.2 (back e.2)) :
    members shape (Tree.ofMembers (l.map fun e => (e.1, encode e.2))) =
      some (l.map fun e => (e.1, back e.2)) := by
  induction l with
  | nil => rfl
  | cons e rest ih =>
    rw [List.forall_mem_cons] at h
    have hhead : shape (.ofJson (encode e.2)) = some (back e.2) := h.1.reads
    simp [Tree.ofMembers, Shape.members, hhead, ih h.2]

theorem map {m : OrderedMap String α} (h : ∀ a ∈ m.values, ReadsAs encode shape a (back a)) :
    ReadsAs (.ofMap <| OrderedMap.map encode ·) (map shape) m (m.map back) := by
  have hentries : ∀ e ∈ m.entries, ReadsAs encode shape e.2 (back e.2) :=
    fun e he => h _ (List.mem_map_of_mem he)
  refine ⟨?_, ?_⟩
  · change (Shape.members shape (Tree.ofMembers (m.map encode).entries)).map
      OrderedMap.ofList = _
    rw [OrderedMap.entries_map, members hentries, Option.map_some, ← OrderedMap.entries_map,
      OrderedMap.ofList_entries]
  · simpa [Json.ofMap] using fun k a ha => (hentries (k, a) ha).same

theorem list_self (h : ∀ a, ReadsAs encode shape a a) (l : List α) :
    ReadsAs (.arr <| List.map encode ·) (.list shape) l l := by
  have hl : ReadsAs (.arr <| List.map encode ·) (.list shape) l (l.map id) := list fun a _ => h a
  rwa [List.map_id] at hl

theorem map_self (h : ∀ a, ReadsAs encode shape a a) (m : OrderedMap String α) :
    ReadsAs (.ofMap <| OrderedMap.map encode ·) (.map shape) m m := by
  have hm : ReadsAs (.ofMap <| OrderedMap.map encode ·) (.map shape) m (m.map id) :=
    map fun a _ => h a
  have hid : m.map id = m := OrderedMap.ext (by simp)
  rwa [hid] at hm

end ReadsAs

/-- The members of an object that a record with these names reads. -/
def Fields.ofMembers (names : List String) (l : List (String × Json)) : Fields :=
  ⟨false, (l.filter fun e => e.1 ∈ names).map fun e => (e.1, .ofJson e.2)⟩

variable {names : List String} {l : List (String × Json)} {k : String}

theorem lookupEntry_ofMembers (hk : k ∈ names) :
    lookupEntry k (Fields.ofMembers names l).found = (lookupEntry k l).map .ofJson := by
  induction l with
  | nil => rfl
  | cons e rest ih =>
    rw [lookupEntry_cons]
    by_cases he : e.1 = k
    · simp [Fields.ofMembers, lookupEntry_cons, he, hk]
    · by_cases hn : e.1 ∈ names
      · simpa [Fields.ofMembers, lookupEntry_cons, he, hn] using ih
      · simpa [Fields.ofMembers, he, hn] using ih

theorem record_ofJson (h : (l.map Prod.fst).Nodup) :
    record names false (.ofJson (.obj l)) = some (.ofMembers names l) := by
  have hknown : knownMembers names false (Tree.ofMembers l) =
      some (Fields.ofMembers names l).found := by
    induction l with
    | nil => rfl
    | cons e rest ih =>
      rw [List.map_cons, List.nodup_cons] at h
      rw [Tree.ofMembers, knownMembers, ih h.2]
      by_cases hn : e.1 ∈ names
      · have hnew : lookupEntry e.1 (Fields.ofMembers names rest).found = none := by
          rw [lookupEntry_ofMembers hn, lookupEntry_eq_none_iff.2 h.1, Option.map_none]
        simp only [hn, hnew]
        simp [hn, Fields.ofMembers]
      · simp [hn, Fields.ofMembers]
  rw [Tree.ofJson, record, hknown, Option.map_some]
  rfl

def member (shape : Shape α) (k : String) (l : List (String × Json)) : Option α :=
  (lookupEntry k l).bind shape.ofJson

def memberOr (default : α) (shape : Shape α) (k : String) (l : List (String × Json)) : Option α :=
  (lookupEntry k l).elim (some default) shape.ofJson

namespace Fields

theorem required_ofMembers (hk : k ∈ names) :
    (ofMembers names l).required k shape = member shape k l := by
  rw [required, lookupEntry_ofMembers hk, Option.bind_map]
  rfl

theorem defaulted_ofMembers (hk : k ∈ names) (default : α) :
    (ofMembers names l).defaulted k default shape = memberOr default shape k l := by
  rw [defaulted, lookupEntry_ofMembers hk, memberOr]
  cases lookupEntry k l <;> rfl

end Fields

end Shape

theorem DateMode.readsAs (m : DateMode) : Shape.ReadsAs (.str <| text ·) shape m m :=
  ⟨by cases m <;> rfl, rfl⟩

theorem NumberMode.readsAs (m : NumberMode) : Shape.ReadsAs (.str <| text ·) shape m m :=
  ⟨by cases m <;> rfl, rfl⟩

theorem DirectiveLocation.readsAs (l : DirectiveLocation) :
    Shape.ReadsAs (.str <| text ·) shape l l :=
  ⟨lookup_text l, rfl⟩

namespace ScalarType

theorem ofJson_obj {l : List (String × Json)} (h : (l.map Prod.fst).Nodup) :
    shape.ofJson (.obj l) = do
      return ⟨← Shape.member .string "name" l,
        ← Shape.memberOr none (.nullable .string) "description" l,
        ← Shape.memberOr none (.nullable .string) "specifiedByUrl" l⟩ := by
  simp [Shape.ofJson, shape, Shape.record_ofJson h, Shape.Fields.required_ofMembers,
    Shape.Fields.defaulted_ofMembers]

theorem readsAs (s : ScalarType) : Shape.ReadsAs toJson shape s s := by
  refine ⟨?_, rfl⟩
  rw [toJson, ofJson_obj (by simp)]
  simp [Shape.member, Shape.memberOr, lookupEntry_cons, (Shape.ReadsAs.string _).reads,
    (Shape.ReadsAs.text _).reads]

end ScalarType

namespace DirectiveArgument

/-- A default as it is read again: `null` stands for no default. -/
def nonNull : Option Json → Option Json
  | some .null => none
  | d => d

theorem nonNull_eq_self {d : Option Json} (h : d ≠ some .null) : nonNull d = d := by
  cases d with
  | none => rfl
  | some v => cases v <;> first | exact absurd rfl h | rfl

theorem readsAs_default {d : Option Json} (h : ∀ v ∈ d, v.Regular) :
    Shape.ReadsAs (Option.getD · .null) (.nullable .value) d (nonNull d) := by
  cases d with
  | none => exact ⟨rfl, rfl⟩
  | some v =>
    cases v with
    | null => exact ⟨rfl, rfl⟩
    | _ => exact ⟨congrArg (Option.map some) (Tree.value?_ofJson (h _ rfl)), rfl⟩

def withoutNull (a : DirectiveArgument) : DirectiveArgument :=
  { a with default := nonNull a.default }

theorem ofJson_obj {l : List (String × Json)} (h : (l.map Prod.fst).Nodup) :
    shape.ofJson (.obj l) = do
      return ⟨← Shape.member .string "name" l,
        ← Shape.memberOr none (.nullable .string) "description" l,
        ← Shape.member .string "type" l,
        ← Shape.memberOr none (.nullable .value) "defaultValue" l⟩ := by
  simp [Shape.ofJson, shape, Shape.record_ofJson h, Shape.Fields.required_ofMembers,
    Shape.Fields.defaulted_ofMembers]

theorem readsAs {a : DirectiveArgument} (h : ∀ v ∈ a.default, v.Regular) :
    Shape.ReadsAs toJson shape a a.withoutNull := by
  have hdefault := readsAs_default h
  refine ⟨?_, ?_⟩
  · rw [toJson, ofJson_obj (by simp)]
    simp [Shape.member, Shape.memberOr, lookupEntry_cons, (Shape.ReadsAs.string _).reads,
      (Shape.ReadsAs.text _).reads, hdefault.reads, withoutNull]
  · simp only [toJson, withoutNull, hdefault.same]

end DirectiveArgument

namespace DirectiveDefinition

def withoutNulls (d : DirectiveDefinition) : DirectiveDefinition :=
  { d with arguments := d.arguments.map DirectiveArgument.withoutNull }

theorem ofJson_obj {l : List (String × Json)} (h : (l.map Prod.fst).Nodup) :
    shape.ofJson (.obj l) = do
      return ⟨← Shape.member .string "name" l,
        ← Shape.memberOr none (.nullable .string) "description" l,
        ← Shape.memberOr ∅ (.map DirectiveArgument.shape) "arguments" l,
        ← Shape.member (.list DirectiveLocation.shape) "locations" l,
        ← Shape.memberOr false .bool "repeatable" l⟩ := by
  simp [Shape.ofJson, shape, Shape.record_ofJson h, Shape.Fields.required_ofMembers,
    Shape.Fields.defaulted_ofMembers]

theorem readsAs {d : DirectiveDefinition}
    (h : ∀ a ∈ d.arguments.values, ∀ v ∈ a.default, v.Regular) :
    Shape.ReadsAs toJson shape d d.withoutNulls := by
  have harguments := Shape.ReadsAs.map fun a ha => DirectiveArgument.readsAs (h a ha)
  refine ⟨?_, ?_⟩
  · rw [toJson, ofJson_obj (by simp)]
    simp [Shape.member, Shape.memberOr, lookupEntry_cons, (Shape.ReadsAs.string _).reads,
      (Shape.ReadsAs.text _).reads, harguments.reads, (Shape.ReadsAs.bool _).reads,
      (Shape.ReadsAs.list_self DirectiveLocation.readsAs _).reads, withoutNulls]
  · simp only [toJson, withoutNulls, harguments.same]

/-- No default inside the definitions repeats a key in an object; none that is read does. -/
def RegularDefaults (l : List DirectiveDefinition) : Prop :=
  ∀ d ∈ l, ∀ a ∈ d.arguments.values, ∀ v ∈ a.default, v.Regular

def NoNullDefaults (l : List DirectiveDefinition) : Prop :=
  ∀ d ∈ l, ∀ a ∈ d.arguments.values, a.default ≠ some .null

theorem readsAs_list {l : List DirectiveDefinition} (h : RegularDefaults l) :
    Shape.ReadsAs (.arr <| List.map toJson ·) (.list shape) l (l.map withoutNulls) :=
  .list fun d hd => readsAs (h d hd)

theorem withoutNulls_eq_self {d : DirectiveDefinition}
    (h : ∀ a ∈ d.arguments.values, a.default ≠ some .null) : d.withoutNulls = d := by
  have harguments : d.arguments.map DirectiveArgument.withoutNull = d.arguments := by
    refine OrderedMap.ext ((List.map_congr_left fun e he => ?_).trans (List.map_id _))
    rw [DirectiveArgument.withoutNull,
      DirectiveArgument.nonNull_eq_self (h _ (List.mem_map_of_mem he))]
    rfl
  rw [withoutNulls, harguments]

theorem map_withoutNulls {l : List DirectiveDefinition} (h : NoNullDefaults l) :
    l.map withoutNulls = l :=
  (List.map_congr_left fun d hd => withoutNulls_eq_self (h d hd)).trans (List.map_id l)

end DirectiveDefinition

namespace BuildOptions

theorem ofJson_obj {l : List (String × Json)} (h : (l.map Prod.fst).Nodup) :
    shape.ofJson (.obj l) = do
      return ⟨← Shape.memberOr ∅ (.map ScalarType.shape) "scalarsMap" l,
        ← Shape.memberOr .isoDate DateMode.shape "dateScalarMode" l,
        ← Shape.memberOr .float NumberMode.shape "numberScalarMode" l,
        ← Shape.memberOr [] (.list DirectiveDefinition.shape) "directives" l,
        ← Shape.memberOr false .bool "skipCheck" l,
        ← Shape.memberOr [] (.list .string) "orphanDirectives" l⟩ := by
  simp [Shape.ofJson, shape, Shape.record_ofJson h, Shape.Fields.defaulted_ofMembers]

theorem readsAs {o : BuildOptions} (h : DirectiveDefinition.RegularDefaults o.directives) :
    Shape.ReadsAs toJson shape o
      { o with directives := o.directives.map DirectiveDefinition.withoutNulls } := by
  have hdirectives := DirectiveDefinition.readsAs_list h
  refine ⟨?_, ?_⟩
  · rw [toJson, ofJson_obj (by simp)]
    simp [Shape.memberOr, lookupEntry_cons, (Shape.ReadsAs.map_self ScalarType.readsAs _).reads,
      (DateMode.readsAs _).reads, (NumberMode.readsAs _).reads, hdirectives.reads,
      (Shape.ReadsAs.bool _).reads, (Shape.ReadsAs.list_self .string _).reads]
  · simp only [toJson, hdirectives.same]

end BuildOptions

namespace FederationSet

theorem ofJson_obj {l : List (String × Json)} (h : (l.map Prod.fst).Nodup) :
    shape.ofJson (.obj l) = do
      return ⟨← Shape.memberOr [] (.list DirectiveDefinition.shape) "directives" l,
        ← Shape.memberOr [] (.list ScalarType.shape) "scalars" l,
        ← Shape.memberOr [] (.list .string) "orphanDirectives" l⟩ := by
  simp [Shape.ofJson, shape, Shape.record_ofJson h, Shape.Fields.defaulted_ofMembers]

theorem readsAs {s : FederationSet} (h : DirectiveDefinition.RegularDefaults s.directives) :
    Shape.ReadsAs toJson shape s
      { s with directives := s.directives.map DirectiveDefinition.withoutNulls } := by
  have hdirectives := DirectiveDefinition.readsAs_list h
  refine ⟨?_, ?_⟩
  · rw [toJson, ofJson_obj (by simp)]
    simp [Shape.memberOr, lookupEntry_cons, hdirectives.reads,
      (Shape.ReadsAs.list_self ScalarType.readsAs _).reads,
      (Shape.ReadsAs.list_self .string _).reads]
  · simp only [toJson, hdirectives.same]

end FederationSet

end CodeFirst
