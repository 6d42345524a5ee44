import CodeFirst.Build.Builder

/-! Where the types of a schema come from. The origin of a type is fixed when its shell is appended
and wiring leaves it alone, so the list of origins only grows. In a coherent realization names are
unique, every type is the shell of its origin apart from its wiring, and realized interfaces are
registered as orphans. -/

namespace CodeFirst

/-- What a type is realized from. -/
inductive Origin where
  | scalar (name : String)
  | root (name : String)
  | declared (category : TypeCategory) (id : EntityId)
  deriving DecidableEq, Repr

namespace TypeCategory

def kind : TypeCategory → TypeKind
  | .object => .object
  | .interface => .interface
  | .input => .input

end TypeCategory

namespace Origin

def kind : Origin → TypeKind
  | .scalar _ => .scalar
  | .root _ => .object
  | .declared category _ => category.kind

def name (r : Registry) : Origin → String
  | .scalar name => name
  | .root name => name
  | .declared category id => ((r.class? category.classKind id).map ClassRecord.name).getD ""

end Origin

namespace NamedType

def origin : NamedType → Origin
  | .scalar t => .scalar t.name
  | .object t => t.origin.elim (.root t.name) (.declared .object)
  | .interface t => t.origin.elim (.root t.name) (.declared .interface)
  | .input t => t.origin.elim (.root t.name) (.declared .input)

/-- A type without what wiring gives it. -/
def unwired : NamedType → NamedType
  | .scalar t => .scalar t
  | .object t => .object { t with interfaces := [], fields? := none }
  | .interface t => .interface { t with interfaces := [], fields? := none }
  | .input t => .input { t with fields? := none }

@[simp] theorem name_unwired (t : NamedType) : t.unwired.name = t.name := by cases t <;> rfl
@[simp] theorem kind_unwired (t : NamedType) : t.unwired.kind = t.kind := by cases t <;> rfl
@[simp] theorem origin_unwired (t : NamedType) : t.unwired.origin = t.origin := by cases t <;> rfl

@[simp] theorem unwired_wire (t : NamedType) (w : Wiring) : (t.wire w).unwired = t.unwired := by
  cases t <;> cases w <;> rfl

@[simp] theorem origin_wire (t : NamedType) (w : Wiring) : (t.wire w).origin = t.origin := by
  rw [← origin_unwired, unwired_wire, origin_unwired]

theorem declaration?_eq_some_iff {t : NamedType} {k : TypeCategory} {id : EntityId} :
    t.declaration? = some (k, id) ↔ t.origin = .declared k id := by
  cases t with
  | scalar t => simp [declaration?, origin]
  | object t => cases h : t.origin <;> simp [declaration?, origin, h, eq_comm]
  | interface t => cases h : t.origin <;> simp [declaration?, origin, h, eq_comm]
  | input t => cases h : t.origin <;> simp [declaration?, origin, h, eq_comm]

theorem isScalar_of_origin {t : NamedType} {name : String} (h : t.origin = .scalar name) :
    t.isScalar = true := by
  cases t with
  | scalar t => rfl
  | object t => cases ho : t.origin <;> simp [origin, ho] at h
  | interface t => cases ho : t.origin <;> simp [origin, ho] at h
  | input t => cases ho : t.origin <;> simp [origin, ho] at h

theorem origin_of_isScalar {t : NamedType} (h : t.isScalar = true) : t.origin = .scalar t.name := by
  cases t with
  | scalar t => rfl
  | _ => simp [isScalar] at h

/-- The types that a build appends. -/
inductive IsShell (r : Registry) : NamedType → Prop where
  | scalar (t : ScalarType) : IsShell r (.scalar t)
  | root (kind : RootKind) : IsShell r kind.shell
  | declared (k : TypeCategory) (c : ClassRecord)
    (known : r.class? k.classKind c.target = some c) : IsShell r (c.shell k)

variable {r : Registry}

@[simp] theorem origin_scalar (t : ScalarType) : (scalar t).origin = .scalar t.name := rfl

@[simp] theorem origin_shell (c : ClassRecord) (k : TypeCategory) :
    (c.shell k).origin = .declared k c.target := by cases k <;> rfl

theorem origin_object {t : CompositeType} {id : EntityId} (h : t.origin = some id) :
    (object t).origin = .declared .object id := by rw [origin, h, Option.elim_some]

theorem origin_interface {t : CompositeType} {id : EntityId} (h : t.origin = some id) :
    (interface t).origin = .declared .interface id := by rw [origin, h, Option.elim_some]

@[simp] theorem origin_rootShell (kind : RootKind) :
    kind.shell.origin = .root kind.typeName := rfl

@[simp] theorem unwired_shell (c : ClassRecord) (k : TypeCategory) :
    (c.shell k).unwired = c.shell k := by cases k <;> rfl

theorem IsShell.unwired {t : NamedType} (h : IsShell r t) : t.unwired = t := by
  cases h with
  | scalar t => rfl
  | root kind => rfl
  | declared k c known => exact unwired_shell c k

theorem IsShell.name_eq {t : NamedType} (h : IsShell r t) : t.name = t.origin.name r := by
  cases h with
  | scalar t => rfl
  | root kind => rfl
  | declared k c known => simp [Origin.name, known]

theorem IsShell.kind_eq {t : NamedType} (h : IsShell r t) : t.kind = t.origin.kind := by
  cases h with
  | scalar t => rfl
  | root kind => rfl
  | declared k c known => cases k <;> rfl

theorem IsShell.known {t : NamedType} {k : TypeCategory} {id : EntityId} (h : IsShell r t)
    (ho : t.origin = .declared k id) : ∃ c, r.class? k.classKind id = some c ∧ t = c.shell k := by
  cases h with
  | scalar t => simp at ho
  | root kind => simp at ho
  | declared k' c known =>
    rw [origin_shell, Origin.declared.injEq] at ho
    obtain ⟨rfl, rfl⟩ := ho
    exact ⟨c, known, rfl⟩

/-- A scalar is known by its name only; all other shells by their origin. -/
theorem IsShell.eq_of_origin {t u : NamedType} (ht : IsShell r t) (hu : IsShell r u)
    (h : t.origin = u.origin) (hs : t.isScalar = false) : t = u := by
  cases ht with
  | scalar t => simp [isScalar] at hs
  | root kind =>
    cases hu with
    | scalar t => simp at h
    | root kind' =>
      have hn : kind.typeName = kind'.typeName := by simpa using h
      rw [RootKind.typeName_injective hn]
    | declared k c known => simp at h
  | declared k c known =>
    rw [origin_shell] at h
    obtain ⟨c', hc', rfl⟩ := hu.known h.symm
    rw [known, Option.some.injEq] at hc'
    rw [hc']

end NamedType

theorem getElem?_concat_eq_some_iff {α : Type} {l : List α} {x y : α} {i : Nat} :
    (l ++ [x])[i]? = some y ↔ l[i]? = some y ∨ (i = l.length ∧ x = y) := by
  by_cases hi : i < l.length
  · have hne : i ≠ l.length := by omega
    rw [List.getElem?_append_left hi]
    simp [hne]
  · have hnone : l[i]? = none := List.getElem?_eq_none (by omega)
    rw [List.getElem?_append_right (by omega), hnone]
    by_cases he : i = l.length
    · subst he
      simp
    · have hpos : i - l.length ≠ 0 := by omega
      simp [he, hpos]

/-- A part of a list that a map does not see may change anywhere. -/
theorem map_modify_eq {α β : Type} {f : α → α} {g : α → β} (h : ∀ a, g (f a) = g a) (l : List α)
    (i : Nat) : (l.modify i f).map g = l.map g := by
  induction l generalizing i with
  | nil => simp
  | cons a rest ih => cases i <;> simp [h, ih]

namespace Realization

variable {r : Registry}

def origins (s : Realization) : List Origin := s.types.map NamedType.origin

/-- Where the types come from, with all they have before they are wired. -/
def shells (s : Realization) : List NamedType := s.types.map NamedType.unwired

theorem getElem?_origins (s : Realization) (i : TypeId) :
    s.origins[i]? = s.types[i]?.map NamedType.origin := by rw [origins, List.getElem?_map]

def declaration? (s : Realization) (i : TypeId) : Option (TypeCategory × EntityId) :=
  (s.types[i]?).bind NamedType.declaration?

theorem declaration?_eq_some_iff {s : Realization} {i : TypeId} {k : TypeCategory}
    {id : EntityId} : s.declaration? i = some (k, id) ↔ s.origins[i]? = some (.declared k id) := by
  rw [declaration?, getElem?_origins, Option.bind_eq_some_iff, Option.map_eq_some_iff]
  exact exists_congr fun t => and_congr_right fun _ => NamedType.declaration?_eq_some_iff

theorem origins_eq_of_shells {s t : Realization} (h : s.shells = t.shells) :
    s.origins = t.origins := by
  have hm : ∀ u : Realization, u.origins = u.shells.map NamedType.origin := fun u => by
    simp [origins, shells, Function.comp_def]
  rw [hm s, hm t, h]

theorem names_eq_of_shells {s t : Realization} (h : s.shells = t.shells) :
    s.types.map NamedType.name = t.types.map NamedType.name := by
  have hm : ∀ u : Realization, u.types.map NamedType.name = u.shells.map NamedType.name :=
    fun u => by simp [shells, Function.comp_def]
  rw [hm s, hm t, h]

@[simp] theorem shells_wire (s : Realization) (i : TypeId) (w : Wiring) :
    (s.wire i w).shells = s.shells :=
  map_modify_eq (fun t => t.unwired_wire w) s.types i

@[simp] theorem origins_wire (s : Realization) (i : TypeId) (w : Wiring) :
    (s.wire i w).origins = s.origins := origins_eq_of_shells (s.shells_wire i w)

/-- What holds of every realization that a build goes through. -/
structure Coherent (r : Registry) (s : Realization) : Prop where
  names_nodup : (s.types.map NamedType.name).Nodup
  typeId?_iff : ∀ name i, s.typeId? name = some i ↔ ∃ t, s.types[i]? = some t ∧ t.name = name
  place?_iff : ∀ k id i, s.place? k id = some i ↔ s.origins[i]? = some (.declared k id)
  isShell : ∀ t ∈ s.types, t.unwired.IsShell r
  interfaces_seen : ∀ id, .declared .interface id ∈ s.origins → id ∈ s.orphans.seen

theorem coherent_empty : Coherent r empty := by
  refine ⟨?_, ?_, ?_, ?_, ?_⟩
  · exact List.nodup_nil
  · intro name i
    simp [typeId?, empty]
  · intro k id i
    simp [place?, origins, empty]
  · intro t ht
    exact absurd ht List.not_mem_nil
  · intro id hid
    exact absurd hid List.not_mem_nil

/-- Coherence is about shells, the index and registered orphans only. -/
theorem Coherent.of_shells {s t : Realization} (h : s.Coherent r) (hs : t.shells = s.shells)
    (hi : t.index = s.index) (ho : ∀ id ∈ s.orphans.seen, id ∈ t.orphans.seen) :
    t.Coherent r := by
  refine ⟨?_, ?_, ?_, ?_, ?_⟩
  · rw [names_eq_of_shells hs]
    exact h.names_nodup
  · intro name i
    have hget : ∀ u : Realization, (∃ x, u.types[i]? = some x ∧ x.name = name) ↔
        (u.types.map NamedType.name)[i]? = some name := by
      intro u
      rw [List.getElem?_map, Option.map_eq_some_iff]
    rw [typeId?, hi, hget, names_eq_of_shells hs, ← hget]
    exact h.typeId?_iff name i
  · intro k id i
    rw [place?, hi, origins_eq_of_shells hs]
    exact h.place?_iff k id i
  · intro x hx
    have hm : x.unwired ∈ s.shells := hs ▸ List.mem_map_of_mem hx
    obtain ⟨y, hy, hyx⟩ := List.mem_map.1 hm
    rw [← hyx]
    exact h.isShell y hy
  · intro id hid
    rw [origins_eq_of_shells hs] at hid
    exact ho id (h.interfaces_seen id hid)

theorem Coherent.name_eq {s : Realization} (h : s.Coherent r) {t : NamedType} (ht : t ∈ s.types) :
    t.name = t.origin.name r := by
  have := (h.isShell t ht).name_eq
  rwa [NamedType.name_unwired, NamedType.origin_unwired] at this

theorem Coherent.kind_eq {s : Realization} (h : s.Coherent r) {t : NamedType} (ht : t ∈ s.types) :
    t.kind = t.origin.kind := by
  have := (h.isShell t ht).kind_eq
  rwa [NamedType.kind_unwired, NamedType.origin_unwired] at this

theorem Coherent.place_inj {s : Realization} (h : s.Coherent r) {i j : TypeId} {t u : NamedType}
    (hi : s.types[i]? = some t) (hj : s.types[j]? = some u) (hn : t.name = u.name) : i = j := by
  have hlt : i < (s.types.map NamedType.name).length := by
    rw [List.length_map]
    exact (List.getElem?_eq_some_iff.1 hi).1
  refine (List.getElem?_inj hlt h.names_nodup).1 ?_
  rw [List.getElem?_map, List.getElem?_map, hi, hj, Option.map_some, Option.map_some, hn]

theorem Coherent.eq_of_name {s : Realization} (h : s.Coherent r) {t u : NamedType}
    (ht : t ∈ s.types) (hu : u ∈ s.types) (hn : t.name = u.name) : t = u := by
  obtain ⟨i, hi⟩ := List.getElem?_of_mem ht
  obtain ⟨j, hj⟩ := List.getElem?_of_mem hu
  have hij := h.place_inj hi hj hn
  subst hij
  rw [hi, Option.some.injEq] at hj
  exact hj

theorem Coherent.origin_of_name {s : Realization} (h : s.Coherent r) {x y : Origin}
    (hx : x ∈ s.origins) (hy : y ∈ s.origins) (hn : x.name r = y.name r) : x = y := by
  obtain ⟨t, ht, rfl⟩ := List.mem_map.1 hx
  obtain ⟨u, hu, rfl⟩ := List.mem_map.1 hy
  rw [← h.name_eq ht, ← h.name_eq hu] at hn
  rw [h.eq_of_name ht hu hn]

theorem Coherent.typeId?_eq_none_iff {s : Realization} (h : s.Coherent r) {name : String} :
    s.typeId? name = none ↔ ∀ t ∈ s.types, t.name ≠ name := by
  constructor
  · intro hn t ht he
    obtain ⟨i, hi⟩ := List.getElem?_of_mem ht
    rw [(h.typeId?_iff name i).2 ⟨t, hi, he⟩] at hn
    cases hn
  · intro hall
    cases hi : s.typeId? name with
    | none => rfl
    | some i =>
      obtain ⟨t, ht, he⟩ := (h.typeId?_iff name i).1 hi
      exact absurd he (hall t (List.mem_of_getElem? ht))

theorem Coherent.place?_eq_none_iff {s : Realization} (h : s.Coherent r) {k : TypeCategory}
    {id : EntityId} : s.place? k id = none ↔ .declared k id ∉ s.origins := by
  constructor
  · intro hn ho
    obtain ⟨i, hi⟩ := List.getElem?_of_mem ho
    rw [(h.place?_iff k id i).2 hi] at hn
    cases hn
  · intro ho
    cases hi : s.place? k id with
    | none => rfl
    | some i => exact absurd (List.mem_of_getElem? ((h.place?_iff k id i).1 hi)) ho

theorem Coherent.known {s : Realization} (h : s.Coherent r) {k : TypeCategory} {id : EntityId}
    (ho : .declared k id ∈ s.origins) : ∃ c, r.class? k.classKind id = some c := by
  obtain ⟨t, ht, hto⟩ := List.mem_map.1 ho
  obtain ⟨c, hc, -⟩ := (h.isShell t ht).known (by rw [NamedType.origin_unwired, hto])
  exact ⟨c, hc⟩

theorem addOrphan_seen {s : Realization} {id x : EntityId} (h : x ∈ s.orphans.seen) :
    x ∈ (s.addOrphan id).orphans.seen := Orphans.mem_seen_register.2 (.inl h)

/-- Appending a type with a new name, which the index takes in. -/
theorem Coherent.append {s t : Realization} {x : NamedType} (h : s.Coherent r)
    (ht : t.types = s.types ++ [x]) (fresh : s.typeId? x.name = none)
    (hnames : ∀ name, t.typeId? name = (s.addType x).typeId? name)
    (hplaces : ∀ k id, t.place? k id =
      if x.origin = .declared k id then some s.types.length else s.place? k id)
    (hx : x.IsShell r) (hseen : ∀ id ∈ s.orphans.seen, id ∈ t.orphans.seen)
    (hi : ∀ id, x.origin = .declared .interface id → id ∈ t.orphans.seen) : t.Coherent r := by
  have hnew := fresh
  rw [h.typeId?_eq_none_iff] at fresh
  refine ⟨?_, ?_, ?_, ?_, ?_⟩
  · rw [ht, List.map_append, List.nodup_append]
    refine ⟨h.names_nodup, by simp, ?_⟩
    intro a ha b hb hab
    obtain ⟨y, hy, rfl⟩ := List.mem_map.1 ha
    simp only [List.map_cons, List.map_nil, List.mem_singleton] at hb
    exact fresh y hy (hab.trans hb)
  · intro name i
    simp only [hnames, typeId?_addType, ht, getElem?_concat_eq_some_iff]
    by_cases hn : x.name = name
    · subst hn
      rw [if_pos rfl, Option.some.injEq]
      constructor
      · rintro rfl
        exact ⟨x, .inr ⟨rfl, rfl⟩, rfl⟩
      · rintro ⟨y, hy | ⟨rfl, -⟩, he⟩
        · exact absurd he (fresh y (List.mem_of_getElem? hy))
        · rfl
    · rw [if_neg hn, h.typeId?_iff]
      constructor
      · rintro ⟨y, hy, he⟩
        exact ⟨y, .inl hy, he⟩
      · rintro ⟨y, hy | ⟨-, rfl⟩, he⟩
        · exact ⟨y, hy, he⟩
        · exact absurd he hn
  · intro k id i
    have ho : t.origins = s.origins ++ [x.origin] := by
      simp only [origins, ht, List.map_append, List.map_cons, List.map_nil]
    have hlen : s.origins.length = s.types.length := by rw [origins, List.length_map]
    rw [hplaces, ho, getElem?_concat_eq_some_iff, hlen]
    by_cases hk : x.origin = .declared k id
    · rw [if_pos hk, Option.some.injEq]
      constructor
      · rintro rfl
        exact .inr ⟨rfl, hk⟩
      · rintro (hi | ⟨rfl, -⟩)
        · -- A type with this origin would have the new name.
          obtain ⟨y, hy, hyo⟩ := List.mem_map.1 (List.mem_of_getElem? hi)
          refine absurd ?_ (fresh y hy)
          rw [h.name_eq hy, hyo, ← hk, hx.name_eq]
        · rfl
    · rw [if_neg hk, h.place?_iff]
      exact ⟨.inl, fun hi => hi.resolve_right fun hi => hk hi.2⟩
  · intro y hy
    rw [ht] at hy
    rcases List.mem_append.1 hy with hy | hy
    · exact h.isShell y hy
    · rw [List.mem_singleton] at hy
      rw [hy, hx.unwired]
      exact hx
  · intro id hid
    rw [origins, ht, List.map_append] at hid
    rcases List.mem_append.1 hid with hid | hid
    · exact hseen id (h.interfaces_seen id hid)
    · simp only [List.map_cons, List.map_nil, List.mem_singleton] at hid
      exact hi id hid.symm

theorem Coherent.addType {s : Realization} {x : NamedType} (h : s.Coherent r)
    (fresh : s.typeId? x.name = none) (hx : x.IsShell r)
    (hd : ∀ k id, x.origin ≠ .declared k id) : (s.addType x).Coherent r :=
  h.append rfl fresh (fun _ => rfl) (fun k id => (if_neg (hd k id)).symm) hx (fun _ hid => hid)
    fun id hid => absurd hid (hd .interface id)

theorem Step.coherent {s t : Realization} (h : Step r s t) (hs : s.Coherent r) : t.Coherent r := by
  cases h with
  | scalar x fresh => exact hs.addType fresh (.scalar x) (by simp)
  | declared k c known new fresh =>
    refine hs.append (types_addDeclared s k c) (by simpa using fresh) (s.typeId?_addDeclared k c)
      ?_ (.declared k c known) ?_ ?_
    · intro k' id
      simp only [place?_addDeclared, NamedType.origin_shell, Origin.declared.injEq, Prod.mk.injEq]
    · intro id hid
      rw [orphans_addDeclared]
      split
      · exact Orphans.mem_seen_register.2 (.inl hid)
      · exact hid
    · intro id hid
      rw [NamedType.origin_shell, Origin.declared.injEq] at hid
      rw [orphans_addDeclared, if_pos hid.1, hid.2]
      exact Orphans.mem_seen_register.2 (.inr rfl)
  | orphan id => exact hs.of_shells rfl rfl fun _ h => addOrphan_seen h
  | event e => exact hs.of_shells rfl rfl fun _ h => h

theorem Grows.coherent {s t : Realization} (h : Grows r s t) (hs : s.Coherent r) :
    t.Coherent r := by
  induction h with
  | refl => exact hs
  | tail _ h ih => exact h.coherent ih

theorem Step.types {s t : Realization} (h : Step r s t) : ∃ ts, t.types = s.types ++ ts := by
  cases h with
  | scalar x fresh => exact ⟨_, rfl⟩
  | declared k c known new fresh => exact ⟨_, types_addDeclared s k c⟩
  | orphan id => exact ⟨[], (List.append_nil _).symm⟩
  | event e => exact ⟨[], (List.append_nil _).symm⟩

theorem Grows.types {s t : Realization} (h : Grows r s t) : ∃ ts, t.types = s.types ++ ts := by
  induction h with
  | refl => exact ⟨[], (List.append_nil _).symm⟩
  | tail _ h ih =>
    obtain ⟨ts, hts⟩ := ih
    obtain ⟨us, hus⟩ := h.types
    exact ⟨ts ++ us, by rw [hus, hts, List.append_assoc]⟩

theorem Grows.origins {s t : Realization} (h : Grows r s t) : s.origins <+: t.origins := by
  obtain ⟨ts, hts⟩ := h.types
  exact ⟨ts.map NamedType.origin, by simp only [Realization.origins, hts, List.map_append]⟩

theorem Step.seen {s t : Realization} (h : Step r s t) {id : EntityId} (hid : id ∈ s.orphans.seen) :
    id ∈ t.orphans.seen := by
  cases h with
  | declared k c known new fresh =>
    rw [orphans_addDeclared]
    split
    · exact Orphans.mem_seen_register.2 (.inl hid)
    · exact hid
  | orphan id => exact addOrphan_seen hid
  | _ => exact hid

theorem Grows.seen {s t : Realization} (h : Grows r s t) {id : EntityId}
    (hid : id ∈ s.orphans.seen) : id ∈ t.orphans.seen := by
  induction h with
  | refl => exact hid
  | tail _ h ih => exact h.seen ih

end Realization

end CodeFirst
