import CodeFirst.Proofs.Soundness

/-! Equality of values is transitive. A value equals itself unless an object inside it repeats a
key, which no value read from a text does. -/

namespace CodeFirst

theorem Number.same_self (n : Number) : n.same n = true := by
  cases n <;> simp [Number.same, Double.same]

theorem Number.same_trans {a b c : Number} (hab : a.same b = true) (hbc : b.same c = true) :
    a.same c = true := by
  cases a with
  | int x => cases b <;> cases c <;> simp_all [Number.same]
  | float x =>
    cases b with
    | int y => simp [Number.same] at hab
    | float y =>
      cases c with
      | int z => simp [Number.same] at hbc
      | float z =>
        simp only [Number.same, Double.same, Bool.or_eq_true, beq_iff_eq, Bool.and_eq_true] at *
        rcases hab with rfl | ⟨hx, hy⟩
        · exact hbc
        · rcases hbc with rfl | ⟨-, hz⟩
          · exact .inr ⟨hx, hy⟩
          · exact .inr ⟨hx, hz⟩

namespace Json

/-- No object inside the value repeats a key. -/
inductive Regular : Json → Prop
  | null : Regular .null
  | bool (b : Bool) : Regular (.bool b)
  | num (n : Number) : Regular (.num n)
  | str (s : String) : Regular (.str s)
  | arr {items : List Json} (h : ∀ v ∈ items, v.Regular) : Regular (.arr items)
  | obj {members : List (String × Json)} (distinct : (members.map Prod.fst).Nodup)
      (h : ∀ e ∈ members, e.2.Regular) : Regular (.obj members)

theorem sameMembers_iff {l m : List (String × Json)} :
    sameMembers l m = true ↔
      ∀ e ∈ l, ∃ w, lookupEntry e.1 m = some w ∧ e.2.same w = true := by
  induction l with
  | nil => simp [sameMembers]
  | cons e rest ih =>
    obtain ⟨k, v⟩ := e
    rw [sameMembers, Bool.and_eq_true, ih, List.forall_mem_cons]
    cases lookupEntry k m <;> simp

theorem sameItems_self {l : List Json} (h : ∀ v ∈ l, v.same v = true) :
    sameItems l l = true := by
  induction l with
  | nil => rfl
  | cons v rest ih =>
    rw [List.forall_mem_cons] at h
    simp [sameItems, h.1, ih h.2]

theorem same_self {v : Json} (h : v.Regular) : v.same v = true := by
  induction h with
  | null => rfl
  | bool b => simp [same]
  | num n => exact n.same_self
  | str s => simp [same]
  | arr _ ih => exact sameItems_self ih
  | @obj members distinct _ ih =>
    have hmembers : sameMembers members members = true := by
      rw [sameMembers_iff]
      intro e he
      exact ⟨e.2, lookupEntry_of_mem distinct he, ih e he⟩
    simp [same, hmembers]

mutual
theorem same_trans : ∀ {a b c : Json}, a.same b = true → b.same c = true → a.same c = true
  | .null, b, c, hab, hbc => by cases b <;> cases c <;> simp_all [same]
  | .bool x, b, c, hab, hbc => by cases b <;> cases c <;> simp_all [same]
  | .num x, b, c, hab, hbc => by
    cases b <;> cases c <;> simp only [same, Bool.false_eq_true] at *
    exact Number.same_trans hab hbc
  | .str x, b, c, hab, hbc => by cases b <;> cases c <;> simp_all [same]
  | .arr x, b, c, hab, hbc => by
    cases b <;> cases c <;> simp only [same, Bool.false_eq_true] at *
    exact sameItems_trans hab hbc
  | .obj x, b, c, hab, hbc => by
    cases b <;> cases c <;> simp only [same, Bool.false_eq_true, Bool.and_eq_true, beq_iff_eq] at *
    exact ⟨hab.1.trans hbc.1, sameMembers_trans hab.2 hbc.2⟩

theorem sameItems_trans : ∀ {a b c : List Json},
    sameItems a b = true → sameItems b c = true → sameItems a c = true
  | [], b, c, hab, hbc => by cases b <;> cases c <;> simp_all [sameItems]
  | v :: rest, b, c, hab, hbc => by
    cases b <;> cases c <;> simp only [sameItems, Bool.false_eq_true, Bool.and_eq_true] at *
    exact ⟨same_trans hab.1 hbc.1, sameItems_trans hab.2 hbc.2⟩

theorem sameMembers_trans : ∀ {a b c : List (String × Json)},
    sameMembers a b = true → sameMembers b c = true → sameMembers a c = true
  | [], _, _, _, _ => rfl
  | (k, v) :: rest, b, c, hab, hbc => by
    simp only [sameMembers, Bool.and_eq_true] at hab ⊢
    refine ⟨?_, sameMembers_trans hab.2 hbc⟩
    cases hw : lookupEntry k b with
    | none => simp [hw] at hab
    | some w =>
      obtain ⟨u, hu, hwu⟩ := sameMembers_iff.1 hbc (k, w) (mem_of_lookupEntry hw)
      simp only [hw] at hab
      simp only [hu]
      exact same_trans hab.1 hwu
end

theorem regular_ofMap {m : OrderedMap String Json} (h : ∀ v ∈ m.values, v.Regular) :
    (ofMap m).Regular :=
  .obj m.keys_nodup fun _ he => h _ (List.mem_map_of_mem he)

end Json

theorem OrderedMap.forall_values_ofList {κ ν : Type} [DecidableEq κ] {P : ν → Prop}
    {l : List (κ × ν)} (h : ∀ e ∈ l, P e.2) : ∀ v ∈ (ofList l).values, P v := by
  intro v hv
  obtain ⟨e, he, rfl⟩ := List.mem_map.1 hv
  rcases Catalog.mem_records_putMany he with he | he
  · exact absurd he List.not_mem_nil
  · exact h e he

namespace Tree

mutual
/-- A repeated key of a text is gone from the value. -/
theorem regular_of_value? : ∀ {t : Tree} {v : Json}, t.value? = some v → v.Regular
  | .null, _, h => by cases h; exact .null
  | .bool b, _, h => by cases h; exact .bool b
  | .num n, _, h => by cases h; exact .num n
  | .str s, _, h => by cases h; exact .str s
  | .arr items, v, h => by
    simp only [value?, Option.map_eq_some_iff] at h
    obtain ⟨vs, hvs, rfl⟩ := h
    exact .arr (regular_of_values? hvs)
  | .obj members, v, h => by
    simp only [value?, Option.map_eq_some_iff] at h
    obtain ⟨ms, hms, rfl⟩ := h
    exact Json.regular_ofMap (OrderedMap.forall_values_ofList (regular_of_members? hms))
  | .unusable, _, h => by cases h

theorem regular_of_values? : ∀ {l : List Tree} {vs : List Json},
    values? l = some vs → ∀ v ∈ vs, v.Regular
  | [], _, h => by cases h; simp
  | t :: rest, vs, h => by
    simp only [values?, Option.bind_eq_bind, Option.bind_eq_some_iff, Option.pure_def,
      Option.some.injEq] at h
    obtain ⟨w, hw, ws, hws, rfl⟩ := h
    rw [List.forall_mem_cons]
    exact ⟨regular_of_value? hw, regular_of_values? hws⟩

theorem regular_of_members? : ∀ {l : List (Option String × Tree)} {ms : List (String × Json)},
    members? l = some ms → ∀ e ∈ ms, e.2.Regular
  | [], _, h => by cases h; simp
  | (k, t) :: rest, ms, h => by
    simp only [members?, Option.bind_eq_bind, Option.bind_eq_some_iff, Option.pure_def,
      Option.some.injEq] at h
    obtain ⟨s, -, w, hw, ws, hws, rfl⟩ := h
    rw [List.forall_mem_cons]
    exact ⟨regular_of_value? hw, regular_of_members? hws⟩
end

end Tree

namespace Shape

variable {α : Type} {shape : Shape α} {P : α → Prop}

def Ensures (shape : Shape α) (P : α → Prop) : Prop := ∀ t x, shape t = some x → P x

theorem Ensures.list (h : shape.Ensures P) : (list shape).Ensures fun l => ∀ a ∈ l, P a := by
  intro t l hl
  cases t with
  | arr ts =>
    change items shape ts = some l at hl
    induction ts generalizing l with
    | nil => cases hl; simp
    | cons t rest ih =>
      simp only [items, Option.bind_eq_bind, Option.bind_eq_some_iff, Option.pure_def,
        Option.some.injEq] at hl
      obtain ⟨a, ha, as, has, rfl⟩ := hl
      exact List.forall_mem_cons.2 ⟨h t a ha, ih as has⟩
  | _ => cases hl

theorem Ensures.map (h : shape.Ensures P) : (map shape).Ensures fun m => ∀ a ∈ m.values, P a := by
  intro t m hm
  cases t with
  | obj ts =>
    obtain ⟨l, hl, rfl⟩ := Option.map_eq_some_iff.1 hm
    have hmembers : ∀ e ∈ l, P e.2 := by
      clear hm
      induction ts generalizing l with
      | nil => cases hl; simp
      | cons e rest ih =>
        simp only [members, Option.bind_eq_bind, Option.bind_eq_some_iff, Option.pure_def,
          Option.some.injEq] at hl
        obtain ⟨k, -, a, ha, as, has, rfl⟩ := hl
        exact List.forall_mem_cons.2 ⟨h _ a ha, ih as has⟩
    exact OrderedMap.forall_values_ofList hmembers
  | _ => cases hm

theorem Ensures.defaulted (h : shape.Ensures P) {default x : α} (hdefault : P default)
    {fs : Fields} {k : String} (hx : fs.defaulted k default shape = some x) : P x := by
  unfold Fields.defaulted at hx
  cases hl : lookupEntry k fs.found with
  | none =>
    simp only [hl, Option.some.injEq] at hx
    exact hx ▸ hdefault
  | some t =>
    simp only [hl] at hx
    exact h t x hx

end Shape

namespace Directive

/-- The arguments are values that equal themselves. -/
def Regular (d : Directive) : Prop := ∀ v ∈ d.arguments.values, v.Regular

theorem same_self {d : Directive} (h : d.Regular) : d.same d = true := by
  simp [same, Json.same_self (Json.regular_ofMap h)]

theorem same_trans {a b c : Directive} (hab : a.same b = true) (hbc : b.same c = true) :
    a.same c = true := by
  simp only [same, Bool.and_eq_true, beq_iff_eq] at *
  exact ⟨hab.1.trans hbc.1, Json.same_trans hab.2 hbc.2⟩

end Directive

theorem Reference.same_trans {a b c : Reference} (hab : a.same b = true) (hbc : b.same c = true) :
    a.same c = true := by
  rw [Reference.same_iff] at *
  exact hab.trans hbc

theorem ClassRecord.sameProperty_trans {a b c : Property} (hab : sameProperty a b = true)
    (hbc : sameProperty b c = true) : sameProperty a c = true := by
  simp only [sameProperty, beq_iff_eq] at *
  exact hab.trans hbc

end CodeFirst
