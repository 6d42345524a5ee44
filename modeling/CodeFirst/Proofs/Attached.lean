import CodeFirst.Proofs.Exposed

/-! Attaching field resolvers, binding by binding. What is attached are the first bindings of all
places so far, no two of them to one field. Attaching stops at a class without an object type, or
when two classes compete for a field. -/

namespace CodeFirst

namespace Exposure

variable {r : Registry} {filter : ResolverFilter} {l : List Handler}

theorem mem_direct_iff {b : Binding} : b ∈ direct r filter l ↔ b.handler ∈ l ∧
    b.handler.target = b.owner ∧ r.isAbstractResolver b.owner = false ∧
      filter.includes b.owner = true := by
  rw [direct, List.mem_map]
  constructor
  · rintro ⟨h, hh, rfl⟩
    obtain ⟨hmem, hkeep⟩ := List.mem_filter.1 hh
    rw [Bool.and_eq_true, Bool.not_eq_true'] at hkeep
    exact ⟨hmem, rfl, hkeep.1, hkeep.2⟩
  · rintro ⟨hmem, howner, hconcrete, hincluded⟩
    refine ⟨b.handler, List.mem_filter.2 ⟨hmem, ?_⟩, ?_⟩
    · rw [howner, hconcrete, hincluded]
      rfl
    · rw [howner]

theorem mem_inherited_iff {b : Binding} : b ∈ inherited r filter l ↔
    (b.owner ∈ r.entities.ids ∧ inherits r filter b.owner = true) ∧
      b.handler ∈ unhidden ((l.filter (·.target == b.owner)).map (·.schemaName))
        (candidates r l b.owner) := by
  rw [inherited, List.mem_flatMap]
  constructor
  · rintro ⟨id, hid, hb⟩
    obtain ⟨h, hh, rfl⟩ := List.mem_map.1 hb
    exact ⟨List.mem_filter.1 hid, hh⟩
  · rintro ⟨hid, hh⟩
    exact ⟨b.owner, List.mem_filter.2 hid, List.mem_map.2 ⟨b.handler, hh, rfl⟩⟩

theorem binding_inj {catalog : HandlerCatalog} {b b' : Binding}
    (hb : b ∈ bindings r filter catalog.records) (hb' : b' ∈ bindings r filter catalog.records)
    (hplace : b.place = b'.place) (hmethod : b.handler.method = b'.handler.method) : b = b' := by
  obtain ⟨howner, hname⟩ := Prod.mk.inj hplace
  -- own handlers hide those of the same name
  have hhidden : ∀ x y : Binding, x.owner = y.owner →
      x.handler.schemaName = y.handler.schemaName → x ∈ direct r filter catalog.records →
        y ∉ inherited r filter catalog.records := by
    intro x y ho hn hx hy
    obtain ⟨hmem, htarget, -⟩ := mem_direct_iff.1 hx
    refine (unhidden_names _ _).2 _ (mem_inherited_iff.1 hy).2 (List.mem_map.2 ⟨x.handler, ?_, hn⟩)
    exact List.mem_filter.2 ⟨hmem, beq_iff_eq.2 (htarget.trans ho)⟩
  have hhandler : b.handler = b'.handler := by
    rcases List.mem_append.1 hb with hb | hb <;> rcases List.mem_append.1 hb' with hb' | hb'
    · obtain ⟨hmem, htarget, -⟩ := mem_direct_iff.1 hb
      obtain ⟨hmem', htarget', -⟩ := mem_direct_iff.1 hb'
      have hkey : b.handler.key = b'.handler.key :=
        Prod.ext (htarget.trans (howner.trans htarget'.symm)) hmethod
      exact List.inj_on_of_nodup_map catalog.nodup_keys hmem hmem' hkey
    · exact absurd hb' (hhidden b b' howner hname hb)
    · exact absurd hb (hhidden b' b howner.symm hname.symm hb')
    · have hmem := (mem_inherited_iff.1 hb).2
      have hmem' := (mem_inherited_iff.1 hb').2
      rw [← howner] at hmem'
      exact List.inj_on_of_nodup_map (unhidden_names _ _).1 hmem hmem' hname
  cases b
  cases b'
  simp_all

theorem augmented?_inj {x y : EntityId} {c d : ClassRecord} (hc : augmented? r x = some c)
    (hd : augmented? r y = some d) (h : c.target = d.target) : c = d := by
  obtain ⟨i, -, hi⟩ := Option.bind_eq_some_iff.1 hc
  obtain ⟨j, -, hj⟩ := Option.bind_eq_some_iff.1 hd
  have hij : i = j :=
    (Registry.target_of_class? hi).symm.trans (h.trans (Registry.target_of_class? hj))
  rw [hij, hj] at hi
  exact (Option.some.inj hi).symm

end Exposure

/-- Whether bindings of two classes compete for one field of the object that both augment. -/
def Binding.Competes (r : Registry) (b b' : Binding) : Prop :=
  b.owner ≠ b'.owner ∧ b.handler.schemaName = b'.handler.schemaName ∧
    ∃ c, Exposure.augmented? r b.owner = some c ∧ Exposure.augmented? r b'.owner = some c

namespace Attachment

variable {r : Registry} {attached result : List Attachment} {b : Binding} {c : ClassRecord}

/-- What is attached of some bindings: the first one of each place, and none to a field that is
served already. -/
structure Attached (r : Registry) (done : List Binding) (attached : List Attachment) : Prop where
  object : ∀ a ∈ attached, ∃ c, Exposure.augmented? r a.binding.owner = some c ∧
    c.target = a.object
  slots : (attached.map slot).Nodup
  first : ∀ a ∈ attached, done.find? (·.place == a.binding.place) = some a.binding
  covered : ∀ b ∈ done, ∃ a ∈ attached, a.binding.place = b.place

namespace Attached

variable {done : List Binding}

theorem nil : Attached r [] [] :=
  ⟨by simp, List.nodup_nil, by simp, by simp⟩

theorem add (h : Attached r done attached) (hobject : Exposure.augmented? r b.owner = some c)
    (hnew : ∀ a ∈ attached, a.slot ≠ (c.target, b.handler.schemaName)) :
    Attached r (done ++ [b]) (attached ++ [⟨c.target, b⟩]) := by
  refine ⟨?_, ?_, ?_, ?_⟩
  · intro a ha
    rcases List.mem_append.1 ha with ha | ha
    · exact h.object a ha
    · obtain rfl := List.mem_singleton.1 ha
      exact ⟨c, hobject, rfl⟩
  · rw [List.map_append, List.nodup_append]
    refine ⟨h.slots, by simp, ?_⟩
    intro x hx y hy hxy
    obtain ⟨a, ha, rfl⟩ := List.mem_map.1 hx
    rw [List.map_singleton, List.mem_singleton] at hy
    exact hnew a ha (hxy.trans hy)
  · intro a ha
    rw [List.find?_append]
    rcases List.mem_append.1 ha with ha | ha
    · rw [h.first a ha, Option.some_or]
    · obtain rfl := List.mem_singleton.1 ha
      -- a binding of this place before would be attached to the same field
      have hnone : done.find? (·.place == b.place) = none := by
        refine List.find?_eq_none.2 ?_
        intro d hd hp
        obtain ⟨a, ha, hplace⟩ := h.covered d hd
        obtain ⟨howner, hname⟩ := Prod.mk.inj (hplace.trans (beq_iff_eq.1 hp))
        obtain ⟨c', hc', htarget⟩ := h.object a ha
        rw [howner, hobject, Option.some.injEq] at hc'
        exact hnew a ha (Prod.ext (hc' ▸ htarget.symm) hname)
      rw [hnone]
      simp
  · intro d hd
    rcases List.mem_append.1 hd with hd | hd
    · obtain ⟨a, ha, hplace⟩ := h.covered d hd
      exact ⟨a, List.mem_append_left _ ha, hplace⟩
    · obtain rfl := List.mem_singleton.1 hd
      exact ⟨_, List.mem_append_right _ (List.mem_singleton.2 rfl), rfl⟩

theorem pass (h : Attached r done attached) {a : Attachment} (ha : a ∈ attached)
    (hplace : a.binding.place = b.place) : Attached r (done ++ [b]) attached := by
  refine ⟨h.object, h.slots, ?_, ?_⟩
  · intro a ha
    rw [List.find?_append, h.first a ha, Option.some_or]
  · intro d hd
    rcases List.mem_append.1 hd with hd | hd
    · exact h.covered d hd
    · obtain rfl := List.mem_singleton.1 hd
      exact ⟨a, ha, hplace⟩

theorem mem (h : Attached r done attached) {a : Attachment} (ha : a ∈ attached) :
    a.binding ∈ done := List.mem_of_find?_eq_some (h.first a ha)

/-- No two bindings that were attached or passed over compete. -/
theorem not_competes (h : Attached r done attached) {b b' : Binding} (hb : b ∈ done)
    (hb' : b' ∈ done) : ¬ b.Competes r b' := by
  rintro ⟨howner, hname, c, hc, hc'⟩
  obtain ⟨a, ha, hplace⟩ := h.covered b hb
  obtain ⟨a', ha', hplace'⟩ := h.covered b' hb'
  obtain ⟨ho, hn⟩ := Prod.mk.inj hplace
  obtain ⟨ho', hn'⟩ := Prod.mk.inj hplace'
  obtain ⟨d, hd, htarget⟩ := h.object a ha
  obtain ⟨d', hd', htarget'⟩ := h.object a' ha'
  rw [ho, hc, Option.some.injEq] at hd
  rw [ho', hc', Option.some.injEq] at hd'
  have hslot : a.slot = a'.slot := by
    refine Prod.ext ?_ (hn.trans (hname.trans hn'.symm))
    exact htarget.symm.trans (hd ▸ hd' ▸ htarget')
  obtain rfl := List.inj_on_of_nodup_map h.slots ha ha' hslot
  exact howner (ho.symm.trans ho')

end Attached

def Refused (r : Registry) (l : List Binding) (e : BuildError) : Prop :=
  (∃ b ∈ l, Exposure.augmented? r b.owner = none ∧
    e = .undefinedResolverType (r.entityName b.owner)) ∨
  ∃ b ∈ l, ∃ b' ∈ l, b.Competes r b' ∧ ∃ c, Exposure.augmented? r b.owner = some c ∧
    e = .duplicateField c.name b.handler.schemaName

/-- Attaching goes on as it began, or stops for a reason among the bindings that it came to. -/
theorem Attached.run {done l : List Binding} (h : Attached r done attached) :
    (∃ result, attach r attached l = .ok result ∧ Attached r (done ++ l) result) ∨
      ∃ e, attach r attached l = .error e ∧ Refused r (done ++ l) e := by
  induction l generalizing done attached with
  | nil =>
    rw [List.append_nil]
    exact .inl ⟨attached, rfl, h⟩
  | cons b rest ih =>
    have hb : b ∈ done ++ b :: rest := List.mem_append_right _ List.mem_cons_self
    have hsplit : done ++ b :: rest = done ++ [b] ++ rest := by simp
    cases hobject : Exposure.augmented? r b.owner with
    | none => exact .inr ⟨_, attach_of_eq_none hobject attached rest, .inl ⟨b, hb, hobject, rfl⟩⟩
    | some c =>
      by_cases hnew : ∀ a ∈ attached, a.slot ≠ (c.target, b.handler.schemaName)
      · rw [attach_of_new hobject hnew, hsplit]
        exact ih (h.add hobject hnew)
      · push Not at hnew
        obtain ⟨a, ha, hslot⟩ := hnew
        obtain ⟨htarget, hname⟩ := Prod.mk.inj hslot
        rw [attach_of_mem hobject h.slots ha hslot]
        split
        · next howner =>
          rw [hsplit]
          exact ih (h.pass ha (Prod.ext howner hname))
        · next howner =>
          obtain ⟨d, hd, hdt⟩ := h.object a ha
          obtain rfl := Exposure.augmented?_inj hobject hd (htarget.symm.trans hdt.symm)
          refine .inr ⟨_, rfl, .inr ⟨b, hb, a.binding, List.mem_append_left _ (h.mem ha), ?_⟩⟩
          exact ⟨⟨fun he => howner he.symm, hname.symm, c, hobject, hd⟩, c, hobject, rfl⟩

theorem attached_of_attach {l : List Binding} (h : attach r [] l = .ok result) :
    Attached r l result := by
  obtain ⟨result', hresult, hattached⟩ | ⟨e, he, -⟩ := Attached.nil.run (r := r) (l := l)
  · rw [h, Except.ok.injEq] at hresult
    exact hresult ▸ hattached
  · rw [h] at he
    cases he

theorem attach_of_competes {l : List Binding}
    (hall : ∀ b ∈ l, Exposure.augmented? r b.owner ≠ none) {b b' : Binding} (hb : b ∈ l)
    (hb' : b' ∈ l) (h : b.Competes r b') :
    ∃ x ∈ l, ∃ y ∈ l, x.Competes r y ∧ ∃ c, Exposure.augmented? r x.owner = some c ∧
      attach r [] l = .error (.duplicateField c.name x.handler.schemaName) := by
  obtain ⟨result, -, hattached⟩ | ⟨e, he, hrefused⟩ := Attached.nil.run (r := r) (l := l)
  · exact absurd h (hattached.not_competes hb hb')
  · rcases hrefused with ⟨x, hx, hnone, -⟩ | ⟨x, hx, y, hy, hxy, c, hc, rfl⟩
    · exact absurd hnone (hall x hx)
    · exact ⟨x, hx, y, hy, hxy, c, hc, he⟩

end Attachment

end CodeFirst
