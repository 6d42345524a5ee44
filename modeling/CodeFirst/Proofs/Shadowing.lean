import CodeFirst.Proofs.Ancestry
import CodeFirst.Proofs.Slots

/-! Which handlers a class takes over from the abstract classes that it extends. Of one schema name
it takes over a single handler, that of the nearest class, and none that it declares itself. The
order is that of the classes, then from the nearest abstract class on, then that of registration;
and a filter leaves out classes without any effect on the others. -/

namespace CodeFirst.Exposure

variable {r : Registry} {filter : ResolverFilter} {l : List Handler}

/-- Whether a class takes over a handler, so that it exposes a handler that it does not declare. -/
structure TakesOver (r : Registry) (filter : ResolverFilter) (l : List Handler) (b : Binding) :
    Prop where
  concrete : r.isAbstractResolver b.owner = false
  known : r.resolver? b.owner ≠ none
  included : ∀ ids, filter = some ids → b.owner ∈ ids
  extended : b.handler.target ∈ r.entities.ancestors b.owner
  lent : r.isAbstractResolver b.handler.target = true
  own : ∀ h ∈ l, h.target = b.owner → h.schemaName ≠ b.handler.schemaName
  /-- No abstract class between the two has a handler of the name. -/
  nearest : ∀ h ∈ l, r.isAbstractResolver h.target = true →
    h.target ∈ r.entities.ancestors b.owner →
      b.handler.target ∈ r.entities.ancestors h.target → h.schemaName ≠ b.handler.schemaName
  first : l.find? (fun h => h.target == b.handler.target &&
    h.schemaName == b.handler.schemaName) = some b.handler

/-- The order in which handlers are taken over. -/
def Precedes (r : Registry) (l : List Handler) (b b' : Binding) : Prop :=
  b.owner < b'.owner ∨ b.owner = b'.owner ∧
    (b'.handler.target ∈ r.entities.ancestors b.handler.target ∨
      b.handler.target = b'.handler.target ∧ [b.handler, b'.handler].Sublist l)

/-- Of each name that is not taken the first handler is kept. -/
theorem mem_unhidden_iff {taken : List String} {h : Handler} : h ∈ unhidden taken l ↔
    h.schemaName ∉ taken ∧ l.find? (·.schemaName == h.schemaName) = some h := by
  induction l generalizing taken with
  | nil => simp [unhidden]
  | cons x rest ih =>
    rw [List.find?_cons]
    by_cases hx : x.schemaName ∈ taken
    · rw [unhidden_cons_of_mem hx, ih]
      refine and_congr_right fun hh => ?_
      have hne : (x.schemaName == h.schemaName) = false :=
        beq_eq_false_iff_ne.2 fun he => hh (he ▸ hx)
      rw [hne]
    · rw [unhidden_cons_of_not_mem hx, List.mem_cons, ih]
      by_cases he : x.schemaName = h.schemaName
      · simp only [he, beq_self_eq_true, List.mem_cons_self, not_true, false_and, or_false,
          Option.some.injEq]
        rw [he] at hx
        exact ⟨fun hh => ⟨hx, hh.symm⟩, fun hh => hh.2.symm⟩
      · have hne : (x.schemaName == h.schemaName) = false := beq_eq_false_iff_ne.2 he
        have hxh : h ≠ x := fun hh => he (hh ▸ rfl)
        rw [hne, List.mem_cons]
        simp only [hxh, Ne.symm he, false_or]

/-- What one abstract class lends of a name is the first handler that it has registered. -/
theorem find?_lent {a : EntityId} (ha : r.isAbstractResolver a = true) (name : String) :
    (l.filter fun h => h.target == a && r.isAbstractResolver h.target).find?
        (·.schemaName == name) =
      l.find? fun h => h.target == a && h.schemaName == name := by
  rw [List.find?_filter]
  congr 1
  funext h
  by_cases hh : h.target = a
  · simp [hh, ha, Bool.beq_eq_decide_eq]
  · simp [hh]

/-- The first candidate of a name is the first handler of the nearest abstract class that has one.
-/
theorem find?_candidates_iff {id : EntityId} {h : Handler} :
    (candidates r l id).find? (·.schemaName == h.schemaName) = some h ↔
      h.target ∈ r.entities.ancestors id ∧ r.isAbstractResolver h.target = true ∧
      (∀ h' ∈ l, r.isAbstractResolver h'.target = true → h'.target ∈ r.entities.ancestors id →
        h.target ∈ r.entities.ancestors h'.target → h'.schemaName ≠ h.schemaName) ∧
      l.find? (fun h' => h'.target == h.target && h'.schemaName == h.schemaName) = some h := by
  have hdescending : (r.entities.ancestors id).reverse.Pairwise (· > ·) :=
    List.pairwise_reverse.2 (r.entities.pairwise_ancestors id)
  rw [candidates, List.find?_flatMap]
  constructor
  · intro hfind
    obtain ⟨nearer, a, farther, hsplit, hfirst, hnone⟩ := List.findSome?_eq_some_iff.1 hfind
    have hkept := (List.mem_filter.1 (List.mem_of_find?_eq_some hfirst)).2
    rw [Bool.and_eq_true, beq_iff_eq] at hkept
    obtain ⟨rfl, habstract⟩ := hkept
    have hmem : h.target ∈ r.entities.ancestors id := by
      rw [← List.mem_reverse, hsplit]
      exact List.mem_append_right _ List.mem_cons_self
    refine ⟨hmem, habstract, ?_, find?_lent habstract _ ▸ hfirst⟩
    intro h' hh' habstract' hmem' hbetween hname
    -- the class between is declared later, so it was asked before
    have hlater := EntityTable.lt_of_mem_ancestors hbetween
    rw [← List.mem_reverse, hsplit, List.mem_append, List.mem_cons] at hmem'
    rw [hsplit] at hdescending
    rcases hmem' with hmem' | hmem' | hmem'
    · refine List.find?_eq_none.1 (hnone _ hmem') h' (List.mem_filter.2 ⟨hh', ?_⟩) ?_
      · simp [habstract']
      · simpa using hname
    · exact Nat.lt_irrefl _ (hmem' ▸ hlater)
    · have hfarther := (List.pairwise_cons.1 (List.pairwise_append.1 hdescending).2.1).1 _ hmem'
      exact Nat.lt_asymm hfarther hlater
  · rintro ⟨hmem, habstract, hnearest, hfirst⟩
    obtain ⟨nearer, farther, hsplit⟩ := List.append_of_mem (List.mem_reverse.2 hmem)
    rw [hsplit] at hdescending
    refine List.findSome?_eq_some_iff.2 ⟨nearer, _, farther, hsplit, ?_, ?_⟩
    · rw [find?_lent habstract, hfirst]
    · intro a ha
      refine List.find?_eq_none.2 fun h' hh' hname => ?_
      obtain ⟨hmem', hkept⟩ := List.mem_filter.1 hh'
      rw [Bool.and_eq_true, beq_iff_eq] at hkept
      obtain ⟨rfl, habstract'⟩ := hkept
      have hancestor : h'.target ∈ r.entities.ancestors id := by
        rw [← List.mem_reverse, hsplit]
        exact List.mem_append_left _ ha
      have hlt : h.target < h'.target :=
        (List.pairwise_append.1 hdescending).2.2 _ ha _ List.mem_cons_self
      exact hnearest h' hmem' habstract' hancestor
        (EntityTable.mem_ancestors_of_lt hmem hancestor hlt) (by simpa using hname)

theorem mem_inherited_iff_takesOver {b : Binding} :
    b ∈ inherited r filter l ↔ TakesOver r filter l b := by
  rw [mem_inherited_iff, mem_unhidden_iff, find?_candidates_iff, inherits, Bool.and_eq_true,
    Bool.and_eq_true, Bool.not_eq_true', ResolverFilter.includes_iff, Option.isSome_iff_ne_none]
  have hown : b.handler.schemaName ∉ (l.filter (·.target == b.owner)).map (·.schemaName) ↔
      ∀ h ∈ l, h.target = b.owner → h.schemaName ≠ b.handler.schemaName := by
    simp only [List.mem_map, List.mem_filter, beq_iff_eq, not_exists, not_and]
    exact forall_congr' fun h => ⟨fun hh hm ht => hh ⟨hm, ht⟩, fun hh hm => hh hm.1 hm.2⟩
  rw [hown]
  constructor
  · rintro ⟨⟨-, ⟨hconcrete, hknown⟩, hincluded⟩, hown, hextended, hlent, hnearest, hfirst⟩
    exact ⟨hconcrete, hknown, hincluded, hextended, hlent, hown, hnearest, hfirst⟩
  · intro h
    have hid := EntityTable.mem_ids_of_mem_ancestors h.extended
    exact ⟨⟨hid, ⟨h.concrete, h.known⟩, h.included⟩, h.own, h.extended, h.lent, h.nearest, h.first⟩

/-- The candidates of a class come from the nearest ancestor on, and as they are registered. -/
theorem pairwise_candidates (r : Registry) (l : List Handler) (id : EntityId) :
    (candidates r l id).Pairwise fun h h' => h'.target ∈ r.entities.ancestors h.target ∨
      h.target = h'.target ∧ [h, h'].Sublist l := by
  have htarget : ∀ a, ∀ h ∈ l.filter (fun h => h.target == a && r.isAbstractResolver h.target),
      h.target = a := by
    intro a h hh
    have hkept := (List.mem_filter.1 hh).2
    rw [Bool.and_eq_true, beq_iff_eq] at hkept
    exact hkept.1
  rw [candidates, List.pairwise_flatMap]
  constructor
  · intro a ha
    refine List.pairwise_iff_forall_sublist.2 fun {h h'} hsub => .inr ⟨?_, ?_⟩
    · rw [htarget a h (hsub.subset (by simp)), htarget a h' (hsub.subset (by simp))]
    · exact hsub.trans List.filter_sublist
  · have hdescending := List.pairwise_reverse.2 (r.entities.pairwise_ancestors id)
    refine hdescending.imp_of_mem ?_
    intro a a' ha ha' hlt h hh h' hh'
    left
    rw [htarget a h hh, htarget a' h' hh']
    exact EntityTable.mem_ancestors_of_lt (List.mem_reverse.1 ha') (List.mem_reverse.1 ha) hlt

theorem pairwise_inherited (r : Registry) (filter : ResolverFilter) (l : List Handler) :
    (inherited r filter l).Pairwise (Precedes r l) := by
  rw [inherited, List.pairwise_flatMap]
  constructor
  · intro id _
    rw [inheritedBy, List.pairwise_map]
    refine ((pairwise_candidates r l id).sublist (unhidden_sublist _ _)).imp ?_
    intro h h' hh
    exact .inr ⟨rfl, hh⟩
  · have hascending : (r.entities.ids.filter (inherits r filter)).Pairwise (· < ·) :=
      List.pairwise_lt_range.filter _
    refine hascending.imp ?_
    intro id id' hlt b hb b' hb'
    obtain ⟨h, -, rfl⟩ := List.mem_map.1 hb
    obtain ⟨h', -, rfl⟩ := List.mem_map.1 hb'
    exact .inl hlt

/-- What a class takes over does not depend on the other classes, so that a filter only leaves
out. -/
theorem inherited_filter : inherited r filter l =
    (inherited r none l).filter fun b => filter.includes b.owner := by
  have hby : ∀ id, (inheritedBy r l id).filter (fun b => filter.includes b.owner) =
      if filter.includes id then inheritedBy r l id else [] := by
    intro id
    rw [inheritedBy, List.filter_map]
    by_cases hid : filter.includes id = true <;> simp [Function.comp_def, hid]
  have hinherits : ∀ id, inherits r filter id = (inherits r none id && filter.includes id) := by
    intro id
    simp [inherits, ResolverFilter.includes]
  rw [inherited, inherited, List.filter_flatMap]
  induction r.entities.ids with
  | nil => rfl
  | cons id rest ih =>
    rw [List.filter_cons, List.filter_cons, hinherits]
    by_cases hnone : inherits r none id = true
    · by_cases hid : filter.includes id = true <;> simp [hnone, hid, hby, ih]
    · simp [hnone, ih]

theorem direct_filter : direct r filter l =
    (direct r none l).filter fun b => filter.includes b.owner := by
  rw [direct, direct, List.filter_map, List.filter_filter]
  congr 2
  funext h
  simp [ResolverFilter.includes, Bool.and_comm]

/-- The exposed handlers are those of the concrete classes that are included, as they are
registered, and then the ones that such classes take over from abstract classes. A class takes over
each schema name at most once, and a filter only leaves out what other classes expose. -/
theorem bindings_takesOver (r : Registry) (filter : ResolverFilter) (l : List Handler) :
    ∃ taken, bindings r filter l =
        (l.filter fun h => !r.isAbstractResolver h.target && filter.includes h.target).map
          (fun h => ⟨h.target, h⟩) ++ taken ∧
      (∀ b, b ∈ taken ↔ TakesOver r filter l b) ∧
      taken.Pairwise (Precedes r l) ∧ (taken.map Binding.place).Nodup ∧
      bindings r filter l = (bindings r none l).filter fun b => filter.includes b.owner := by
  refine ⟨inherited r filter l, rfl, fun b => mem_inherited_iff_takesOver,
    pairwise_inherited r filter l, nodup_places_inherited r filter l, ?_⟩
  rw [bindings, bindings, List.filter_append, direct_filter, inherited_filter]

end CodeFirst.Exposure
