import CodeFirst.Entity

/-! Chains of ancestors. Ancestors come in the order in which they were declared, and of two
ancestors of one entity the earlier one is an ancestor of the later one. -/

namespace CodeFirst.EntityTable

variable {t : EntityTable} {id a b p : EntityId}

theorem mem_lineage_iff : a ∈ t.lineage id ↔ a ∈ t.ancestors id ∨ a = id := by
  rw [lineage, List.mem_append, List.mem_singleton]

theorem mem_ancestors_iff : a ∈ t.ancestors id ↔ ∃ p, t.parent? id = some p ∧ a ∈ t.lineage p := by
  cases hp : t.parent? id with
  | none => simp [ancestors_of_parent?_eq_none hp]
  | some p => simp [ancestors_of_parent? hp]

theorem mem_ids_iff : id ∈ t.ids ↔ id < t.size := List.mem_range

theorem mem_ids_of_mem_ancestors (h : a ∈ t.ancestors id) : id ∈ t.ids := by
  obtain ⟨p, hp, -⟩ := mem_ancestors_iff.1 h
  obtain ⟨e, he, -⟩ := Option.bind_eq_some_iff.1 hp
  exact mem_ids_iff.2 (List.getElem?_eq_some_iff.1 he).1

theorem nearestFirst_of_parent?_eq_none (h : t.parent? id = none) : t.nearestFirst id = [id] := by
  rw [nearestFirst, ancestors_of_parent?_eq_none h, List.reverse_nil]

theorem nearestFirst_of_parent? (h : t.parent? id = some p) :
    t.nearestFirst id = id :: t.nearestFirst p := by
  rw [nearestFirst, ancestors_of_parent? h, lineage, List.reverse_append]
  rfl

theorem lt_of_mem_ancestors (h : a ∈ t.ancestors id) : a < id := by
  fun_induction ancestors t id with
  | case1 id hp => cases h
  | case2 id p hp hlt ih =>
    rcases List.mem_append.1 h with h | h
    · exact Nat.lt_trans (ih h) hlt
    · rwa [List.mem_singleton.1 h]

theorem pairwise_ancestors (t : EntityTable) (id : EntityId) :
    (t.ancestors id).Pairwise (· < ·) := by
  fun_induction ancestors t id with
  | case1 id hp => exact .nil
  | case2 id p hp hlt ih =>
    refine List.pairwise_append.2 ⟨ih, List.pairwise_singleton _ _, fun a ha b hb => ?_⟩
    rw [List.mem_singleton.1 hb]
    exact lt_of_mem_ancestors ha

/-- Of two ancestors the earlier one is an ancestor of the later one. -/
theorem mem_ancestors_of_lt (ha : a ∈ t.ancestors id) (hb : b ∈ t.ancestors id) (h : a < b) :
    a ∈ t.ancestors b := by
  fun_induction ancestors t id with
  | case1 id hp => cases ha
  | case2 id p hp hlt ih =>
    rw [List.mem_append, List.mem_singleton] at ha hb
    rcases ha with ha | rfl <;> rcases hb with hb | rfl
    · exact ih ha hb
    · exact ha
    · exact absurd (lt_of_mem_ancestors hb) (Nat.lt_asymm h)
    · exact absurd h (Nat.lt_irrefl _)

end CodeFirst.EntityTable
