import CodeFirst.Build.Arguments

/-! How the parameters of a handler are visited: by ascending place, those at one place in their
order. A parameter contributes itself, or the fields of its bundle if that has an arguments type. -/

namespace CodeFirst

namespace Parameter

/-- Some parameters by ascending place. Those at one place stay in their order. -/
structure Visits (ps l : List Parameter) : Prop where
  perm : l.Perm ps
  ascending : l.Pairwise fun a b => a.index ≤ b.index
  stable : ∀ i, (l.filter fun p => p.index = i) = ps.filter fun p => p.index = i

/-- What a parameter contributes: itself, or all the fields of its bundle, most-base first. -/
def contributors (r : Registry) (handler : Location) (p : Parameter) : List InputContribution :=
  match p.kind with
  | .named name type wrapping description default =>
    [.parameter (handler.withIndex p.index) name type wrapping description default]
  | .bundle type => type.entity?.toList.flatMap fun id =>
    (r.classChain .args id).flatMap fun c => c.properties.map (.property c)

/-- A bundle without an arguments type, and how it is called in reports. -/
inductive Missing (r : Registry) (p : Parameter) : String → Prop
  /-- Its base is not a declared entity. -/
  | notDeclared {type : Reference} (kind : p.kind = .bundle type) (base : type.entity? = none) :
    Missing r p type.base.debugText
  /-- Neither its entity nor an ancestor is declared as an arguments type. -/
  | noRecord {type : Reference} {id : EntityId} (kind : p.kind = .bundle type)
    (base : type.entity? = some id)
    (records : ∀ a ∈ r.entities.lineage id, r.class? .args a = none) : Missing r p (r.entityName id)

/-- At each place the lists agree, so their least elements do, and so on. -/
theorem eq_of_ascending {l m : List Parameter} (hl : l.Pairwise fun a b => a.index ≤ b.index)
    (hm : m.Pairwise fun a b => a.index ≤ b.index)
    (h : ∀ i, (l.filter fun p => p.index = i) = m.filter fun p => p.index = i) : l = m := by
  induction l generalizing m with
  | nil =>
    cases m with
    | nil => rfl
    | cons b m => simpa using h b.index
  | cons a l ih =>
    have hmem : ∀ p, p ∈ a :: l ↔ p ∈ m := by
      intro p
      have hfilter : p ∈ ((a :: l).filter fun q => q.index = p.index) ↔
          p ∈ m.filter fun q => q.index = p.index := by rw [h]
      simpa only [List.mem_filter, decide_true, and_true] using hfilter
    cases m with
    | nil => exact absurd ((hmem a).1 List.mem_cons_self) List.not_mem_nil
    | cons b m =>
      rw [List.pairwise_cons] at hl hm
      have hab : a.index = b.index := by
        apply Nat.le_antisymm
        · rcases List.mem_cons.1 ((hmem b).2 List.mem_cons_self) with rfl | hb
          · exact Nat.le_refl _
          · exact hl.1 b hb
        · rcases List.mem_cons.1 ((hmem a).1 List.mem_cons_self) with rfl | ha
          · exact Nat.le_refl _
          · exact hm.1 a ha
      have hhead := h a.index
      rw [List.filter_cons_of_pos (by simp), List.filter_cons_of_pos (by simp [hab])] at hhead
      obtain ⟨rfl, htail⟩ := List.cons.inj hhead
      congr 1
      apply ih hl.2 hm.2
      intro i
      by_cases hi : a.index = i
      · subst hi
        exact htail
      · simpa [hi] using h i

theorem Visits.unique {ps l m : List Parameter} (hl : Visits ps l) (hm : Visits ps m) : l = m :=
  eq_of_ascending hl.ascending hm.ascending fun i => (hl.stable i).trans (hm.stable i).symm

end Parameter

namespace InputContribution

variable {r : Registry} {host : Location} {p : Parameter} {ps : List Parameter}

/-- Sorting by places is stable. -/
theorem visits_inOrder (ps : List Parameter) : Parameter.Visits ps (inOrder ps) := by
  have htrans : ∀ a b c : Parameter, decide (a.index ≤ b.index) = true →
      decide (b.index ≤ c.index) = true → decide (a.index ≤ c.index) = true := by
    simp only [decide_eq_true_eq]
    omega
  have htotal : ∀ a b : Parameter,
      (decide (a.index ≤ b.index) || decide (b.index ≤ a.index)) = true := by
    simp only [Bool.or_eq_true, decide_eq_true_eq]
    omega
  have hperm : (inOrder ps).Perm ps := List.mergeSort_perm ..
  refine ⟨hperm, ?_, fun i => ?_⟩
  · exact (List.pairwise_mergeSort htrans htotal ps).imp of_decide_eq_true
  · -- those at one place are in order already, so sorting keeps them as they are
    have hat : (ps.filter fun p => p.index = i).Pairwise fun a b =>
        decide (a.index ≤ b.index) = true := by
      refine List.pairwise_of_forall_mem_list fun a ha b hb => ?_
      have ha := of_decide_eq_true (List.mem_filter.1 ha).2
      have hb := of_decide_eq_true (List.mem_filter.1 hb).2
      simp [ha, hb]
    have hsub := (List.sublist_mergeSort htrans htotal hat List.filter_sublist).filter
      fun p => decide (p.index = i)
    rw [List.filter_filter] at hsub
    simp only [Bool.and_self] at hsub
    exact (hsub.eq_of_length (hperm.filter _).length_eq.symm).symm

theorem inOrder_of_ascending (h : ps.Pairwise fun a b => a.index ≤ b.index) : inOrder ps = ps :=
  List.mergeSort_of_pairwise (h.imp decide_eq_true)

/-- A bundle without an arguments type contributes nothing but the error. -/
theorem ofParameter_of_missing {b : String} (h : p.Missing r b) :
    ofParameter r host p = [.noBundle (host.withIndex p.index) b] := by
  cases h with
  | notDeclared kind base =>
    obtain ⟨name, hbase⟩ := Reference.entity?_eq_none_iff.1 base
    simp only [ofParameter, kind, hbase]
  | noRecord kind base records =>
    have hchain : r.classChain .args _ = [] := List.filterMap_eq_nil_iff.2 records
    simp only [ofParameter, kind, Reference.entity?_eq_some_iff.1 base, hchain]

theorem ofParameter_of_not_missing (h : ∀ b, ¬ p.Missing r b) :
    ofParameter r host p = p.contributors r host := by
  rw [ofParameter, Parameter.contributors]
  cases hkind : p.kind with
  | named name type wrapping description default => rfl
  | bundle type =>
    cases hid : type.entity? with
    | none => exact absurd (.notDeclared hkind hid) (h _)
    | some id =>
      cases hchain : r.classChain .args id with
      | nil =>
        exact absurd (.noRecord hkind hid (List.filterMap_eq_nil_iff.1 hchain)) (h _)
      | cons c rest =>
        simp only [Reference.entity?_eq_some_iff.1 hid, hchain]
        rw [hid, Option.toList_some, List.flatMap_singleton, hchain]
        rfl

theorem noBundle_not_mem_contributors {l : Location} {b : String} :
    .noBundle l b ∉ p.contributors r host := by
  rw [Parameter.contributors]
  cases p.kind with
  | named name type wrapping description default => simp
  | bundle type => simp

end InputContribution

end CodeFirst
