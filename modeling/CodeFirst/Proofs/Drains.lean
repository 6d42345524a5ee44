import CodeFirst.Proofs.Termination
import Mathlib.Data.List.Induction

/-! Any use of the orphans: registrations and drains against one registry, in any order. Whatever is
registered is handed out by the next drain, in the order of registration, and never again. -/

namespace CodeFirst

theorem nodup_eraseDups {α : Type} [BEq α] [LawfulBEq α] (l : List α) : l.eraseDups.Nodup := by
  induction l using List.reverseRecOn with
  | nil => exact List.nodup_nil
  | append_singleton l x ih =>
    by_cases h : x ∈ l
    · rw [eraseDups_concat_of_mem h]
      exact ih
    · rw [eraseDups_concat_of_not_mem h]
      rw [← List.concat_eq_append]
      exact ih.concat (mt List.mem_eraseDups.1 h)

/-- The elements of a list without duplicates are found in their order. -/
theorem pairwise_idxOf {α : Type} [BEq α] [LawfulBEq α] {l m : List α} (hl : l.Nodup)
    (hm : m.Sublist l) : m.Pairwise fun a b => l.idxOf a ≤ l.idxOf b := by
  refine List.Pairwise.sublist hm (List.pairwise_iff_getElem.2 ?_)
  intro i j hi hj hij
  rw [hl.idxOf_getElem, hl.idxOf_getElem]
  omega

namespace Orphans

/-- A use of the orphans. -/
inductive Call where
  | register (id : EntityId)
  | registerReference (ref : Reference)
  | drain

/-- What came of some calls: all entities that were to be registered, in order, and what each drain
returned. -/
structure History where
  orphans : Orphans
  requested : List EntityId
  returned : List (List (TypeCategory × ClassRecord))

/-- One call more. A drain registers the followers of what waits. -/
def History.next (r : Registry) (h : History) : Call → History
  | .register id => ⟨h.orphans.register id, h.requested ++ [id], h.returned⟩
  | .registerReference ref =>
    ⟨h.orphans.registerReference ref, h.requested ++ ref.entity?.toList, h.returned⟩
  | .drain =>
    ⟨(h.orphans.drain r).1, h.requested ++ h.orphans.waiting.flatMap (followers r),
      h.returned ++ [(h.orphans.drain r).2]⟩

def history (r : Registry) (calls : List Call) : History :=
  calls.foldl (History.next r) ⟨∅, [], []⟩

theorem history_append (r : Registry) (calls : List Call) (c : Call) :
    history r (calls ++ [c]) = (history r calls).next r c := List.foldl_append

theorem registerReference_eq (o : Orphans) (ref : Reference) :
    o.registerReference ref = o.registerMany ref.entity?.toList := by
  rw [registerReference]
  cases ref.entity? <;> rfl

theorem exists_registerMany (o : Orphans) (ids : List EntityId) :
    ∃ new, (o.registerMany ids).seen = o.seen ++ new ∧
      (o.registerMany ids).waiting = o.waiting ++ new := by
  induction ids generalizing o with
  | nil => exact ⟨[], by simp [registerMany]⟩
  | cons id rest ih =>
    have hrest : o.registerMany (id :: rest) = (o.register id).registerMany rest := rfl
    obtain ⟨new, hseen, hwaiting⟩ := ih (o.register id)
    rw [hrest, hseen, hwaiting, register]
    by_cases h : id ∈ o.seen
    · exact ⟨new, by simp [h]⟩
    · exact ⟨id :: new, by simp [h]⟩

theorem seen_registerMany {o : Orphans} {l : List EntityId} (h : o.seen = l.eraseDups)
    (ids : List EntityId) : (o.registerMany ids).seen = (l ++ ids).eraseDups := by
  induction ids generalizing o l with
  | nil => simpa [registerMany] using h
  | cons id rest ih =>
    have hone : (o.register id).seen = (l ++ [id]).eraseDups := by
      rw [register]
      by_cases hid : id ∈ l
      · rw [eraseDups_concat_of_mem hid, if_pos (h ▸ List.mem_eraseDups.2 hid), h]
      · have hnew : id ∉ o.seen := fun hs => hid (List.mem_eraseDups.1 (h ▸ hs))
        rw [eraseDups_concat_of_not_mem hid, if_neg hnew, ← h]
    have hrest := ih hone
    rwa [List.append_assoc] at hrest

/-- The entities in the order of registration are those that each drain handled, one drain after
the other, and those that wait. -/
structure History.Handled (r : Registry) (h : History) (parts : List (List EntityId)) : Prop where
  seen : h.orphans.seen = parts.flatten ++ h.orphans.waiting
  requested : h.orphans.seen = h.requested.eraseDups
  returned : h.returned = parts.map (·.flatMap (records r))
  followed : ∀ id ∈ parts.flatten, ∀ x ∈ followers r id, x ∈ h.orphans.seen

namespace History.Handled

variable {r : Registry} {h : History} {parts : List (List EntityId)}

theorem registerMany (hh : h.Handled r parts) (ids : List EntityId) :
    History.Handled r ⟨h.orphans.registerMany ids, h.requested ++ ids, h.returned⟩ parts := by
  obtain ⟨new, hseen, hwaiting⟩ := exists_registerMany h.orphans ids
  constructor
  · change (h.orphans.registerMany ids).seen =
      parts.flatten ++ (h.orphans.registerMany ids).waiting
    rw [hseen, hwaiting, hh.seen, List.append_assoc]
  · exact seen_registerMany hh.requested ids
  · exact hh.returned
  · intro id hid x hx
    exact mem_seen_registerMany.2 (.inl (hh.followed id hid x hx))

theorem drain (hh : h.Handled r parts) :
    (h.next r .drain).Handled r (parts ++ [h.orphans.waiting]) := by
  let emptied : Orphans := ⟨h.orphans.seen, [], by simp⟩
  obtain ⟨new, hseen, hwaiting⟩ :=
    exists_registerMany emptied (h.orphans.waiting.flatMap (followers r))
  constructor
  · change (emptied.registerMany _).seen = _ ++ (emptied.registerMany _).waiting
    rw [hseen, hwaiting]
    simp [emptied, hh.seen]
  · exact seen_registerMany (o := emptied) hh.requested _
  · simp [next, hh.returned, Orphans.drain]
  · intro id hid x hx
    apply mem_seen_drain.2
    simp only [List.flatten_append, List.flatten_singleton, List.mem_append] at hid
    rcases hid with hid | hid
    · exact .inl (hh.followed id hid x hx)
    · exact .inr ⟨id, hid, hx⟩

theorem next (hh : h.Handled r parts) (c : Call) :
    (h.next r c).Handled r parts ∨ (h.next r c).Handled r (parts ++ [h.orphans.waiting]) := by
  cases c with
  | register id => exact .inl (hh.registerMany [id])
  | registerReference ref =>
    rw [History.next, registerReference_eq]
    exact .inl (hh.registerMany _)
  | drain => exact .inr hh.drain

theorem nodup (hh : h.Handled r parts) : h.orphans.seen.Nodup := by
  rw [hh.requested]
  exact nodup_eraseDups _

theorem flatten_returned (hh : h.Handled r parts) :
    h.returned.flatten = parts.flatten.flatMap (records r) := by
  rw [hh.returned, List.flatMap_def, List.map_flatten, List.flatten_flatten, List.map_map]
  rfl

/-- A drain leaves every known entity handed out. -/
theorem flatten_returned_drain (hh : h.Handled r parts) :
    (h.next r .drain).returned.flatten = h.orphans.seen.flatMap (records r) := by
  rw [hh.drain.flatten_returned, hh.seen, List.flatten_append, List.flatten_singleton]

theorem mem_returned (hh : h.Handled r parts) {k : TypeCategory} {c : ClassRecord}
    (hx : (k, c) ∈ h.returned.flatten) :
    r.class? k.classKind c.target = some c ∧ c.isAbstract = false := by
  rw [hh.flatten_returned] at hx
  obtain ⟨id, -, hid⟩ := List.mem_flatMap.1 hx
  have htarget : c.target = id := target_of_mem_records hid
  rw [htarget]
  exact mem_records_iff.1 hid

theorem nodup_returned (hh : h.Handled r parts) :
    (h.returned.flatten.map fun x => (x.1, x.2.target)).Nodup := by
  have hhandled : parts.flatten.Nodup := by
    have hseen := hh.nodup
    rw [hh.seen, List.nodup_append] at hseen
    exact hseen.1
  have hdrained : h.returned.flatten.Nodup := by
    rw [hh.flatten_returned]
    exact nodup_drained (o := ⟨parts.flatten, parts.flatten, fun _ hid => hid⟩) hhandled
  apply List.Nodup.map_on ?_ hdrained
  intro (k, c) hx (k', c') hx' heq
  obtain ⟨rfl, htarget⟩ := Prod.mk.inj heq
  have hc := (hh.mem_returned hx).1
  have hc' := (hh.mem_returned hx').1
  simp only at htarget
  rw [htarget, hc', Option.some.injEq] at hc
  rw [hc]

theorem ordered (hh : h.Handled r parts) {returned : List (TypeCategory × ClassRecord)}
    (hreturned : returned ∈ h.returned) :
    (returned.map fun x => h.orphans.seen.idxOf x.2.target).Pairwise (· ≤ ·) := by
  rw [hh.returned, List.mem_map] at hreturned
  obtain ⟨part, hpart, rfl⟩ := hreturned
  have hsub : part.Sublist h.orphans.seen := by
    rw [hh.seen]
    exact (List.sublist_flatten_of_mem hpart).trans (List.sublist_append_left _ _)
  rw [List.pairwise_map, List.pairwise_flatMap]
  constructor
  · intro id _
    apply List.pairwise_of_forall_mem_list
    intro x hx y hy
    simp [target_of_mem_records hx, target_of_mem_records hy]
  · refine (pairwise_idxOf hh.nodup hsub).imp ?_
    intro id id' hle x hx y hy
    rwa [target_of_mem_records hx, target_of_mem_records hy]

end History.Handled

theorem exists_handled (r : Registry) (calls : List Call) :
    ∃ parts, (history r calls).Handled r parts := by
  induction calls using List.reverseRecOn with
  | nil =>
    refine ⟨[], rfl, rfl, rfl, ?_⟩
    simp
  | append_singleton calls c ih =>
    obtain ⟨parts, hparts⟩ := ih
    rw [history_append]
    rcases hparts.next c with h | h
    · exact ⟨parts, h⟩
    · exact ⟨_, h⟩

theorem mem_seen_history_append {r : Registry} {calls : List Call} {id : EntityId}
    (h : id ∈ (history r calls).orphans.seen) (more : List Call) :
    id ∈ (history r (calls ++ more)).orphans.seen := by
  induction more using List.reverseRecOn with
  | nil => simpa using h
  | append_singleton more c ih =>
    rw [← List.append_assoc, history_append]
    cases c with
    | register id' => exact mem_seen_register.2 (.inl ih)
    | registerReference ref =>
      rw [History.next, registerReference_eq]
      exact mem_seen_registerMany.2 (.inl ih)
    | drain => exact mem_seen_drain.2 (.inl ih)

section Drained

variable {r : Registry} {calls : List Call} {id : EntityId}

theorem mem_returned_of_drain (hid : id ∈ (history r calls).orphans.seen) {k : TypeCategory}
    {c : ClassRecord} (hc : r.class? k.classKind id = some c) (hconcrete : c.isAbstract = false) :
    (k, c) ∈ (history r (calls ++ [.drain])).returned.flatten := by
  obtain ⟨parts, hparts⟩ := exists_handled r calls
  rw [history_append, hparts.flatten_returned_drain]
  exact List.mem_flatMap.2 ⟨id, hid, mem_records_iff.2 ⟨hc, hconcrete⟩⟩

theorem mem_seen_of_drain (hid : id ∈ (history r calls).orphans.seen) {follower : EntityId}
    (hfollower : follower ∈ followers r id) :
    follower ∈ (history r (calls ++ [.drain])).orphans.seen := by
  obtain ⟨parts, hh⟩ := exists_handled r calls
  have hparts : id ∈ (parts ++ [(history r calls).orphans.waiting]).flatten := by
    rw [List.flatten_append, List.flatten_singleton, ← hh.seen]
    exact hid
  rw [history_append]
  exact hh.drain.followed id hparts follower hfollower

end Drained

/-- Any calls against one registry: no entity is handed out twice in one category, abstract records
never are, a drain leaves nothing behind of what was registered before it, the implementers of an
interface come at the latest with the drain that follows the one of the interface, and all comes in
the order of registration. -/
theorem history_complete (r : Registry) (calls : List Call) :
    let h := history r calls
    let drained := history r (calls ++ [.drain])
    h.orphans.seen = h.requested.eraseDups ∧
    (h.returned.flatten.map fun x => (x.1, x.2.target)).Nodup ∧
    (∀ x ∈ h.returned.flatten,
      r.class? x.1.classKind x.2.target = some x.2 ∧ x.2.isAbstract = false) ∧
    (∀ id ∈ h.orphans.seen, ∀ (k : TypeCategory) c, r.class? k.classKind id = some c →
      c.isAbstract = false → (k, c) ∈ drained.returned.flatten) ∧
    (∀ id ∈ h.orphans.seen, (r.class? .interface id).isSome = true → ∀ c ∈ r.objects.records,
      some id ∈ c.interfaces.map Reference.entity? → c.isAbstract = false →
        c.target ∈ drained.orphans.seen ∧ ∀ between,
          (.object, c) ∈ (history r (calls ++ .drain :: between ++ [.drain])).returned.flatten) ∧
    ∀ returned ∈ h.returned,
      (returned.map fun x => h.orphans.seen.idxOf x.2.target).Pairwise (· ≤ ·) := by
  intro h drained
  obtain ⟨parts, hh⟩ := exists_handled r calls
  refine ⟨hh.requested, hh.nodup_returned, fun x => hh.mem_returned,
    fun id hid k c => mem_returned_of_drain hid, ?_, fun returned => hh.ordered⟩
  intro id hid hinterface c hc hlists hconcrete
  have hclass : r.class? .object c.target = some c := Catalog.get?_eq_some_iff.2 ⟨hc, rfl⟩
  have hfollower : c.target ∈ followers r id :=
    mem_followers_iff.2 ⟨hinterface, c, mem_implementers_iff.2 ⟨hclass, hlists, hconcrete⟩, rfl⟩
  have hseen : c.target ∈ drained.orphans.seen := mem_seen_of_drain hid hfollower
  constructor
  · exact hseen
  · intro between
    have hlater := mem_seen_history_append hseen between
    rw [List.append_assoc, List.singleton_append] at hlater
    exact mem_returned_of_drain hlater hclass hconcrete

end Orphans

end CodeFirst
