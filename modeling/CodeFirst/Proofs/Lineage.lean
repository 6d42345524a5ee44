import CodeFirst.Document.Lineage
import CodeFirst.Proofs.Drains
import CodeFirst.Proofs.Registration

/-! The rounds that declare the names of a document sort them: every name becomes one entity, behind
the one it extends. When a round declares nothing, a name extends one that the document does not
have, or everything that is left extends its parents forever. -/

namespace CodeFirst

namespace OrderedMap

variable {κ ν : Type} [DecidableEq κ] {m : OrderedMap κ ν} {k : κ}

theorem mem_keys_of_get? {v : ν} (h : m.get? k = some v) : k ∈ m.keys :=
  List.mem_map_of_mem (f := Prod.fst) (get?_eq_some_iff.1 h)

theorem exists_get? (h : k ∈ m.keys) : ∃ v, m.get? k = some v :=
  Option.ne_none_iff_exists'.1 (mt get?_eq_none_iff.1 (not_not.2 h))

end OrderedMap

theorem EntityTable.parent?_declare (t : EntityTable) (name : String) (parent : Option EntityId)
    (id : EntityId) : (t.declare name parent).parent? id =
      if id = t.size then parent.filter (· < t.size) else t.parent? id := by
  have hget : (t.declare name parent).get? id = if id = t.size then
      some ⟨name, parent.filter (· < t.size), none⟩ else t.get? id := by
    change (t.entities ++ [_])[id]? = _
    rw [List.getElem?_append, EntityTable.get?, EntityTable.size]
    grind
  rw [EntityTable.parent?, hget]
  split <;> rfl

namespace Document

def names (d : Document) : List String := (d.mentions.map Prod.fst).eraseDups

/-- The first parent that an entry of a name gives to it. -/
def parent? (d : Document) (name : String) : Option String :=
  (d.mentions.filter (·.1 == name)).findSome? (·.2)

/-- The name that is `k` parents above another one. -/
def climb (d : Document) : Nat → String → Option String
  | 0, name => some name
  | k + 1, name => (d.parent? name).bind (d.climb k)

/-- Following parents from a name ends at a name of the document that has none. -/
def Ends (d : Document) (name : String) : Prop :=
  ∃ k root, d.climb k name = some root ∧ root ∈ d.names ∧ d.parent? root = none

/-- Every name above a name has a parent again. -/
def NeverEnds (d : Document) (name : String) : Prop := ∀ k, d.climb k name ≠ none

variable {d : Document} {n q : String}

theorem nodup_names : d.names.Nodup := nodup_eraseDups _

theorem mem_names : n ∈ d.names ↔ ∃ w ∈ d.mentions, w.1 = n := by
  simp [names, List.mem_eraseDups]

theorem mem_names_of_parent? (h : d.parent? n = some q) : n ∈ d.names := by
  obtain ⟨w, hw, -⟩ := List.exists_of_findSome?_eq_some h
  obtain ⟨hmem, hname⟩ := List.mem_filter.1 hw
  exact mem_names.2 ⟨w, hmem, eq_of_beq hname⟩

theorem ends_of_root (hn : n ∈ d.names) (hroot : d.parent? n = none) : d.Ends n :=
  ⟨0, n, rfl, hn, hroot⟩

theorem ends_iff_of_parent? (h : d.parent? n = some q) : d.Ends n ↔ d.Ends q := by
  constructor
  · rintro ⟨k, root, hclimb, hroot⟩
    cases k with
    | zero =>
      cases hclimb
      rw [h] at hroot
      cases hroot.2
    | succ k =>
      rw [climb, h] at hclimb
      exact ⟨k, root, hclimb, hroot⟩
  · rintro ⟨k, root, hclimb, hroot⟩
    refine ⟨k + 1, root, ?_, hroot⟩
    rw [climb, h]
    exact hclimb

theorem Ends.mem_names (h : d.Ends n) : n ∈ d.names := by
  cases hq : d.parent? n with
  | some q => exact mem_names_of_parent? hq
  | none =>
    obtain ⟨k, root, hclimb, hroot, -⟩ := h
    cases k with
    | zero =>
      cases hclimb
      exact hroot
    | succ k =>
      rw [climb, hq] at hclimb
      cases hclimb

theorem Ends.not_neverEnds (h : d.Ends n) : ¬ d.NeverEnds n := by
  obtain ⟨k, root, hclimb, -, hroot⟩ := h
  intro hnever
  have hclimb' : ∀ k n, d.climb k n = some root → d.climb (k + 1) n = none := by
    intro k
    induction k with
    | zero =>
      intro n hn
      cases hn
      rw [climb, hroot]
      rfl
    | succ k ih =>
      intro n hn
      obtain ⟨q, hq, hq'⟩ := Option.bind_eq_some_iff.1 hn
      rw [climb, hq]
      exact ih q hq'
  exact hnever (k + 1) (hclimb' k n hclimb)

/-- Names whose parents are among them have no end. -/
theorem neverEnds_of_closed {P : String → Prop} (h : ∀ n, P n → ∃ q, d.parent? n = some q ∧ P q)
    (hn : P n) : d.NeverEnds n := by
  intro k
  induction k generalizing n with
  | zero => simp [climb]
  | succ k ih =>
    obtain ⟨q, hq, hPq⟩ := h n hn
    rw [climb, hq]
    exact ih hPq

/-- The parent of a name, if the document does not have it. -/
def missing? (d : Document) (name : String) : Option String :=
  (d.parent? name).filter (· ∉ d.names)

theorem missing?_eq_none_iff :
    d.missing? n = none ↔ ∀ q, d.parent? n = some q → q ∈ d.names := by
  rw [missing?, Option.filter_eq_none_iff]
  simp

/-- Reading the mentions from left to right keeps each name with its first parent. -/
theorem get?_foldl_mention (l : List Wanted) (n : String) :
    (l.foldl mention ∅).get? n =
      if n ∈ l.map Prod.fst then some ((l.filter (·.1 == n)).findSome? (·.2)) else none := by
  induction l using List.reverseRecOn with
  | nil => rfl
  | append_singleton l w ih =>
    rw [List.foldl_append, List.foldl_cons, List.foldl_nil, mention, OrderedMap.get?_insert]
    by_cases hw : w.1 = n
    · subst hw
      have hnew : w.1 ∈ (l ++ [w]).map Prod.fst := List.mem_map_of_mem (List.mem_concat_self)
      rw [if_pos rfl, ih, if_pos hnew, List.filter_append, List.findSome?_append]
      by_cases hold : w.1 ∈ l.map Prod.fst
      · rw [if_pos hold]
        cases hl : (l.filter (·.1 == w.1)).findSome? (·.2) <;> simp
      · have hnil : l.filter (·.1 == w.1) = [] := by
          rw [List.filter_eq_nil_iff]
          intro x hx hxw
          exact hold (List.mem_map.2 ⟨x, hx, eq_of_beq hxw⟩)
        rw [if_neg hold, hnil]
        simp
    · have hfilter : [w].filter (·.1 == n) = [] := by simp [hw]
      rw [if_neg hw, ih, List.filter_append, hfilter, List.append_nil]
      have hiff : n ∈ (l ++ [w]).map Prod.fst ↔ n ∈ l.map Prod.fst := by
        have hw' : n ≠ w.1 := fun h => hw h.symm
        rw [List.map_append, List.map_singleton, List.mem_append, List.mem_singleton]
        exact or_iff_left hw'
      simp only [hiff]

theorem keys_foldl_mention (l : List Wanted) :
    (l.foldl mention ∅).keys = (l.map Prod.fst).eraseDups := by
  induction l using List.reverseRecOn with
  | nil => rfl
  | append_singleton l w ih =>
    rw [List.foldl_append, List.foldl_cons, List.foldl_nil, mention, OrderedMap.keys_insert, ih,
      List.map_append, List.map_singleton]
    by_cases h : w.1 ∈ l.map Prod.fst
    · rw [if_pos (List.mem_eraseDups.2 h), eraseDups_concat_of_mem h]
    · rw [if_neg (mt List.mem_eraseDups.1 h), eraseDups_concat_of_not_mem h]

theorem wanted_eq (d : Document) : d.wanted = d.names.map fun n => (n, d.parent? n) := by
  have hkeys : d.wanted.map Prod.fst = d.names := keys_foldl_mention d.mentions
  have hpair : ∀ w ∈ d.wanted, (w.1, d.parent? w.1) = w := by
    intro w hw
    have hget : (d.mentions.foldl mention ∅).get? w.1 = some w.2 :=
      OrderedMap.get?_eq_some_iff.2 hw
    have hmem : w.1 ∈ d.mentions.map Prod.fst :=
      List.mem_eraseDups.1 (keys_foldl_mention _ ▸ List.mem_map_of_mem hw)
    rw [get?_foldl_mention, if_pos hmem, Option.some.injEq] at hget
    exact Prod.ext rfl hget
  rw [← hkeys, List.map_map]
  exact (List.map_congr_left hpair).trans (List.map_id _) |>.symm

def Progress.table (p : Progress) : EntityTable := p.declarations.registry.entities

namespace Progress

variable {p : Progress} {m : String} {id : EntityId} {parent : Option EntityId}

theorem mem_keys_declare : n ∈ (p.declare m parent).scope.keys ↔ n = m ∨ n ∈ p.scope.keys :=
  OrderedMap.mem_keys_insert

theorem keys_declare (hnew : n ∉ p.scope.keys) :
    (p.declare n parent).scope.keys = p.scope.keys ++ [n] := by
  change (p.scope.insert n _).keys = _
  rw [OrderedMap.keys_insert, if_neg hnew]

theorem values_declare (hnew : n ∉ p.scope.keys) :
    (p.declare n parent).scope.values = p.scope.values ++ [p.table.size] := by
  change (putRecord Prod.fst (n, _) p.scope.entries).map Prod.snd = _
  rw [putRecord_of_not_mem hnew, List.map_append]
  rfl

theorem get?_declare : (p.declare n parent).scope.get? m =
    if n = m then some p.table.size else p.scope.get? m := OrderedMap.get?_insert ..

theorem get?_declare_of_get? (hnew : n ∉ p.scope.keys) (hm : p.scope.get? m = some id) :
    (p.declare n parent).scope.get? m = some id := by
  have hne : n ≠ m := fun he => hnew (he ▸ OrderedMap.mem_keys_of_get? hm)
  rw [get?_declare, if_neg hne, hm]

theorem parent?_declare : (p.declare n parent).table.parent? id =
    if id = p.table.size then parent.filter (· < p.table.size) else p.table.parent? id :=
  EntityTable.parent?_declare ..

end Progress

/-- Some names of a document are declared, each of them behind its parent and none of them twice. -/
structure Grown (d : Document) (p : Progress) : Prop where
  mem_names : ∀ n ∈ p.scope.keys, n ∈ d.names
  /-- Entities are numbered in the order of the names. -/
  ids : p.scope.values = List.range p.scope.keys.length
  entityNames : p.table.entities.map Entity.name = p.scope.keys
  roots : ∀ n id, p.scope.get? n = some id → d.parent? n = none → p.table.parent? id = none
  children : ∀ n id q, p.scope.get? n = some id → d.parent? n = some q →
    ∃ above, p.scope.get? q = some above ∧ above < id ∧ p.table.parent? id = some above
  blank : p.declarations = ⟨.ofEntities p.table, ∅⟩
  unassigned : ∀ e ∈ p.table.entities, e.defaults = none

namespace Grown

variable {p : Progress} {m : String} {id : EntityId} {parent : Option EntityId}

theorem start (d : Document) : d.Grown ⟨∅, ∅⟩ := by
  constructor
  · intro n hn
    cases hn
  · rfl
  · rfl
  · intro n id h
    cases h
  · intro n id q h
    cases h
  · rfl
  · intro e he
    cases he

theorem size_eq (h : d.Grown p) : p.table.size = p.scope.keys.length := by
  rw [← h.entityNames, List.length_map]
  rfl

theorem get?_eq_some_iff (h : d.Grown p) :
    p.scope.get? n = some id ↔ p.scope.keys[id]? = some n := by
  have hzip : p.scope.entries = p.scope.keys.zip (List.range p.scope.keys.length) := by
    rw [← h.ids]
    exact List.zip_of_prod rfl rfl
  rw [OrderedMap.get?_eq_some_iff, hzip, List.range_eq_range', ← List.zipIdx_eq_zip_range',
    List.mk_mem_zipIdx_iff_getElem?]

theorem lt_of_get? (h : d.Grown p) (hid : p.scope.get? n = some id) : id < p.table.size := by
  rw [h.size_eq]
  exact (List.getElem?_eq_some_iff.1 (h.get?_eq_some_iff.1 hid)).1

/-- Every declared name is a chain of declared names away from one without a parent. -/
theorem ends (h : d.Grown p) (hid : p.scope.get? n = some id) : d.Ends n := by
  induction id using Nat.strongRecOn generalizing n with
  | ind id ih =>
    cases hq : d.parent? n with
    | none =>
      exact ends_of_root (h.mem_names n (OrderedMap.mem_keys_of_get? hid)) hq
    | some q =>
      obtain ⟨above, habove, hlt, -⟩ := h.children n id q hid hq
      exact (ends_iff_of_parent? hq).2 (ih above hlt habove)

theorem get?_declare_cases (h : d.Grown p) (hm : (p.declare n parent).scope.get? m = some id) :
    (m = n ∧ id = p.table.size) ∨ (p.scope.get? m = some id ∧ id ≠ p.table.size) := by
  rw [Progress.get?_declare] at hm
  by_cases he : n = m
  · rw [if_pos he, Option.some.injEq] at hm
    exact .inl ⟨he.symm, hm.symm⟩
  · rw [if_neg he] at hm
    exact .inr ⟨hm, Nat.ne_of_lt (h.lt_of_get? hm)⟩

theorem declare (h : d.Grown p) (hn : n ∈ d.names) (hnew : n ∉ p.scope.keys)
    (hparent : parent = (d.parent? n).bind p.scope.get?)
    (hthere : ∀ q, d.parent? n = some q → q ∈ p.scope.keys) : d.Grown (p.declare n parent) := by
  constructor
  · intro m hm
    rcases Progress.mem_keys_declare.1 hm with rfl | hm
    · exact hn
    · exact h.mem_names m hm
  · rw [Progress.values_declare hnew, Progress.keys_declare hnew, h.ids, h.size_eq,
      List.length_append, List.length_singleton, List.range_succ]
  · change (p.table.entities ++ [_]).map Entity.name = _
    rw [List.map_append, h.entityNames, Progress.keys_declare hnew]
    rfl
  · intro m id hm hroot
    rw [Progress.parent?_declare]
    rcases h.get?_declare_cases hm with ⟨rfl, rfl⟩ | ⟨hm, hid⟩
    · rw [if_pos rfl, hparent, hroot]
      rfl
    · rw [if_neg hid]
      exact h.roots m id hm hroot
  · intro m id q hm hq
    rw [Progress.parent?_declare]
    rcases h.get?_declare_cases hm with ⟨rfl, rfl⟩ | ⟨hm, hid⟩
    · obtain ⟨above, habove⟩ := OrderedMap.exists_get? (hthere q hq)
      have hlt := h.lt_of_get? habove
      refine ⟨above, Progress.get?_declare_of_get? hnew habove, hlt, ?_⟩
      rw [if_pos rfl, hparent, hq, Option.bind_some, habove, Option.filter_some]
      simp [hlt]
    · obtain ⟨above, habove, hlt, hup⟩ := h.children m id q hm hq
      rw [if_neg hid]
      exact ⟨above, Progress.get?_declare_of_get? hnew habove, hlt, hup⟩
  · exact congrArg (·.entity n parent) h.blank
  · intro e he
    rcases List.mem_append.1 he with he | he
    · exact h.unassigned e he
    · rw [List.mem_singleton.1 he]

end Grown

section Round

variable {p : Progress} {w : Wanted} {l : List Wanted}

structure Fresh (p : Progress) (l : List Wanted) : Prop where
  nodup : (l.map Prod.fst).Nodup
  not_mem : ∀ w ∈ l, w.1 ∉ p.scope.keys

namespace Fresh

theorem tail (h : Fresh p (w :: l)) : Fresh p l :=
  ⟨(List.nodup_cons.1 h.nodup).2, fun x hx => h.not_mem x (List.mem_cons_of_mem _ hx)⟩

theorem declare (h : Fresh p (w :: l)) (parent : Option EntityId) :
    Fresh (p.declare w.1 parent) l := by
  refine ⟨h.tail.nodup, fun x hx hmem => ?_⟩
  rcases OrderedMap.mem_keys_insert.1 hmem with hxw | hold
  · exact (List.nodup_cons.1 h.nodup).1 (hxw ▸ List.mem_map_of_mem hx)
  · exact h.tail.not_mem x hx hold

end Fresh

theorem mem_keys_round (h : n ∈ p.scope.keys) : n ∈ (round p l).1.scope.keys := by
  fun_induction round p l with
  | case1 p => exact h
  | case2 p name rest ih => exact ih (Progress.mem_keys_declare.2 (.inr h))
  | case3 p name parent rest id hid ih => exact ih (Progress.mem_keys_declare.2 (.inr h))
  | case4 p name parent rest hid p' waiting hround ih =>
    rw [hround] at ih
    exact ih h

/-- Nothing but what is wanted comes in. -/
theorem mem_of_mem_keys_round (h : n ∈ (round p l).1.scope.keys) :
    n ∈ p.scope.keys ∨ n ∈ l.map Prod.fst := by
  fun_induction round p l with
  | case1 p => exact .inl h
  | case2 p name rest ih =>
    rcases ih h with hin | hrest
    · rcases Progress.mem_keys_declare.1 hin with rfl | hold
      · exact .inr List.mem_cons_self
      · exact .inl hold
    · exact .inr (List.mem_cons_of_mem _ hrest)
  | case3 p name parent rest id hid ih =>
    rcases ih h with hin | hrest
    · rcases Progress.mem_keys_declare.1 hin with rfl | hold
      · exact .inr List.mem_cons_self
      · exact .inl hold
    · exact .inr (List.mem_cons_of_mem _ hrest)
  | case4 p name parent rest hid p' waiting hround ih =>
    rw [hround] at ih
    exact (ih h).imp_right (List.mem_cons_of_mem _)

theorem left_eq (h : Fresh p l) :
    (round p l).2 = l.filter (·.1 ∉ (round p l).1.scope.keys) := by
  fun_induction round p l with
  | case1 p => rfl
  | case2 p name rest ih =>
    have hin : name ∈ (round (p.declare name none) rest).1.scope.keys :=
      mem_keys_round (Progress.mem_keys_declare.2 (.inl rfl))
    rw [ih (h.declare none), List.filter_cons_of_neg (by simpa using hin)]
  | case3 p name parent rest id hid ih =>
    have hin : name ∈ (round (p.declare name (some id)) rest).1.scope.keys :=
      mem_keys_round (Progress.mem_keys_declare.2 (.inl rfl))
    rw [ih (h.declare (some id)), List.filter_cons_of_neg (by simpa using hin)]
  | case4 p name parent rest hid p' waiting hround ih =>
    have hout : name ∉ (round p rest).1.scope.keys := by
      intro hin
      rcases mem_of_mem_keys_round hin with hold | hrest
      · exact h.not_mem _ List.mem_cons_self hold
      · exact (List.nodup_cons.1 h.nodup).1 hrest
    rw [hround] at ih hout
    rw [List.filter_cons_of_pos (by simpa using hout)]
    exact congrArg _ (ih h.tail)

theorem Grown.round (h : d.Grown p) (hfresh : Fresh p l)
    (hl : ∀ w ∈ l, w.1 ∈ d.names ∧ w.2 = d.parent? w.1) : d.Grown (round p l).1 := by
  fun_induction Document.round p l with
  | case1 p => exact h
  | case2 p name rest ih =>
    obtain ⟨⟨hn, hparent⟩, hrest⟩ := List.forall_mem_cons.1 hl
    have hnew : name ∉ p.scope.keys := hfresh.not_mem _ List.mem_cons_self
    refine ih (h.declare hn hnew ?_ ?_) (hfresh.declare none) hrest
    · rw [← hparent]
      rfl
    · intro q hq
      rw [← hparent] at hq
      cases hq
  | case3 p name parent rest id hid ih =>
    obtain ⟨⟨hn, hparent⟩, hrest⟩ := List.forall_mem_cons.1 hl
    have hnew : name ∉ p.scope.keys := hfresh.not_mem _ List.mem_cons_self
    refine ih (h.declare hn hnew ?_ ?_) (hfresh.declare (some id)) hrest
    · rw [← hparent]
      exact hid.symm
    · intro q hq
      rw [← hparent, Option.some.injEq] at hq
      exact hq ▸ OrderedMap.mem_keys_of_get? hid
  | case4 p name parent rest hid p' waiting hround ih =>
    rw [hround] at ih
    exact ih h hfresh.tail (List.forall_mem_cons.1 hl).2

theorem length_round_le (p : Progress) (l : List Wanted) : (round p l).2.length ≤ l.length := by
  fun_induction round p l with
  | case1 p => exact Nat.le_refl _
  | case2 p name rest ih => exact Nat.le_succ_of_le ih
  | case3 p name parent rest id hid ih => exact Nat.le_succ_of_le ih
  | case4 p name parent rest hid p' waiting hround ih =>
    rw [hround] at ih
    exact Nat.succ_le_succ ih

/-- A round after which all wait has declared nothing: each name extends one that is not there. -/
theorem round_of_length_le (h : l.length ≤ (round p l).2.length) :
    (round p l).1 = p ∧ ∀ w ∈ l, ∃ q, w.2 = some q ∧ q ∉ p.scope.keys := by
  fun_induction round p l with
  | case1 p => simp
  | case2 p name rest ih => exact absurd (length_round_le _ _) (Nat.not_le_of_lt h)
  | case3 p name parent rest id hid ih =>
    exact absurd (length_round_le _ _) (Nat.not_le_of_lt h)
  | case4 p name parent rest hid p' waiting hround ih =>
    rw [hround] at ih
    obtain ⟨hp, hrest⟩ := ih (Nat.le_of_succ_le_succ h)
    exact ⟨hp, List.forall_mem_cons.2 ⟨⟨parent, rfl, OrderedMap.get?_eq_none_iff.1 hid⟩, hrest⟩⟩

end Round

/-- Where a run of rounds can stand: what waits is what is not declared. -/
structure Halfway (d : Document) (p : Progress) (waiting : List Wanted) : Prop where
  grown : d.Grown p
  waiting_eq : waiting = d.wanted.filter (·.1 ∉ p.scope.keys)

inductive Sorts (d : Document) : Except DocumentError Progress → Prop where
  | sorted {p : Progress} (grown : d.Grown p) (complete : p.scope.keys.Perm d.names) :
    Sorts d (.ok p)
  /-- A name extends one that the document does not have, and no name before it does. -/
  | unknown {before : List String} {name : String} {after : List String} {parent : String}
    (names_eq : d.names = before ++ name :: after) (parent?_eq : d.parent? name = some parent)
    (missing : parent ∉ d.names)
    (first : ∀ n ∈ before, ∀ q, d.parent? n = some q → q ∈ d.names) :
    Sorts d (.error (.unknownParent name parent))
  /-- Every parent is a name of the document, and some names extend theirs forever. -/
  | circular {left : List String} (known : ∀ n ∈ d.names, ∀ q, d.parent? n = some q → q ∈ d.names)
    (ordered : left.Sublist d.names) (endless : ∀ n, n ∈ left ↔ n ∈ d.names ∧ d.NeverEnds n)
    (nonempty : left ≠ []) : Sorts d (.error (.inheritanceCycle left))

namespace Halfway

variable {p : Progress} {l : List Wanted}

theorem start (d : Document) : d.Halfway ⟨∅, ∅⟩ d.wanted := by
  refine ⟨Grown.start d, ?_⟩
  rw [List.filter_eq_self.2]
  intro w _
  rfl

theorem wanted (h : d.Halfway p l) {w : Wanted} (hw : w ∈ l) :
    w.1 ∈ d.names ∧ w.2 = d.parent? w.1 := by
  rw [h.waiting_eq, wanted_eq] at hw
  obtain ⟨n, hn, rfl⟩ := List.mem_map.1 (List.mem_filter.1 hw).1
  exact ⟨hn, rfl⟩

theorem mem_waiting_iff (h : d.Halfway p l) :
    n ∈ l.map Prod.fst ↔ n ∈ d.names ∧ n ∉ p.scope.keys := by
  rw [h.waiting_eq, wanted_eq, List.filter_map, List.map_map]
  simp

theorem waiting_sublist (h : d.Halfway p l) : (l.map Prod.fst).Sublist d.names := by
  have hnames : d.wanted.map Prod.fst = d.names := by
    rw [wanted_eq, List.map_map]
    exact List.map_id _
  rw [h.waiting_eq, ← hnames]
  exact List.filter_sublist.map _

theorem fresh (h : d.Halfway p l) : Fresh p l := by
  refine ⟨nodup_names.sublist h.waiting_sublist, ?_⟩
  intro w hw
  exact (h.mem_waiting_iff.1 (List.mem_map_of_mem hw)).2

theorem round (h : d.Halfway p l) : d.Halfway (Document.round p l).1 (Document.round p l).2 := by
  refine ⟨h.grown.round h.fresh fun w hw => h.wanted hw, ?_⟩
  rw [left_eq h.fresh]
  -- what the round leaves out was left out before
  have hkeep : ∀ n, n ∈ p.scope.keys → n ∈ (Document.round p l).1.scope.keys :=
    fun _ => mem_keys_round
  generalize (Document.round p l).1 = p' at hkeep ⊢
  rw [h.waiting_eq, List.filter_filter]
  refine List.filter_congr fun w _ => ?_
  rw [← Bool.decide_and, decide_eq_decide]
  exact ⟨And.left, fun hout => ⟨hout, mt (hkeep w.1) hout⟩⟩

theorem sorts (h : d.Halfway p []) : d.Sorts (.ok p) := by
  refine .sorted h.grown ((List.perm_ext_iff_of_nodup (OrderedMap.keys_nodup _) nodup_names).2 ?_)
  intro n
  refine ⟨h.grown.mem_names n, fun hn => ?_⟩
  by_contra hnot
  exact absurd (h.mem_waiting_iff.2 ⟨hn, hnot⟩) (List.not_mem_nil)

/-- Looking for an unknown parent among the names that wait is looking for it among all names. -/
theorem findSome?_missing? (h : d.Halfway p l)
    (hl : ∀ w ∈ l, ∃ q, w.2 = some q ∧ q ∉ p.scope.keys) :
    l.findSome? (fun w => w.2.bind fun q =>
        if (l.map Prod.fst).contains q then none else some (.unknownParent w.1 q)) =
      d.names.findSome? fun n => (d.missing? n).map (DocumentError.unknownParent n) := by
  have hwaiting : ∀ w ∈ l, (w.2.bind fun q =>
      if (l.map Prod.fst).contains q then none else some (.unknownParent w.1 q)) =
        (d.missing? w.1).map (DocumentError.unknownParent w.1) := by
    intro w hw
    obtain ⟨q, hq, hout⟩ := hl w hw
    have hiff : q ∈ l.map Prod.fst ↔ q ∈ d.names := h.mem_waiting_iff.trans (and_iff_left hout)
    rw [missing?, ← (h.wanted hw).2, hq, Option.bind_some, Option.filter_some]
    simp only [List.contains_iff_mem, hiff]
    by_cases hmem : q ∈ d.names <;> simp [hmem]
  have hdeclared : ∀ w : Wanted, w.1 ∈ p.scope.keys →
      (d.missing? w.1).map (DocumentError.unknownParent w.1) = none := by
    intro w hin
    obtain ⟨id, hid⟩ := OrderedMap.exists_get? hin
    refine Option.map_eq_none_iff.2 (missing?_eq_none_iff.2 fun q hq => ?_)
    obtain ⟨above, habove, -⟩ := h.grown.children w.1 id q hid hq
    exact h.grown.mem_names q (OrderedMap.mem_keys_of_get? habove)
  have hwanted : d.names.findSome? (fun n => (d.missing? n).map (DocumentError.unknownParent n)) =
      d.wanted.findSome? fun w => (d.missing? w.1).map (DocumentError.unknownParent w.1) := by
    rw [wanted_eq, List.findSome?_map]
    rfl
  rw [hwanted, ← List.head?_filterMap, ← List.head?_filterMap, List.filterMap_congr hwaiting,
    h.waiting_eq, List.filterMap_filter]
  refine congrArg _ (List.filterMap_congr fun w _ => ?_)
  by_cases hin : w.1 ∈ p.scope.keys <;> simp [hin, hdeclared]

/-- When each name that waits extends one that is not declared, the error says why. -/
theorem stuck_sorts (h : d.Halfway p l) (hne : l ≠ [])
    (hl : ∀ w ∈ l, ∃ q, w.2 = some q ∧ q ∉ p.scope.keys) : d.Sorts (.error (stuck l)) := by
  have hstuck : stuck l = (d.names.findSome? fun n =>
      (d.missing? n).map (DocumentError.unknownParent n)).getD
        (.inheritanceCycle (l.map Prod.fst)) := by
    rw [← h.findSome?_missing? hl]
    rfl
  rw [hstuck]
  cases hfirst : d.names.findSome? fun n => (d.missing? n).map (DocumentError.unknownParent n) with
  | some e =>
    obtain ⟨before, n, after, hnames, hn, hbefore⟩ := List.findSome?_eq_some_iff.1 hfirst
    obtain ⟨q, hq, rfl⟩ := Option.map_eq_some_iff.1 hn
    obtain ⟨hparent, hmissing⟩ := Option.filter_eq_some_iff.1 hq
    refine .unknown hnames hparent (of_decide_eq_true hmissing) ?_
    intro m hm
    exact missing?_eq_none_iff.1 (Option.map_eq_none_iff.1 (hbefore m hm))
  | none =>
    have hknown : ∀ n ∈ d.names, ∀ q, d.parent? n = some q → q ∈ d.names := by
      intro n hn
      exact missing?_eq_none_iff.1
        (Option.map_eq_none_iff.1 (List.findSome?_eq_none_iff.1 hfirst n hn))
    -- the parent of a name that waits waits too
    have hclosed : ∀ n, n ∈ l.map Prod.fst → ∃ q, d.parent? n = some q ∧ q ∈ l.map Prod.fst := by
      intro n hn
      obtain ⟨w, hw, rfl⟩ := List.mem_map.1 hn
      obtain ⟨q, hq, hout⟩ := hl w hw
      have hparent : d.parent? w.1 = some q := (h.wanted hw).2.symm.trans hq
      exact ⟨q, hparent, h.mem_waiting_iff.2 ⟨hknown _ (h.wanted hw).1 q hparent, hout⟩⟩
    refine .circular hknown h.waiting_sublist ?_ (mt List.map_eq_nil_iff.1 hne)
    intro n
    refine ⟨fun hn => ⟨(h.mem_waiting_iff.1 hn).1, neverEnds_of_closed hclosed hn⟩, ?_⟩
    rintro ⟨hn, hnever⟩
    refine h.mem_waiting_iff.2 ⟨hn, fun hin => ?_⟩
    obtain ⟨id, hid⟩ := OrderedMap.exists_get? hin
    exact (h.grown.ends hid).not_neverEnds hnever

end Halfway

theorem declareAll_cons (p : Progress) (w : Wanted) (l : List Wanted) :
    declareAll p (w :: l) =
      if (round p (w :: l)).2.length < (w :: l).length then
        declareAll (round p (w :: l)).1 (round p (w :: l)).2
      else .error (stuck (round p (w :: l)).2) := by
  rw [declareAll]
  rfl

/-- Every round either declares a name or shows that nothing more can be declared. -/
theorem Halfway.declareAll {p : Progress} {l : List Wanted} (h : d.Halfway p l) :
    d.Sorts (declareAll p l) := by
  induction hk : l.length using Nat.strongRecOn generalizing p l with
  | ind k ih =>
    subst hk
    cases l with
    | nil =>
      rw [Document.declareAll]
      exact h.sorts
    | cons w rest =>
      rw [declareAll_cons]
      by_cases hless : (Document.round p (w :: rest)).2.length < (w :: rest).length
      · rw [if_pos hless]
        exact ih _ hless h.round rfl
      · rw [if_neg hless]
        obtain ⟨hp, hl⟩ := round_of_length_le (Nat.le_of_not_lt hless)
        have hleft := h.round.waiting_eq
        rw [hp, ← h.waiting_eq] at hleft
        rw [hleft]
        exact h.stuck_sorts (List.cons_ne_nil _ _) hl

/-- A document's names are declared exactly if following parents from each of them ends. Then every
name has become one entity, behind the one it extends, in the order of the returned names. -/
theorem declareEntities_sorts (d : Document) :
    ((∃ p, d.declareEntities = .ok p) ↔ ∀ n ∈ d.names, d.Ends n) ∧ d.Sorts d.declareEntities := by
  have hsorts : d.Sorts d.declareEntities := (Halfway.start d).declareAll
  refine ⟨?_, hsorts⟩
  cases hx : d.declareEntities with
  | ok p =>
    rw [hx] at hsorts
    cases hsorts with
    | sorted grown complete =>
      refine iff_of_true ⟨p, rfl⟩ fun n hn => ?_
      obtain ⟨id, hid⟩ := OrderedMap.exists_get? (complete.mem_iff.2 hn)
      exact grown.ends hid
  | error e =>
    rw [hx] at hsorts
    refine iff_of_false (fun ⟨p, hp⟩ => nomatch hp) fun hall => ?_
    cases hsorts with
    | unknown names_eq parent?_eq missing =>
      have hn := hall _ (names_eq ▸ List.mem_append_right _ List.mem_cons_self)
      exact missing ((ends_iff_of_parent? parent?_eq).1 hn).mem_names
    | circular _ _ endless nonempty =>
      obtain ⟨n, hn⟩ := List.exists_mem_of_ne_nil _ nonempty
      obtain ⟨hmem, hnever⟩ := (endless n).1 hn
      exact (hall n hmem).not_neverEnds hnever

end Document

end CodeFirst
