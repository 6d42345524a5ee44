import CodeFirst.Proofs.Equality
import Mathlib.Data.List.Induction

/-! Stores that merge a record into the one under its key. What such a store holds comes from the
records under each key, in the order of the first ones, and a record merged in once stays known. -/

namespace CodeFirst

section Firsts

variable {α : Type} (same : α → α → Bool)

/-- The elements of the second list like none before them, in either list. -/
def firsts (l : List α) : List α → List α
  | [] => []
  | x :: rest => if l.any (same · x) then firsts (l ++ [x]) rest else x :: firsts (l ++ [x]) rest

/-- The elements of the second list like one before them, in either list. -/
def repeats (l : List α) : List α → List α
  | [] => []
  | x :: rest => if l.any (same · x) then x :: repeats (l ++ [x]) rest else repeats (l ++ [x]) rest

variable {same}

theorem firsts_append (l m n : List α) :
    firsts same l (m ++ n) = firsts same l m ++ firsts same (l ++ m) n := by
  induction m generalizing l with
  | nil => simp [firsts]
  | cons x rest ih =>
    have hrest := ih (l ++ [x])
    by_cases hx : l.any (same · x) = true <;> simp [firsts, hx, hrest]

theorem repeats_append (l m n : List α) :
    repeats same l (m ++ n) = repeats same l m ++ repeats same (l ++ m) n := by
  induction m generalizing l with
  | nil => simp [repeats]
  | cons x rest ih =>
    have hrest := ih (l ++ [x])
    by_cases hx : l.any (same · x) = true <;> simp [repeats, hx, hrest]

theorem perm_firsts_append_repeats (l m : List α) :
    (firsts same l m ++ repeats same l m).Perm m := by
  induction m generalizing l with
  | nil => exact .nil
  | cons x rest ih =>
    by_cases hx : l.any (same · x) = true
    · simp only [firsts, repeats, hx, if_true]
      exact List.perm_middle.trans ((ih _).cons x)
    · simp only [firsts, repeats, hx]
      exact (ih _).cons x

theorem leftOut_append (l m n : List α) :
    leftOut same l (m ++ n) = leftOut same l m ++ leftOut same (appendNew same l m) n := by
  induction m generalizing l with
  | nil => rfl
  | cons x rest ih =>
    by_cases hx : l.any (same · x) = true <;> simp [leftOut, appendNew, hx, ih]

variable (same) in
/-- What is like a known element that was left out is like the one that was kept for it. -/
theorem appendNew_eq_firsts (htrans : ∀ a b c, same a b = true → same b c = true →
    same a c = true) {k l : List α} (h : ∀ x, k.any (same · x) = l.any (same · x)) (m : List α) :
    appendNew same k m = k ++ firsts same l m ∧ leftOut same k m = repeats same l m := by
  induction m generalizing k l with
  | nil => simp [firsts, repeats]
  | cons x rest ih =>
    by_cases hx : l.any (same · x) = true
    · have hk : k.any (same · x) = true := (h x).trans hx
      have hnext : ∀ y, k.any (same · y) = (l ++ [x]).any (same · y) := by
        intro y
        rw [List.any_append, ← h y]
        by_cases hy : same x y = true
        · obtain ⟨z, hz, hzx⟩ := List.any_eq_true.1 hk
          have hky : k.any (same · y) = true := List.any_eq_true.2 ⟨z, hz, htrans z x y hzx hy⟩
          simp [hky]
        · simp [hy]
      obtain ⟨hkept, hleft⟩ := ih hnext
      simp [appendNew, leftOut, firsts, repeats, hk, hx, hkept, hleft]
    · have hk : ¬ k.any (same · x) = true := by rwa [h x]
      have hnext : ∀ y, (k ++ [x]).any (same · y) = (l ++ [x]).any (same · y) := by
        intro y
        simp only [List.any_append, h y]
      obtain ⟨hkept, hleft⟩ := ih hnext
      simp [appendNew, leftOut, firsts, repeats, hk, hx, hkept, hleft]

theorem appendNew_eq_self {l m : List α} (h : ∀ x ∈ m, l.any (same · x) = true) :
    appendNew same l m = l := by
  induction m with
  | nil => rfl
  | cons x rest ih =>
    rw [List.forall_mem_cons] at h
    rw [appendNew, if_pos h.1, ih h.2]

theorem appendNew_eq_append {κ : Type} {key : α → κ} {l m : List α}
    (hkey : ∀ x y, same x y = true → key x = key y) (h : ((l ++ m).map key).Nodup) :
    appendNew same l m = l ++ m := by
  induction m generalizing l with
  | nil => simp
  | cons x rest ih =>
    have hnew : ¬ l.any (same · x) = true := by
      intro hx
      obtain ⟨y, hy, hyx⟩ := List.any_eq_true.1 hx
      rw [List.map_append, List.nodup_append] at h
      exact h.2.2 (key y) (List.mem_map_of_mem hy) (key x) (by simp) (hkey y x hyx)
    have happend : (l ++ [x]) ++ rest = l ++ x :: rest := by simp
    rw [appendNew, if_neg hnew, ih (by rwa [happend]), happend]

theorem any_appendNew {l m : List α} {x : α} (h : l.any (same · x) = true) :
    (appendNew same l m).any (same · x) = true := by
  obtain ⟨y, hy, hyx⟩ := List.any_eq_true.1 h
  exact List.any_eq_true.2 ⟨y, subset_appendNew hy, hyx⟩

theorem any_appendNew_of_mem (l : List α) {m : List α} (hself : ∀ x ∈ m, same x x = true) :
    ∀ x ∈ m, (appendNew same l m).any (same · x) = true := by
  induction m generalizing l with
  | nil => simp
  | cons y rest ih =>
    rw [List.forall_mem_cons] at hself ⊢
    by_cases hy : l.any (same · y) = true
    · rw [appendNew, if_pos hy]
      exact ⟨any_appendNew hy, ih _ hself.2⟩
    · have hlast : (l ++ [y]).any (same · y) = true := by simp [hself.1]
      rw [appendNew, if_neg hy]
      exact ⟨any_appendNew hlast, ih _ hself.2⟩

end Firsts

namespace Catalog

section Upsert

variable {κ ν : Type} [DecidableEq κ] {key : ν → κ} (merge : ν → ν → ν)

/-- Merges a record into the one under its key, or puts it at the end if there is none. -/
def upsert (c : Catalog key) (v : ν) : Catalog key :=
  c.put (((c.get? (key v)).map (merge · v)).getD v)

def upsertAll (c : Catalog key) (l : List ν) : Catalog key := l.foldl (upsert merge) c

def KeepsKey (key : ν → κ) : Prop := ∀ o v, key o = key v → key (merge o v) = key v

variable {merge}

theorem key_upsert (hk : KeepsKey merge key) (c : Catalog key) (v : ν) :
    key (((c.get? (key v)).map (merge · v)).getD v) = key v := by
  cases ho : c.get? (key v) with
  | none => rfl
  | some o => exact hk o v (key_of_get? ho)

theorem get?_upsert (hk : KeepsKey merge key) (c : Catalog key) (v : ν) (k : κ) :
    (c.upsert merge v).get? k =
      if key v = k then some (((c.get? k).map (merge · v)).getD v) else c.get? k := by
  rw [upsert, get?_put, key_upsert hk]
  by_cases h : key v = k <;> simp [h]

theorem keys_upsert (hk : KeepsKey merge key) (c : Catalog key) (v : ν) :
    (c.upsert merge v).keys = if key v ∈ c.keys then c.keys else c.keys ++ [key v] := by
  rw [upsert, keys_put, key_upsert hk]

theorem upsertAll_append (c : Catalog key) (l m : List ν) :
    c.upsertAll merge (l ++ m) = (c.upsertAll merge l).upsertAll merge m := List.foldl_append

/-- A record comes from the additions under its key alone. -/
theorem get?_upsertAll (hk : KeepsKey merge key) (c : Catalog key) (l : List ν) (k : κ) :
    (c.upsertAll merge l).get? k = (l.filter fun v => key v = k).foldl
      (fun o v => some ((o.map (merge · v)).getD v)) (c.get? k) := by
  induction l generalizing c with
  | nil => rfl
  | cons v rest ih =>
    have hstep : c.upsertAll merge (v :: rest) = (c.upsert merge v).upsertAll merge rest := rfl
    rw [hstep, ih, get?_upsert hk]
    by_cases h : key v = k <;> simp [h]

theorem foldl_some (o : ν) (l : List ν) :
    l.foldl (fun o v => some ((o.map (merge · v)).getD v)) (some o) = some (l.foldl merge o) := by
  induction l generalizing o with
  | nil => rfl
  | cons v rest ih => exact ih (merge o v)

theorem keys_upsertAll [BEq κ] [LawfulBEq κ] (hk : KeepsKey merge key) (l : List ν) :
    ((∅ : Catalog key).upsertAll merge l).keys = (l.map key).eraseDups := by
  induction l using List.reverseRecOn with
  | nil => rfl
  | append_singleton l v ih =>
    have hstep : (∅ : Catalog key).upsertAll merge (l ++ [v]) =
        ((∅ : Catalog key).upsertAll merge l).upsert merge v := upsertAll_append ∅ l [v]
    rw [hstep, keys_upsert hk, ih, List.map_append, List.map_singleton]
    by_cases h : key v ∈ l.map key
    · rw [if_pos (List.mem_eraseDups.2 h), eraseDups_concat_of_mem h]
    · rw [if_neg (mt List.mem_eraseDups.1 h), eraseDups_concat_of_not_mem h]

end Upsert

section Again

variable {κ ν : Type} [DecidableEq κ] {key : ν → κ} {merge : ν → ν → ν}

/-- A record that `v` was merged into has all of `v`, whatever is merged into it afterwards. -/
structure Absorbs (merge : ν → ν → ν) (has : ν → Prop) (v : ν) : Prop where
  self : has v
  merged (o : ν) : has (merge o v)
  later (o w : ν) : has o → has (merge o w)
  absorbed (o : ν) : has o → merge o v = o

theorem putRecord_of_mem {v : ν} {l : List ν} (hd : (l.map key).Nodup) (h : v ∈ l) :
    putRecord key v l = l := by
  induction l with
  | nil => simp at h
  | cons w rest ih =>
    rw [List.map_cons, List.nodup_cons] at hd
    rcases List.mem_cons.1 h with rfl | hv
    · simp [putRecord]
    · have hne : key w ≠ key v := fun he => hd.1 (he ▸ List.mem_map_of_mem hv)
      rw [putRecord, if_neg hne, ih hd.2 hv]

theorem exists_has_upsertAll {has : ν → Prop} {v : ν} (hk : KeepsKey merge key)
    (ha : Absorbs merge has v) (c : Catalog key) {l : List ν} (hv : v ∈ l) :
    ∃ o, (c.upsertAll merge l).get? (key v) = some o ∧ has o := by
  induction l using List.reverseRecOn with
  | nil => simp at hv
  | append_singleton l w ih =>
    have hstep : c.upsertAll merge (l ++ [w]) = (c.upsertAll merge l).upsert merge w :=
      upsertAll_append c l [w]
    rw [hstep, get?_upsert hk]
    rcases List.mem_append.1 hv with hl | hw
    · obtain ⟨o, ho, hhas⟩ := ih hl
      by_cases h : key w = key v
      · exact ⟨merge o w, by simp [h, ho], ha.later o w hhas⟩
      · exact ⟨o, by simp [h, ho], hhas⟩
    · rw [List.mem_singleton] at hw
      subst hw
      cases ho : (c.upsertAll merge l).get? (key v) with
      | none => exact ⟨v, by simp, ha.self⟩
      | some o => exact ⟨merge o v, by simp, ha.merged o⟩

theorem upsert_upsertAll_of_mem {has : ν → Prop} {v : ν} (hk : KeepsKey merge key)
    (ha : Absorbs merge has v) (c : Catalog key) {l : List ν} (hv : v ∈ l) :
    (c.upsertAll merge l).upsert merge v = c.upsertAll merge l := by
  obtain ⟨o, ho, hhas⟩ := exists_has_upsertAll hk ha c hv
  apply Catalog.ext
  rw [upsert, ho, Option.map_some, Option.getD_some, ha.absorbed o hhas, records_put]
  exact putRecord_of_mem (Catalog.nodup_keys _) (get?_eq_some_iff.1 ho).1

end Again

end Catalog

namespace ClassRecord

/-- All that the records of one class say: the first one names it, and of everything said twice the
first counts. -/
def pool (first : ClassRecord) (later : List ClassRecord) : ClassRecord where
  target := first.target
  name := first.name
  description := (first :: later).findSome? (·.description)
  isAbstract := (first :: later).any (·.isAbstract)
  properties := first.properties ++
    firsts sameProperty first.properties (later.flatMap (·.properties))
  interfaces := first.interfaces ++
    firsts Reference.same first.interfaces (later.flatMap (·.interfaces))
  directives := first.directives ++
    firsts Directive.same first.directives (later.flatMap (·.directives))

/-- The properties of a record that are stored when it comes after others of its class. -/
def stored (c : ClassRecord) : List ClassRecord → List Property
  | [] => c.properties
  | earlier => firsts sameProperty (earlier.flatMap (·.properties)) c.properties

/-- The properties of a record that are passed over when it comes after others of its class. -/
def passedOver (c : ClassRecord) : List ClassRecord → List Property
  | [] => []
  | earlier => repeats sameProperty (earlier.flatMap (·.properties)) c.properties

theorem appendNew_properties (l m : List Property) :
    appendNew sameProperty l m = l ++ firsts sameProperty l m ∧
      leftOut sameProperty l m = repeats sameProperty l m :=
  appendNew_eq_firsts sameProperty (fun _ _ _ => sameProperty_trans) (fun _ => rfl) m

theorem appendNew_interfaces (l m : List Reference) :
    appendNew Reference.same l m = l ++ firsts Reference.same l m :=
  (appendNew_eq_firsts Reference.same (fun _ _ _ => Reference.same_trans) (fun _ => rfl) m).1

theorem appendNew_directives (l m : List Directive) :
    appendNew Directive.same l m = l ++ firsts Directive.same l m :=
  (appendNew_eq_firsts Directive.same (fun _ _ _ => Directive.same_trans) (fun _ => rfl) m).1

theorem pool_append (first : ClassRecord) (later : List ClassRecord) (c : ClassRecord) :
    first.pool (later ++ [c]) = (first.pool later).merge c := by
  have hdescription : (first :: (later ++ [c])).findSome? (·.description) =
      ((first :: later).findSome? (·.description) <|> c.description) := by
    rw [← List.cons_append, List.findSome?_append]
    cases (first :: later).findSome? (·.description) <;> cases h : c.description <;> simp [h]
  simp [pool, merge, hdescription, ← appendNew_interfaces, ← appendNew_directives,
    ← (appendNew_properties _ _).1, appendNew_append, Bool.or_assoc]

theorem foldl_merge (first : ClassRecord) (later : List ClassRecord) :
    later.foldl merge first = first.pool later := by
  induction later using List.reverseRecOn with
  | nil =>
    cases first with
    | mk target name description =>
      cases description <;> simp [pool, firsts]
  | append_singleton later c ih => rw [List.foldl_append, List.foldl_cons, List.foldl_nil, ih,
      pool_append]

theorem properties_pool_append (first : ClassRecord) (later : List ClassRecord) (c : ClassRecord) :
    (first.pool (later ++ [c])).properties =
      (first.pool later).properties ++ c.stored (first :: later) := by
  simp [pool, stored, firsts_append]

/-- Merging passes over the properties whose name came before, kept or not. -/
theorem skipped_pool (first : ClassRecord) (later : List ClassRecord) (c : ClassRecord) :
    (first.pool later).skipped c = (c.passedOver (first :: later)).map (·.schemaName) := by
  have hboth := (appendNew_properties first.properties
    (later.flatMap (·.properties) ++ c.properties)).2
  rw [leftOut_append, repeats_append, (appendNew_properties _ _).2,
    List.append_cancel_left_eq] at hboth
  rw [skipped, pool, ← (appendNew_properties _ _).1, hboth]
  rfl

/-- All of a record is known to another one. -/
structure Has (v c : ClassRecord) : Prop where
  description : c.description = none → v.description = none
  isAbstract : v.isAbstract = true → c.isAbstract = true
  properties : ∀ p ∈ v.properties, c.properties.any (sameProperty · p) = true
  interfaces : ∀ i ∈ v.interfaces, c.interfaces.any (Reference.same · i) = true
  directives : ∀ d ∈ v.directives, c.directives.any (Directive.same · d) = true

theorem absorbs {v : ClassRecord} (hd : ∀ d ∈ v.directives, d.Regular) :
    Catalog.Absorbs merge v.Has v where
  self := by
    refine ⟨id, id, ?_, ?_, ?_⟩
    · intro p hp
      exact List.any_eq_true.2 ⟨p, hp, by simp [sameProperty]⟩
    · intro i hi
      exact List.any_eq_true.2 ⟨i, hi, by simp⟩
    · intro d hdv
      exact List.any_eq_true.2 ⟨d, hdv, Directive.same_self (hd d hdv)⟩
  merged o := by
    refine ⟨?_, ?_, ?_, ?_, ?_⟩
    · intro h
      cases ho : o.description <;> simp_all [merge]
    · intro h
      simp [merge, h]
    · exact any_appendNew_of_mem _ (by simp [sameProperty])
    · exact any_appendNew_of_mem _ (by simp)
    · exact any_appendNew_of_mem _ fun d h => Directive.same_self (hd d h)
  later o w h := by
    refine ⟨?_, ?_, ?_, ?_, ?_⟩
    · intro hnone
      apply h.description
      cases ho : o.description <;> simp_all [merge]
    · intro habstract
      simp [merge, h.isAbstract habstract]
    · exact fun p hp => any_appendNew (h.properties p hp)
    · exact fun i hi => any_appendNew (h.interfaces i hi)
    · exact fun d hd => any_appendNew (h.directives d hd)
  absorbed o h := by
    have hdescription : (o.description <|> v.description) = o.description := by
      cases ho : o.description with
      | none => simp [h.description ho]
      | some s => rfl
    have habstract : (o.isAbstract || v.isAbstract) = o.isAbstract := by
      cases hv : v.isAbstract with
      | false => simp
      | true => simp [h.isAbstract hv]
    simp only [merge, hdescription, habstract, appendNew_eq_self h.properties,
      appendNew_eq_self h.interfaces, appendNew_eq_self h.directives]

end ClassRecord

namespace OrderedMap

variable {κ ν : Type} [DecidableEq κ]

theorem mem_keys_insertIfNew {m : OrderedMap κ ν} {j k : κ} {v : ν} :
    j ∈ (m.insertIfNew k v).keys ↔ j = k ∨ j ∈ m.keys := by
  rw [insertIfNew]
  by_cases h : m.contains k = true
  · have hk : k ∈ m.keys := contains_iff.1 h
    rw [if_pos h]
    constructor
    · exact .inr
    · rintro (rfl | hj)
      · exact hk
      · exact hj
  · rw [if_neg h, mem_keys_insert]

theorem mem_keys_foldl_insertIfNew {l : List (κ × ν)} {m : OrderedMap κ ν} {j : κ} :
    j ∈ (l.foldl (fun m e => m.insertIfNew e.1 e.2) m).keys ↔ j ∈ l.map Prod.fst ∨ j ∈ m.keys := by
  induction l generalizing m with
  | nil => simp
  | cons e rest ih =>
    rw [List.foldl_cons, ih, mem_keys_insertIfNew, List.map_cons, List.mem_cons]
    tauto

theorem foldl_insertIfNew_eq_self {l : List (κ × ν)} {m : OrderedMap κ ν}
    (h : ∀ e ∈ l, e.1 ∈ m.keys) : l.foldl (fun m e => m.insertIfNew e.1 e.2) m = m := by
  induction l with
  | nil => rfl
  | cons e rest ih =>
    rw [List.forall_mem_cons] at h
    rw [List.foldl_cons, insertIfNew, if_pos (contains_iff.2 h.1), ih h.2]

end OrderedMap

theorem Parameter.same_self (p : Parameter) : p.same p = true := by
  cases hp : p.kind <;> simp [same, hp]

namespace Handler

structure Has (v h : Handler) : Prop where
  parameters : ∀ p ∈ v.parameters, h.parameters.any (Parameter.same · p) = true
  directives : ∀ d ∈ v.directives, h.directives.any (Directive.same · d) = true
  extensions : ∀ e ∈ v.extensions.entries, e.1 ∈ h.extensions.keys

theorem absorbs {v : Handler} (hd : ∀ d ∈ v.directives, d.Regular) :
    Catalog.Absorbs merge v.Has v where
  self := by
    refine ⟨?_, ?_, fun e he => List.mem_map_of_mem he⟩
    · intro p hp
      exact List.any_eq_true.2 ⟨p, hp, p.same_self⟩
    · intro d hdv
      exact List.any_eq_true.2 ⟨d, hdv, Directive.same_self (hd d hdv)⟩
  merged o := by
    refine ⟨?_, ?_, ?_⟩
    · exact any_appendNew_of_mem _ fun p _ => p.same_self
    · exact any_appendNew_of_mem _ fun d h => Directive.same_self (hd d h)
    · intro e he
      exact OrderedMap.mem_keys_foldl_insertIfNew.2 (.inl (List.mem_map_of_mem he))
  later o w h := by
    refine ⟨?_, ?_, ?_⟩
    · exact fun p hp => any_appendNew (h.parameters p hp)
    · exact fun d hd => any_appendNew (h.directives d hd)
    · intro e he
      exact OrderedMap.mem_keys_foldl_insertIfNew.2 (.inr (h.extensions e he))
  absorbed o h := by
    simp only [merge, appendNew_eq_self h.parameters, appendNew_eq_self h.directives,
      OrderedMap.foldl_insertIfNew_eq_self h.extensions]

end Handler

end CodeFirst
