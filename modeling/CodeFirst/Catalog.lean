/-! Records in order of arrival, at most one under each key, where the key is part of the record.
Putting a record under a present key replaces the old one in place. -/

namespace CodeFirst

section Records

variable {κ ν : Type} [DecidableEq κ] (key : ν → κ)

/-- Puts a record in the place of the one with its key, or at the end. -/
def putRecord (v : ν) : List ν → List ν
  | [] => [v]
  | w :: rest => if key w = key v then v :: rest else w :: putRecord v rest

def findRecord (k : κ) : List ν → Option ν
  | [] => none
  | w :: rest => if key w = k then some w else findRecord k rest

variable {key}

theorem keys_putRecord (v : ν) (l : List ν) :
    (putRecord key v l).map key =
      if key v ∈ l.map key then l.map key else l.map key ++ [key v] := by
  induction l with
  | nil => simp [putRecord]
  | cons w rest ih =>
    by_cases h : key w = key v
    · simp [putRecord, h]
    · have h' : key v ≠ key w := fun hk => h hk.symm
      simp only [putRecord, h, if_false, List.map_cons, ih, List.mem_cons, h', false_or]
      split <;> simp

theorem mem_keys_putRecord {k : κ} {v : ν} {l : List ν} :
    k ∈ (putRecord key v l).map key ↔ k = key v ∨ k ∈ l.map key := by
  rw [keys_putRecord]
  split
  · next h => exact ⟨.inr, fun hk => hk.elim (fun hk => hk ▸ h) id⟩
  · simp [or_comm]

theorem nodup_putRecord {v : ν} {l : List ν} (h : (l.map key).Nodup) :
    ((putRecord key v l).map key).Nodup := by
  rw [keys_putRecord]
  split
  · exact h
  · next hk =>
    rw [List.nodup_append]
    refine ⟨h, by simp, ?_⟩
    intro a ha b hb hab
    rw [List.mem_singleton] at hb
    subst hb
    exact hk (hab ▸ ha)

theorem putRecord_of_not_mem {v : ν} {l : List ν} (h : key v ∉ l.map key) :
    putRecord key v l = l ++ [v] := by
  induction l with
  | nil => rfl
  | cons w rest ih =>
    rw [List.map_cons, List.mem_cons, not_or] at h
    rw [putRecord, if_neg fun he => h.1 he.symm, ih h.2, List.cons_append]

theorem findRecord_putRecord (k : κ) (v : ν) (l : List ν) :
    findRecord key k (putRecord key v l) = if key v = k then some v else findRecord key k l := by
  induction l with
  | nil => simp [putRecord, findRecord]
  | cons w rest ih =>
    by_cases h : key w = key v
    · by_cases hk : key v = k <;> simp [putRecord, findRecord, h, hk]
    · by_cases hk : key w = k
      · have h' : key v ≠ k := fun hv => h (hk.trans hv.symm)
        rw [putRecord, if_neg h]
        simp [findRecord, hk, h']
      · simp [putRecord, findRecord, h, hk, ih]

theorem findRecord_eq_none_iff {k : κ} {l : List ν} :
    findRecord key k l = none ↔ k ∉ l.map key := by
  induction l with
  | nil => simp [findRecord]
  | cons w rest ih =>
    by_cases h : key w = k
    · simp [findRecord, h]
    · have h' : k ≠ key w := fun hk => h hk.symm
      simp [findRecord, h, h', ih]

theorem mem_of_findRecord {k : κ} {v : ν} {l : List ν} (h : findRecord key k l = some v) :
    v ∈ l ∧ key v = k := by
  induction l with
  | nil => simp [findRecord] at h
  | cons w rest ih =>
    by_cases hk : key w = k
    · simp only [findRecord, hk, if_true, Option.some.injEq] at h
      subst h; exact ⟨List.mem_cons_self .., hk⟩
    · simp only [findRecord, hk, if_false] at h
      exact ⟨List.mem_cons_of_mem _ (ih h).1, (ih h).2⟩

theorem findRecord_of_mem {v : ν} {l : List ν} (hd : (l.map key).Nodup) (h : v ∈ l) :
    findRecord key (key v) l = some v := by
  induction l with
  | nil => simp at h
  | cons w rest ih =>
    rw [List.map_cons, List.nodup_cons] at hd
    rcases List.mem_cons.1 h with rfl | hr
    · simp [findRecord]
    · have hne : key w ≠ key v := fun he => hd.1 (he ▸ List.mem_map_of_mem hr)
      simp [findRecord, hne, ih hd.2 hr]

end Records

structure Catalog {κ ν : Type} (key : ν → κ) where
  records : List ν
  nodup_keys : (records.map key).Nodup

namespace Catalog

variable {κ ν : Type} {key : ν → κ}

@[ext] theorem ext {a b : Catalog key} (h : a.records = b.records) : a = b := by
  cases a; cases b; simp_all

def empty : Catalog key := ⟨[], by simp⟩

instance : EmptyCollection (Catalog key) := ⟨empty⟩
instance : Inhabited (Catalog key) := ⟨empty⟩

def keys (c : Catalog key) : List κ := c.records.map key
def size (c : Catalog key) : Nat := c.records.length
def isEmpty (c : Catalog key) : Bool := c.records.isEmpty

@[simp] theorem records_empty : (∅ : Catalog key).records = [] := rfl
@[simp] theorem keys_empty : (∅ : Catalog key).keys = [] := rfl

theorem keys_nodup (c : Catalog key) : c.keys.Nodup := c.nodup_keys

variable [DecidableEq κ]

def get? (c : Catalog key) (k : κ) : Option ν := findRecord key k c.records
def contains (c : Catalog key) (k : κ) : Bool := (c.get? k).isSome

def put (c : Catalog key) (v : ν) : Catalog key :=
  ⟨putRecord key v c.records, nodup_putRecord c.nodup_keys⟩

def putMany (c : Catalog key) (l : List ν) : Catalog key := l.foldl put c

@[simp] theorem get?_empty (k : κ) : (∅ : Catalog key).get? k = none := rfl

@[simp] theorem records_put (c : Catalog key) (v : ν) :
    (c.put v).records = putRecord key v c.records := rfl

theorem get?_put (c : Catalog key) (k : κ) (v : ν) :
    (c.put v).get? k = if key v = k then some v else c.get? k :=
  findRecord_putRecord k v c.records

@[simp] theorem get?_put_self (c : Catalog key) (v : ν) : (c.put v).get? (key v) = some v := by
  simp [get?_put]

theorem keys_put (c : Catalog key) (v : ν) :
    (c.put v).keys = if key v ∈ c.keys then c.keys else c.keys ++ [key v] :=
  keys_putRecord v c.records

theorem mem_keys_put {c : Catalog key} {k : κ} {v : ν} :
    k ∈ (c.put v).keys ↔ k = key v ∨ k ∈ c.keys :=
  mem_keys_putRecord

theorem get?_eq_none_iff {c : Catalog key} {k : κ} : c.get? k = none ↔ k ∉ c.keys :=
  findRecord_eq_none_iff

theorem get?_eq_some_iff {c : Catalog key} {k : κ} {v : ν} :
    c.get? k = some v ↔ v ∈ c.records ∧ key v = k :=
  ⟨mem_of_findRecord, fun h => h.2 ▸ findRecord_of_mem c.nodup_keys h.1⟩

theorem key_of_get? {c : Catalog key} {k : κ} {v : ν} (h : c.get? k = some v) : key v = k :=
  (get?_eq_some_iff.1 h).2

theorem contains_iff {c : Catalog key} {k : κ} : c.contains k = true ↔ k ∈ c.keys := by
  rw [contains, Option.isSome_iff_ne_none, ne_eq, get?_eq_none_iff, Decidable.not_not]

end Catalog

end CodeFirst
