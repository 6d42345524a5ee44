import CodeFirst.Catalog

/-! A finite map that remembers the order in which its keys were first inserted: a catalog of pairs.
Writing to a present key replaces its value in place. -/

namespace CodeFirst

section Entries

variable {κ ν : Type} [DecidableEq κ]

def lookupEntry (k : κ) (l : List (κ × ν)) : Option ν := (findRecord Prod.fst k l).map Prod.snd

@[simp] theorem lookupEntry_nil (k : κ) : lookupEntry k ([] : List (κ × ν)) = none := rfl

theorem lookupEntry_cons (k : κ) (e : κ × ν) (l : List (κ × ν)) :
    lookupEntry k (e :: l) = if e.1 = k then some e.2 else lookupEntry k l := by
  simp only [lookupEntry, findRecord]; split <;> simp

theorem lookupEntry_eq_none_iff {k : κ} {l : List (κ × ν)} :
    lookupEntry k l = none ↔ k ∉ l.map Prod.fst := by
  rw [lookupEntry, Option.map_eq_none_iff, findRecord_eq_none_iff]

theorem mem_of_lookupEntry {k : κ} {v : ν} {l : List (κ × ν)} (h : lookupEntry k l = some v) :
    (k, v) ∈ l := by
  obtain ⟨e, he, rfl⟩ := Option.map_eq_some_iff.1 h
  obtain ⟨hm, rfl⟩ := mem_of_findRecord he
  exact hm

theorem lookupEntry_of_mem {k : κ} {v : ν} {l : List (κ × ν)} (hd : (l.map Prod.fst).Nodup)
    (h : (k, v) ∈ l) : lookupEntry k l = some v := by
  rw [lookupEntry, show k = Prod.fst (k, v) from rfl, findRecord_of_mem hd h]; rfl

end Entries

structure OrderedMap (κ ν : Type) where
  pairs : Catalog (Prod.fst : κ × ν → κ)

namespace OrderedMap

variable {κ ν : Type}

def empty : OrderedMap κ ν := ⟨∅⟩

instance : EmptyCollection (OrderedMap κ ν) := ⟨empty⟩
instance : Inhabited (OrderedMap κ ν) := ⟨empty⟩

def entries (m : OrderedMap κ ν) : List (κ × ν) := m.pairs.records
def keys (m : OrderedMap κ ν) : List κ := m.pairs.keys
def values (m : OrderedMap κ ν) : List ν := m.entries.map Prod.snd
def size (m : OrderedMap κ ν) : Nat := m.pairs.size
def isEmpty (m : OrderedMap κ ν) : Bool := m.pairs.isEmpty

@[ext] theorem ext {a b : OrderedMap κ ν} (h : a.entries = b.entries) : a = b := by
  cases a; cases b; simp only [mk.injEq]; exact Catalog.ext h

@[simp] theorem entries_empty : (∅ : OrderedMap κ ν).entries = [] := rfl
@[simp] theorem keys_empty : (∅ : OrderedMap κ ν).keys = [] := rfl

theorem keys_nodup (m : OrderedMap κ ν) : m.keys.Nodup := m.pairs.nodup_keys

section Lookup

variable [DecidableEq κ]

def get? (m : OrderedMap κ ν) (k : κ) : Option ν := lookupEntry k m.entries
def contains (m : OrderedMap κ ν) (k : κ) : Bool := m.pairs.contains k
def insert (m : OrderedMap κ ν) (k : κ) (v : ν) : OrderedMap κ ν := ⟨m.pairs.put (k, v)⟩

/-- Keeps the value already stored under `k`, if there is one. -/
def insertIfNew (m : OrderedMap κ ν) (k : κ) (v : ν) : OrderedMap κ ν :=
  if m.contains k then m else m.insert k v

def insertMany (m : OrderedMap κ ν) (l : List (κ × ν)) : OrderedMap κ ν := ⟨m.pairs.putMany l⟩

def ofList (l : List (κ × ν)) : OrderedMap κ ν := insertMany ∅ l

@[simp] theorem get?_empty (k : κ) : (∅ : OrderedMap κ ν).get? k = none := rfl

theorem get?_insert (m : OrderedMap κ ν) (j k : κ) (v : ν) :
    (m.insert k v).get? j = if k = j then some v else m.get? j := by
  simp only [get?, lookupEntry, entries, insert, Catalog.records_put, findRecord_putRecord]
  split <;> rfl

@[simp] theorem get?_insert_self (m : OrderedMap κ ν) (k : κ) (v : ν) :
    (m.insert k v).get? k = some v := by simp [get?_insert]

theorem keys_insert (m : OrderedMap κ ν) (k : κ) (v : ν) :
    (m.insert k v).keys = if k ∈ m.keys then m.keys else m.keys ++ [k] :=
  m.pairs.keys_put (k, v)

theorem mem_keys_insert {m : OrderedMap κ ν} {j k : κ} {v : ν} :
    k ∈ (m.insert j v).keys ↔ k = j ∨ k ∈ m.keys := Catalog.mem_keys_put

theorem get?_eq_none_iff {m : OrderedMap κ ν} {k : κ} : m.get? k = none ↔ k ∉ m.keys :=
  lookupEntry_eq_none_iff

theorem get?_eq_some_iff {m : OrderedMap κ ν} {k : κ} {v : ν} :
    m.get? k = some v ↔ (k, v) ∈ m.entries :=
  ⟨mem_of_lookupEntry, lookupEntry_of_mem m.pairs.nodup_keys⟩

theorem contains_iff {m : OrderedMap κ ν} {k : κ} : m.contains k = true ↔ k ∈ m.keys :=
  Catalog.contains_iff

def putMany (m : OrderedMap κ ν) (key : ν → κ) (l : List ν) : OrderedMap κ ν :=
  m.insertMany (l.map fun v => (key v, v))

theorem putMany_cons (m : OrderedMap κ ν) (key : ν → κ) (v : ν) (l : List ν) :
    m.putMany key (v :: l) = (m.insert (key v) v).putMany key l := rfl

end Lookup

def map {μ : Type} (f : ν → μ) (m : OrderedMap κ ν) : OrderedMap κ μ :=
  ⟨⟨m.entries.map fun e => (e.1, f e.2), by
    have h : (m.entries.map fun e => (e.1, f e.2)).map Prod.fst = m.entries.map Prod.fst := by
      simp [List.map_map, Function.comp_def]
    rw [h]; exact m.pairs.nodup_keys⟩⟩

@[simp] theorem entries_map {μ : Type} (f : ν → μ) (m : OrderedMap κ ν) :
    (m.map f).entries = m.entries.map fun e => (e.1, f e.2) := rfl

end OrderedMap

namespace Catalog

variable {κ ν : Type} {key : ν → κ}

/-- The map of a catalog, in which every record stands under its key. -/
def toMap (c : Catalog key) : OrderedMap κ ν :=
  ⟨⟨c.records.map fun v => (key v, v), by
    have h : (c.records.map fun v => (key v, v)).map Prod.fst = c.keys := by
      simp [keys, Function.comp_def]
    rw [h]; exact c.keys_nodup⟩⟩

@[simp] theorem entries_toMap (c : Catalog key) :
    c.toMap.entries = c.records.map fun v => (key v, v) := rfl

@[simp] theorem keys_toMap (c : Catalog key) : c.toMap.keys = c.keys := by
  simp [OrderedMap.keys, keys, toMap, Function.comp_def]

@[simp] theorem values_toMap (c : Catalog key) : c.toMap.values = c.records := by
  simp [OrderedMap.values, Function.comp_def]

@[simp] theorem toMap_empty : (∅ : Catalog key).toMap = ∅ := rfl

variable [DecidableEq κ]

@[simp] theorem get?_toMap (c : Catalog key) (k : κ) : c.toMap.get? k = c.get? k := by
  rw [OrderedMap.get?, lookupEntry, entries_toMap, get?]
  induction c.records with
  | nil => rfl
  | cons v rest ih =>
    by_cases hk : key v = k
    · simp [findRecord, hk]
    · simpa [findRecord, hk] using ih

theorem toMap_put (c : Catalog key) (v : ν) : (c.put v).toMap = c.toMap.insert (key v) v := by
  refine OrderedMap.ext ?_
  rw [entries_toMap, records_put]
  change _ = putRecord Prod.fst (key v, v) (c.records.map fun v => (key v, v))
  induction c.records with
  | nil => rfl
  | cons w rest ih =>
    by_cases hk : key w = key v
    · simp [putRecord, hk]
    · simpa [putRecord, hk] using ih

theorem toMap_putMany (c : Catalog key) (l : List ν) :
    (c.putMany l).toMap = c.toMap.putMany key l := by
  induction l generalizing c with
  | nil => rfl
  | cons v rest ih =>
    rw [OrderedMap.putMany_cons, ← toMap_put]
    exact ih (c.put v)

end Catalog

namespace OrderedMap

variable {κ ν : Type} (key : ν → κ)

def Keyed (m : OrderedMap κ ν) : Prop := ∀ e ∈ m.entries, e.1 = key e.2

variable {key} {m : OrderedMap κ ν}

theorem Keyed.keys_eq (h : m.Keyed key) : m.keys = m.values.map key := by
  rw [values, List.map_map]
  exact List.map_congr_left h

theorem Keyed.nodup (h : m.Keyed key) : (m.values.map key).Nodup := h.keys_eq ▸ m.keys_nodup

variable [DecidableEq κ]

theorem Keyed.get?_eq_some_iff (h : m.Keyed key) {k : κ} {v : ν} :
    m.get? k = some v ↔ v ∈ m.values ∧ key v = k := by
  rw [OrderedMap.get?_eq_some_iff, values, List.mem_map]
  constructor
  · intro he
    exact ⟨⟨_, he, rfl⟩, (h _ he).symm⟩
  · rintro ⟨⟨e, he, rfl⟩, rfl⟩
    rwa [← h e he]

variable (key) (l : List ν)

theorem putMany_empty :
    (∅ : OrderedMap κ ν).putMany key l = ((∅ : Catalog key).putMany l).toMap :=
  (Catalog.toMap_putMany ∅ l).symm

theorem keyed_putMany : ((∅ : OrderedMap κ ν).putMany key l).Keyed key := by
  rw [putMany_empty]
  intro e he
  obtain ⟨v, -, rfl⟩ := List.mem_map.1 he
  rfl

theorem values_putMany :
    ((∅ : OrderedMap κ ν).putMany key l).values = ((∅ : Catalog key).putMany l).records := by
  rw [putMany_empty, Catalog.values_toMap]

theorem get?_putMany (k : κ) :
    ((∅ : OrderedMap κ ν).putMany key l).get? k = ((∅ : Catalog key).putMany l).get? k := by
  rw [putMany_empty, Catalog.get?_toMap]

end OrderedMap

end CodeFirst
