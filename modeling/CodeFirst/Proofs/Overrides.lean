import CodeFirst.Proofs.Defaults

/-! Tables of entities by the edits that made them. The ancestors of an entity are its whole chain
of parents, so a climb that watches out for cycles never stops early, and of all that the factories
of the chain assign to a property an instance takes what the nearest one does. -/

namespace CodeFirst

def Entity.declaration (e : Entity) : String × Option EntityId := (e.name, e.parent)

namespace EntityTable

/-- An edit of a table: an entity is declared, with the one it extends, or is given a factory. -/
inductive Edit where
  | declare (name : String) (parent : Option EntityId)
  | setDefaults (id : EntityId) (values : Defaults)

def edit (t : EntityTable) : Edit → EntityTable
  | .declare name parent => t.declare name parent
  | .setDefaults id values => t.setDefaults id values

def ofEdits (l : List Edit) : EntityTable := l.foldl edit ∅

def Edit.declaration? : Edit → Option (String × Option EntityId)
  | .declare name parent => some (name, parent)
  | .setDefaults _ _ => none

/-- What edits declare; the place in this list is the handle. -/
def declarations (l : List Edit) : List (String × Option EntityId) :=
  l.filterMap Edit.declaration?

/-- The parent that an entity is declared with. -/
def declaredParent? (l : List Edit) (id : EntityId) : Option EntityId :=
  ((declarations l)[id]?).bind Prod.snd

/-- Every parent is declared before its children. -/
def ParentsFirst (l : List Edit) : Prop := ∀ id p, declaredParent? l id = some p → p < id

/-- The factory of an entity after edits, the latest one first. -/
def latestFactory? (id : EntityId) : List Edit → Option Defaults
  | [] => none
  | .declare _ _ :: earlier => latestFactory? id earlier
  | .setDefaults i values :: earlier =>
    if i = id ∧ id < (declarations earlier).length then some values
    else latestFactory? id earlier

/-- The factory that an entity is left with: the last one it was given since it was declared. -/
def factory? (l : List Edit) (id : EntityId) : Option Defaults := latestFactory? id l.reverse

variable {t : EntityTable} {l : List Edit} {id a p : EntityId}

theorem ofEdits_concat (l : List Edit) (e : Edit) : ofEdits (l ++ [e]) = (ofEdits l).edit e :=
  List.foldl_concat ..

theorem declarations_concat (l : List Edit) (e : Edit) :
    declarations (l ++ [e]) = declarations l ++ e.declaration?.toList := by
  cases e <;> simp [declarations, Edit.declaration?]

theorem length_declarations_reverse (l : List Edit) :
    (declarations l.reverse).length = (declarations l).length :=
  (((List.reverse_perm l).filterMap _).length_eq)

theorem ParentsFirst.of_concat {e : Edit} (h : ParentsFirst (l ++ [e])) : ParentsFirst l := by
  intro id p hp
  have hlt : id < (declarations l).length := by
    by_contra hid
    rw [declaredParent?, List.getElem?_eq_none (Nat.le_of_not_lt hid)] at hp
    cases hp
  apply h id p
  rw [declaredParent?, declarations_concat, List.getElem?_append_left hlt]
  exact hp

theorem entities_declare (name : String) (parent : Option EntityId) :
    (t.declare name parent).entities =
      t.entities ++ [⟨name, parent.filter (· < t.size), none⟩] := rfl

theorem size_setDefaults (values : Defaults) : (t.setDefaults id values).size = t.size :=
  List.length_modify ..

theorem size_ofEdits (l : List Edit) : (ofEdits l).size = (declarations l).length := by
  induction l using List.reverseRecOn with
  | nil => rfl
  | append_singleton l e ih =>
    rw [ofEdits_concat, declarations_concat, List.length_append, ← ih]
    cases e with
    | declare name parent => simp [edit, size, entities_declare, Edit.declaration?]
    | setDefaults id values => simp [edit, size_setDefaults, Edit.declaration?]

/-- A factory changes nothing about names and parents. -/
theorem declarations_setDefaults (values : Defaults) :
    (t.setDefaults id values).entities.map Entity.declaration =
      t.entities.map Entity.declaration := by
  apply List.ext_getElem?
  intro i
  rw [List.getElem?_map, List.getElem?_map]
  change ((t.setDefaults id values).get? i).map _ = (t.get? i).map _
  rw [get?_setDefaults, Option.map_map]
  congr 1
  funext e
  by_cases hi : id = i
  · simp [hi, Entity.declaration]
  · simp [hi]

/-- The entities of a table are those that were declared, none of them without its parent. -/
theorem declarations_ofEdits (h : ParentsFirst l) :
    (ofEdits l).entities.map Entity.declaration = declarations l := by
  induction l using List.reverseRecOn with
  | nil => rfl
  | append_singleton l e ih =>
    have hl := ih h.of_concat
    rw [declarations_concat, ofEdits_concat]
    cases e with
    | setDefaults id values =>
      rw [edit, declarations_setDefaults, hl]
      simp [Edit.declaration?]
    | declare name parent =>
      have hparent : parent.filter (· < (ofEdits l).size) = parent := by
        cases parent with
        | none => rfl
        | some p =>
          have hp : p < (declarations l).length := by
            apply h (declarations l).length p
            rw [declaredParent?, declarations_concat]
            simp [Edit.declaration?]
          simp [size_ofEdits, hp]
      rw [edit, entities_declare, hparent, List.map_append, hl]
      rfl

theorem parent?_ofEdits (h : ParentsFirst l) : (ofEdits l).parent? = declaredParent? l := by
  funext id
  rw [declaredParent?, ← declarations_ofEdits h, List.getElem?_map, parent?]
  change _ = (((ofEdits l).get? id).map Entity.declaration).bind Prod.snd
  cases (ofEdits l).get? id <;> rfl

theorem defaults?_declare (name : String) (parent : Option EntityId) :
    (t.declare name parent).defaults? id = t.defaults? id := by
  have hget : (t.declare name parent).get? id =
      (t.entities ++ [⟨name, parent.filter (· < t.size), none⟩])[id]? := rfl
  rw [defaults?, hget, defaults?, get?]
  by_cases hid : id < t.entities.length
  · rw [List.getElem?_append_left hid]
  · rw [List.getElem?_append_right (Nat.le_of_not_lt hid),
      List.getElem?_eq_none (Nat.le_of_not_lt hid)]
    cases id - t.entities.length <;> rfl

theorem defaults?_setDefaults_eq_ite (i id : EntityId) (values : Defaults) :
    (t.setDefaults i values).defaults? id =
      if i = id ∧ id < t.size then some values else t.defaults? id := by
  by_cases hid : id < t.size
  · by_cases hi : i = id
    · subst hi
      simp [defaults?_setDefaults hid, hid]
    · rw [if_neg fun h => hi h.1, defaults?, get?_setDefaults, defaults?]
      cases t.get? id <;> simp [hi]
  · have hnone : t.get? id = none := List.getElem?_eq_none (Nat.le_of_not_lt hid)
    rw [if_neg fun h => hid h.2, defaults?, get?_setDefaults, defaults?, hnone]
    rfl

theorem defaults?_ofEdits (l : List Edit) (id : EntityId) :
    (ofEdits l).defaults? id = factory? l id := by
  induction l using List.reverseRecOn with
  | nil => rfl
  | append_singleton l e ih =>
    rw [ofEdits_concat, factory?, List.reverse_concat]
    cases e with
    | declare name parent =>
      rw [edit, defaults?_declare, ih]
      rfl
    | setDefaults i values =>
      rw [edit, defaults?_setDefaults_eq_ite, size_ofEdits, ih, latestFactory?,
        length_declarations_reverse]
      rfl

/-- The parents above an entity, most-base first: the last is its parent, and the first has none. -/
inductive ParentChain (parent? : EntityId → Option EntityId) : EntityId → List EntityId → Prop where
  | root {id : EntityId} (h : parent? id = none) : ParentChain parent? id []
  | child {id p : EntityId} {above : List EntityId} (h : parent? id = some p)
    (chain : ParentChain parent? p above) : ParentChain parent? id (above ++ [p])

theorem parentChain_ancestors (t : EntityTable) (id : EntityId) :
    ParentChain t.parent? id (t.ancestors id) := by
  fun_induction ancestors t id with
  | case1 id hp => exact .root hp
  | case2 id p hp hlt ih => exact .child hp ih

/-- Climbs from parent to parent behind those in `chain`, and stops at an entity that was met. -/
def climb (t : EntityTable) (id : EntityId) (chain : List EntityId) (next : Option EntityId) :
    List EntityId :=
  match next with
  | none => chain
  | some p => if p ∈ chain ∨ p = id then chain else climb t id (chain ++ [p]) (t.parent? p)
termination_by next.elim 0 (· + 1)
decreasing_by
  cases hp : t.parent? p with
  | none => simp
  | some q =>
    have hlt := parent?_lt hp
    simpa using hlt

theorem climb_eq_append {chain : List EntityId} (hid : p < id) (hchain : ∀ a ∈ chain, p < a) :
    t.climb id chain (some p) = chain ++ t.nearestFirst p := by
  induction p using Nat.strongRecOn generalizing chain with
  | ind p ih =>
    have hnew : ¬ (p ∈ chain ∨ p = id) := by
      rintro (hp | rfl)
      · exact Nat.lt_irrefl p (hchain p hp)
      · exact Nat.lt_irrefl p hid
    rw [climb, if_neg hnew]
    cases hp : t.parent? p with
    | none => rw [climb, nearestFirst_of_parent?_eq_none hp]
    | some q =>
      have hlt := parent?_lt hp
      have hmet : ∀ a ∈ chain ++ [p], q < a := by
        intro a ha
        rcases List.mem_append.1 ha with ha | ha
        · exact Nat.lt_trans hlt (hchain a ha)
        · rwa [List.mem_singleton.1 ha]
      rw [ih q hlt (Nat.lt_trans hlt hid) hmet, nearestFirst_of_parent? hp]
      simp

/-- A climb that watches out for cycles never stops early. -/
theorem reverse_climb (t : EntityTable) (id : EntityId) :
    (t.climb id [] (t.parent? id)).reverse = t.ancestors id := by
  cases hp : t.parent? id with
  | none =>
    rw [climb, ancestors_of_parent?_eq_none hp]
    rfl
  | some p =>
    rw [climb_eq_append (parent?_lt hp) (by simp), ancestors_of_parent? hp]
    simp [nearestFirst, lineage]

theorem foldl_construct_eq_none_iff {factory : EntityId → Option Defaults} {ids : List EntityId}
    {values : Option Defaults} :
    ids.foldl (fun values e => construct values (factory e)) values = none ↔
      values = none ∧ ∀ e ∈ ids, factory e = none := by
  induction ids generalizing values with
  | nil => simp
  | cons e rest ih =>
    have hconstruct : construct values (factory e) = none ↔ values = none ∧ factory e = none := by
      cases factory e <;> simp [construct]
    rw [List.foldl_cons, ih, hconstruct]
    simp [and_assoc]

theorem own?_eq_some_iff {k : String} {v : Json} :
    t.own? k a = some v ↔ ∃ d, t.defaults? a = some d ∧ d.get? k = some v :=
  Option.bind_eq_some_iff

theorem own?_eq_none_iff {k : String} :
    t.own? k a = none ↔ ∀ d, t.defaults? a = some d → k ∉ d.keys := by
  rw [own?, Option.bind_eq_none_iff]
  simp only [OrderedMap.get?_eq_none_iff]

/-- What an instance has of the factories along a chain, from the nearest one on: all that they
assign, and of several values for one property that of the nearest. -/
structure Overrides (chain : List EntityId) (factory? : EntityId → Option Defaults)
    (values? : Option Defaults) : Prop where
  eq_none_iff : values? = none ↔ ∀ a ∈ chain, factory? a = none
  mem_keys_iff : ∀ m, values? = some m → ∀ k, k ∈ m.keys ↔
    ∃ a ∈ chain, ∃ d, factory? a = some d ∧ k ∈ d.keys
  get?_iff : ∀ m, values? = some m → ∀ k v, m.get? k = some v ↔
    ∃ nearer a farther, chain = nearer ++ a :: farther ∧
      (∃ d, factory? a = some d ∧ d.get? k = some v) ∧
      ∀ b ∈ nearer, ∀ d, factory? b = some d → k ∉ d.keys

theorem overrides_instantiate (t : EntityTable) (id : EntityId) :
    Overrides (t.nearestFirst id) t.defaults? (t.instantiate id) := by
  have hget : ∀ m, t.instantiate id = some m → ∀ k,
      m.get? k = (t.nearestFirst id).findSome? (t.own? k) := by
    intro m hm k
    rw [← get?_instantiate_eq_findSome?, hm, Option.bind_some]
  refine ⟨?_, ?_, ?_⟩
  · rw [instantiate, foldl_construct_eq_none_iff]
    simp [nearestFirst, lineage, or_comm]
  · intro m hm k
    have hnone : k ∉ m.keys ↔
        ∀ a ∈ t.nearestFirst id, ∀ d, t.defaults? a = some d → k ∉ d.keys := by
      rw [← OrderedMap.get?_eq_none_iff, hget m hm, List.findSome?_eq_none_iff]
      simp only [own?_eq_none_iff]
    rw [← not_iff_not, hnone]
    simp
  · intro m hm k v
    rw [hget m hm, List.findSome?_eq_some_iff]
    simp only [own?_eq_some_iff, own?_eq_none_iff]

/-- The ancestors of an entity are the whole chain of the parents it was declared with, in the order
of declaration and all of them before it; a climb that watches out for cycles finds them all, and a
handle that was not declared has none. Its instances have what the factories along the chain assign,
the nearest one first. -/
theorem ofEdits_inherits (h : ParentsFirst l) (id : EntityId) :
    ParentChain (declaredParent? l) id ((ofEdits l).ancestors id) ∧
      ((ofEdits l).ancestors id).Pairwise (· < ·) ∧
      (∀ a ∈ (ofEdits l).ancestors id, a < id) ∧
      ((ofEdits l).climb id [] (declaredParent? l id)).reverse = (ofEdits l).ancestors id ∧
      ((declarations l).length ≤ id → (ofEdits l).ancestors id = []) ∧
      Overrides (id :: ((ofEdits l).ancestors id).reverse) (factory? l)
        ((ofEdits l).instantiate id) := by
  have hfactory : (ofEdits l).defaults? = factory? l := funext (defaults?_ofEdits l)
  refine ⟨?_, pairwise_ancestors _ id, fun a => lt_of_mem_ancestors, ?_, ?_, ?_⟩
  · rw [← parent?_ofEdits h]
    exact parentChain_ancestors _ id
  · rw [← parent?_ofEdits h]
    exact reverse_climb _ id
  · intro hid
    apply ancestors_of_parent?_eq_none
    rw [parent?_ofEdits h, declaredParent?, List.getElem?_eq_none hid]
    rfl
  · rw [← hfactory]
    exact overrides_instantiate _ id

/-- Arguments in three generations, of which the middle one has no factory. -/
def pages : List Edit :=
  [.declare "PaginationArgs" none, .declare "RecipesArgs" (some 0),
    .setDefaults 0 (.ofList [("skip", .ofNat 0), ("take", .ofNat 25)]),
    .declare "TopRecipesArgs" (some 1), .setDefaults 2 (.ofList [("take", .ofNat 5)])]

theorem ofEdits_inherits_pages : ParentsFirst pages ∧
    ParentChain (declaredParent? pages) 2 [0, 1] ∧
    ((ofEdits pages).climb 2 [] (some 1)).reverse = [0, 1] ∧
    ∃ m, (ofEdits pages).instantiate 2 = some m ∧ (∀ k, k ∈ m.keys ↔ k = "skip" ∨ k = "take") ∧
      m.get? "skip" = some (.ofNat 0) ∧ m.get? "take" = some (.ofNat 5) := by
  have hfirst : ParentsFirst pages := by
    intro id p hp
    match id, hp with
    | 1, hp => cases hp; decide
    | 2, hp => cases hp; decide
  have hancestors : (ofEdits pages).ancestors 2 = [0, 1] := by decide +kernel
  have hbase : factory? pages 0 = some (.ofList [("skip", .ofNat 0), ("take", .ofNat 25)]) := rfl
  have hmiddle : factory? pages 1 = none := rfl
  have hlast : factory? pages 2 = some (.ofList [("take", .ofNat 5)]) := rfl
  obtain ⟨hchain, -, -, hclimb, -, hover⟩ := ofEdits_inherits hfirst 2
  rw [hancestors] at hchain hclimb hover
  change Overrides [2, 1, 0] _ _ at hover
  cases hm : (ofEdits pages).instantiate 2 with
  | none =>
    have hnone := hover.eq_none_iff.1 hm 2 (by simp)
    rw [hlast] at hnone
    cases hnone
  | some m =>
    refine ⟨hfirst, hchain, hclimb, m, rfl, ?_, ?_, ?_⟩
    · intro k
      have hunion : k ∈ m.keys ↔ k = "take" ∨ k = "skip" ∨ k = "take" := by
        rw [hover.mem_keys_iff m hm]
        simp [hbase, hmiddle, hlast, mem_keys_ofList]
      rw [hunion]
      tauto
    · rw [hover.get?_iff m hm]
      refine ⟨[2, 1], 0, [], rfl, ⟨_, rfl, rfl⟩, ?_⟩
      simp [hmiddle, hlast, mem_keys_ofList]
    · rw [hover.get?_iff m hm]
      exact ⟨[], 2, [1, 0], rfl, ⟨_, rfl, rfl⟩, by simp⟩

end EntityTable

end CodeFirst
