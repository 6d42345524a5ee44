import CodeFirst.Proofs.Blame
import CodeFirst.Proofs.Sharing
import Mathlib.Logic.Function.Iterate

/-! How references are wrapped. A node is known by its named type, the number of its lists, and
whether it and the items of each list may be null; what is built for a reference is the node that
the reference and the options ask for. Deferring any part of a reference changes nothing. -/

namespace CodeFirst

namespace TypeNode

/-- The number of lists around the named type. -/
def lists : TypeNode → Nat
  | .named _ => 0
  | .list t => t.lists + 1
  | .nonNull t => t.lists

/-- What the list at a layer holds, the outermost one being at `0`. -/
def items? : TypeNode → Nat → Option TypeNode
  | .named _, _ => none
  | .list t, 0 => some t
  | .list t, k + 1 => t.items? k
  | .nonNull t, k => t.items? k

/-- Whether no non-null mark stands on another one. -/
def Proper : TypeNode → Prop
  | .named _ => True
  | .list t => t.Proper
  | .nonNull t => t.isNonNull = false ∧ t.Proper

/-- A type below a number of lists, with a non-null mark wherever null is not allowed. -/
structure Wraps (id : TypeId) (count : Nat) (nullable : Bool) (itemNullable : Nat → Bool)
    (n : TypeNode) : Prop where
  base : n.base = id
  lists : n.lists = count
  outermost : n.isNonNull = true ↔ nullable = false
  items : ∀ k < count, ∃ t, n.items? k = some t ∧ (t.isNonNull = true ↔ itemNullable k = false)
  proper : n.Proper

variable {id : TypeId} {count : Nat} {nullable : Bool} {itemNullable : Nat → Bool}
  {n m t : TypeNode}

theorem wraps_named_iff {i : TypeId} : (named i).Wraps id count nullable itemNullable ↔
    i = id ∧ count = 0 ∧ nullable = true := by
  constructor
  · intro h
    exact ⟨h.base, h.lists.symm, by simpa [isNonNull] using h.outermost⟩
  · rintro ⟨rfl, rfl, rfl⟩
    exact ⟨rfl, rfl, by simp [isNonNull], fun k hk => absurd hk (Nat.not_lt_zero k), trivial⟩

theorem wraps_list_iff : (list t).Wraps id count nullable itemNullable ↔ nullable = true ∧
    ∃ d, count = d + 1 ∧ t.Wraps id d (itemNullable 0) fun k => itemNullable (k + 1) := by
  constructor
  · intro h
    have hcount : count = t.lists + 1 := h.lists.symm
    refine ⟨by simpa [isNonNull] using h.outermost, t.lists, hcount, h.base, rfl, ?_, ?_, h.proper⟩
    · obtain ⟨u, hu, hmark⟩ := h.items 0 (by omega)
      rwa [Option.some.inj hu]
    · intro k hk
      exact h.items (k + 1) (by omega)
  · rintro ⟨rfl, d, rfl, h⟩
    refine ⟨h.base, congrArg (· + 1) h.lists, by simp [isNonNull], ?_, h.proper⟩
    intro k hk
    cases k with
    | zero => exact ⟨t, rfl, h.outermost⟩
    | succ k => exact h.items k (by omega)

theorem wraps_nonNull_iff : (nonNull t).Wraps id count nullable itemNullable ↔
    nullable = false ∧ t.Wraps id count true itemNullable := by
  constructor
  · intro h
    have hinner : t.isNonNull = false := h.proper.1
    refine ⟨by simpa [isNonNull] using h.outermost, h.base, h.lists, ?_, h.items, h.proper.2⟩
    simp [hinner]
  · rintro ⟨rfl, h⟩
    have hinner : t.isNonNull = false := by simpa using h.outermost
    exact ⟨h.base, h.lists, by simp [isNonNull], h.items, hinner, h.proper⟩

/-- There is one node only that wraps a type in this way. -/
theorem Wraps.unique (hn : n.Wraps id count nullable itemNullable)
    (hm : m.Wraps id count nullable itemNullable) : n = m := by
  induction n generalizing m count nullable itemNullable with
  | named i =>
    obtain ⟨rfl, rfl, rfl⟩ := wraps_named_iff.1 hn
    cases m with
    | named j => rw [(wraps_named_iff.1 hm).1]
    | list u =>
      obtain ⟨-, d, hd, -⟩ := wraps_list_iff.1 hm
      omega
    | nonNull u => exact absurd (wraps_nonNull_iff.1 hm).1 (by simp)
  | list t ih =>
    obtain ⟨rfl, d, rfl, ht⟩ := wraps_list_iff.1 hn
    cases m with
    | named j => exact absurd (wraps_named_iff.1 hm).2.1 (by omega)
    | list u =>
      obtain ⟨-, d', hd, hu⟩ := wraps_list_iff.1 hm
      obtain rfl : d = d' := by omega
      rw [ih ht hu]
    | nonNull u => exact absurd (wraps_nonNull_iff.1 hm).1 (by simp)
  | nonNull t ih =>
    obtain ⟨rfl, ht⟩ := wraps_nonNull_iff.1 hn
    cases m with
    | named j => exact absurd (wraps_named_iff.1 hm).2.2 (by simp)
    | list u => exact absurd (wraps_list_iff.1 hm).1 (by simp)
    | nonNull u => rw [ih ht (wraps_nonNull_iff.1 hm).2]

/-- Beyond the lists of a node it does not matter what their items would be. -/
theorem Wraps.congr {itemNullable' : Nat → Bool} (h : n.Wraps id count nullable itemNullable)
    (hitems : ∀ k < count, itemNullable k = itemNullable' k) :
    n.Wraps id count nullable itemNullable' := by
  refine ⟨h.base, h.lists, h.outermost, fun k hk => ?_, h.proper⟩
  rw [← hitems k hk]
  exact h.items k hk

theorem Wraps.requireIf (h : t.Wraps id count true itemNullable) :
    (requireIf (!nullable) t).Wraps id count nullable itemNullable := by
  cases nullable with
  | false => exact wraps_nonNull_iff.2 ⟨rfl, h⟩
  | true => exact h

theorem wraps_inLists (items : ItemNullability) (id : TypeId) (first count : Nat) :
    (inLists items (.named id) first count).Wraps id count true fun k => items.at? (first + k) := by
  induction count generalizing first with
  | zero => exact wraps_named_iff.2 ⟨rfl, rfl, rfl⟩
  | succ d ih =>
    have hinner := ih (first + 1)
    simp only [Nat.add_right_comm first 1] at hinner
    exact wraps_list_iff.2 ⟨rfl, d, rfl, hinner.requireIf⟩

theorem wraps_wrap (id : TypeId) (w : Wrapping) :
    (wrap id w).Wraps id w.depth w.nullable w.arrayNullable.at? := by
  have hlists := wraps_inLists w.arrayNullable id 0 w.depth
  simp only [Nat.zero_add] at hlists
  exact hlists.requireIf

/-- The first answer is about the items of the outermost list. -/
example : wrap 0 ⟨false, true, 2, .perDepth [true, false]⟩ =
    .nonNull (.list (.list (.nonNull (.named 0)))) := by decide

theorem eq_wrap_iff {w : Wrapping} :
    n = wrap id w ↔ n.Wraps id w.depth w.nullable w.arrayNullable.at? := by
  constructor
  · rintro rfl
    exact wraps_wrap id w
  · intro h
    exact h.unique (wraps_wrap id w)

end TypeNode

namespace Reference

theorem force_eq_iterate (ref : Reference) : ref.force = list^[ref.depth] ref.base := by
  induction ref with
  | scalar name => rfl
  | declared id => rfl
  | deferred target ih => exact ih
  | list item ih => rw [force, ih, depth, base, Function.iterate_succ_apply']

@[simp] theorem base_base (ref : Reference) : ref.base.base = ref.base := by
  induction ref with
  | scalar name => rfl
  | declared id => rfl
  | deferred target ih => exact ih
  | list item ih => exact ih

theorem entity?_force (ref : Reference) : ref.force.entity? = ref.entity? := by
  rw [entity?, entity?, base_force]

/-- The number of lists that a reference has with some options: its own, or else the declared
ones. -/
def wrappedDepth (ref : Reference) (w : Wrapping) : Nat :=
  if 0 < ref.depth then ref.depth else w.depth

theorem depth_withReferenceDepth_eq (ref : Reference) (w : Wrapping) :
    (w.withReferenceDepth ref.depth).depth = ref.wrappedDepth w := by
  rw [Wrapping.depth_withReferenceDepth, wrappedDepth]
  split_ifs <;> omega

end Reference

theorem eq_wrap_withReferenceDepth_iff {id : TypeId} {n : TypeNode} {ref : Reference}
    {w : Wrapping} : n = .wrap id (w.withReferenceDepth ref.depth) ↔
      n.Wraps id (ref.wrappedDepth w) w.nullable w.arrayNullable.at? := by
  rw [TypeNode.eq_wrap_iff, Reference.depth_withReferenceDepth_eq,
    Wrapping.nullable_withReferenceDepth, Wrapping.arrayNullable_withReferenceDepth]

namespace Realize

variable {r : Registry} {o : BuildOptions} {host : Location} {ref ref' : Reference}

theorem outputBase_congr (h : ref.base = ref'.base) :
    (outputBase o host ref : Realize r TypeId) = outputBase o host ref' := by
  rw [outputBase, outputBase, scalarOf?_congr h, entity?_congr h]

theorem inputBase_congr (h : ref.base = ref'.base) :
    (inputBase o host ref : Realize r TypeId) = inputBase o host ref' := by
  rw [inputBase, inputBase, scalarOf?_congr h, entity?_congr h]

/-- Nodes come from places and from nothing else. -/
theorem run_wrap_eq_ok_iff {x : Realize r TypeId} {node : TypeId → TypeNode} {s u : Realization}
    {n : TypeNode} : (do return node (← x) : Realize r TypeNode).run s = (.ok n, u) ↔
      ∃ id, x.run s = (.ok id, u) ∧ n = node id := by
  constructor
  · intro h
    obtain ⟨id, t, ht, h⟩ := run_bind_eq_ok h
    obtain ⟨rfl, rfl⟩ := run_pure_eq_ok h
    exact ⟨id, ht, rfl⟩
  · rintro ⟨id, h, rfl⟩
    exact run_bind_ok h

theorem output_force (w : Wrapping) :
    (output o host ref.force w : Realize r TypeNode) = output o host ref w := by
  rw [output, output, outputBase_congr ref.base_force, Reference.depth_force]

theorem input_force (w : Wrapping) :
    (input o host ref.force w : Realize r TypeNode) = input o host ref w := by
  rw [input, input, inputBase_congr ref.base_force, Reference.depth_force]

theorem run_output_eq_ok_iff {w : Wrapping} {s u : Realization} {n : TypeNode} :
    (output o host ref w : Realize r TypeNode).run s = (.ok n, u) ↔
      ∃ id, (outputBase o host ref.base : Realize r TypeId).run s = (.ok id, u) ∧
        n.Wraps id (ref.wrappedDepth w) w.nullable w.arrayNullable.at? := by
  rw [output, run_wrap_eq_ok_iff, outputBase_congr ref.base_base.symm]
  simp only [eq_wrap_withReferenceDepth_iff]

theorem run_input_eq_ok_iff {w : Wrapping} {s u : Realization} {n : TypeNode} :
    (input o host ref w : Realize r TypeNode).run s = (.ok n, u) ↔
      ∃ id, (inputBase o host ref.base : Realize r TypeId).run s = (.ok id, u) ∧
        n.Wraps id (ref.wrappedDepth w) w.nullable w.arrayNullable.at? := by
  rw [input, run_wrap_eq_ok_iff, inputBase_congr ref.base_base.symm]
  simp only [eq_wrap_withReferenceDepth_iff]

/-- What is built for a reference is its base, below as many lists as the reference has, or else the
options, and marked as the options say. Deferrals change neither what a reference resolves to nor
which scalar or entity it denotes. -/
theorem node_wraps (r : Registry) (o : BuildOptions) (ref : Reference) (w : Wrapping) :
    (ref.force = Reference.list^[ref.depth] ref.base ∧
      ((∃ name, ref.base = .scalar name) ∨ ∃ id, ref.base = .declared id)) ∧
    (∀ (id : TypeId) (n : TypeNode), n = TypeNode.wrap id (w.withReferenceDepth ref.depth) ↔
      n.Wraps id (if 0 < ref.depth then ref.depth else w.depth) w.nullable w.arrayNullable.at?) ∧
    (∀ (host : Location) (s u : Realization) (n : TypeNode),
      (output o host ref w : Realize r TypeNode).run s = (.ok n, u) ↔
        ∃ id, (outputBase o host ref.base : Realize r TypeId).run s = (.ok id, u) ∧
          n.Wraps id (if 0 < ref.depth then ref.depth else w.depth) w.nullable
            w.arrayNullable.at?) ∧
    (∀ (host : Location) (s u : Realization) (n : TypeNode),
      (input o host ref w : Realize r TypeNode).run s = (.ok n, u) ↔
        ∃ id, (inputBase o host ref.base : Realize r TypeId).run s = (.ok id, u) ∧
          n.Wraps id (if 0 < ref.depth then ref.depth else w.depth) w.nullable
            w.arrayNullable.at?) ∧
    (∀ host : Location, (output o host ref.force w : Realize r TypeNode) = output o host ref w) ∧
    (∀ host : Location, (input o host ref.force w : Realize r TypeNode) = input o host ref w) ∧
    scalarOf? o r ref.force = scalarOf? o r ref ∧ ref.force.entity? = ref.entity? := by
  refine ⟨⟨ref.force_eq_iterate, ref.base_cases⟩, ?_, ?_, ?_, fun _ => output_force w,
    fun _ => input_force w, scalarOf?_force o r ref, ref.entity?_force⟩
  · intro id n
    exact eq_wrap_withReferenceDepth_iff
  · intro host s u n
    exact run_output_eq_ok_iff
  · intro host s u n
    exact run_input_eq_ok_iff

end Realize

end CodeFirst
