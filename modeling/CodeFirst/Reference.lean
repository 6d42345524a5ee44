import CodeFirst.Entity
import CodeFirst.Text.Printable

/-! A reference names a scalar or a declared entity, below any number of lists. A deferred reference
stands for the one it gives when it is forced. -/

namespace CodeFirst

inductive Reference where
  | scalar (name : String)
  | declared (id : EntityId)
  | deferred (target : Reference)
  | list (item : Reference)
  deriving DecidableEq, Repr, Inhabited

namespace Reference

def force : Reference → Reference
  | .deferred r => r.force
  | .list r => .list r.force
  | r => r

/-- What stands below every list. -/
def base : Reference → Reference
  | .deferred r => r.base
  | .list r => r.base
  | r => r

def depth : Reference → Nat
  | .deferred r => r.depth
  | .list r => r.depth + 1
  | _ => 0

def entity? (r : Reference) : Option EntityId :=
  match r.base with
  | .declared id => some id
  | _ => none

@[simp] theorem force_force (r : Reference) : r.force.force = r.force := by
  induction r <;> simp_all [force]

@[simp] theorem base_force (r : Reference) : r.force.base = r.base := by
  induction r <;> simp_all [force, base]

@[simp] theorem depth_force (r : Reference) : r.force.depth = r.depth := by
  induction r <;> simp_all [force, depth]

theorem base_cases (r : Reference) :
    (∃ name, r.base = .scalar name) ∨ ∃ id, r.base = .declared id := by
  induction r with
  | scalar name => exact .inl ⟨name, rfl⟩
  | declared id => exact .inr ⟨id, rfl⟩
  | deferred target ih => exact ih
  | list item ih => exact ih

theorem entity?_eq_some_iff {r : Reference} {id : EntityId} :
    r.entity? = some id ↔ r.base = .declared id := by
  rw [entity?]
  rcases r.base_cases with ⟨name, h⟩ | ⟨id', h⟩ <;> simp [h]

theorem entity?_eq_none_iff {r : Reference} :
    r.entity? = none ↔ ∃ name, r.base = .scalar name := by
  rw [entity?]
  rcases r.base_cases with ⟨name, h⟩ | ⟨id, h⟩ <;> simp [h]

theorem force_ne_deferred (r target : Reference) : r.force ≠ .deferred target := by
  induction r <;> simp_all [force]

theorem force_eq_self_of_list {r item : Reference} (h : r.force = .list item) :
    item.force = item := by
  have hforced := r.force_force
  rw [h, force, list.injEq] at hforced
  exact hforced

/-- References are equal when they give the same scalar or entity, or lists of equal items. -/
def same (a b : Reference) : Bool :=
  match _h : a.force, b.force with
  | .scalar x, .scalar y => x == y
  | .declared i, .declared j => i == j
  | .list item, .list item' => item.same item'
  | _, _ => false
termination_by a.depth
decreasing_by
  have hdepth := a.depth_force
  simp_all only [depth]
  omega

@[simp] theorem same_iff {a b : Reference} : a.same b = true ↔ a.force = b.force := by
  fun_induction same a b with
  | case1 a b x y hx hy => simp [hx, hy]
  | case2 a b i j hi hj => simp [hi, hj]
  | case3 a b item item' ha hb ih =>
    rw [ih, ha, hb, list.injEq, force_eq_self_of_list ha, force_eq_self_of_list hb]
  | case4 a b hscalar hdeclared hlist =>
    refine iff_of_false Bool.false_ne_true fun h => ?_
    cases hb : b.force with
    | scalar x => exact hscalar x x (h.trans hb) hb
    | declared i => exact hdeclared i i (h.trans hb) hb
    | deferred target => exact b.force_ne_deferred target hb
    | list item => exact hlist item item (h.trans hb) hb

/-- The text for inspection; a deferred reference does not show what it stands for. -/
def debugText : Reference → String
  | .scalar name => "Scalar(" ++ Text.quoted name ++ ")"
  | .declared id => "Declared(EntityId(" ++ toString id ++ "))"
  | .deferred _ => "Thunk(..)"
  | .list r => "ListOf(" ++ r.debugText ++ ")"

end Reference

end CodeFirst
