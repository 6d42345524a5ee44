import CodeFirst.Proofs.Layers
import Mathlib.Logic.Relation

/-! References up to evaluation. Forcing a reference evaluates its deferrals one after the other
until none is left, and two references are equal exactly if evaluation, of either side, connects
them. What is left is a scalar or an entity below lists. -/

namespace CodeFirst.Reference

/-- A reference without any deferral. -/
def Evaluated : Reference → Prop
  | .deferred _ => False
  | .list item => item.Evaluated
  | _ => True

/-- A deferral, itself or below lists, is replaced by the reference that it stands for. -/
inductive Evaluates : Reference → Reference → Prop
  | here (target : Reference) : Evaluates (.deferred target) target
  | inside {item item' : Reference} (h : Evaluates item item') :
      Evaluates (.list item) (.list item')

open Relation

variable {a b v : Reference}

theorem evaluated_force (ref : Reference) : ref.force.Evaluated := by
  induction ref with
  | scalar name => trivial
  | declared id => trivial
  | deferred target ih => exact ih
  | list item ih => exact ih

theorem Evaluated.force_eq (h : a.Evaluated) : a.force = a := by
  induction a with
  | scalar name => rfl
  | declared id => rfl
  | deferred target => exact h.elim
  | list item ih => rw [force, ih h]

theorem evaluates_force (ref : Reference) : ReflTransGen Evaluates ref ref.force := by
  induction ref with
  | scalar name => exact .refl
  | declared id => exact .refl
  | deferred target ih => exact .head (.here target) ih
  | list item ih => exact ih.lift list fun _ _ => .inside

theorem eqvGen_force (ref : Reference) : EqvGen Evaluates ref ref.force :=
  EqvGen.reflTransGen_le_eqvGen _ _ _ (evaluates_force ref)

/-- A step of evaluation does not change what a reference gives. -/
theorem Evaluates.force_eq (h : Evaluates a b) : a.force = b.force := by
  induction h with
  | here target => rfl
  | inside _ ih => rw [force, force, ih]

/-- Whatever evaluation connects gives the same reference. -/
theorem force_eq_of_eqvGen (h : EqvGen Evaluates a b) : a.force = b.force := by
  induction h with
  | rel a b h => exact h.force_eq
  | refl a => rfl
  | symm a b _ ih => exact ih.symm
  | trans a b c _ _ hab hbc => exact hab.trans hbc

/-- Forcing gives the one reference at which evaluation ends. -/
theorem eq_force_iff : v = a.force ↔ ReflTransGen Evaluates a v ∧ v.Evaluated := by
  constructor
  · rintro rfl
    exact ⟨evaluates_force a, evaluated_force a⟩
  · rintro ⟨h, hv⟩
    rw [force_eq_of_eqvGen (EqvGen.reflTransGen_le_eqvGen _ _ _ h), hv.force_eq]

theorem same_iff_eqvGen : a.same b = true ↔ EqvGen Evaluates a b := by
  rw [same_iff]
  constructor
  · intro h
    have hb := eqvGen_force b
    rw [← h] at hb
    exact (eqvGen_force a).trans _ _ _ (hb.symm _ _)
  · exact force_eq_of_eqvGen

theorem equivalence_same : Equivalence fun a b : Reference => a.same b = true := by
  simp only [same_iff_eqvGen]
  exact EqvGen.is_equivalence Evaluates

/-- A list of what is deferred is what is given by a deferral of the list. -/
example : (list (.deferred (.scalar "Int"))).same (.deferred (.list (.scalar "Int"))) = true := by
  decide +kernel

theorem base_iterate_list (n : Nat) (b : Reference) : (list^[n] b).base = b.base := by
  induction n with
  | zero => rfl
  | succ n ih => rw [Function.iterate_succ_apply', base, ih]

theorem depth_iterate_list (n : Nat) (b : Reference) : (list^[n] b).depth = n + b.depth := by
  induction n with
  | zero => simp
  | succ n ih => rw [Function.iterate_succ_apply', depth, ih, Nat.add_right_comm]

theorem base_depth_iff {ref : Reference} {n : Nat} : b = ref.base ∧ n = ref.depth ↔
    ((∃ name, b = .scalar name) ∨ ∃ id, b = .declared id) ∧ list^[n] b = ref.force := by
  constructor
  · rintro ⟨rfl, rfl⟩
    exact ⟨ref.base_cases, ref.force_eq_iterate.symm⟩
  · rintro ⟨hb, h⟩
    have hbase : b.base = ref.base := by rw [← base_iterate_list n, h, base_force]
    have hdepth : n + b.depth = ref.depth := by rw [← depth_iterate_list, h, depth_force]
    rcases hb with ⟨name, rfl⟩ | ⟨id, rfl⟩
    · exact ⟨hbase, hdepth⟩
    · exact ⟨hbase, hdepth⟩

theorem scalarOf?_cases (o : BuildOptions) (r : Registry) (ref : Reference) :
    (∃ name, ref.base = .scalar name ∧ scalarOf? o r ref = o.namedScalar? name) ∨
      ∃ id, ref.base = .declared id ∧
        scalarOf? o r ref = (r.scalar? id).map ScalarRecord.type := by
  rcases ref.base_cases with ⟨name, h⟩ | ⟨id, h⟩
  · exact .inl ⟨name, h, by rw [scalarOf?, h]⟩
  · exact .inr ⟨id, h, by rw [scalarOf?, h]⟩

/-- Equality of references is identity up to evaluation. Forcing a reference ends its evaluation,
and changes nothing afterwards; two references are equal exactly if they give the same reference,
which is to say that evaluation connects them, so equality is an equivalence. A forced reference is
a scalar or an entity below lists, in one way only, and these are all that a search for scalars can
meet. -/
theorem same_upTo_evaluation (o : BuildOptions) (r : Registry) :
    (∀ ref : Reference, ref.force.Evaluated ∧ ref.force.force = ref.force ∧
      ∀ v, v = ref.force ↔ ReflTransGen Evaluates ref v ∧ v.Evaluated) ∧
    (∀ a b : Reference, (a.same b = true ↔ a.force = b.force) ∧
      (a.same b = true ↔ EqvGen Evaluates a b)) ∧
    Equivalence (fun a b : Reference => a.same b = true) ∧
    (∀ (ref b : Reference) (n : Nat), b = ref.base ∧ n = ref.depth ↔
      ((∃ name, b = .scalar name) ∨ ∃ id, b = .declared id) ∧ list^[n] b = ref.force) ∧
    ∀ ref : Reference,
      (∃ name, ref.base = .scalar name ∧ scalarOf? o r ref = o.namedScalar? name) ∨
      ∃ id, ref.base = .declared id ∧
        scalarOf? o r ref = (r.scalar? id).map ScalarRecord.type := by
  refine ⟨?_, ?_, equivalence_same, fun _ _ _ => base_depth_iff, scalarOf?_cases o r⟩
  · intro ref
    exact ⟨ref.evaluated_force, ref.force_force, fun _ => eq_force_iff⟩
  · intro a b
    exact ⟨same_iff, same_iff_eqvGen⟩

end CodeFirst.Reference
