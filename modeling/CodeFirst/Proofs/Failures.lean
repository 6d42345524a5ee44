import CodeFirst.Proofs.Demand

/-! How resolutions fail, for any property of errors. Apart from conflicts of names the errors are
those of the contributions: a type that denotes nothing, a bundle without an arguments type, a
resolver without a type. -/

namespace CodeFirst

/-- The errors that an argument or input field may come with have this property. -/
def InputContribution.FailsOnly (o : BuildOptions) (r : Registry) (P : BuildError → Prop) :
    InputContribution → Prop
  | .parameter host _ type .. => inputOrigin? o r type = none → P (.cannotDetermineInputType host)
  | .property declaring p => inputOrigin? o r p.type = none →
    P (.cannotDetermineInputType (.ofMember declaring.name p.name))
  | .noBundle host bundle => P (.missingArgsType host bundle)

/-- The errors that an interface or a field may come with have this property. -/
def Contribution.FailsOnly (o : BuildOptions) (r : Registry) (P : BuildError → Prop) :
    Contribution → Prop
  | .interface host id => r.class? .interface id = none → P (.undeterminedType host)
  | .noInterface host => P (.undeterminedType host)
  | .property declaring p => outputOrigin? o r p.type = none →
    P (.undeterminedType (.ofMember declaring.name p.name))
  | .resolver b none => P (.undefinedReturnType HandlerKind.field.title (b.handler.location r))
  | .resolver b (some (ref, _)) =>
    (outputOrigin? o r ref = none → P (.undeterminedType (b.handler.location r))) ∧
      ∀ z ∈ InputContribution.ofParameters r (b.handler.location r) b.handler.parameters,
        z.FailsOnly o r P

namespace Realize

variable {r : Registry} {o : BuildOptions} {α β : Type} {P : BuildError → Prop}

/-- From coherent realizations, a computation fails with errors of this property only. -/
def FailsOnly (P : BuildError → Prop) (x : Realize r α) : Prop :=
  ∀ (s : Realization) e, s.Coherent r → (x.run s).1 = .error e → P e

namespace FailsOnly

theorem pure (a : α) : FailsOnly P (Pure.pure a : Realize r α) := by
  intro s e _ h
  cases h

theorem fail {e : BuildError} (h : P e) : FailsOnly P (Realize.fail e : Realize r α) := by
  intro s e' _ he
  cases he
  exact h

theorem ofOption {e : BuildError} {a? : Option α} (h : a? = none → P e) :
    FailsOnly P (Realize.ofOption e a? : Realize r α) := by
  cases a? with
  | none => exact fail (h rfl)
  | some a => exact pure a

theorem bind {x : Realize r α} {f : α → Realize r β} (hx : FailsOnly P x)
    (hf : ∀ s a t, s.Coherent r → x.run s = (.ok a, t) → FailsOnly P (f a)) :
    FailsOnly P (x >>= f) := by
  intro s e hs he
  rcases hrun : x.run s with ⟨e' | a, t⟩
  · rw [run_bind_error hrun] at he
    cases he
    exact hx s e hs (congrArg Prod.fst hrun)
  · rw [run_bind_ok hrun] at he
    exact hf s a t hs hrun t e (coherent_run hs hrun) he

theorem reportIfAny (e? : Option Event) :
    FailsOnly P (Realize.reportIfAny e? : Realize r Unit) := by
  cases e? with
  | none => exact pure ()
  | some e =>
    intro s e' _ h
    cases h

theorem isRealized (k : TypeCategory) (id : EntityId) :
    FailsOnly P (Realize.isRealized k id : Realize r Bool) := by
  intro s e _ h
  cases h

theorem registerReference (ref : Reference) :
    FailsOnly P (Realize.registerReference ref : Realize r Unit) := by
  intro s e _ h
  rw [Realize.registerReference] at h
  cases hid : ref.entity? <;> rw [hid] at h <;> cases h

variable (hconflict : ∀ e : BuildError, e.isConflict = true → P e)
include hconflict

theorem scalar (t : ScalarType) : FailsOnly P (Realize.scalar t : Realize r TypeId) := by
  intro s e _ h
  simp only [Realize.scalar] at h
  split at h
  · cases h
  · split at h <;> cases h
    exact hconflict _ rfl

theorem declared? (k : TypeCategory) (id : EntityId) :
    FailsOnly P (Realize.declared? k id : Realize r (Option TypeId)) := by
  intro s e _ h
  simp only [Realize.declared?] at h
  split at h
  · cases h
  · split at h
    · cases h
    · split at h <;> cases h
      exact hconflict _ rfl

theorem output {host : Location} {ref : Reference}
    (h : outputOrigin? o r ref = none → P (.undeterminedType host)) (w : Wrapping) :
    FailsOnly P (Realize.output o host ref w : Realize r TypeNode) := by
  refine bind ?_ fun _ _ _ _ _ => pure _
  rw [outputBase]
  split
  · exact scalar hconflict _
  · next hscalar =>
    split
    · next hid => exact fail (h (by simp [outputOrigin?, hscalar, hid]))
    · next id hid =>
      apply bind (declared? hconflict .object id)
      intro s place? t _ hobject
      cases place? with
      | some place => exact pure place
      | none =>
        have hno : r.class? .object id = none := declared?_none hobject
        apply bind (declared? hconflict .interface id)
        intro s place? t _ hinterface
        apply ofOption
        rintro rfl
        have hno' : r.class? .interface id = none := declared?_none hinterface
        exact h (by simp [outputOrigin?, hscalar, hid, hno, hno'])

theorem input {host : Location} {ref : Reference}
    (h : inputOrigin? o r ref = none → P (.cannotDetermineInputType host)) (w : Wrapping) :
    FailsOnly P (Realize.input o host ref w : Realize r TypeNode) := by
  refine bind ?_ fun _ _ _ _ _ => pure _
  rw [inputBase]
  split
  · exact scalar hconflict _
  · next hscalar =>
    split
    · next hid => exact fail (h (by simp [inputOrigin?, hscalar, hid]))
    · next id hid =>
      apply bind (declared? hconflict .input id)
      intro s place? t _ hinput
      apply ofOption
      rintro rfl
      have hno : r.class? .input id = none := declared?_none hinput
      exact h (by simp [inputOrigin?, hscalar, hid, hno])

theorem inputValue {z : InputContribution} (h : z.FailsOnly o r P) :
    FailsOnly P (Realize.inputValue o z : Realize r InputValue) := by
  cases z with
  | parameter host name type wrapping description default =>
    exact bind (input hconflict h wrapping) fun _ _ _ _ _ => pure _
  | property declaring p =>
    apply bind (input hconflict h p.wrapping)
    intro _ _ _ _ _
    exact bind (reportIfAny _) fun _ _ _ _ _ => pure _
  | noBundle host bundle => exact fail h

theorem inputValues (values : InputValues) {l : List InputContribution}
    (h : ∀ z ∈ l, z.FailsOnly o r P) :
    FailsOnly P (Realize.inputValues o values l : Realize r InputValues) := by
  induction l generalizing values with
  | nil => exact pure values
  | cons z rest ih =>
    rw [List.forall_mem_cons] at h
    exact bind (inputValue hconflict h.1) fun _ _ _ _ _ => ih _ h.2

theorem handlerField {b : Binding} {ref : Reference} {w : Wrapping}
    (h : (Contribution.resolver b (some (ref, w))).FailsOnly o r P) :
    FailsOnly P (Realize.handlerField o b ref w : Realize r Field) := by
  apply bind (output hconflict h.1 w)
  intro _ _ _ _ _
  exact bind (inputValues hconflict ∅ h.2) fun _ _ _ _ _ => pure _

theorem contribute (c : Composition) {z : Contribution} (h : z.FailsOnly o r P) :
    FailsOnly P (Realize.contribute o c z : Realize r Composition) := by
  match z with
  | .interface host id =>
    apply bind (declared? hconflict .interface id)
    intro s place? t _ hplace
    refine bind (ofOption ?_) fun _ _ _ _ _ => pure _
    rintro rfl
    exact h (declared?_none hplace)
  | .noInterface host => exact fail h
  | .property declaring p =>
    refine bind ?_ fun _ _ _ _ _ => pure _
    exact bind (output hconflict h p.wrapping) fun _ _ _ _ _ => pure _
  | .resolver b none => exact fail h
  | .resolver b (some (ref, w)) =>
    exact bind (handlerField hconflict h) fun _ _ _ _ _ => pure _

theorem compose (c : Composition) {l : List Contribution} (h : ∀ z ∈ l, z.FailsOnly o r P) :
    FailsOnly P (Realize.compose o c l : Realize r Composition) := by
  induction l generalizing c with
  | nil => exact pure c
  | cons z rest ih =>
    rw [List.forall_mem_cons] at h
    exact bind (contribute hconflict c h.1) fun _ c' _ _ _ => ih c' h.2

end FailsOnly

end Realize

end CodeFirst
