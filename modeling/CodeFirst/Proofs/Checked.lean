import CodeFirst.Proofs.Composed
import CodeFirst.Proofs.Defects

/-! Validation and construction do not meet. Of its options a construction reads only what
references denote and which types are kept, so that a checked build is an unchecked one whose schema
is checked afterwards: it fails on the defects of that schema, and on nothing else. -/

namespace CodeFirst

namespace Realize

section Options

variable {r : Registry} {o o' : BuildOptions} (h : ∀ ref, scalarOf? o' r ref = scalarOf? o r ref)
include h

theorem output_congr (host : Location) (ref : Reference) (w : Wrapping) :
    (output o' host ref w : Realize r TypeNode) = output o host ref w := by
  simp only [output, outputBase, h]

theorem input_congr (host : Location) (ref : Reference) (w : Wrapping) :
    (input o' host ref w : Realize r TypeNode) = input o host ref w := by
  simp only [input, inputBase, h]

theorem inputValue_congr (x : InputContribution) :
    (inputValue o' x : Realize r InputValue) = inputValue o x := by
  cases x <;> simp only [inputValue, input_congr h]

theorem inputValues_congr (values : InputValues) (l : List InputContribution) :
    (inputValues o' values l : Realize r InputValues) = inputValues o values l := by
  induction l generalizing values with
  | nil => rfl
  | cons x rest ih => simp only [inputValues, inputValue_congr h, ih]

theorem handlerField_congr (b : Binding) (ref : Reference) (w : Wrapping) :
    (handlerField o' b ref w : Realize r Field) = handlerField o b ref w := by
  simp only [handlerField, arguments, output_congr h, inputValues_congr h]

theorem contribute_congr (c : Composition) (x : Contribution) :
    (contribute o' c x : Realize r Composition) = contribute o c x := by
  cases x with
  | property declaring p => simp only [contribute, propertyField, output_congr h]
  | resolver b type => cases type <;> simp only [contribute, handlerField_congr h]
  | _ => rfl

theorem compose_congr (c : Composition) (l : List Contribution) :
    (compose o' c l : Realize r Composition) = compose o c l := by
  induction l generalizing c with
  | nil => rfl
  | cons x rest ih => simp only [compose, contribute_congr h, ih]

end Options

end Realize

namespace Setting

abbrev withOptions (set : Setting) (o : BuildOptions) : Setting := { set with options := o }

variable {set : Setting} {o : BuildOptions}

theorem realizeDrained_withOptions (n : Nat) (l : List (TypeCategory × ClassRecord)) :
    (set.withOptions o).realizeDrained n l = set.realizeDrained n l := by
  induction l generalizing n with
  | nil => rfl
  | cons x rest ih => simp only [realizeDrained, ih]

theorem addScalars_withOptions (l : List ScalarType) :
    (set.withOptions o).addScalars l = set.addScalars l := by
  induction l with
  | nil => rfl
  | cons t rest ih => simp only [addScalars, ih]

section Options

variable (h : ∀ ref, scalarOf? o set.registry ref = scalarOf? set.options set.registry ref)
include h

theorem wiringAt_withOptions (s : Realization) (place : TypeId) :
    (set.withOptions o).wiringAt s place = set.wiringAt s place := by
  simp only [wiringAt, wiring, composition, Realize.inputFields, contributions, fieldResolvers,
    Realize.compose_congr h, Realize.inputValues_congr h]

theorem wirePending_withOptions (s : Realization) :
    (set.withOptions o).wirePending s = set.wirePending s := by
  fun_induction Setting.wirePending set s with
  | case1 s hs => rw [wirePending_nil _ hs]
  | case2 s place rest hs start e t ht => rw [wirePending_cons _ hs, wiringAt_withOptions h, ht]
  | case3 s place rest hs start t ht ih =>
    rw [wirePending_cons _ hs, wiringAt_withOptions h, ht]
    exact ih
  | case4 s place rest hs start w t ht ih =>
    rw [wirePending_cons _ hs, wiringAt_withOptions h, ht]
    exact ih

theorem realizeOrphans_withOptions (n : Nat) (s : Realization) :
    (set.withOptions o).realizeOrphans n s = set.realizeOrphans n s := by
  fun_induction Setting.realizeOrphans set n s with
  | case1 n s e t hw => rw [realizeOrphans_eq, wirePending_withOptions h, hw]
  | case2 n s t hw orphans hd =>
    rw [realizeOrphans_eq, wirePending_withOptions h, hw]
    simp only [hd]
  | case3 n s t hw orphans x drained hd e u hu =>
    rw [realizeOrphans_eq, wirePending_withOptions h, hw]
    simp only [hd, realizeDrained_withOptions, hu]
  | case4 n s t hw orphans x drained hd m u hu ih =>
    rw [realizeOrphans_eq, wirePending_withOptions h, hw]
    simp only [hd, realizeDrained_withOptions, hu]
    exact ih

theorem rootFields_withOptions (kind : RootKind) (fields : Fields) (l : List Binding) :
    (set.withOptions o).rootFields kind fields l = set.rootFields kind fields l := by
  induction l generalizing fields with
  | nil => rfl
  | cons b rest ih => simp only [rootFields, rootField, Realize.handlerField_congr h, ih]

theorem buildRoot_withOptions (kind : RootKind) :
    (set.withOptions o).buildRoot kind = set.buildRoot kind := by
  simp only [buildRoot, rootFields_withOptions h]
  rfl

variable (set) in
/-- A construction is the same with options that make references denote the same and keep the same
types. -/
theorem construct_withOptions (hkept : kept set.registry o = kept set.registry set.options)
    (orphaned : List EntityId) (scalars : List ScalarType) :
    (set.withOptions o).construct orphaned scalars = set.construct orphaned scalars := by
  have horphans : ((set.withOptions o).realizeOrphans 0 : Construction Nat) =
      set.realizeOrphans 0 := funext (realizeOrphans_withOptions h 0)
  simp only [construct, buildRoot_withOptions h, hkept, horphans, addScalars_withOptions]

end Options

end Setting

namespace BuildRequest

variable {q : BuildRequest} {r : Registry} {o o' : BuildOptions} {scalars : List ScalarType}

theorem realize_congr (h : ∀ ref, scalarOf? o' r ref = scalarOf? o r ref)
    (hkept : Setting.kept r o' = Setting.kept r o) :
    q.realize r o' scalars = q.realize r o scalars := by
  have hconstruct : ∀ attachments : List Attachment,
      Setting.construct ⟨r, o', q.resolvers, attachments⟩ q.orphaned scalars =
        Setting.construct ⟨r, o, q.resolvers, attachments⟩ q.orphaned scalars :=
    fun attachments => Setting.construct_withOptions ⟨r, o, q.resolvers, attachments⟩ h hkept _ _
  simp only [realize, Setting.prepare, bind_assoc, pure_bind, hconstruct]

theorem outcome_buildWith :
    (q.buildWith r o scalars).outcome = (q.realize r o scalars).outcome.bind fun b =>
      if o.skipCheck then .ok (b.schema o) else (b.schema o).check.map fun _ => b.schema o := by
  unfold buildWith
  cases hb : (q.realize r o scalars).outcome with
  | error e => exact Trial.outcome_bind_error hb _
  | ok b =>
    refine (Trial.outcome_bind hb _).trans ?_
    change _ = if o.skipCheck then _ else _
    cases o.skipCheck with
    | true => rfl
    | false =>
      cases (b.schema o).check with
      | error e => rfl
      | ok _ => rfl

/-- The outcome of a build that validates its schema. -/
def checked (q : BuildRequest) (r : Registry) (o : BuildOptions) (scalars : List ScalarType) :
    Except BuildError Schema := (q.buildWith r { o with skipCheck := false } scalars).outcome

/-- The outcome of the same build without validation. -/
def unchecked (q : BuildRequest) (r : Registry) (o : BuildOptions) (scalars : List ScalarType) :
    Except BuildError Schema := (q.buildWith r { o with skipCheck := true } scalars).outcome

theorem outcome_buildWith_eq_ite : (q.buildWith r o scalars).outcome =
    if o.skipCheck then q.unchecked r o scalars else q.checked r o scalars := by
  obtain ⟨scalarsMap, dateMode, numberMode, directives, skipCheck, orphanDirectives⟩ := o
  cases skipCheck with
  | true => rfl
  | false => rfl

/-- A checked build is an unchecked one whose schema is checked. -/
theorem checked_eq_bind :
    q.checked r o scalars = (q.unchecked r o scalars).bind fun s => s.check.map fun _ => s := by
  have hrealize : ∀ b, q.realize r { o with skipCheck := b } scalars = q.realize r o scalars :=
    fun b => realize_congr (fun _ => rfl) rfl
  rw [checked, unchecked, outcome_buildWith, outcome_buildWith, hrealize false, hrealize true]
  cases (q.realize r o scalars).outcome with
  | error e => rfl
  | ok b => rfl

theorem checked_of_error {e : BuildError} (h : q.unchecked r o scalars = .error e) :
    q.checked r o scalars = .error e := by
  rw [checked_eq_bind, h]
  rfl

theorem checked_of_ok {s : Schema} (h : q.unchecked r o scalars = .ok s) :
    q.checked r o scalars = s.check.map fun _ => s := by
  rw [checked_eq_bind, h]
  rfl

theorem unchecked_keyed {s : Schema} (h : q.unchecked r o scalars = .ok s) :
    ∀ t ∈ s.types, t.Keyed := by
  obtain ⟨set, -, hcomposed⟩ := buildWith_composed h
  exact hcomposed.keyed

theorem checked_of_not_defective {s : Schema} (h : q.unchecked r o scalars = .ok s)
    (hd : ¬ s.Defective) : q.checked r o scalars = .ok s := by
  have hcheck := s.check_eq_ok_iff.2 ((s.findings_eq_nil_iff (unchecked_keyed h)).2 hd)
  rw [checked_of_ok h, hcheck]
  rfl

theorem checked_of_defective {s : Schema} (h : q.unchecked r o scalars = .ok s)
    (hd : s.Defective) : ∃ l, s.Reports l ∧
      q.checked r o scalars = .error (.invalidSchema l.length (l.map Prod.snd)) := by
  obtain ⟨l, hl, hcheck⟩ := s.check_of_defective (unchecked_keyed h) hd
  refine ⟨l, hl, ?_⟩
  rw [checked_of_ok h, hcheck]
  rfl

/-- Validation is exact: a checked build gives those schemas of unchecked ones that have no defect,
passes on the errors of unchecked ones, and otherwise fails with a report of all defects. -/
theorem checked_exact (q : BuildRequest) (r : Registry) (o : BuildOptions)
    (scalars : List ScalarType) :
    (∀ s, q.checked r o scalars = .ok s ↔ q.unchecked r o scalars = .ok s ∧ ¬ s.Defective) ∧
      (∀ e, q.unchecked r o scalars = .error e → q.checked r o scalars = .error e) ∧
      ∀ s, q.unchecked r o scalars = .ok s → s.Defective → ∃ l, s.Reports l ∧
        q.checked r o scalars = .error (.invalidSchema l.length (l.map Prod.snd)) := by
  refine ⟨?_, fun e => checked_of_error, fun s => checked_of_defective⟩
  intro s
  refine ⟨fun h => ?_, fun h => checked_of_not_defective h.1 h.2⟩
  cases hu : q.unchecked r o scalars with
  | error e =>
    rw [checked_of_error hu] at h
    cases h
  | ok s' =>
    by_cases hd : s'.Defective
    · obtain ⟨l, -, hl⟩ := checked_of_defective hu hd
      rw [hl] at h
      cases h
    · rw [checked_of_not_defective hu hd] at h
      obtain rfl := Except.ok.inj h
      exact ⟨rfl, hd⟩

end BuildRequest

/-- An object type without fields, and one whose name no type may have. -/
def Registry.flawedRecipes : Registry :=
  .ofRecords (((EntityTable.empty.declare "Tag" none).declare "Recipe" none).declare "R" none) []
    [⟨0, "Tag", none, false, [], [], []⟩, .identified 1 "2Recipes" false []]
    [.node 2 (.declared 0)]

theorem BuildRequest.checked_exact_flawedRecipes :
    ∃ s l, (⟨.standard, none, [1]⟩ : BuildRequest).unchecked .flawedRecipes .standard [] = .ok s ∧
      s.Defective ∧ s.Reports l ∧ l.map Prod.snd = [emptyFinding "type" "Tag",
        .ofSite "E0021" "invalid name" (.ofOwner "2Recipes")
          "`2Recipes` is not a valid GraphQL name"] ∧
      (⟨.standard, none, [1]⟩ : BuildRequest).checked .flawedRecipes .standard [] =
        .error (.invalidSchema 2 (l.map Prod.snd)) := by
  let q : BuildRequest := ⟨.standard, none, [1]⟩
  have hok : (q.unchecked .flawedRecipes .standard []).toOption.isSome = true := by decide +kernel
  have herror : (q.checked .flawedRecipes .standard []).map (fun _ => ()) =
      .error (.invalidSchema 2 [emptyFinding "type" "Tag",
        .ofSite "E0021" "invalid name" (.ofOwner "2Recipes")
          "`2Recipes` is not a valid GraphQL name"]) := by decide +kernel
  obtain ⟨hiff, -, hreport⟩ := checked_exact q .flawedRecipes .standard []
  obtain ⟨s, hs⟩ := Option.isSome_iff_exists.1 hok
  have hunchecked := ok_of_toOption hs
  have hd : s.Defective := by
    by_contra hd
    rw [(hiff s).2 ⟨hunchecked, hd⟩] at herror
    cases herror
  obtain ⟨l, hl, hchecked⟩ := hreport s hunchecked hd
  rw [hchecked] at herror
  obtain ⟨hlength, hfindings⟩ := BuildError.invalidSchema.inj (Except.error.inj herror)
  exact ⟨s, l, hunchecked, hd, hl, hfindings, hlength ▸ hchecked⟩

end CodeFirst
