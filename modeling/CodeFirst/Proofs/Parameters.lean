import CodeFirst.Proofs.Failures
import CodeFirst.Proofs.Merging

/-! What becomes of the parameters of a handler. They are visited by ascending place. Named
parameters and the fields of bundles shadow each other by name alone, so the last contribution of a
name is its argument; and the first bundle without an arguments type stops the visit. -/

namespace CodeFirst

namespace Realize

variable {r : Registry} {o : BuildOptions} {s u : Realization} {host : Location}
  {values : InputValues}

theorem inputValues_append (values : InputValues) (l m : List InputContribution) :
    (inputValues o values (l ++ m) : Realize r InputValues) =
      inputValues o values l >>= fun values => inputValues o values m := by
  induction l generalizing values with
  | nil => simp [inputValues]
  | cons x rest ih => simp only [List.cons_append, inputValues, ih, bind_assoc]

/-- The arguments of some parameters, visited in this order, on top of what is there. -/
def visit (o : BuildOptions) (host : Location) (values : InputValues) (l : List Parameter) :
    Realize r InputValues :=
  inputValues o values (l.flatMap (InputContribution.ofParameter r host))

theorem visit_cons (values : InputValues) (p : Parameter) (rest : List Parameter) :
    (visit o host values (p :: rest) : Realize r InputValues) =
      visit o host values [p] >>= fun values => visit o host values rest := by
  simp only [visit, List.flatMap_cons, List.flatMap_nil, List.append_nil, inputValues_append]

variable {p : Parameter} {loc : Location} {b : String}

theorem run_visit_of_missing (h : p.Missing r b) :
    (visit o host values [p] : Realize r InputValues).run s =
      (.error (.missingArgsType (host.withIndex p.index) b), s) := by
  rw [visit, List.flatMap_singleton, InputContribution.ofParameter_of_missing h]
  rfl

theorem failsOnly_visit (h : ∀ b, ¬ p.Missing r b) :
    FailsOnly (fun e => ∀ l b, e ≠ .missingArgsType l b)
      (visit o host values [p] : Realize r InputValues) := by
  rw [visit, List.flatMap_singleton, InputContribution.ofParameter_of_not_missing h]
  refine .inputValues ?_ values fun z hz => ?_
  · rintro e he l b rfl
    cases he
  · cases z with
    | noBundle l b => exact absurd hz InputContribution.noBundle_not_mem_contributors
    | _ => exact fun _ _ _ he => nomatch he

theorem visit_singleton_eq_missing_iff (hs : s.Coherent r) :
    ((visit o host values [p] : Realize r InputValues).run s).1 = .error (.missingArgsType loc b) ↔
      p.Missing r b ∧ loc = host.withIndex p.index := by
  constructor
  · intro h
    by_cases hmissing : ∃ b', p.Missing r b'
    · obtain ⟨b', hb'⟩ := hmissing
      rw [run_visit_of_missing hb'] at h
      cases h
      exact ⟨hb', rfl⟩
    · exact absurd rfl (failsOnly_visit (not_exists.1 hmissing) s _ hs h loc b)
  · rintro ⟨h, rfl⟩
    rw [run_visit_of_missing h]

/-- A visit complains exactly at the first bundle without an arguments type, if it gets there. -/
theorem visit_eq_missing_iff (hs : s.Coherent r) {l : List Parameter} :
    ((visit o host values l : Realize r InputValues).run s).1 = .error (.missingArgsType loc b) ↔
    ∃ pre p post, l = pre ++ p :: post ∧
      (∃ values' u, (visit o host values pre : Realize r InputValues).run s = (.ok values', u)) ∧
      p.Missing r b ∧ loc = host.withIndex p.index := by
  induction l generalizing values s with
  | nil =>
    refine iff_of_false (fun h => nomatch h) ?_
    rintro ⟨pre, p, post, hsplit, -⟩
    simp at hsplit
  | cons q rest ih =>
    rw [visit_cons]
    rcases hrun : (visit o host values [q] : Realize r InputValues).run s with ⟨e | values₁, t⟩
    · -- the visit stops at the first parameter, so no more than nothing goes before
      rw [run_bind_error hrun]
      have hone : (Except.error e : Except BuildError InputValues) =
          .error (.missingArgsType loc b) ↔ q.Missing r b ∧ loc = host.withIndex q.index := by
        rw [← visit_singleton_eq_missing_iff hs, hrun]
      rw [hone]
      constructor
      · intro h
        exact ⟨[], q, rest, rfl, ⟨values, s, rfl⟩, h⟩
      · rintro ⟨pre, p, post, hsplit, ⟨values', u, hpre⟩, h⟩
        cases pre with
        | nil =>
          cases hsplit
          exact h
        | cons q' pre =>
          cases hsplit
          rw [visit_cons, run_bind_error hrun] at hpre
          cases hpre
    · rw [run_bind_ok hrun, ih (coherent_run hs hrun)]
      constructor
      · rintro ⟨pre, p, post, rfl, ⟨values', u, hpre⟩, h⟩
        refine ⟨q :: pre, p, post, rfl, ⟨values', u, ?_⟩, h⟩
        rw [visit_cons, run_bind_ok hrun, hpre]
      · rintro ⟨pre, p, post, hsplit, ⟨values', u, hpre⟩, h⟩
        cases pre with
        | nil =>
          cases hsplit
          rw [run_visit_of_missing h.1] at hrun
          cases hrun
        | cons q' pre =>
          cases hsplit
          rw [visit_cons, run_bind_ok hrun] at hpre
          exact ⟨pre, p, post, rfl, ⟨values', u, hpre⟩, h⟩

theorem arguments_eq_visit (ps : List Parameter) :
    (arguments o host ps : Realize r InputValues) =
      visit o host ∅ (InputContribution.inOrder ps) := rfl

/-- A visit that succeeds has met no bundle without an arguments type. -/
theorem not_missing_of_visit {l : List Parameter} {values' : InputValues}
    (h : (visit o host values l : Realize r InputValues).run s = (.ok values', u)) :
    ∀ p ∈ l, ∀ b, ¬ p.Missing r b := by
  induction l generalizing values s with
  | nil => simp
  | cons q rest ih =>
    rw [visit_cons] at h
    obtain ⟨values₁, t, hq, hrest⟩ := run_bind_eq_ok h
    refine List.forall_mem_cons.2 ⟨fun b hb => ?_, ih hrest⟩
    rw [run_visit_of_missing hb] at hq
    cases hq

/-- What a successful visit leaves are the arguments that the parameters contribute. -/
theorem visit_lastWins (hs : s.Coherent r) {l : List Parameter} {values : InputValues}
    (h : (visit o host ∅ l : Realize r InputValues).run s = (.ok values, u)) :
    LastWins (InputContribution.Shows o r u.origins) InputContribution.key InputValue.name
      (l.flatMap (Parameter.contributors r host)) values := by
  have hl : l.flatMap (InputContribution.ofParameter r host) =
      l.flatMap (Parameter.contributors r host) :=
    List.flatMap_congr fun p hp =>
      InputContribution.ofParameter_of_not_missing (not_missing_of_visit h p hp)
  rw [visit, hl] at h
  obtain ⟨vs, hvs, rfl⟩ := inputValues_merges hs h
  exact lastWins_putMany hvs fun _ _ hx => hx.name.symm

/-- The parameters of a handler are visited by ascending place. If that succeeds, each name that one
of them or a field of a bundle has is an argument, the last one's. It stops for a missing arguments
type exactly at the first bundle that has none, unless an earlier parameter stops it. -/
theorem arguments_visits (hs : Realization.Passes r .empty s) (o : BuildOptions) (host : Location)
    (ps : List Parameter) : ∃ l, Parameter.Visits ps l ∧
      (∀ values u, (arguments o host ps : Realize r InputValues).run s = (.ok values, u) →
        LastWins (InputContribution.Shows o r u.origins) InputContribution.key InputValue.name
          (l.flatMap (Parameter.contributors r host)) values) ∧
      ∀ loc b, ((arguments o host ps : Realize r InputValues).run s).1 =
          .error (.missingArgsType loc b) ↔
        ∃ pre p post, l = pre ++ p :: post ∧
          (∃ values u, (arguments o host pre : Realize r InputValues).run s = (.ok values, u)) ∧
          (∀ q ∈ pre, ∀ b', ¬ q.Missing r b') ∧ p.Missing r b ∧ loc = host.withIndex p.index := by
  have hvisits := InputContribution.visits_inOrder ps
  refine ⟨_, hvisits, ?_, ?_⟩
  · intro values u h
    exact visit_lastWins (hs.coherent Realization.coherent_empty) h
  · intro loc b
    rw [arguments_eq_visit, visit_eq_missing_iff (hs.coherent Realization.coherent_empty)]
    have hpre : ∀ {pre p post}, InputContribution.inOrder ps = pre ++ p :: post →
        (arguments o host pre : Realize r InputValues) = visit o host ∅ pre := by
      intro pre p post hsplit
      have hascending := hvisits.ascending
      rw [hsplit] at hascending
      rw [arguments_eq_visit,
        InputContribution.inOrder_of_ascending (List.pairwise_append.1 hascending).1]
    constructor
    · rintro ⟨pre, p, post, hsplit, ⟨values, u, hvisit⟩, h⟩
      refine ⟨pre, p, post, hsplit, ⟨values, u, ?_⟩, not_missing_of_visit hvisit, h⟩
      rw [hpre hsplit, hvisit]
    · rintro ⟨pre, p, post, hsplit, ⟨values, u, hvisit⟩, -, h⟩
      rw [hpre hsplit] at hvisit
      exact ⟨pre, p, post, hsplit, ⟨values, u, hvisit⟩, h⟩

end Realize

/-- Searches are paged. They describe what they skip; how many that is, paging says. -/
def Registry.paged : Registry :=
  { Registry.ofRecords ((((EntityTable.empty.declare "Paging" none).declare "Search"
      (some 0)).declare "R" none).setDefaults 0 (.ofList [("skip", .ofNat 10)])) [] [] [] with
    args := (∅ : ClassCatalog).putMany [
      ⟨0, "Paging", none, false,
        [⟨"take", "take", .scalar "Int", .plain, none, none, none, []⟩,
          ⟨"skip", "skip", .scalar "Int", .plain, none, none, none, []⟩], [], []⟩,
      ⟨1, "Search", none, false,
        [⟨"skip", "skip", .scalar "Int", .plain, some "Results to pass over.", none,
          some (.ofNat 0), []⟩], [], []⟩] }

def Parameter.paged : List Parameter :=
  [⟨3, .named "take" (.scalar "String") .plain none none⟩, ⟨1, .bundle (.declared 1)⟩]

namespace Realize

theorem arguments_visits_paged : ∃ l values u, Parameter.Visits Parameter.paged l ∧
    (arguments .standard (.ofOwner "R") Parameter.paged : Realize .paged InputValues).run .empty =
      (.ok values, u) ∧
    LastWins (InputContribution.Shows .standard .paged u.origins) InputContribution.key
      InputValue.name (l.flatMap (Parameter.contributors .paged (.ofOwner "R"))) values ∧
    (values.values.map fun v => (v.name, v.description, v.type, v.default.map Json.text)) =
      [("take", none, .nonNull (.named 1), none),
        ("skip", some "Results to pass over.", .nonNull (.named 0), some "10")] ∧
    ((arguments .standard (.ofOwner "R") [⟨0, .bundle (.declared 2)⟩] :
      Realize .paged InputValues).run .empty).1 =
        .error (.missingArgsType ((Location.ofOwner "R").withIndex 0) "R") := by
  have horder : InputContribution.inOrder Parameter.paged = Parameter.paged.reverse := by
    simp [InputContribution.inOrder, Parameter.paged, List.mergeSort,
      List.MergeSort.Internal.splitInTwo]
  have hshown : ((visit .standard (.ofOwner "R") ∅ Parameter.paged.reverse :
      Realize .paged InputValues).run .empty).1.toOption.map (fun values =>
        values.values.map fun v => (v.name, v.description, v.type, v.default.map Json.text)) =
          some [("take", none, .nonNull (.named 1), none),
            ("skip", some "Results to pass over.", .nonNull (.named 0), some "10")] := by
    decide +kernel
  rw [← horder, ← arguments_eq_visit] at hshown
  obtain ⟨values, hvalues, hcontent⟩ := Option.map_eq_some_iff.1 hshown
  have hrun : (arguments .standard (.ofOwner "R") Parameter.paged :
      Realize .paged InputValues).run .empty = (.ok values, _) :=
    Prod.ext (ok_of_toOption hvalues) rfl
  obtain ⟨l, hl, hok, -⟩ := arguments_visits (r := .paged) ⟨_, _, .refl⟩ .standard (.ofOwner "R")
    Parameter.paged
  obtain ⟨l', hl', -, herror⟩ := arguments_visits (r := .paged) ⟨_, _, .refl⟩ .standard
    (.ofOwner "R") [⟨0, .bundle (.declared 2)⟩]
  refine ⟨l, values, _, hl, hrun, hok values _ hrun, hcontent, (herror _ _).2 ?_⟩
  have hnone : (arguments .standard (.ofOwner "R") [] : Realize .paged InputValues).run .empty =
      (.ok ∅, .empty) := by
    rw [arguments_eq_visit, InputContribution.inOrder_of_ascending .nil]
    rfl
  have hmissing : ∀ a ∈ Registry.paged.entities.lineage 2,
      Registry.paged.class? .args a = none := by
    intro a ha
    have hlineage : Registry.paged.entities.lineage 2 = [2] := by decide +kernel
    rw [hlineage, List.mem_singleton] at ha
    subst ha
    rfl
  exact ⟨[], _, [], List.perm_singleton.1 hl'.perm, ⟨_, _, hnone⟩, by simp,
    .noRecord rfl rfl hmissing, rfl⟩

end Realize

end CodeFirst
