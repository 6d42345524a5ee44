import CodeFirst.Proofs.Moves
import CodeFirst.Proofs.Wired

/-! Types are shared. An origin has one place in an arena and keeps it, whatever a construction does
next; so references that denote the same type resolve to the same place, however much lies between
and however the two are wrapped. -/

namespace CodeFirst

section Reference

variable {o : BuildOptions} {r : Registry} {ref ref' : Reference}

theorem scalarOf?_congr (h : ref.base = ref'.base) : scalarOf? o r ref = scalarOf? o r ref' := by
  rw [scalarOf?, scalarOf?, h]

theorem entity?_congr (h : ref.base = ref'.base) : ref.entity? = ref'.entity? := by
  rw [Reference.entity?, Reference.entity?, h]

theorem outputOrigin?_congr (h : ref.base = ref'.base) :
    outputOrigin? o r ref = outputOrigin? o r ref' := by
  rw [outputOrigin?, outputOrigin?, scalarOf?_congr h, entity?_congr h]

theorem inputOrigin?_congr (h : ref.base = ref'.base) :
    inputOrigin? o r ref = inputOrigin? o r ref' := by
  rw [inputOrigin?, inputOrigin?, scalarOf?_congr h, entity?_congr h]

end Reference

namespace Realization

variable {r : Registry} {s t u v : Realization}

theorem Coherent.origin_inj (h : s.Coherent r) {i j : TypeId} {x : Origin}
    (hi : s.origins[i]? = some x) (hj : s.origins[j]? = some x) : i = j := by
  rw [getElem?_origins] at hi hj
  obtain ⟨t, ht, rfl⟩ := Option.map_eq_some_iff.1 hi
  obtain ⟨u, hu, ho⟩ := Option.map_eq_some_iff.1 hj
  refine h.place_inj ht hu ?_
  rw [h.name_eq (List.mem_of_getElem? ht), h.name_eq (List.mem_of_getElem? hu), ho]

/-- Whether a construction may get from one realization to another. -/
def Passes (r : Registry) (s t : Realization) : Prop :=
  ∃ places drained, Moves r s places drained t

theorem Passes.coherent (h : Passes r s t) (hs : s.Coherent r) : t.Coherent r := by
  obtain ⟨_, _, h⟩ := h
  exact h.coherent hs

theorem Passes.origins (h : Passes r s t) : s.origins <+: t.origins := by
  obtain ⟨_, _, h⟩ := h
  exact h.origins

theorem Passes.grows (h : Passes r s t) (hg : Grows r t u) : Passes r s u := by
  obtain ⟨places, drained, h⟩ := h
  exact ⟨places, drained, h.grows hg⟩

end Realization

namespace Setting

variable {set : Setting} {orphaned : List EntityId} {scalars : List ScalarType}
  {s t u : Realization}

theorem Transition.passes {stage stage' : Stage} {a : Act}
    (h : set.Transition orphaned scalars stage s a stage' t)
    (hu : Realization.Passes set.registry u s) : Realization.Passes set.registry u t := by
  obtain ⟨_, _, hu⟩ := hu
  exact ⟨_, _, h.moves hu⟩

theorem Moment.passes {held : List TypeId} (h : set.Moment orphaned scalars held s) :
    Realization.Passes set.registry .empty s := by
  cases h with
  | before hc hf => exact ⟨_, _, hc.moves⟩
  | @during l stage s m hc hf hg =>
    have hbegun : Realization.Passes set.registry .empty (stage.begun set.registry s).2 := by
      cases stage with
      | wiring n =>
        rw [Stage.begun]
        split
        · exact ⟨_, _, hc.moves.drain⟩
        · next place rest hs => exact ⟨_, _, hc.moves.take hs⟩
      | _ => exact ⟨_, _, hc.moves⟩
    exact hbegun.grows hg

end Setting

namespace Realize

variable {r : Registry} {o : BuildOptions} {s t u v : Realization}

/-- Nodes that denote the same, one before and one after some moves, have the same base. -/
theorem base_eq_iff_of_denotes {origin? origin?' : Option Origin} {ref ref' : Reference}
    {w w' : Wrapping} {n n' : TypeNode} (hv : v.Coherent r) (htv : t.origins <+: v.origins)
    (h : Denotes t.origins origin? ref w n) (h' : Denotes v.origins origin?' ref' w' n') :
    n.base = n'.base ↔ origin? = origin?' := by
  obtain ⟨x, rfl, hx⟩ := (h.mono htv).base
  obtain ⟨x', rfl, hx'⟩ := h'.base
  rw [Option.some.injEq]
  constructor
  · intro hb
    rw [hb, hx', Option.some.injEq] at hx
    exact hx.symm
  · rintro rfl
    exact hv.origin_inj hx hx'

/-- Two resolutions in output position give the same type exactly if the references denote the
same. -/
theorem output_base_eq_iff {host host' : Location} {ref ref' : Reference} {w w' : Wrapping}
    {n n' : TypeNode} (hs : s.Coherent r)
    (h : (output o host ref w : Realize r TypeNode).run s = (.ok n, t))
    (htu : Realization.Passes r t u)
    (h' : (output o host' ref' w' : Realize r TypeNode).run u = (.ok n', v)) :
    n.base = n'.base ↔ outputOrigin? o r ref = outputOrigin? o r ref' := by
  have hu := htu.coherent (coherent_run hs h)
  exact base_eq_iff_of_denotes (coherent_run hu h') (htu.origins.trans (origins_extend h'))
    (output_denotes hs h) (output_denotes hu h')

theorem input_base_eq_iff {host host' : Location} {ref ref' : Reference} {w w' : Wrapping}
    {n n' : TypeNode} (hs : s.Coherent r)
    (h : (input o host ref w : Realize r TypeNode).run s = (.ok n, t))
    (htu : Realization.Passes r t u)
    (h' : (input o host' ref' w' : Realize r TypeNode).run u = (.ok n', v)) :
    n.base = n'.base ↔ inputOrigin? o r ref = inputOrigin? o r ref' := by
  have hu := htu.coherent (coherent_run hs h)
  exact base_eq_iff_of_denotes (coherent_run hu h') (htu.origins.trans (origins_extend h'))
    (input_denotes hs h) (input_denotes hu h')

/-- Whether resolutions of references with one base always give one type, at any two moments of a
construction. -/
def Shares (resolve : Location → Reference → Wrapping → Realize r TypeNode) : Prop :=
  ∀ s t u v host host' ref ref' w w' n n', Realization.Passes r .empty s →
    (resolve host ref w).run s = (.ok n, t) → Realization.Passes r t u →
      (resolve host' ref' w').run u = (.ok n', v) → ref.base = ref'.base → n.base = n'.base

end Realize

namespace BuildRequest

/-- References with one base resolve to one type, and a schema has one type for each declaration. -/
theorem buildFrom_shares (r : Registry) :
    (∀ o, Realize.Shares (Realize.output o : Location → _ → _ → Realize r TypeNode)) ∧
    (∀ o, Realize.Shares (Realize.input o : Location → _ → _ → Realize r TypeNode)) ∧
    (∀ set : Setting, set.registry = r → ∀ orphaned scalars,
      (∀ held s, set.Moment orphaned scalars held s → Realization.Passes r .empty s) ∧
        ∀ stage s a stage' t u, set.Transition orphaned scalars stage s a stage' t →
          Realization.Passes r u s → Realization.Passes r u t) ∧
    ∀ (q : BuildRequest) source schema, (q.buildFrom r source).outcome = .ok schema →
      ∀ i j t u d, schema.get? i = some t → schema.get? j = some u →
        t.declaration? = some d → u.declaration? = some d → i = j := by
  refine ⟨?_, ?_, ?_, ?_⟩
  · intro o s t u v host host' ref ref' w w' n n' hs h htu h' hb
    have hc := hs.coherent Realization.coherent_empty
    exact (Realize.output_base_eq_iff hc h htu h').2 (outputOrigin?_congr hb)
  · intro o s t u v host host' ref ref' w w' n n' hs h htu h' hb
    have hc := hs.coherent Realization.coherent_empty
    exact (Realize.input_base_eq_iff hc h htu h').2 (inputOrigin?_congr hb)
  · rintro set rfl orphaned scalars
    exact ⟨fun held s hm => hm.passes, fun stage s a stage' t u ht hu => ht.passes hu⟩
  · rintro q source schema h i j t u ⟨k, id⟩ hi hj ht hu
    obtain ⟨o, scalars, hwith⟩ := buildFrom_eq_ok h
    obtain ⟨b, hb, rfl, -⟩ := buildWith_eq_ok hwith
    obtain ⟨set, -, -, -, hcomplete⟩ := realize_complete hb
    have horigin : ∀ {i : TypeId} {t : NamedType}, b.final.types[i]? = some t →
        t.declaration? = some (k, id) → b.final.origins[i]? = some (.declared k id) := by
      intro i t hi ht
      rw [Realization.getElem?_origins, hi, Option.map_some,
        NamedType.declaration?_eq_some_iff.1 ht]
    exact hcomplete.rounds.progress.coherent.origin_inj (horigin hi ht) (horigin hj hu)

theorem shares_recipes :
    ∃ n n' t v, (Realize.output .standard (.ofOwner "Query") (.declared 1) .plain :
        Realize .recipes TypeNode).run .empty = (.ok n, t) ∧
      (Realize.output .standard (.ofOwner "Query") (.list (.deferred (.declared 1))) .plain :
        Realize .recipes TypeNode).run t = (.ok n', v) ∧ n ≠ n' ∧ n.base = n'.base := by
  let one : Realize .recipes TypeNode :=
    Realize.output .standard (.ofOwner "Query") (.declared 1) .plain
  let many : Realize .recipes TypeNode :=
    Realize.output .standard (.ofOwner "Query") (.list (.deferred (.declared 1))) .plain
  have hone : (one.run .empty).1.toOption = some (.nonNull (.named 0)) := by decide +kernel
  have hmany : (many.run (one.run .empty).2).1.toOption =
      some (.nonNull (.list (.nonNull (.named 0)))) := by decide +kernel
  have h : one.run .empty = (.ok (.nonNull (.named 0)), (one.run .empty).2) :=
    Prod.ext (ok_of_toOption hone) rfl
  have h' : many.run (one.run .empty).2 = (.ok (.nonNull (.list (.nonNull (.named 0)))), _) :=
    Prod.ext (ok_of_toOption hmany) rfl
  exact ⟨_, _, _, _, h, h', by decide, (buildFrom_shares .recipes).1 .standard _ _ _ _ _ _ _ _ _ _
    _ _ ⟨_, _, .refl⟩ h ⟨_, _, .refl⟩ h' rfl⟩

end BuildRequest

end CodeFirst
