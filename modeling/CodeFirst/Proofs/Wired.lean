import CodeFirst.Proofs.Course
import CodeFirst.Proofs.Soundness
import Mathlib.Data.List.Nodup

/-! Wiring happens once. At every moment of a construction each declared type is wired or waits in
the queue, in one place; so what is wired had no fields before, and when nothing waits any more
every type has its fields. -/

namespace CodeFirst

/-- Every declared type is wired, or waits in the queue once; at held places it is being wired. -/
structure Realization.Queued (s : Realization) (held : List TypeId) : Prop where
  count : ∀ i x d, s.types[i]? = some x → x.declaration? = some d →
    s.pending.count i = if x.isWired ∨ i ∈ held then 0 else 1
  declared : ∀ i ∈ s.pending, ∃ x d, s.types[i]? = some x ∧ x.declaration? = some d

namespace Setting

def Stage.held : Stage → List TypeId
  | .fields _ place _ => [place]
  | _ => []

def Stage.failure? : Stage → Option BuildError
  | .finished error? => error?
  | _ => none

/-- What the step of a stage begins with: the place whose fields it realizes, and the realization
from which that place was taken or in which the orphans were drained. -/
def Stage.begun (r : Registry) : Stage → Realization → List TypeId × Realization
  | .wiring _, s =>
    match s.pending with
    | [] => ([], { s with orphans := (s.orphans.drain r).1 })
    | place :: rest => ([place], { s with pending := rest })
  | stage, s => (stage.held, s)

/-- The realizations of a construction, before a step or while it realizes types, with the places
that are being wired. -/
inductive Moment (set : Setting) (orphaned : List EntityId) (scalars : List ScalarType) :
    List TypeId → Realization → Prop
  | before {l : List Act} {stage : Stage} {s : Realization}
    (hc : set.Course orphaned scalars l stage s) (hf : stage.failure? = none) :
    Moment set orphaned scalars stage.held s
  | during {l : List Act} {stage : Stage} {s m : Realization}
    (hc : set.Course orphaned scalars l stage s) (hf : stage.failure? = none)
    (hg : Realization.Grows set.registry (stage.begun set.registry s).2 m) :
    Moment set orphaned scalars (stage.begun set.registry s).1 m

/-- A wiring that gives fields to a type without any. -/
def Act.Fresh (a : Act) : Prop :=
  ∀ i w s, a.wiring? = some (i, w, s) →
    ∃ x, s.types[i]? = some x ∧ x.isWired = false ∧ (x.wire w).isWired = true

theorem Act.fresh_of_none {a : Act} (h : a.wiring? = none) : a.Fresh := by
  intro i w s hw
  rw [h] at hw
  cases hw

variable {set : Setting} {orphaned : List EntityId} {scalars : List ScalarType}
  {s t : Realization} {a : Act} {stage stage' : Stage}

theorem Progress.queued {held : List TypeId} (h : set.Progress held s) : s.Queued held := by
  obtain ⟨-, hpending, hdisjoint⟩ := List.nodup_append.1 h.nodup
  have hmem := h.mem_queue
  refine ⟨?_, ?_⟩
  · intro i x d hx hd
    have hi : i ∈ held ∨ i ∈ s.pending ↔ x.isWired = false := by
      rw [← List.mem_append, hmem, hx]
      simp
    split
    · next hdone =>
      refine List.count_eq_zero_of_not_mem fun hq => ?_
      rcases hdone with hw | hh
      · rw [hi.1 (.inr hq)] at hw
        exact absurd hw (by decide)
      · exact hdisjoint i hh i hq rfl
    · next hnot =>
      rw [not_or, Bool.not_eq_true] at hnot
      exact List.count_eq_one_of_mem hpending ((hi.2 hnot.1).resolve_left hnot.2)
  · intro i hi
    obtain ⟨k, id, ho⟩ := h.declared i hi
    rw [Realization.getElem?_origins] at ho
    obtain ⟨x, hx, hxo⟩ := Option.map_eq_some_iff.1 ho
    exact ⟨x, (k, id), hx, NamedType.declaration?_eq_some_iff.2 hxo⟩

/-- What holds of the realization at a stage. -/
def Stage.Holds (set : Setting) : Stage → Realization → Prop
  | .fields kind place _, s => set.Progress [place] s ∧ s.types[place]? = some kind.shell
  | .scalars, s => set.Progress [] s ∧ s.pending = []
  | .finished none, s => set.Progress [] s ∧ s.pending = []
  | .finished (some _), s => ∃ held, set.Progress held s
  | _, s => set.Progress [] s

/-- One step keeps the invariant of the stages, and what it wires had no fields. -/
theorem Transition.holds (h : set.Transition orphaned scalars stage s a stage' t)
    (hs : stage.Holds set s) : stage'.Holds set t ∧ a.Fresh := by
  cases h with
  | omitted hb =>
    exact ⟨(Progress.announce hs _).step (.event _ _), Act.fresh_of_none rfl⟩
  | opened hb hr =>
    obtain ⟨fresh, rfl, rfl⟩ := addRoot_eq_ok hr
    refine ⟨⟨(Progress.announce hs _).addRoot fresh, ?_⟩, Act.fresh_of_none rfl⟩
    exact getElem?_concat_eq_some_iff.2 (.inr ⟨rfl, rfl⟩)
  | refused hb hr =>
    rw [addRoot_eq_error hr]
    exact ⟨⟨[], Progress.announce hs _⟩, Act.fresh_of_none rfl⟩
  | wiredRoot hr =>
    obtain ⟨hp, hx⟩ := Progress.wireRoot hs.1 hs.2 hr
    refine ⟨hp.step (.event _ _), ?_⟩
    intro i w u hw
    cases hw
    exact ⟨_, hx, rfl, rfl⟩
  | failedRoot hr => exact ⟨⟨_, hs.1.grows (Realize.grows_run hr)⟩, Act.fresh_of_none rfl⟩
  | requested =>
    refine ⟨Progress.withOrphans hs ?_, Act.fresh_of_none rfl⟩
    exact fun id hid => Orphans.mem_seen_registerMany.2 (.inl hid)
  | began => exact ⟨hs, Act.fresh_of_none rfl⟩
  | wiredShell hp hr =>
    obtain ⟨w, hw, hprog, -, x, hx, hn, hxw⟩ := Progress.wireNext hs hp hr
    cases hw
    refine ⟨hprog, ?_⟩
    intro i w u hw
    cases hw
    exact ⟨x, hx, hn, hxw⟩
  | skippedShell hp hr =>
    obtain ⟨w, hw, -⟩ := Progress.wireNext hs hp hr
    cases hw
  | failedShell hp hr => exact ⟨⟨_, (Progress.take hs hp hr).1⟩, Act.fresh_of_none rfl⟩
  | realized hp hd hr =>
    exact ⟨(Progress.drain hs hd).grows (Realize.grows_run hr), Act.fresh_of_none rfl⟩
  | failedRound hp hd hr =>
    exact ⟨⟨[], (Progress.drain hs hd).grows (Realize.grows_run hr)⟩, Act.fresh_of_none rfl⟩
  | settled hp hd => exact ⟨⟨Progress.drain hs hd, hp⟩, Act.fresh_of_none rfl⟩
  | added hr =>
    have hg := Realize.grows_run hr
    obtain ⟨ts, index, rfl⟩ := addScalars_types hr
    exact ⟨⟨hs.1.grows hg, hs.2⟩, Act.fresh_of_none rfl⟩
  | failedScalars hr => exact ⟨⟨_, hs.1.grows (Realize.grows_run hr)⟩, Act.fresh_of_none rfl⟩

theorem Course.holds {l : List Act} (h : set.Course orphaned scalars l stage s) :
    stage.Holds set s ∧ ∀ a ∈ l, a.Fresh := by
  induction h with
  | start => exact ⟨.empty, fun a ha => absurd ha List.not_mem_nil⟩
  | step _ ht ih =>
    obtain ⟨hs, hl⟩ := ih
    obtain ⟨ht, ha⟩ := ht.holds hs
    refine ⟨ht, ?_⟩
    intro b hb
    rcases List.mem_append.1 hb with hb | hb
    · exact hl b hb
    · rw [List.mem_singleton] at hb
      exact hb ▸ ha

theorem Stage.Holds.progress (h : stage.Holds set s) (hf : stage.failure? = none) :
    set.Progress stage.held s := by
  match stage, hf with
  | .fields kind place left, _ => exact h.1
  | .scalars, _ => exact h.1
  | .finished none, _ => exact h.1
  | .roots left, _ => exact h
  | .round n, _ => exact h
  | .wiring n, _ => exact h

theorem Stage.Holds.begun (h : stage.Holds set s) (hf : stage.failure? = none) :
    set.Progress (stage.begun set.registry s).1 (stage.begun set.registry s).2 := by
  cases stage with
  | wiring n =>
    have hp : set.Progress [] s := h
    rw [Stage.begun]
    split
    · exact hp.drain rfl
    · next place rest hs => exact hp.pop hs
  | _ => exact h.progress hf

theorem Moment.queued {held : List TypeId} (h : set.Moment orphaned scalars held s) :
    s.Queued held := by
  cases h with
  | before hc hf => exact (hc.holds.1.progress hf).queued
  | during hc hf hg => exact ((hc.holds.1.begun hf).grows hg).queued

end Setting

namespace BuildRequest

/-- Types get their fields once, at every moment each declared type has its fields or is queued
once, and in a schema that is built every type has its fields. -/
theorem buildFrom_wires_once (q : BuildRequest) (r : Registry) :
    (∀ o scalars set, (Setting.prepare r o q.resolvers).outcome = .ok set →
      (∃ l, set.Course q.orphaned scalars l
          (.finished (error? (set.construct q.orphaned scalars .empty).1))
          (set.construct q.orphaned scalars .empty).2 ∧ ∀ a ∈ l, a.Fresh) ∧
        ∀ held s, set.Moment q.orphaned scalars held s → s.Queued held) ∧
    ∀ source schema, (q.buildFrom r source).outcome = .ok schema →
      ∃ o scalars b, (q.realize r o scalars).outcome = .ok b ∧ schema = b.schema o ∧
        b.final.pending = [] ∧ ∀ t ∈ schema.types, t.isWired = true := by
  refine ⟨?_, ?_⟩
  · intro o scalars set _
    obtain ⟨l, hl⟩ := set.construct_course q.orphaned scalars
    exact ⟨⟨l, hl, hl.holds.2⟩, fun held s hm => hm.queued⟩
  · intro source schema h
    obtain ⟨o, scalars, hwith⟩ := buildFrom_eq_ok h
    obtain ⟨b, hb, rfl, -⟩ := buildWith_eq_ok hwith
    obtain ⟨_, -, -, -, hcomplete⟩ := realize_complete hb
    exact ⟨o, scalars, b, hb, rfl, hcomplete.pending,
      fun t ht => hcomplete.rounds.progress.isWired hcomplete.pending ht⟩

theorem wires_once_recipes :
    ∃ schema, (plain.buildFrom .recipes none).outcome = .ok schema ∧
      schema.types.map NamedType.name = ["Query", "Node", "ID", "Recipe"] ∧
      ∀ t ∈ schema.types, t.isWired = true := by
  have hnames : ((plain.buildFrom .recipes none).outcome.toOption.map fun s =>
      s.types.map NamedType.name) = some ["Query", "Node", "ID", "Recipe"] := by decide +kernel
  obtain ⟨schema, hschema, hn⟩ := Option.map_eq_some_iff.1 hnames
  have h := ok_of_toOption hschema
  obtain ⟨_, _, _, -, -, -, hwired⟩ := (buildFrom_wires_once plain .recipes).2 none schema h
  exact ⟨schema, h, hn, hwired⟩

end BuildRequest

end CodeFirst
