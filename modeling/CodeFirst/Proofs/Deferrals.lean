import CodeFirst.Declaration
import Mathlib.Data.List.Induction

/-! What becomes of deferred steps. After any calls a queue holds the steps that stand: those
enqueued since the last drain and not discarded through their owner. A drain executes them in order
up to the first that fails, and a step that was taken out of the queue is never executed later. A
declaration that is refused leaves the registry as it was. -/

namespace CodeFirst

namespace Queue

/-- One use of a queue. A drain may run into any registry. -/
inductive Call where
  | enqueue (d : Deferral)
  | discard (owner : EntityId)
  | drain (r : Registry)

/-- Whether a call takes a step out of the queue. -/
def Call.Removes (d : Deferral) : Call → Prop
  | .enqueue _ => False
  | .discard owner => d.owner = some owner
  | .drain _ => True

def call (q : Queue) : Call → Queue
  | .enqueue d => q.enqueue d
  | .discard owner => (q.discard owner).1
  | .drain r => (q.drain r).result.1

/-- What some calls leave of an empty queue. -/
def after (calls : List Call) : Queue := calls.foldl call ∅

/-- Whether the step that a call enqueued was not taken out of the queue by any later call. -/
structure Stands (calls : List Call) (i : Nat) (d : Deferral) : Prop where
  enqueued : calls[i]? = some (.enqueue d)
  kept : ∀ j c, i < j → calls[j]? = some c → ¬ c.Removes d

/-- All steps that stand, under the numbers of the calls that enqueued them and in their order. -/
structure Standing (calls : List Call) (l : List (Nat × Deferral)) : Prop where
  ordered : (l.map Prod.fst).Pairwise (· < ·)
  mem_iff : ∀ i d, (i, d) ∈ l ↔ Stands calls i d

theorem after_append (calls : List Call) (c : Call) :
    after (calls ++ [c]) = (after calls).call c := by
  rw [after, after, List.foldl_append]
  rfl

theorem Stands.lt {calls : List Call} {i : Nat} {d : Deferral} (h : Stands calls i d) :
    i < calls.length := (List.getElem?_eq_some_iff.1 h.enqueued).1

/-- A step stands after one more call if that call leaves it, or is the one that enqueues it. -/
theorem stands_append_iff {calls : List Call} {c : Call} {i : Nat} {d : Deferral} :
    Stands (calls ++ [c]) i d ↔
      (Stands calls i d ∧ ¬ c.Removes d) ∨ (i = calls.length ∧ c = .enqueue d) := by
  have hlast : (calls ++ [c])[calls.length]? = some c := by simp
  constructor
  · intro h
    have hlt := h.lt
    rw [List.length_append, List.length_singleton] at hlt
    rcases Nat.lt_or_eq_of_le (Nat.le_of_lt_succ hlt) with hi | rfl
    · refine .inl ⟨⟨?_, ?_⟩, h.kept _ c hi hlast⟩
      · exact (List.getElem?_append_left hi).symm.trans h.enqueued
      · intro j c' hij hj
        refine h.kept j c' hij ?_
        rwa [List.getElem?_append_left (List.getElem?_eq_some_iff.1 hj).1]
    · have henqueued := h.enqueued
      rw [hlast, Option.some.injEq] at henqueued
      exact .inr ⟨rfl, henqueued⟩
  · rintro (⟨h, hc⟩ | ⟨rfl, rfl⟩)
    · refine ⟨?_, ?_⟩
      · exact (List.getElem?_append_left h.lt).trans h.enqueued
      · intro j c' hij hj
        have hlt := (List.getElem?_eq_some_iff.1 hj).1
        rw [List.length_append, List.length_singleton] at hlt
        rcases Nat.lt_or_eq_of_le (Nat.le_of_lt_succ hlt) with hj' | rfl
        · rw [List.getElem?_append_left hj'] at hj
          exact h.kept j c' hij hj
        · rw [hlast, Option.some.injEq] at hj
          exact hj ▸ hc
    · refine ⟨hlast, ?_⟩
      intro j c' hij hj
      have hlt := (List.getElem?_eq_some_iff.1 hj).1
      rw [List.length_append, List.length_singleton] at hlt
      omega

theorem Standing.enqueue {calls : List Call} {l : List (Nat × Deferral)} (h : Standing calls l)
    (d : Deferral) : Standing (calls ++ [.enqueue d]) (l ++ [(calls.length, d)]) := by
  refine ⟨?_, ?_⟩
  · rw [List.map_append, List.map_singleton, List.pairwise_append]
    refine ⟨h.ordered, List.pairwise_singleton _ _, ?_⟩
    intro i hi j hj
    obtain ⟨⟨i, d'⟩, hmem, rfl⟩ := List.mem_map.1 hi
    rw [List.mem_singleton] at hj
    exact hj ▸ ((h.mem_iff i d').1 hmem).lt
  · intro i d'
    rw [stands_append_iff, List.mem_append, h.mem_iff, List.mem_singleton, Prod.mk.injEq]
    simp [Call.Removes, eq_comm]

theorem Standing.discard {calls : List Call} {l : List (Nat × Deferral)} (h : Standing calls l)
    (owner : EntityId) :
    Standing (calls ++ [.discard owner]) (l.filter fun p => p.2.owner != some owner) := by
  refine ⟨h.ordered.sublist (List.filter_sublist.map Prod.fst), ?_⟩
  intro i d
  rw [stands_append_iff, List.mem_filter, h.mem_iff]
  simp [Call.Removes]

theorem Standing.drain {calls : List Call} (r : Registry) :
    Standing (calls ++ [.drain r]) [] := by
  refine ⟨List.Pairwise.nil, ?_⟩
  intro i d
  rw [stands_append_iff]
  simp [Call.Removes]

theorem deferrals_discard {q : Queue} {l : List (Nat × Deferral)}
    (h : q.deferrals = l.map Prod.snd) (owner : EntityId) :
    q.discard owner = (⟨(l.filter fun p => p.2.owner != some owner).map Prod.snd⟩,
      l.countP fun p => p.2.owner == some owner) := by
  have hfilter : q.deferrals.filter (·.owner != some owner) =
      (l.filter fun p => p.2.owner != some owner).map Prod.snd := by
    rw [h, List.filter_map]
    rfl
  rw [discard, hfilter, h, List.length_map, List.length_map, ← List.countP_eq_length_filter]
  have hsplit : l.length = _ :=
    List.length_eq_countP_add_countP fun p => p.2.owner == some owner
  have hnot : (l.countP fun p => p.2.owner != some owner) =
      l.countP fun p => decide (¬ (p.2.owner == some owner) = true) := by
    refine List.countP_congr ?_
    simp
  rw [Prod.mk.injEq]
  refine ⟨rfl, ?_⟩
  omega

/-- After any calls a queue holds the steps that stand. -/
theorem exists_standing (calls : List Call) :
    ∃ l, Standing calls l ∧ (after calls).deferrals = l.map Prod.snd := by
  induction calls using List.reverseRecOn with
  | nil =>
    refine ⟨[], ⟨List.Pairwise.nil, fun i d => ⟨?_, ?_⟩⟩, rfl⟩
    · intro h
      cases h
    · intro h
      have henqueued := h.enqueued
      cases henqueued
  | append_singleton calls c ih =>
    obtain ⟨l, hl, hq⟩ := ih
    rw [after_append]
    cases c with
    | enqueue d =>
      refine ⟨_, hl.enqueue d, ?_⟩
      rw [call, Queue.enqueue, hq, List.map_append, List.map_singleton]
    | discard owner =>
      refine ⟨_, hl.discard owner, ?_⟩
      rw [call, deferrals_discard hq]
    | drain r => exact ⟨[], .drain r, rfl⟩

inductive Runs : List Deferral → Registry → List Event → Registry → Prop
  | nil {r : Registry} : Runs [] r [] r
  | cons {d : Deferral} {rest : List Deferral} {r r₁ r' : Registry} {es es' : List Event}
      (first : d.action r = ⟨(r₁, .ok ()), es⟩) (others : Runs rest r₁ es' r') :
      Runs (d :: rest) r (es ++ es') r'

/-- What draining a queue with the steps `l` executes, leaves, returns and reports. -/
inductive Drains (l : List (Nat × Deferral)) (r : Registry) :
    List (Nat × Deferral) → Registry → Except BuildError Nat → List Event → Prop
  | all {r' : Registry} {es : List Event} (runs : Runs (l.map Prod.snd) r es r') :
      Drains l r l r' (.ok l.length) (es ++ [.drained l.length])
  | failed {pre post : List (Nat × Deferral)} {p : Nat × Deferral} {r₁ r' : Registry}
      {e : BuildError} {es es' : List Event} (parts : l = pre ++ p :: post)
      (runs : Runs (pre.map Prod.snd) r es r₁) (fails : p.2.action r₁ = ⟨(r', .error e), es'⟩) :
      Drains l r (pre ++ [p]) r' (.error (.deferred (p.2.owner.elim "<global>" r'.entityName) e))
        (es ++ es' ++ [.deferredFailed (p.2.owner.elim "<global>" r'.entityName) e.message])

theorem run_cons_ok {d : Deferral} {rest : List Deferral} {r r₁ : Registry} {es : List Event}
    (h : d.action r = ⟨(r₁, .ok ()), es⟩) (n : Nat) :
    run n (d :: rest) r =
      ⟨(run (n + 1) rest r₁).result, es ++ (run (n + 1) rest r₁).events⟩ := by
  rw [run, h]
  rfl

theorem run_cons_error {d : Deferral} {rest : List Deferral} {r r₁ : Registry} {e : BuildError}
    {es : List Event} (h : d.action r = ⟨(r₁, .error e), es⟩) (n : Nat) :
    run n (d :: rest) r = ⟨(r₁, .error (.deferred (ownerName r₁ d.owner) e)),
      es ++ [.deferredFailed (ownerName r₁ d.owner) e.message]⟩ := by
  rw [run, h]
  rfl

/-- After `n` other steps either all steps run, or those up to the first that fails. -/
theorem run_cases (l : List Deferral) (r : Registry) (n : Nat) :
    (∃ r' es, Runs l r es r' ∧
      run n l r = ⟨(r', .ok (n + l.length)), es ++ [.drained (n + l.length)]⟩) ∨
    (∃ pre d post r₁ r' e es es', l = pre ++ d :: post ∧ Runs pre r es r₁ ∧
      d.action r₁ = ⟨(r', .error e), es'⟩ ∧
      run n l r = ⟨(r', .error (.deferred (ownerName r' d.owner) e)),
        es ++ es' ++ [.deferredFailed (ownerName r' d.owner) e.message]⟩) := by
  induction l generalizing r n with
  | nil => exact .inl ⟨r, [], .nil, rfl⟩
  | cons d rest ih =>
    rcases hd : d.action r with ⟨⟨r₁, e | ⟨⟩⟩, es₁⟩
    · exact .inr ⟨[], d, rest, r, r₁, e, [], es₁, rfl, .nil, hd, run_cons_error hd n⟩
    · rw [run_cons_ok hd]
      rcases ih r₁ (n + 1) with ⟨r', es, hruns, hrun⟩ |
        ⟨pre, d', post, r₂, r', e, es, es', rfl, hruns, hfails, hrun⟩
      · refine .inl ⟨r', es₁ ++ es, .cons hd hruns, ?_⟩
        rw [hrun, List.length_cons, List.append_assoc, Nat.add_right_comm, Nat.add_assoc n]
      · refine .inr ⟨d :: pre, d', post, r₂, r', e, es₁ ++ es, es', rfl, .cons hd hruns, hfails, ?_⟩
        rw [hrun, List.append_assoc, List.append_assoc, List.append_assoc]

theorem drain_of_run {q : Queue} {r r' : Registry} {result : Except BuildError Nat}
    {es : List Event} (h : run 0 q.deferrals r = ⟨(r', result), es⟩) :
    q.drain r = ⟨(∅, r', result), es⟩ := by
  rw [drain, h]
  change (⟨(∅, r', result), es ++ []⟩ : Logged _) = _
  rw [List.append_nil]

theorem exists_drains {q : Queue} {l : List (Nat × Deferral)} (h : q.deferrals = l.map Prod.snd)
    (r : Registry) :
    ∃ ran r' result es, Drains l r ran r' result es ∧ q.drain r = ⟨(∅, r', result), es⟩ := by
  rcases run_cases q.deferrals r 0 with ⟨r', es, hruns, hrun⟩ |
    ⟨pre, d, post, r₁, r', e, es, es', hparts, hruns, hfails, hrun⟩
  · rw [Nat.zero_add, h, List.length_map] at hrun
    rw [h] at hruns
    exact ⟨l, r', _, _, .all hruns, drain_of_run (h ▸ hrun)⟩
  · rw [h] at hparts
    obtain ⟨pre', rest, rfl, rfl, hrest⟩ := List.map_eq_append_iff.1 hparts
    obtain ⟨⟨i, d⟩, post', rfl, rfl, -⟩ := List.map_eq_cons_iff.1 hrest
    exact ⟨_, r', _, _, .failed rfl hruns hfails, drain_of_run hrun⟩

/-- A drain executes queued steps only. -/
theorem Drains.subset {l ran : List (Nat × Deferral)} {r r' : Registry}
    {result : Except BuildError Nat} {es : List Event} (h : Drains l r ran r' result es) :
    ran ⊆ l := by
  cases h with
  | all => exact List.Subset.refl _
  | failed parts =>
    rw [parts]
    intro x hx
    rw [List.mem_append, List.mem_singleton] at hx
    rw [List.mem_append, List.mem_cons]
    exact hx.imp_right .inl

/-- The call `j` is a drain that executes the step that the call `i` enqueued. -/
def Executes (calls : List Call) (j i : Nat) : Prop :=
  ∃ r l ran r' result es, calls[j]? = some (.drain r) ∧ Standing (calls.take j) l ∧
    Drains l r ran r' result es ∧ i ∈ ran.map Prod.fst

theorem Executes.stands {calls : List Call} {i j : Nat} (h : Executes calls j i) :
    ∃ d, Stands (calls.take j) i d := by
  obtain ⟨r, l, ran, r', result, es, -, hl, hdrains, hi⟩ := h
  obtain ⟨⟨i, d⟩, hd, rfl⟩ := List.mem_map.1 hi
  exact ⟨d, (hl.mem_iff i d).1 (hdrains.subset hd)⟩

/-- A step that a call takes out of the queue is not executed by a later one. -/
theorem not_executes_of_removed {calls : List Call} {i j j' : Nat} {c : Call} {d : Deferral}
    (hc : calls[j]? = some c) (hd : Stands (calls.take j) i d) (hremoves : c.Removes d)
    (hj : j < j') : ¬ Executes calls j' i := by
  intro h
  obtain ⟨d', hd'⟩ := h.stands
  have hij : i < j := by
    have := hd.lt
    rw [List.length_take] at this
    omega
  have henqueued : (calls.take j)[i]? = (calls.take j')[i]? := by
    rw [List.getElem?_take_of_lt hij, List.getElem?_take_of_lt (Nat.lt_trans hij hj)]
  rw [hd.enqueued, hd'.enqueued] at henqueued
  cases henqueued
  refine hd'.kept j c hij ?_ hremoves
  rwa [List.getElem?_take_of_lt hj]

theorem Executes.unique {calls : List Call} {i j j' : Nat} (h : Executes calls j i)
    (h' : Executes calls j' i) : j = j' := by
  have hdrain : ∀ {n m}, Executes calls n i → n < m → ¬ Executes calls m i := by
    intro n m hn hnm
    obtain ⟨d, hd⟩ := hn.stands
    obtain ⟨r, _, _, _, _, _, hr, _⟩ := hn
    exact not_executes_of_removed hr hd trivial hnm
  rcases Nat.lt_trichotomy j j' with hlt | heq | hlt
  · exact absurd h' (hdrain h hlt)
  · exact heq
  · exact absurd h (hdrain h' hlt)

end Queue

/-- The step that a declaration queues. -/
def Declaration.deferral (d : Declaration) : Deferral := ⟨some d.target, d.register⟩

theorem Declaration.register_of_error {d : Declaration} {r r' : Registry} {e : BuildError}
    {es : List Event} (h : d.register r = ⟨(r', .error e), es⟩) : r' = r ∧ es = [] := by
  cases d with
  | «class» kind d =>
    rw [register] at h
    cases hc : d.compile r with
    | error e' =>
      rw [hc] at h
      cases h
      exact ⟨rfl, rfl⟩
    | ok c =>
      rw [hc] at h
      cases h
  | scalar target name description => cases h
  | resolver record => cases h
  | handler kind d =>
    rw [register] at h
    cases hc : d.compile kind r with
    | error e' =>
      rw [hc] at h
      cases h
      exact ⟨rfl, rfl⟩
    | ok x =>
      rw [hc] at h
      cases h

namespace Declarations

/-- What a program can do with its declarations before it finishes them, and which it adds. -/
inductive Collects : Declarations → List Declaration → Prop
  | empty : Collects ∅ []
  | entity {ds : Declarations} {l : List Declaration} (h : Collects ds l) (name : String)
      (parent : Option EntityId) : Collects (ds.entity name parent) l
  | setDefaults {ds : Declarations} {l : List Declaration} (h : Collects ds l) (id : EntityId)
      (values : Defaults) : Collects (ds.setDefaults id values) l
  | add {ds : Declarations} {l : List Declaration} (h : Collects ds l) (d : Declaration) :
      Collects (ds.add d) (l ++ [d])

theorem Collects.deferrals {ds : Declarations} {l : List Declaration} (h : ds.Collects l) :
    ds.queue.deferrals = l.map Declaration.deferral := by
  induction h with
  | empty => rfl
  | entity h name parent ih => exact ih
  | setDefaults h id values ih => exact ih
  | add h d ih =>
    rw [Declarations.add, Queue.enqueue, ih, List.map_append]
    rfl

end Declarations

/-- A drain of queued declarations registers all of them, or those before the first that is refused,
which leaves the registry as they left it. -/
theorem Declarations.Collects.drain_cases {ds : Declarations} {l : List Declaration}
    (h : ds.Collects l) (r : Registry) :
    (∃ r' es, Queue.Runs (l.map Declaration.deferral) r es r' ∧
      ds.queue.drain r = ⟨(∅, r', .ok l.length), es ++ [.drained l.length]⟩) ∨
    (∃ pre d post r' e es, l = pre ++ d :: post ∧
      Queue.Runs (pre.map Declaration.deferral) r es r' ∧ d.register r' = ⟨(r', .error e), []⟩ ∧
      ds.queue.drain r = ⟨(∅, r', .error (.deferred (r'.entityName d.target) e)),
        es ++ [.deferredFailed (r'.entityName d.target) e.message]⟩) := by
  have hqueue := h.deferrals
  rcases Queue.run_cases ds.queue.deferrals r 0 with ⟨r', es, hruns, hrun⟩ |
    ⟨pre, d, post, r₁, r', e, es, es', hparts, hruns, hfails, hrun⟩
  · rw [Nat.zero_add, hqueue, List.length_map] at hrun
    rw [hqueue] at hruns
    exact .inl ⟨r', es, hruns, Queue.drain_of_run (hqueue ▸ hrun)⟩
  · rw [hqueue] at hparts
    obtain ⟨pre, rest, rfl, rfl, hrest⟩ := List.map_eq_append_iff.1 hparts
    obtain ⟨d, post, rfl, rfl, -⟩ := List.map_eq_cons_iff.1 hrest
    obtain ⟨rfl, rfl⟩ := Declaration.register_of_error hfails
    rw [List.append_nil] at hrun
    exact .inr ⟨pre, d, post, r', e, es, rfl, hruns, hfails, Queue.drain_of_run hrun⟩

/-- Every step is executed at most once. After any calls the queue holds the steps that stand in the
order of their calls; discarding an owner removes its steps and counts them, and a drain executes
the standing steps up to the first that fails and empties the queue. What was taken out of the queue
is never executed later, and a refused declaration leaves the registry as those before it left
it. -/
theorem Queue.executes_standing_once (calls : List Queue.Call) :
    (∃ l, Standing calls l ∧ (after calls).deferrals = l.map Prod.snd ∧
      (∀ owner, (after calls).discard owner =
        (⟨(l.filter fun p => p.2.owner != some owner).map Prod.snd⟩,
          l.countP fun p => p.2.owner == some owner)) ∧
      ∀ r, ∃ ran r' result es, Drains l r ran r' result es ∧
        (after calls).drain r = ⟨(∅, r', result), es⟩) ∧
    (∀ i j j', Executes calls j i → Executes calls j' i → j = j') ∧
    (∀ i j j' c d, calls[j]? = some c → Stands (calls.take j) i d → c.Removes d → j < j' →
      ¬ Executes calls j' i) ∧
    (∀ (ds : Declarations) declared, ds.Collects declared → ∀ r,
      (∃ r' es, Runs (declared.map Declaration.deferral) r es r' ∧
        ds.queue.drain r =
          ⟨(∅, r', .ok declared.length), es ++ [.drained declared.length]⟩) ∨
      (∃ pre d post r' e es, declared = pre ++ d :: post ∧
        Runs (pre.map Declaration.deferral) r es r' ∧
        d.register r' = ⟨(r', .error e), []⟩ ∧
        ds.queue.drain r = ⟨(∅, r', .error (.deferred (r'.entityName d.target) e)),
          es ++ [.deferredFailed (r'.entityName d.target) e.message]⟩)) := by
  obtain ⟨l, hl, hqueue⟩ := exists_standing calls
  refine ⟨⟨l, hl, hqueue, deferrals_discard hqueue, exists_drains hqueue⟩, ?_, ?_, ?_⟩
  · intro i j j' h h'
    exact h.unique h'
  · intro i j j' c d hc hd hremoves hj
    exact not_executes_of_removed hc hd hremoves hj
  · intro ds declared h r
    exact h.drain_cases r

def Declaration.untyped (target : EntityId) : Declaration :=
  .class .object ⟨target, none, none, false,
    [⟨"id", none, none, .plain, none, none, none, []⟩], [], []⟩

/-- Four steps, the first of them discarded and the third one refused, and two drains. -/
def Queue.reloaded : List Queue.Call :=
  [.enqueue (Declaration.scalar 0 none none).deferral,
    .enqueue (Declaration.scalar 1 none none).deferral, .discard 0,
    .enqueue (Declaration.untyped 2).deferral,
    .enqueue (Declaration.scalar 3 none none).deferral, .drain ∅, .drain ∅]

theorem Queue.executes_standing_once_reloaded :
    Executes reloaded 5 1 ∧ Executes reloaded 5 3 ∧ (∀ j, Executes reloaded j 1 → j = 5) ∧
      ¬ Executes reloaded 5 0 ∧ ¬ Executes reloaded 6 4 ∧
      ∃ pre d post, [Declaration.scalar 0 none none, .untyped 1] = pre ++ d :: post ∧
        ∃ r es, Runs (pre.map Declaration.deferral) ∅ es r ∧
          ∃ e, d.register r = ⟨(r, .error e), []⟩ := by
  obtain ⟨-, honce, hgone, hdeclared⟩ := executes_standing_once reloaded
  have hnil : Standing [] [] := by
    refine ⟨List.Pairwise.nil, fun i d => ⟨fun h => ?_, fun h => ?_⟩⟩
    · cases h
    · cases h.enqueued
  have hdiscarded : Standing (reloaded.take 2) [(0, _), (1, _)] := (hnil.enqueue _).enqueue _
  have hfull : Standing (reloaded.take 5) [(1, _), (3, _), (4, _)] :=
    ((hdiscarded.discard 0).enqueue _).enqueue _
  have hruns : Runs ([(1, (Declaration.scalar 1 none none).deferral)].map Prod.snd) ∅ _ _ :=
    .cons rfl .nil
  have hexecutes : ∀ i ∈ [1, 3], Executes reloaded 5 i := fun i hi =>
    ⟨∅, _, _, _, _, _, rfl, hfull,
      .failed (p := (3, (Declaration.untyped 2).deferral)) rfl hruns rfl, hi⟩
  refine ⟨hexecutes 1 (by simp), hexecutes 3 (by simp), ?_, ?_, ?_, ?_⟩
  · intro j hj
    exact honce 1 j 5 hj (hexecutes 1 (by simp))
  · have hstands := (hdiscarded.mem_iff 0 (Declaration.scalar 0 none none).deferral).1 (by simp)
    exact hgone 0 2 5 _ _ rfl hstands rfl (by decide)
  · have hstands := (hfull.mem_iff 4 (Declaration.scalar 3 none none).deferral).1 (by simp)
    exact hgone 4 5 6 _ _ rfl hstands trivial (by decide)
  · have hcollects := (Declarations.Collects.empty.add (.scalar 0 none none)).add (.untyped 1)
    rcases hdeclared _ _ hcollects ∅ with
      ⟨r', es, -, hdrain⟩ | ⟨pre, d, post, r', e, es, hparts, hruns, hfails, -⟩
    · cases hdrain
    · exact ⟨pre, d, post, hparts, r', es, hruns, e, hfails⟩

end CodeFirst
