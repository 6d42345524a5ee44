import CodeFirst.Proofs.Rounds

/-! The course of a construction, step by step. Each root is opened and wired, then shells are wired
and orphans drained round by round, then the extra scalars follow. A course lists what was done on
the way to a stage. There is only one, and it ends with what `construct` leaves. -/

namespace CodeFirst

def error? {ε α : Type} : Except ε α → Option ε
  | .error e => some e
  | .ok _ => none

namespace Setting

inductive Stage where
  | roots (left : List RootKind)
  | fields (kind : RootKind) (place : TypeId) (left : List RootKind)
  /-- A round is to begin; so many types were realized from orphans. -/
  | round (realized : Nat)
  /-- Pending shells are wired, then the orphans of the round are drained. -/
  | wiring (realized : Nat)
  | scalars
  | finished (error? : Option BuildError)

/-- What one step does. -/
inductive Act where
  | other
  | wireRoot (place : TypeId) (w : Wiring) (s : Realization)
  /-- A place is taken from the queue and wired, unless that fails. -/
  | wireShell (place : TypeId) (w? : Option Wiring) (s : Realization)
  | beginRound
  | drain (records : List (TypeCategory × ClassRecord))

def Act.wiring? : Act → Option (TypeId × Wiring × Realization)
  | .wireRoot place w s => some (place, w, s)
  | .wireShell place w? s => w?.map fun w => (place, w, s)
  | _ => none

variable (set : Setting) (orphaned : List EntityId) (scalars : List ScalarType)

/-- Registers the orphans that are asked for and those that directives keep. -/
def request (s : Realization) : Realization :=
  { s with orphans := s.orphans.registerMany (orphaned ++ kept set.registry set.options) }

inductive Transition : Stage → Realization → Act → Stage → Realization → Prop
  | omitted {kind : RootKind} {left : List RootKind} {s : Realization}
    (hb : set.rootBindings kind = []) :
    Transition (.roots (kind :: left)) s .other (.roots left)
      ((set.announce kind s).addEvent (.rootOmitted kind))
  | opened {kind : RootKind} {left : List RootKind} {s t : Realization} {place : TypeId}
    (hb : set.rootBindings kind ≠ [])
    (hr : set.addRoot kind (set.announce kind s) = (.ok place, t)) :
    Transition (.roots (kind :: left)) s .other (.fields kind place left) t
  | refused {kind : RootKind} {left : List RootKind} {s t : Realization} {e : BuildError}
    (hb : set.rootBindings kind ≠ [])
    (hr : set.addRoot kind (set.announce kind s) = (.error e, t)) :
    Transition (.roots (kind :: left)) s .other (.finished (some e)) t
  | wiredRoot {kind : RootKind} {place : TypeId} {left : List RootKind} {s t : Realization}
    {fields : Fields}
    (hr : (set.rootFields kind ∅ (set.rootBindings kind)).run s = (.ok fields, t)) :
    Transition (.fields kind place left) s
      (.wireRoot place (.composite ⟨[], fields⟩) (t.addEvent (.rootBuilt kind fields.size)))
      (.roots left)
      ((t.addEvent (.rootBuilt kind fields.size)).wire place (.composite ⟨[], fields⟩))
  | failedRoot {kind : RootKind} {place : TypeId} {left : List RootKind} {s t : Realization}
    {e : BuildError}
    (hr : (set.rootFields kind ∅ (set.rootBindings kind)).run s = (.error e, t)) :
    Transition (.fields kind place left) s .other (.finished (some e)) t
  | requested {s : Realization} :
    Transition (.roots []) s .other (.round 0) (set.request orphaned s)
  | began {n : Nat} {s : Realization} : Transition (.round n) s .beginRound (.wiring n) s
  | wiredShell {n : Nat} {s t : Realization} {place : TypeId} {rest : List TypeId} {w : Wiring}
    (hs : s.pending = place :: rest)
    (hr : (set.wiringAt s place).run { s with pending := rest } = (.ok (some w), t)) :
    Transition (.wiring n) s (.wireShell place (some w) t) (.wiring n) (t.wire place w)
  | skippedShell {n : Nat} {s t : Realization} {place : TypeId} {rest : List TypeId}
    (hs : s.pending = place :: rest)
    (hr : (set.wiringAt s place).run { s with pending := rest } = (.ok none, t)) :
    Transition (.wiring n) s (.wireShell place none t) (.wiring n) t
  | failedShell {n : Nat} {s t : Realization} {place : TypeId} {rest : List TypeId}
    {e : BuildError} (hs : s.pending = place :: rest)
    (hr : (set.wiringAt s place).run { s with pending := rest } = (.error e, t)) :
    Transition (.wiring n) s (.wireShell place none t) (.finished (some e)) t
  | realized {n m : Nat} {s t : Realization} {orphans : Orphans}
    {x : TypeCategory × ClassRecord} {drained : List (TypeCategory × ClassRecord)}
    (hs : s.pending = []) (hd : s.orphans.drain set.registry = (orphans, x :: drained))
    (hr : (set.realizeDrained n (x :: drained)).run { s with orphans } = (.ok m, t)) :
    Transition (.wiring n) s (.drain (x :: drained)) (.round m) t
  | failedRound {n : Nat} {s t : Realization} {orphans : Orphans}
    {x : TypeCategory × ClassRecord} {drained : List (TypeCategory × ClassRecord)}
    {e : BuildError} (hs : s.pending = [])
    (hd : s.orphans.drain set.registry = (orphans, x :: drained))
    (hr : (set.realizeDrained n (x :: drained)).run { s with orphans } = (.error e, t)) :
    Transition (.wiring n) s (.drain (x :: drained)) (.finished (some e)) t
  | settled {n : Nat} {s : Realization} {orphans : Orphans} (hs : s.pending = [])
    (hd : s.orphans.drain set.registry = (orphans, [])) :
    Transition (.wiring n) s (.drain []) .scalars { s with orphans }
  | added {s t : Realization} (hr : (set.addScalars scalars).run s = (.ok (), t)) :
    Transition .scalars s .other (.finished none) t
  | failedScalars {s t : Realization} {e : BuildError}
    (hr : (set.addScalars scalars).run s = (.error e, t)) :
    Transition .scalars s .other (.finished (some e)) t

/-- What was done up to a stage of a construction that starts with nothing. -/
inductive Course : List Act → Stage → Realization → Prop
  | start : Course [] (.roots RootKind.all) .empty
  | step {l : List Act} {stage stage' : Stage} {s t : Realization} {a : Act} :
    Course l stage s → set.Transition orphaned scalars stage s a stage' t →
      Course (l ++ [a]) stage' t

variable {set orphaned scalars} {s t : Realization}

/-- The stage, the queue and what the computations give tell the steps apart. -/
theorem Transition.unique {stage stage₁ stage₂ : Stage} {t₁ t₂ : Realization} {a₁ a₂ : Act}
    (h₁ : set.Transition orphaned scalars stage s a₁ stage₁ t₁)
    (h₂ : set.Transition orphaned scalars stage s a₂ stage₂ t₂) :
    a₁ = a₂ ∧ stage₁ = stage₂ ∧ t₁ = t₂ := by
  cases h₁ <;> cases h₂ <;> simp_all

namespace Course

variable {l l' : List Act} {stage stage' : Stage}

theorem unique (h : set.Course orphaned scalars l stage s)
    (h' : set.Course orphaned scalars l' stage' t) (hl : l.length = l'.length) :
    l = l' ∧ stage = stage' ∧ s = t := by
  induction h generalizing l' stage' t with
  | start =>
    cases h' with
    | start => exact ⟨rfl, rfl, rfl⟩
    | step _ _ => simp at hl
  | step h ht ih =>
    cases h' with
    | start => simp at hl
    | step h' ht' =>
      simp only [List.length_append, List.length_singleton, Nat.add_right_cancel_iff] at hl
      obtain ⟨rfl, rfl, rfl⟩ := ih h' hl
      obtain ⟨rfl, rfl, rfl⟩ := ht.unique ht'
      exact ⟨rfl, rfl, rfl⟩

theorem take (h : set.Course orphaned scalars l stage s) {n : Nat} (hn : n ≤ l.length) :
    ∃ stage' t, set.Course orphaned scalars (l.take n) stage' t := by
  induction h with
  | start =>
    rw [List.take_nil]
    exact ⟨_, _, .start⟩
  | step h ht ih =>
    rw [List.length_append, List.length_singleton] at hn
    rcases Nat.lt_or_eq_of_le hn with hlt | rfl
    · rw [List.take_append_of_le_length (Nat.le_of_lt_succ hlt)]
      exact ih (Nat.le_of_lt_succ hlt)
    · rw [List.take_of_length_le (by simp)]
      exact ⟨_, _, h.step ht⟩

/-- Every course is a part of the one that is finished. -/
theorem isPrefix_of_finished (h : set.Course orphaned scalars l stage s)
    {error? : Option BuildError} (hf : set.Course orphaned scalars l' (.finished error?) t) :
    l <+: l' := by
  have hle : l.length ≤ l'.length := by
    by_contra hlt
    obtain ⟨_, _, hnext⟩ := h.take (n := l'.length + 1) (by omega)
    have hlen : (l.take (l'.length + 1)).length = l'.length + 1 := by
      rw [List.length_take]
      omega
    generalize l.take (l'.length + 1) = m at hnext hlen
    cases hnext with
    | start => simp at hlen
    | step hm ht =>
      obtain ⟨-, rfl, -⟩ := hm.unique hf (by simpa using hlen)
      cases ht
  obtain ⟨_, _, ht⟩ := hf.take hle
  obtain ⟨hl, -⟩ := h.unique ht (by rw [List.length_take]; omega)
  rw [hl]
  exact List.take_prefix _ _

theorem finished_unique {e? e'? : Option BuildError}
    (h : set.Course orphaned scalars l (.finished e?) s)
    (h' : set.Course orphaned scalars l' (.finished e'?) t) : e? = e'? ∧ s = t := by
  have hle := (h.isPrefix_of_finished h').length_le
  have hle' := (h'.isPrefix_of_finished h).length_le
  obtain ⟨-, hstage, hst⟩ := h.unique h' (Nat.le_antisymm hle hle')
  exact ⟨Stage.finished.inj hstage, hst⟩

end Course

/-- From every course that stands at one stage, a computation leads on to another, or to its
error. -/
def Leads (set : Setting) (orphaned : List EntityId) (scalars : List ScalarType) {α : Type}
    (x : Construction α) (stage : Stage) (next : α → Stage) : Prop :=
  ∀ l s, set.Course orphaned scalars l stage s →
    ∃ l', match x s with
      | (.ok a, t) => set.Course orphaned scalars l' (next a) t
      | (.error e, t) => set.Course orphaned scalars l' (.finished (some e)) t

namespace Leads

variable {α β : Type}

theorem pure (a : α) (stage : Stage) :
    Leads set orphaned scalars (Pure.pure a : Construction α) stage fun _ => stage :=
  fun l _ hc => ⟨l, hc⟩

theorem bind {x : Construction α} {f : α → Construction β} {stage : Stage} {mid : α → Stage}
    {next : β → Stage} (hx : Leads set orphaned scalars x stage mid)
    (hf : ∀ a, Leads set orphaned scalars (f a) (mid a) next) :
    Leads set orphaned scalars (x >>= f) stage next := by
  intro l s hc
  obtain ⟨l₁, h₁⟩ := hx l s hc
  rcases hrun : x s with ⟨e | a, t⟩
  · rw [hrun] at h₁
    rw [Construction.bind_error hrun]
    exact ⟨l₁, h₁⟩
  · rw [hrun] at h₁
    rw [Construction.bind_ok hrun]
    exact hf a l₁ t h₁

end Leads

theorem leads_buildRoot (kind : RootKind) (left : List RootKind) :
    Leads set orphaned scalars (set.buildRoot kind) (.roots (kind :: left)) fun _ =>
      .roots left := by
  intro l s hc
  by_cases hb : set.rootBindings kind = []
  · rw [buildRoot_of_eq_nil hb]
    exact ⟨_, hc.step (.omitted hb)⟩
  · rw [buildRoot_of_ne_nil hb]
    rcases hadd : set.addRoot kind (set.announce kind s) with ⟨e | place, t⟩
    · rw [Construction.bind_error hadd]
      exact ⟨_, hc.step (.refused hb hadd)⟩
    · rw [Construction.bind_ok hadd]
      have hopened := hc.step (.opened hb hadd)
      rcases hfields : (set.rootFields kind ∅ (set.rootBindings kind)).run t with ⟨e | fields, u⟩
      · rw [Construction.bind_error hfields]
        exact ⟨_, hopened.step (.failedRoot hfields)⟩
      · rw [Construction.bind_ok hfields]
        exact ⟨_, hopened.step (.wiredRoot hfields)⟩

theorem leads_request :
    Leads set orphaned scalars (Construction.modify (set.request orphaned)) (.roots [])
      fun _ => .round 0 :=
  fun _ _ hc => ⟨_, hc.step .requested⟩

theorem leads_wirePending (n : Nat) :
    Leads set orphaned scalars set.wirePending (.wiring n) fun _ => .wiring n := by
  intro l s hc
  fun_induction Setting.wirePending set s generalizing l with
  | case1 s hs => exact ⟨l, hc⟩
  | case2 s place rest hs start e t ht => exact ⟨_, hc.step (.failedShell hs ht)⟩
  | case3 s place rest hs start t ht ih => exact ih _ (hc.step (.skippedShell hs ht))
  | case4 s place rest hs start w t ht ih => exact ih _ (hc.step (.wiredShell hs ht))

theorem pending_of_wirePending (h : set.wirePending s = (.ok (), t)) : t.pending = [] := by
  fun_induction Setting.wirePending set s with
  | case1 s hs =>
    simp only [Prod.mk.injEq, true_and] at h
    exact h ▸ hs
  | case2 s place rest hs start e u hu => simp at h
  | case3 s place rest hs start u hu ih => exact ih h
  | case4 s place rest hs start w u hu ih => exact ih h

theorem leads_realizeOrphans (n : Nat) :
    Leads set orphaned scalars (set.realizeOrphans n) (.round n) fun _ => .scalars := by
  intro l s hc
  fun_induction Setting.realizeOrphans set n s generalizing l with
  | case1 n s e t hw =>
    obtain ⟨l', hl'⟩ := leads_wirePending n _ s (hc.step .began)
    rw [hw] at hl'
    exact ⟨l', hl'⟩
  | case2 n s t hw orphans hd =>
    obtain ⟨l', hl'⟩ := leads_wirePending n _ s (hc.step .began)
    rw [hw] at hl'
    exact ⟨_, hl'.step (.settled (pending_of_wirePending hw) hd)⟩
  | case3 n s t hw orphans x drained hd e u hu =>
    obtain ⟨l', hl'⟩ := leads_wirePending n _ s (hc.step .began)
    rw [hw] at hl'
    exact ⟨_, hl'.step (.failedRound (pending_of_wirePending hw) hd hu)⟩
  | case4 n s t hw orphans x drained hd m u hu ih =>
    obtain ⟨l', hl'⟩ := leads_wirePending n _ s (hc.step .began)
    rw [hw] at hl'
    exact ih _ (hl'.step (.realized (pending_of_wirePending hw) hd hu))

theorem leads_addScalars :
    Leads set orphaned scalars (set.addScalars scalars).run .scalars fun _ => .finished none := by
  intro l s hc
  rcases hr : (set.addScalars scalars).run s with ⟨e | _, t⟩
  · exact ⟨_, hc.step (.failedScalars hr)⟩
  · exact ⟨_, hc.step (.added hr)⟩

theorem construct_course (set : Setting) (orphaned : List EntityId) (scalars : List ScalarType) :
    ∃ l, set.Course orphaned scalars l
      (.finished (error? (set.construct orphaned scalars .empty).1))
      (set.construct orphaned scalars .empty).2 := by
  have hleads : Leads set orphaned scalars (set.construct orphaned scalars)
      (.roots RootKind.all) fun _ => .finished none := by
    refine (leads_buildRoot _ _).bind fun query => ?_
    refine (leads_buildRoot _ _).bind fun mutation => ?_
    refine (leads_buildRoot _ _).bind fun subscription => ?_
    refine leads_request.bind fun _ => ?_
    refine (leads_realizeOrphans 0).bind fun m => ?_
    exact leads_addScalars.bind fun _ => .pure _ _
  obtain ⟨l, hl⟩ := hleads [] .empty .start
  refine ⟨l, ?_⟩
  rcases hc : set.construct orphaned scalars .empty with ⟨e | x, t⟩
  · rw [hc] at hl
    exact hl
  · rw [hc] at hl
    exact hl

end Setting

end CodeFirst
