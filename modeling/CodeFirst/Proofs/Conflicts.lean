import CodeFirst.Proofs.Demand
import CodeFirst.Proofs.Exposed
import CodeFirst.Proofs.Moves

/-! Naming conflicts. The check at the start of a build refuses exactly the registries in which two
declarations that are not abstract share a name, whether or not anything refers to them. Types that
claim a taken name later on are roots, abstract classes or scalars that nobody declared, or clash
with one of these. -/

namespace CodeFirst

namespace Registry

variable {r : Registry}

/-- A declared scalar or a declaration that is not abstract: the category, none for scalars, and the
entity, the name, and what reports call it. -/
inductive Claims (r : Registry) : Option TypeCategory × EntityId → String → String → Prop
  | class (k : TypeCategory) (c : ClassRecord) (known : r.class? k.classKind c.target = some c)
    (concrete : c.isAbstract = false) :
    Claims r (some k, c.target) c.name
      (declarationLabel k.classKind c.name (r.entityName c.target))
  | scalar (x : ScalarRecord) (known : r.scalar? x.target = some x) :
    Claims r (none, x.target) x.name (scalarLabel x.name)

/-- Whether two different declarations claim one name; and what reports call them. -/
def Conflict (r : Registry) (name first second : String) : Prop :=
  ∃ x y, x ≠ y ∧ r.Claims x name first ∧ r.Claims y name second

theorem mem_records_iff {k : ClassKind} {c : ClassRecord} :
    c ∈ (r.classes k).records ↔ r.class? k c.target = some c :=
  ⟨fun h => Catalog.get?_eq_some_iff.2 ⟨h, rfl⟩, fun h => (Catalog.get?_eq_some_iff.1 h).1⟩

theorem mem_scalars_iff {x : ScalarRecord} :
    x ∈ r.scalars.records ↔ r.scalar? x.target = some x :=
  ⟨fun h => Catalog.get?_eq_some_iff.2 ⟨h, rfl⟩, fun h => (Catalog.get?_eq_some_iff.1 h).1⟩

theorem mem_claims_iff {c : Claim} : c ∈ Claim.all r ↔ r.Claims c.owner c.name c.label := by
  rw [Claim.all, List.mem_append, List.mem_flatMap, List.mem_map]
  constructor
  · rintro (⟨k, -, hc⟩ | ⟨x, hx, rfl⟩)
    · obtain ⟨d, hd, rfl⟩ := List.mem_map.1 hc
      obtain ⟨hd, ha⟩ := List.mem_filter.1 hd
      exact .class k d (mem_records_iff.1 hd) (by simpa using ha)
    · exact .scalar x (mem_scalars_iff.1 hx)
  · obtain ⟨name, owner, label⟩ := c
    intro h
    cases h with
    | «class» k c known concrete =>
      refine .inl ⟨k, by cases k <;> simp, List.mem_map.2 ⟨c, List.mem_filter.2 ⟨?_, ?_⟩, rfl⟩⟩
      · exact mem_records_iff.2 known
      · rw [concrete]
        rfl
    | scalar x known => exact .inr ⟨x, mem_scalars_iff.2 known, rfl⟩

theorem consistent_iff :
    Claim.Consistent (Claim.all r) ↔ ¬ ∃ name first second, r.Conflict name first second := by
  constructor
  · rintro h ⟨name, first, second, x, y, hne, hx, hy⟩
    exact hne (h ⟨name, x, first⟩ (mem_claims_iff.2 hx) ⟨name, y, second⟩ (mem_claims_iff.2 hy) rfl)
  · intro h c hc d hd hn
    by_contra hne
    exact h ⟨c.name, c.label, d.label, c.owner, d.owner, hne, mem_claims_iff.1 hc,
      hn ▸ mem_claims_iff.1 hd⟩

end Registry

/-- The check names two claims that compete. -/
theorem Claim.check_eq_error {made l : List Claim} {e : BuildError}
    (h : check made l = .error e) : ∃ c ∈ made ++ l, ∃ d ∈ made ++ l,
      c.name = d.name ∧ c.owner ≠ d.owner ∧ e = .namingConflict d.name c.label d.label := by
  induction l generalizing made with
  | nil => cases h
  | cons c rest ih =>
    rw [check] at h
    split at h
    · obtain ⟨x, hx, y, hy, hrest⟩ := ih h
      rw [List.append_assoc] at hx hy
      exact ⟨x, hx, y, hy, hrest⟩
    · next first hfirst =>
      split at h
      · obtain ⟨x, hx, y, hy, hrest⟩ := ih h
        have hsub : made ++ rest ⊆ made ++ c :: rest := by
          intro z hz
          rw [List.mem_append] at hz
          rw [List.mem_append, List.mem_cons]
          exact hz.imp_right .inr
        exact ⟨x, hsub hx, y, hsub hy, hrest⟩
      · next hne =>
        cases h
        have hname : first.name = c.name := by simpa using List.find?_some hfirst
        exact ⟨first, List.mem_append_left _ (List.mem_of_find?_eq_some hfirst), c,
          List.mem_append_right _ List.mem_cons_self, hname, hne, rfl⟩

theorem Registry.checkNames_eq_error {r : Registry} {e : BuildError} (h : r.checkNames = .error e) :
    ∃ name first second, r.Conflict name first second ∧ e = .namingConflict name first second := by
  obtain ⟨c, hc, d, hd, hn, hne, rfl⟩ := Claim.check_eq_error h
  exact ⟨d.name, c.label, d.label,
    ⟨c.owner, d.owner, hne, hn ▸ mem_claims_iff.1 hc, mem_claims_iff.1 hd⟩, rfl⟩

/-- The types that the check leaves out. -/
inductive NamedType.Exempt (r : Registry) : NamedType → Prop
  | root (kind : RootKind) : Exempt r kind.shell
  | abstract (k : TypeCategory) (c : ClassRecord) (known : r.class? k.classKind c.target = some c)
    (abstract : c.isAbstract = true) : Exempt r (c.shell k)
  | scalar (t : ScalarType) (undeclared : ∀ x ∈ r.scalars.records, x.name ≠ t.name) :
    Exempt r (.scalar t)

/-- A type is left out by the check, or it shows a declaration that claims its name. -/
theorem NamedType.IsShell.exempt_or_claims {r : Registry} {t : NamedType} (h : t.IsShell r) :
    t.Exempt r ∨
      (∃ k id, t.origin = .declared k id ∧ r.Claims (some k, id) t.name (typeLabel r t)) ∨
        ∃ id, t.origin = .scalar t.name ∧ r.Claims (none, id) t.name (typeLabel r t) := by
  cases h with
  | root kind => exact .inl (.root kind)
  | declared k c known =>
    cases ha : c.isAbstract with
    | true => exact .inl (.abstract k c known ha)
    | false =>
      have hlabel : typeLabel r (c.shell k) =
          declarationLabel k.classKind c.name (r.entityName c.target) := by cases k <;> rfl
      refine .inr (.inl ⟨k, c.target, NamedType.origin_shell c k, ?_⟩)
      rw [ClassRecord.name_shell, hlabel]
      exact .class k c known ha
  | scalar t =>
    by_cases hdeclared : ∃ x ∈ r.scalars.records, x.name = t.name
    · obtain ⟨x, hx, hn⟩ := hdeclared
      refine .inr (.inr ⟨x.target, rfl, ?_⟩)
      have hclaims := Registry.Claims.scalar x (Registry.mem_scalars_iff.1 hx)
      rw [hn] at hclaims
      exact hclaims
    · refine .inl (.scalar t fun x hx hn => hdeclared ⟨x, hx, hn⟩)

/-- Without competing declarations, a clash is about a type that the check leaves out. -/
theorem Clash.exempt {r : Registry} {name first second : String}
    (h : Clash r (.namingConflict name first second))
    (hr : ¬ ∃ name first second, r.Conflict name first second) :
    ∃ x y : NamedType, x.IsShell r ∧ y.IsShell r ∧ x.name = name ∧ y.name = name ∧
      first = typeLabel r x ∧ second = typeLabel r y ∧ (x.Exempt r ∨ y.Exempt r) := by
  obtain ⟨x, y, hx, hy, hxn, hyn, hfirst, hsecond, hroot⟩ := h name first second rfl
  refine ⟨x, y, hx, hy, hxn, hyn, hfirst, hsecond, ?_⟩
  by_cases ho : x.origin = y.origin
  · obtain ⟨kind, rfl⟩ := hroot ho
    exact .inr (.root kind)
  · have hsame : ∀ {a b}, r.Claims a x.name (typeLabel r x) → r.Claims b y.name (typeLabel r y) →
        a = b := by
      intro a b ha hb
      by_contra hne
      rw [hxn] at ha
      rw [hyn] at hb
      exact hr ⟨name, _, _, a, b, hne, ha, hb⟩
    rcases hx.exempt_or_claims with hx | ⟨k, id, hxo, hx⟩ | ⟨id, hxo, hx⟩
    · exact .inl hx
    · rcases hy.exempt_or_claims with hy | ⟨k', id', hyo, hy⟩ | ⟨id', hyo, hy⟩
      · exact .inr hy
      · cases hsame hx hy
        exact absurd (hxo.trans hyo.symm) ho
      · cases hsame hx hy
    · rcases hy.exempt_or_claims with hy | ⟨k', id', hyo, hy⟩ | ⟨id', hyo, hy⟩
      · exact .inr hy
      · cases hsame hx hy
      · rw [hxo, hyo, hxn, hyn] at ho
        exact absurd rfl ho

namespace Setting

variable {set : Setting} {orphaned : List EntityId} {scalars : List ScalarType}
  {s t : Realization} {e : BuildError}

theorem addRoot_clash (hs : s.Coherent set.registry) {kind : RootKind}
    (h : set.addRoot kind s = (.error e, t)) : Clash set.registry e := by
  rw [addRoot] at h
  split at h
  · next i hi =>
    cases h
    exact hs.clash (y := kind.shell) hi (.root kind) fun _ _ _ => ⟨kind, rfl⟩
  · cases h

/-- A step that fails with a naming conflict has met a clash. -/
theorem Transition.clash {stage : Stage} {a : Act}
    (h : set.Transition orphaned scalars stage s a (.finished (some e)) t)
    (hs : s.Coherent set.registry) : Clash set.registry e := by
  cases h with
  | refused hb hr => exact addRoot_clash ((set.announce_grows _ s).coherent hs) hr
  | failedRoot hr => exact (bound_rootFields _ _ _).clash s e hs (congrArg Prod.fst hr)
  | failedShell hp hr =>
    refine (bound_wiringAt (B := fun _ => False) _ _).clash _ e ?_ (congrArg Prod.fst hr)
    exact hs.of_shells rfl rfl fun _ hid => hid
  | failedRound hp hd hr =>
    refine (bound_realizeDrained (B := fun _ => False) _ _).clash _ e ?_ (congrArg Prod.fst hr)
    refine hs.of_shells rfl rfl fun _ hid => ?_
    have hseen := Orphans.mem_seen_drain (r := set.registry).2 (.inl hid)
    rwa [hd] at hseen
  | failedScalars hr =>
    exact (bound_addScalars (B := fun _ => False) _).clash s e hs (congrArg Prod.fst hr)

theorem construct_clash (h : (set.construct orphaned scalars .empty).1 = .error e) :
    Clash set.registry e := by
  obtain ⟨l, hc⟩ := construct_course set orphaned scalars
  rw [h, error?] at hc
  cases hc with
  | step hc ht => exact ht.clash (hc.moves.coherent Realization.coherent_empty)

end Setting

theorem Trial.bind_eq_error {ε α β : Type} {x : Trial ε α} {f : α → Trial ε β} {e : ε}
    (h : (x >>= f).outcome = .error e) :
    x.outcome = .error e ∨ ∃ a, x.outcome = .ok a ∧ (f a).outcome = .error e := by
  cases hx : x.outcome with
  | error e' =>
    rw [outcome_bind_error hx] at h
    cases h
    exact .inl rfl
  | ok a =>
    rw [outcome_bind hx] at h
    exact .inr ⟨a, rfl, h⟩

theorem Attachment.isConflict_of_attach {r : Registry} {attached : List Attachment}
    {l : List Binding} {e : BuildError} (h : attach r attached l = .error e) :
    e.isConflict = false := by
  induction l generalizing attached with
  | nil => cases h
  | cons b rest ih =>
    rw [attach] at h
    split at h
    · cases h
      rfl
    · split at h
      · exact ih h
      · split at h
        · exact ih h
        · cases h
          rfl

theorem Schema.isConflict_of_check {s : Schema} {e : BuildError} (h : s.check = .error e) :
    e.isConflict = false := by
  rw [check] at h
  split at h
  · cases h
  · cases h
    rfl

namespace BuildRequest

variable {q : BuildRequest} {r : Registry} {o : BuildOptions} {scalars : List ScalarType}
  {name first second : String}

/-- Behind the check, only the construction of the types meets naming conflicts. -/
theorem clash_of_buildWith (hr : r.checkNames = .ok ())
    (h : (q.buildWith r o scalars).outcome = .error (.namingConflict name first second)) :
    Clash r (.namingConflict name first second) := by
  rcases Trial.bind_eq_error h with h | ⟨b, -, h⟩
  · rcases Trial.bind_eq_error h with h | ⟨_, -, h⟩
    · rw [Trial.outcome_ofExcept, hr] at h
      cases h
    · rcases Trial.bind_eq_error h with h | ⟨set, hset, h⟩
      · rcases Trial.bind_eq_error h with h | ⟨bindings, -, h⟩
        · cases h
        · rcases Trial.bind_eq_error h with h | ⟨_, -, h⟩
          · exact .of_isConflict (Attachment.isConflict_of_attach h)
          · cases h
      · obtain ⟨-, hsetting⟩ := prepare_eq_ok hset
        have hregistry : set.registry = r := by rw [hsetting]
        rcases hc : set.construct q.orphaned scalars .empty with ⟨result, s⟩
        rw [hc] at h
        rcases Trial.bind_eq_error h with h | ⟨_, -, h⟩
        · rw [Trial.outcome_forM_tell] at h
          cases h
        · rcases Trial.bind_eq_error h with h | ⟨_, -, h⟩
          · rw [Trial.outcome_ofExcept] at h
            exact hregistry ▸ Setting.construct_clash ((congrArg Prod.fst hc).trans h)
          · cases h
  · cases hskip : o.skipCheck with
    | true =>
      rw [hskip] at h
      cases h
    | false =>
      rw [hskip] at h
      rcases Trial.bind_eq_error h with h | ⟨_, -, h⟩
      · exact .of_isConflict (Schema.isConflict_of_check h)
      · cases h

theorem buildWith_of_checkNames_error {e : BuildError} (h : r.checkNames = .error e) :
    (q.buildWith r o scalars).outcome = .error e := by
  have hchecked : (Trial.ofExcept r.checkNames).outcome = .error e := h
  exact Trial.outcome_bind_error (Trial.outcome_bind_error hchecked _) _

/-- Naming conflicts are always caught: as long as two declarations that are not abstract share a
name, every build whose source is loaded fails with such a name. Otherwise the check succeeds, and a
naming conflict that comes up later is about a root, an abstract class, or a scalar that nobody
declared. -/
theorem buildFrom_conflict (q : BuildRequest) (r : Registry) (source : Option DirectiveSource)
    (hsource : ∀ s, source = some s → ∃ f, s.load.outcome = .ok f) :
    ((∃ name first second, r.Conflict name first second) → ∃ name first second,
      r.Conflict name first second ∧
        (q.buildFrom r source).outcome = .error (.namingConflict name first second)) ∧
    ((¬ ∃ name first second, r.Conflict name first second) → r.checkNames = .ok () ∧
      ∀ name first second,
        (q.buildFrom r source).outcome = .error (.namingConflict name first second) →
          ∃ x y : NamedType, x.IsShell r ∧ y.IsShell r ∧ x.name = name ∧ y.name = name ∧
            first = typeLabel r x ∧ second = typeLabel r y ∧ (x.Exempt r ∨ y.Exempt r)) := by
  obtain ⟨o, scalars, hresolves⟩ : ∃ o scalars, q.Resolves source o scalars := by
    cases source with
    | none => exact ⟨_, _, .plain⟩
    | some s =>
      obtain ⟨f, hf⟩ := hsource s rfl
      exact ⟨_, _, .federated hf⟩
  rw [hresolves.outcome_eq, ← Registry.consistent_iff, ← Registry.checkNames_eq_ok_iff]
  refine ⟨?_, ?_⟩
  · intro hconflict
    cases hnames : r.checkNames with
    | ok u =>
      have hconsistent := Registry.consistent_iff.1 ((r.checkNames_eq_ok_iff).1 hnames)
      exact absurd hconflict hconsistent
    | error e =>
      obtain ⟨name, first, second, h, rfl⟩ := Registry.checkNames_eq_error hnames
      exact ⟨name, first, second, h, buildWith_of_checkNames_error hnames⟩
  · intro hnames
    refine ⟨hnames, ?_⟩
    intro name first second h
    have hconsistent := Registry.consistent_iff.1 ((r.checkNames_eq_ok_iff).1 hnames)
    exact (clash_of_buildWith hnames h).exempt hconsistent

end BuildRequest

def Registry.renamed (interface object : String) : Registry :=
  .ofRecords (((EntityTable.empty.declare "Node" none).declare "Recipe" none).declare "R" none)
    [.identified 0 interface false []] [.identified 1 object false []] [.node 2 (.declared 0)]

theorem BuildRequest.buildFrom_conflict_renamed :
    (∃ name first second, Registry.Conflict (.renamed "Node" "Node") name first second ∧
      (plain.buildFrom (.renamed "Node" "Node") (some .apollo)).outcome =
        .error (.namingConflict name first second)) ∧
    ∃ x y : NamedType, x.name = "Query" ∧ y.name = "Query" ∧
      typeLabel (.renamed "Query" "Recipe") x = "Query root" ∧
        (x.Exempt (.renamed "Query" "Recipe") ∨ y.Exempt (.renamed "Query" "Recipe")) := by
  refine ⟨?_, ?_⟩
  · have hload : ∀ s, some DirectiveSource.apollo = some s → ∃ f, s.load.outcome = .ok f := by
      rintro s ⟨⟩
      exact ⟨.apollo, rfl⟩
    refine (buildFrom_conflict plain (.renamed "Node" "Node") (some .apollo) hload).1 ?_
    exact ⟨"Node", _, _, (some .interface, 0), (some .object, 1), by decide,
      .class .interface (.identified 0 "Node" false []) rfl rfl,
      .class .object (.identified 1 "Node" false []) rfl rfl⟩
  · have hnames : Registry.checkNames (.renamed "Query" "Recipe") = .ok () := rfl
    have hbuild : (plain.buildFrom (.renamed "Query" "Recipe") none).outcome = .error
        (.namingConflict "Query" "Query root" "interface `Query` (declared by `Node`)") := rfl
    have hconsistent := Registry.consistent_iff.1 ((Registry.checkNames_eq_ok_iff _).1 hnames)
    obtain ⟨-, hlater⟩ := (buildFrom_conflict plain (.renamed "Query" "Recipe") none nofun).2
      hconsistent
    obtain ⟨x, y, -, -, hx, hy, hfirst, -, hexempt⟩ := hlater _ _ _ hbuild
    exact ⟨x, y, hx, hy, hfirst.symm, hexempt⟩

end CodeFirst
