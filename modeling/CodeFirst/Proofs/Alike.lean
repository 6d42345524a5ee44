import CodeFirst.Proofs.Reached

/-! Registries that hold the same records in another order. Everything that looks records up by key
agrees on them; what is left to the order of records is a permutation. -/

namespace CodeFirst

namespace Catalog

variable {κ ν : Type} [DecidableEq κ] {key : ν → κ}

theorem get?_eq_of_perm {c c' : Catalog key} (h : c.records.Perm c'.records) (k : κ) :
    c.get? k = c'.get? k := by
  refine Option.ext ?_
  intro v
  rw [get?_eq_some_iff, get?_eq_some_iff, h.mem_iff]

end Catalog

/-- Registries with the same records, in whatever order. -/
structure Registry.Alike (r r' : Registry) : Prop where
  entities : r.entities = r'.entities
  classes : ∀ k, (r.classes k).records.Perm (r'.classes k).records
  scalars : r.scalars.records.Perm r'.scalars.records
  resolvers : r.resolvers.records.Perm r'.resolvers.records
  handlers : ∀ k, (r.handlers k).records.Perm (r'.handlers k).records

namespace Registry.Alike

variable {r r' : Registry} {o : BuildOptions}

theorem symm (h : r.Alike r') : r'.Alike r :=
  ⟨h.entities.symm, fun k => (h.classes k).symm, h.scalars.symm, h.resolvers.symm,
    fun k => (h.handlers k).symm⟩

theorem class? (h : r.Alike r') : r.class? = r'.class? := by
  funext k id
  exact Catalog.get?_eq_of_perm (h.classes k) id

theorem scalar? (h : r.Alike r') : r.scalar? = r'.scalar? := by
  funext id
  exact Catalog.get?_eq_of_perm h.scalars id

theorem resolver? (h : r.Alike r') : r.resolver? = r'.resolver? := by
  funext id
  exact Catalog.get?_eq_of_perm h.resolvers id

theorem entityName (h : r.Alike r') : r.entityName = r'.entityName := by
  funext id
  rw [Registry.entityName, Registry.entityName, h.entities]

theorem isAbstractResolver (h : r.Alike r') : r.isAbstractResolver = r'.isAbstractResolver := by
  funext id
  rw [Registry.isAbstractResolver, Registry.isAbstractResolver, h.resolver?]

theorem classChain (h : r.Alike r') : r.classChain = r'.classChain := by
  funext k id
  rw [Registry.classChain, Registry.classChain, h.entities, h.class?]

theorem scalarOf? (h : r.Alike r') : CodeFirst.scalarOf? o r = CodeFirst.scalarOf? o r' := by
  funext ref
  unfold CodeFirst.scalarOf?
  rw [h.scalar?]

theorem outputOrigin? (h : r.Alike r') :
    CodeFirst.outputOrigin? o r = CodeFirst.outputOrigin? o r' := by
  funext ref
  unfold CodeFirst.outputOrigin?
  rw [h.scalarOf?, h.class?]

theorem inputOrigin? (h : r.Alike r') :
    CodeFirst.inputOrigin? o r = CodeFirst.inputOrigin? o r' := by
  funext ref
  unfold CodeFirst.inputOrigin?
  rw [h.scalarOf?, h.class?]

theorem originName (h : r.Alike r') : Origin.name r = Origin.name r' := by
  funext x
  cases x with
  | declared k id =>
    unfold Origin.name
    rw [h.class?]
  | _ => rfl

theorem ofParameters (h : r.Alike r') :
    InputContribution.ofParameters r = InputContribution.ofParameters r' := by
  funext location ps
  unfold InputContribution.ofParameters InputContribution.ofParameter
  rw [h.classChain, h.entityName]

theorem ofInterfaces (h : r.Alike r') :
    Contribution.ofInterfaces r = Contribution.ofInterfaces r' := by
  funext host seen refs
  induction refs generalizing seen with
  | nil => rfl
  | cons ref rest ih =>
    unfold Contribution.ofInterfaces
    simp only [ih, h.classChain]

theorem inputShows (h : r.Alike r') :
    InputContribution.Shows o r = InputContribution.Shows o r' := by
  funext H x v
  cases x with
  | parameter host name type wrapping description default =>
    unfold InputContribution.Shows
    rw [h.inputOrigin?]
  | property declaring p =>
    unfold InputContribution.Shows
    rw [h.inputOrigin?, h.entities]
  | noBundle host bundle => rfl

theorem merges (h : r.Alike r') : Merges o r = Merges o r' := by
  funext H l values
  unfold Merges
  rw [h.inputShows]

theorem shows (h : r.Alike r') : Contribution.Shows o r = Contribution.Shows o r' := by
  funext H x f
  match x with
  | .property declaring p =>
    unfold Contribution.Shows
    rw [h.outputOrigin?]
  | .resolver b (some (ref, w)) =>
    unfold Contribution.Shows
    simp only [gathers_iff]
    rw [h.outputOrigin?, h.merges, h.ofParameters, h.entityName]
  | .interface host id => rfl
  | .noInterface host => rfl
  | .resolver b none => rfl

theorem isShell (h : r.Alike r') {t : NamedType} (ht : t.IsShell r) : t.IsShell r' := by
  cases ht with
  | scalar t => exact .scalar t
  | root kind => exact .root kind
  | declared k c known => exact .declared k c (h.class? ▸ known)

theorem coherent (h : r.Alike r') {s : Realization} (hs : s.Coherent r) : s.Coherent r' :=
  ⟨hs.names_nodup, hs.typeId?_iff, hs.place?_iff, fun t ht => h.isShell (hs.isShell t ht),
    hs.interfaces_seen⟩

theorem records (h : r.Alike r') : Orphans.records r = Orphans.records r' := by
  funext id
  unfold Orphans.records Orphans.concrete?
  rw [h.class?]

theorem mem_followers_iff (h : r.Alike r') (id x : EntityId) :
    x ∈ Orphans.followers r id ↔ x ∈ Orphans.followers r' id := by
  simp only [Orphans.mem_followers_iff, Orphans.mem_implementers_iff, h.class?]

theorem mem_kept_iff (h : r.Alike r') (x : EntityId) :
    x ∈ Setting.kept r o ↔ x ∈ Setting.kept r' o := by
  have hrecords : (r.objects.records ++ r.interfaces.records).Perm
      (r'.objects.records ++ r'.interfaces.records) :=
    (h.classes .object).append (h.classes .interface)
  exact ((hrecords.filter _).map _).mem_iff

end Registry.Alike

end CodeFirst
