import CodeFirst.Proofs.Alike
import Mathlib.Data.List.Nodup
import Mathlib.Data.List.Perm.Basic

/-! The checks of a build that read records in order: the claims on schema names, the handlers that
each class exposes, and the object types that field resolvers attach to. When the handlers of one
class have different schema names, none of them depends on the order of records. -/

namespace CodeFirst

namespace Claim

def Consistent (l : List Claim) : Prop :=
  ∀ c ∈ l, ∀ d ∈ l, c.name = d.name → c.owner = d.owner

theorem check_eq_ok_iff (made l : List Claim) (hmade : Consistent made) :
    check made l = .ok () ↔ Consistent (made ++ l) := by
  induction l generalizing made with
  | nil => simp [check, hmade]
  | cons c rest ih =>
    rw [check]
    cases hfind : made.find? (·.name == c.name) with
    | none =>
      have hnew : ∀ d ∈ made, d.name ≠ c.name := by simpa using hfind
      have hmade' : Consistent (made ++ [c]) := by
        intro d hd e he hn
        rw [List.mem_append, List.mem_singleton] at hd he
        rcases hd with hd | rfl <;> rcases he with he | rfl
        · exact hmade d hd e he hn
        · exact absurd hn (hnew d hd)
        · exact absurd hn.symm (hnew e he)
        · rfl
      have happ : made ++ [c] ++ rest = made ++ c :: rest := by simp
      rw [← happ]
      exact ih (made ++ [c]) hmade'
    | some first =>
      have hfirst : first ∈ made := List.mem_of_find?_eq_some hfind
      have hname : first.name = c.name := by simpa using List.find?_some hfind
      simp only
      split
      · next howner =>
        rw [ih made hmade]
        constructor
        · intro h
          have hcase : ∀ d ∈ made ++ c :: rest, ∃ e ∈ made ++ rest, e.name = d.name ∧
              e.owner = d.owner := by
            intro d hd
            rw [List.mem_append, List.mem_cons] at hd
            rcases hd with hd | rfl | hd
            · exact ⟨d, List.mem_append_left _ hd, rfl, rfl⟩
            · exact ⟨first, List.mem_append_left _ hfirst, hname, howner⟩
            · exact ⟨d, List.mem_append_right _ hd, rfl, rfl⟩
          intro d hd e he hn
          obtain ⟨d', hd', hdn, hdo⟩ := hcase d hd
          obtain ⟨e', he', hen, heo⟩ := hcase e he
          rw [← hdo, ← heo]
          exact h d' hd' e' he' (by rw [hdn, hen, hn])
        · intro h d hd e he hn
          have hsub : ∀ x ∈ made ++ rest, x ∈ made ++ c :: rest := by
            intro x hx
            rw [List.mem_append] at hx
            rw [List.mem_append, List.mem_cons]
            exact hx.imp id .inr
          exact h d (hsub d hd) e (hsub e he) hn
      · next howner =>
        refine ⟨fun h => by simp at h, fun h => absurd ?_ howner⟩
        exact h first (List.mem_append_left _ hfirst) c
          (List.mem_append_right _ List.mem_cons_self) hname

end Claim

theorem Registry.checkNames_eq_ok_iff (r : Registry) :
    r.checkNames = .ok () ↔ Claim.Consistent (Claim.all r) :=
  Claim.check_eq_ok_iff [] (Claim.all r) fun _ hc => absurd hc List.not_mem_nil

theorem Registry.Alike.claims {r r' : Registry} (h : r.Alike r') :
    (Claim.all r).Perm (Claim.all r') := by
  have hclaim : Claim.ofClass r = Claim.ofClass r' := by
    funext k c
    rw [Claim.ofClass, Claim.ofClass, h.entityName]
  rw [Claim.all]
  rw [hclaim]
  refine List.Perm.append ?_ (h.scalars.map _)
  refine List.Perm.flatMap_left _ ?_
  intro k _
  exact ((h.classes k.classKind).filter _).map _

theorem Registry.Alike.checkNames {r r' : Registry} (h : r.Alike r')
    (hr : r.checkNames = .ok ()) : r'.checkNames = .ok () := by
  rw [checkNames_eq_ok_iff] at hr ⊢
  intro c hc d hd
  exact hr c (h.claims.symm.subset hc) d (h.claims.symm.subset hd)

/-- What a field is called within its resolver class. -/
def Handler.place (h : Handler) : EntityId × String := (h.target, h.schemaName)

def Binding.place (b : Binding) : EntityId × String := (b.owner, b.handler.schemaName)

namespace Exposure

theorem unhidden_cons_of_mem {taken : List String} {x : Handler} (hx : x.schemaName ∈ taken)
    (l : List Handler) : unhidden taken (x :: l) = unhidden taken l := by
  rw [unhidden, if_pos hx]

theorem unhidden_cons_of_not_mem {taken : List String} {x : Handler} (hx : x.schemaName ∉ taken)
    (l : List Handler) :
    unhidden taken (x :: l) = x :: unhidden (x.schemaName :: taken) l := by
  rw [unhidden, if_neg hx]

theorem unhidden_congr {taken taken' : List String} (h : ∀ n, n ∈ taken ↔ n ∈ taken')
    (l : List Handler) : unhidden taken l = unhidden taken' l := by
  induction l generalizing taken taken' with
  | nil => rfl
  | cons x rest ih =>
    by_cases hx : x.schemaName ∈ taken
    · rw [unhidden_cons_of_mem hx, unhidden_cons_of_mem ((h _).1 hx)]
      exact ih h
    · rw [unhidden_cons_of_not_mem hx, unhidden_cons_of_not_mem fun hx' => hx ((h _).2 hx')]
      have hcons : ∀ n, n ∈ x.schemaName :: taken ↔ n ∈ x.schemaName :: taken' := by
        intro n
        rw [List.mem_cons, List.mem_cons, h]
      rw [ih hcons]

/-- Handlers of different names hide each other only behind those that come later. -/
theorem unhidden_append (taken : List String) {l : List Handler}
    (hl : (l.map (·.schemaName)).Nodup) (rest : List Handler) :
    unhidden taken (l ++ rest) = l.filter (fun h => decide (h.schemaName ∉ taken)) ++
      unhidden (l.map (·.schemaName) ++ taken) rest := by
  induction l generalizing taken with
  | nil => rfl
  | cons x l ih =>
    rw [List.map_cons, List.nodup_cons] at hl
    rw [List.cons_append, List.filter_cons, List.map_cons]
    by_cases hx : x.schemaName ∈ taken
    · have hsame : ∀ n, n ∈ l.map (·.schemaName) ++ taken ↔
          n ∈ x.schemaName :: l.map (·.schemaName) ++ taken := by
        intro n
        simp only [List.cons_append, List.mem_append, List.mem_cons]
        constructor
        · exact fun h => .inr h
        · rintro (rfl | h)
          · exact .inr hx
          · exact h
      rw [unhidden_cons_of_mem hx, if_neg (by simpa using hx), ih taken hl.2,
        unhidden_congr hsame]
    · have hsame : ∀ n, n ∈ l.map (·.schemaName) ++ x.schemaName :: taken ↔
          n ∈ x.schemaName :: l.map (·.schemaName) ++ taken := by
        intro n
        simp only [List.cons_append, List.mem_append, List.mem_cons]
        exact or_left_comm
      have hfilter : l.filter (fun h => decide (h.schemaName ∉ x.schemaName :: taken)) =
          l.filter fun h => decide (h.schemaName ∉ taken) := by
        refine List.filter_congr ?_
        intro y hy
        have hne : y.schemaName ≠ x.schemaName := fun he =>
          hl.1 (he ▸ List.mem_map_of_mem hy)
        simp [hne]
      rw [unhidden_cons_of_not_mem hx, if_pos (by simpa using hx), ih _ hl.2, hfilter,
        unhidden_congr hsame]
      rfl

theorem unhidden_names (taken : List String) (l : List Handler) :
    ((unhidden taken l).map (·.schemaName)).Nodup ∧
      ∀ h ∈ unhidden taken l, h.schemaName ∉ taken := by
  induction l generalizing taken with
  | nil => simp [unhidden]
  | cons x rest ih =>
    rw [unhidden]
    split
    · exact ih taken
    · next hx =>
      obtain ⟨hnodup, hnew⟩ := ih (x.schemaName :: taken)
      refine ⟨?_, ?_⟩
      · rw [List.map_cons, List.nodup_cons]
        refine ⟨?_, hnodup⟩
        intro hmem
        obtain ⟨y, hy, he⟩ := List.mem_map.1 hmem
        exact hnew y hy (he ▸ List.mem_cons_self)
      · intro y hy
        rcases List.mem_cons.1 hy with rfl | hy
        · exact hx
        · exact fun h => hnew y hy (List.mem_cons_of_mem _ h)

variable {l l' : List Handler}

theorem nodup_names_of_target (hl : (l.map Handler.place).Nodup) {p : Handler → Bool}
    {id : EntityId} (hp : ∀ h, p h = true → h.target = id) :
    ((l.filter p).map (·.schemaName)).Nodup := by
  have hpairs : l.Pairwise fun a b => a.place ≠ b.place := List.pairwise_map.1 hl
  refine List.pairwise_map.2 ((hpairs.filter p).imp_of_mem ?_)
  intro a b ha hb hab hn
  have hta := hp a (List.mem_filter.1 ha).2
  have htb := hp b (List.mem_filter.1 hb).2
  refine hab ?_
  rw [Handler.place, Handler.place, hta, htb, hn]

theorem unhidden_flatMap_perm (hp : l.Perm l') (hl : (l.map Handler.place).Nodup)
    (p : EntityId → Handler → Bool) (hpt : ∀ id h, p id h = true → h.target = id)
    (ids : List EntityId) {taken taken' : List String} (ht : ∀ n, n ∈ taken ↔ n ∈ taken') :
    (unhidden taken (ids.flatMap fun a => l.filter (p a))).Perm
      (unhidden taken' (ids.flatMap fun a => l'.filter (p a))) := by
  have hl' : (l'.map Handler.place).Nodup := (hp.map _).nodup_iff.1 hl
  induction ids generalizing taken taken' with
  | nil => exact .refl _
  | cons id rest ih =>
    rw [List.flatMap_cons, List.flatMap_cons,
      unhidden_append taken (nodup_names_of_target hl (hpt id)),
      unhidden_append taken' (nodup_names_of_target hl' (hpt id))]
    have hblock : (l.filter (p id)).Perm (l'.filter (p id)) := hp.filter _
    refine List.Perm.append ?_ (ih ?_)
    · have htaken : (fun h : Handler => decide (h.schemaName ∉ taken)) =
          fun h => decide (h.schemaName ∉ taken') := by
        funext h
        simp only [ht]
      rw [htaken]
      exact hblock.filter _
    · intro n
      rw [List.mem_append, List.mem_append, ht, (hblock.map _).mem_iff]

variable {r r' : Registry} {filter : ResolverFilter}

theorem bindings_perm (h : r.Alike r') (hp : l.Perm l') (hl : (l.map Handler.place).Nodup) :
    (bindings r filter l).Perm (bindings r' filter l') := by
  have hinherits : inherits r filter = inherits r' filter := by
    funext id
    unfold inherits
    rw [h.isAbstractResolver, h.resolver?]
  rw [bindings, direct, inherited]
  rw [h.isAbstractResolver, hinherits, h.entities]
  refine List.Perm.append ((hp.filter _).map _) ?_
  refine List.Perm.flatMap_left _ ?_
  intro id _
  rw [inheritedBy, candidates]
  rw [h.entities, h.isAbstractResolver]
  refine List.Perm.map _ (unhidden_flatMap_perm hp hl _ ?_ _ ?_)
  · intro a x hx
    rw [Bool.and_eq_true, beq_iff_eq] at hx
    exact hx.1
  · intro n
    exact ((hp.filter _).map _).mem_iff

/-- A class takes over each schema name once. -/
theorem nodup_places_inherited (r : Registry) (filter : ResolverFilter) (l : List Handler) :
    ((inherited r filter l).map Binding.place).Nodup := by
  rw [inherited]
  rw [List.map_flatMap, List.nodup_flatMap]
  refine ⟨?_, ?_⟩
  · intro id _
    rw [inheritedBy]
    rw [List.map_map]
    have hnames := (unhidden_names ((l.filter (·.target == id)).map (·.schemaName))
      (candidates r l id)).1
    refine List.pairwise_map.2 ((List.pairwise_map.1 hnames).imp ?_)
    intro a b hab he
    exact hab (Prod.mk.inj he).2
  · have hids : (r.entities.ids.filter (inherits r filter)).Nodup :=
      List.nodup_range.filter _
    refine hids.imp ?_
    intro a b hab x hx hx'
    obtain ⟨y, hy, rfl⟩ := List.mem_map.1 hx
    obtain ⟨z, hz, he⟩ := List.mem_map.1 hx'
    obtain ⟨u, -, rfl⟩ := List.mem_map.1 hy
    obtain ⟨v, -, rfl⟩ := List.mem_map.1 hz
    exact hab (Prod.mk.inj he).1.symm

theorem bindings_nodup (r : Registry) (filter : ResolverFilter)
    (hl : (l.map Handler.place).Nodup) : ((bindings r filter l).map Binding.place).Nodup := by
  have hdirect : ((direct r filter l).map Binding.place).Nodup := by
    have hsub : ((direct r filter l).map Binding.place).Sublist (l.map Handler.place) := by
      rw [direct]
      rw [List.map_map]
      exact List.filter_sublist.map Handler.place
    exact hsub.nodup hl
  rw [bindings]
  rw [List.map_append, List.nodup_append]
  refine ⟨hdirect, nodup_places_inherited r filter l, ?_⟩
  intro x hx y hy hxy
  subst hxy
  obtain ⟨b, hb, rfl⟩ := List.mem_map.1 hx
  obtain ⟨h, hh, rfl⟩ := List.mem_map.1 hb
  obtain ⟨c, hc, he⟩ := List.mem_map.1 hy
  obtain ⟨id, -, hid⟩ := List.mem_flatMap.1 hc
  obtain ⟨v, hv, rfl⟩ := List.mem_map.1 hid
  obtain ⟨htarget, hname⟩ := Prod.mk.inj he
  refine (unhidden_names _ _).2 v hv ?_
  refine List.mem_map.2 ⟨h, List.mem_filter.2 ⟨(List.mem_filter.1 hh).1, ?_⟩, hname.symm⟩
  rw [beq_iff_eq]
  exact htarget.symm

end Exposure

namespace Attachment

/-- The field of an object type that an attachment serves. -/
def slot (a : Attachment) : EntityId × String := (a.object, a.binding.handler.schemaName)

/-- The resolvers of one object have different names when no field is served twice. -/
theorem nodup_names {l : List Attachment} (h : (l.map slot).Nodup) (id : EntityId) :
    (((l.filter (·.object == id)).map (·.binding)).map (·.handler.schemaName)).Nodup := by
  rw [List.map_map]
  have hslots : l.Pairwise fun a b => a.slot ≠ b.slot := List.pairwise_map.1 h
  refine List.pairwise_map.2 ((hslots.filter _).imp_of_mem ?_)
  intro a b hma hmb hab hn
  have hoa : a.object = id := beq_iff_eq.1 (List.mem_filter.1 hma).2
  have hob : b.object = id := beq_iff_eq.1 (List.mem_filter.1 hmb).2
  refine hab ?_
  rw [slot, slot, hoa, hob]
  exact Prod.ext rfl hn

section Steps

variable {r : Registry} {attached : List Attachment} {b : Binding} {c : ClassRecord}

theorem attach_of_eq_none (h : Exposure.augmented? r b.owner = none)
    (attached : List Attachment) (rest : List Binding) :
    attach r attached (b :: rest) = .error (.undefinedResolverType (r.entityName b.owner)) := by
  simp only [attach, h]

theorem attach_of_new (h : Exposure.augmented? r b.owner = some c)
    (hnew : ∀ a ∈ attached, a.slot ≠ (c.target, b.handler.schemaName)) (rest : List Binding) :
    attach r attached (b :: rest) = attach r (attached ++ [⟨c.target, b⟩]) rest := by
  have hfind : attached.find? (fun a =>
      a.object == c.target && a.binding.handler.schemaName == b.handler.schemaName) = none := by
    refine List.find?_eq_none.2 ?_
    intro a ha hp
    rw [Bool.and_eq_true, beq_iff_eq, beq_iff_eq] at hp
    exact hnew a ha (Prod.ext hp.1 hp.2)
  simp only [attach, h, hfind]

/-- Another resolver of a field is passed over or refused. -/
theorem attach_of_mem (h : Exposure.augmented? r b.owner = some c)
    (hslots : (attached.map slot).Nodup) {a : Attachment} (ha : a ∈ attached)
    (hslot : a.slot = (c.target, b.handler.schemaName)) (rest : List Binding) :
    attach r attached (b :: rest) = if a.binding.owner = b.owner then attach r attached rest
      else .error (.duplicateField c.name b.handler.schemaName) := by
  obtain ⟨hobject, hname⟩ := Prod.mk.inj hslot
  cases hfind : attached.find? fun a =>
      a.object == c.target && a.binding.handler.schemaName == b.handler.schemaName with
  | none => exact absurd (by rw [hobject, hname]; simp) (List.find?_eq_none.1 hfind a ha)
  | some a' =>
    have hp := List.find?_some hfind
    rw [Bool.and_eq_true, beq_iff_eq, beq_iff_eq] at hp
    have hslot' : a'.slot = a.slot := (Prod.ext hp.1 hp.2 : a'.slot = (_, _)).trans hslot.symm
    obtain rfl : a' = a :=
      List.inj_on_of_nodup_map hslots (List.mem_of_find?_eq_some hfind) ha hslot'
    simp only [attach, h, hfind]

end Steps

def of? (r : Registry) (b : Binding) : Option Attachment :=
  (Exposure.augmented? r b.owner).map fun c => ⟨c.target, b⟩

/-- Attaching bindings of different places succeeds if each has an object type and no two serve one
field. -/
theorem attach_eq_ok_iff {r : Registry} (attached : List Attachment) {l : List Binding}
    (hplaces : (attached.map (·.binding.place) ++ l.map Binding.place).Nodup)
    (hslots : (attached.map slot).Nodup) (result : List Attachment) :
    attach r attached l = .ok result ↔
      (∀ b ∈ l, (of? r b).isSome = true) ∧ result = attached ++ l.filterMap (of? r) ∧
        (result.map slot).Nodup := by
  induction l generalizing attached with
  | nil =>
    rw [attach, Except.ok.injEq, List.filterMap_nil, List.append_nil]
    constructor
    · rintro rfl
      exact ⟨by simp, rfl, hslots⟩
    · rintro ⟨-, rfl, -⟩
      rfl
  | cons b rest ih =>
    cases hobject : Exposure.augmented? r b.owner with
    | none =>
      have hnone : of? r b = none := by rw [of?, hobject, Option.map_none]
      simp [attach_of_eq_none hobject, hnone]
    | some object =>
      have hsome : of? r b = some ⟨object.target, b⟩ := by rw [of?, hobject, Option.map_some]
      have hresult : attached ++ (b :: rest).filterMap (of? r) =
          attached ++ [⟨object.target, b⟩] ++ rest.filterMap (of? r) := by
        rw [List.filterMap_cons_some hsome, List.append_assoc, List.singleton_append]
      have hall : (∀ x ∈ b :: rest, (of? r x).isSome = true) ↔
          ∀ x ∈ rest, (of? r x).isSome = true := by
        simp [hsome]
      rw [hall, hresult]
      by_cases hnew : ∀ a ∈ attached, a.slot ≠ (object.target, b.handler.schemaName)
      · rw [attach_of_new hobject hnew]
        refine ih _ ?_ ?_
        · rw [List.map_append, List.append_assoc]
          exact hplaces
        · rw [List.map_append, List.nodup_append]
          refine ⟨hslots, by simp, ?_⟩
          intro x hx y hy hxy
          obtain ⟨a, ha, rfl⟩ := List.mem_map.1 hx
          rw [List.map_singleton, List.mem_singleton] at hy
          exact hnew a ha (hxy.trans hy)
      · simp only [not_forall, not_not] at hnew
        obtain ⟨a, ha, hslot⟩ := hnew
        have howner : a.binding.owner ≠ b.owner := by
          intro he
          have hplace : a.binding.place = b.place := Prod.ext he (Prod.mk.inj hslot).2
          exact (List.nodup_append.1 hplaces).2.2 _ (List.mem_map_of_mem ha) _
            List.mem_cons_self hplace
        rw [attach_of_mem hobject hslots ha hslot, if_neg howner]
        constructor
        · intro h
          cases h
        · rintro ⟨-, rfl, hnodup⟩
          rw [List.map_append, List.map_append] at hnodup
          have hfirst := (List.nodup_append.1 hnodup).1
          exact absurd hslot ((List.nodup_append.1 hfirst).2.2 _ (List.mem_map_of_mem ha) _
            (by simp [slot]))

/-- Attaching does not depend on the order of bindings. -/
theorem attach_perm {r r' : Registry} (h : r.Alike r') {l l' : List Binding} (hp : l.Perm l')
    (hl : (l.map Binding.place).Nodup) {result : List Attachment}
    (ha : attach r [] l = .ok result) :
    ∃ result', attach r' [] l' = .ok result' ∧ result.Perm result' ∧ (result.map slot).Nodup := by
  have hof : of? r = of? r' := by
    funext b
    unfold of? Exposure.augmented? Exposure.objectReference?
    rw [h.entities, h.resolver?, h.class?]
  have hl' : (l'.map Binding.place).Nodup := (hp.map _).nodup_iff.1 hl
  obtain ⟨hall, rfl, hnodup⟩ := (attach_eq_ok_iff [] hl List.nodup_nil result).1 ha
  have hperm : (l.filterMap (of? r)).Perm (l'.filterMap (of? r')) := by
    rw [hof]
    exact hp.filterMap _
  refine ⟨l'.filterMap (of? r'), ?_, hperm, hnodup⟩
  refine (attach_eq_ok_iff [] hl' List.nodup_nil _).2 ⟨?_, rfl, ?_⟩
  · intro b hb
    rw [← hof]
    exact hall b (hp.symm.subset hb)
  · exact (hperm.map slot).nodup_iff.1 hnodup

end Attachment

/-- Registries in which the handlers of one class have different schema names. -/
def Registry.HandlersApart (r : Registry) : Prop :=
  ∀ k, ((r.handlers k).records.map Handler.place).Nodup

structure Setting.Alike (set set' : Setting) : Prop where
  registry : set.registry.Alike set'.registry
  options : set.options = set'.options
  roots : ∀ kind, (set.rootBindings kind).Perm (set'.rootBindings kind)
  resolvers : ∀ id, (set.fieldResolvers id).Perm (set'.fieldResolvers id)
  names : ∀ id, ((set.fieldResolvers id).map (·.handler.schemaName)).Nodup

theorem Setting.Alike.symm {set set' : Setting} (h : set.Alike set') : set'.Alike set :=
  ⟨h.registry.symm, h.options.symm, fun kind => (h.roots kind).symm,
    fun id => (h.resolvers id).symm, fun id => ((h.resolvers id).map _).nodup_iff.1 (h.names id)⟩

theorem Registry.Alike.prepare {r r' : Registry} (h : r.Alike r') (hr : r.HandlersApart)
    {o : BuildOptions} {filter : ResolverFilter} {set : Setting}
    (hs : (Setting.prepare r o filter).outcome = .ok set) :
    ∃ set', (Setting.prepare r' o filter).outcome = .ok set' ∧ set.Alike set' := by
  obtain ⟨ha, hset⟩ := BuildRequest.prepare_eq_ok hs
  have hperm : ∀ k, (Exposure.exposed r filter k).result.Perm
      (Exposure.exposed r' filter k).result :=
    fun k => Exposure.bindings_perm h (h.handlers k) (hr k)
  obtain ⟨attachments, ha', hap, hnodup⟩ := Attachment.attach_perm h (hperm .field)
    (Exposure.bindings_nodup r filter (hr .field)) ha
  refine ⟨⟨r', o, filter, attachments⟩, ?_, ?_⟩
  · have hattach : (Trial.ofExcept (Attachment.attach r' []
        (Exposure.exposed r' filter .field).result)).outcome = .ok attachments := ha'
    exact (Trial.outcome_bind (Trial.outcome_ofLogged _) _).trans (Trial.outcome_bind hattach _)
  · rw [hset]
    exact ⟨h, rfl, fun kind => hperm (.root kind), fun id => (hap.filter _).map _,
      fun id => Attachment.nodup_names hnodup id⟩

end CodeFirst
