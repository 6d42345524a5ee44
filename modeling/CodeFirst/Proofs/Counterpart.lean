import CodeFirst.Proofs.Content
import CodeFirst.Proofs.Order

/-! Types of one origin in two constructions that have done the same. References denote types of one
name, contributions show fields of the same content, and of the fields under one name the last one
stays in both. -/

namespace CodeFirst

theorem optionRel_of_rel {α β γ : Type} {R : α → β → Prop} {T : α → γ → Prop} {U : β → γ → Prop}
    {a? : Option α} {b? : Option β} {c? : Option γ} (h : Option.Rel R a? b?)
    (h' : Option.Rel T a? c?) (hU : ∀ a b c, R a b → T a c → U b c) : Option.Rel U b? c? := by
  cases h with
  | none =>
    cases h' with
    | none => exact .none
  | some hab =>
    cases h' with
    | some hac => exact .some (hU _ _ _ hab hac)

section Records

variable {α β κ : Type} [DecidableEq κ] {key : α → κ} {key' : β → κ}

theorem findRecord_append (k : κ) (l m : List α) :
    findRecord key k (l ++ m) = (findRecord key k l).or (findRecord key k m) := by
  induction l with
  | nil => rfl
  | cons a rest ih =>
    rw [List.cons_append, findRecord, findRecord, ih]
    split <;> rfl

theorem findRecord_eq_of_perm {l m : List α} (h : l.Perm m) (hl : (l.map key).Nodup) (k : κ) :
    findRecord key k l = findRecord key k m := by
  have hm : (m.map key).Nodup := (h.map key).nodup_iff.1 hl
  let c : Catalog key := ⟨l, hl⟩
  let d : Catalog key := ⟨m, hm⟩
  have hrecords : c.records.Perm d.records := h
  exact Catalog.get?_eq_of_perm hrecords k

variable {R : α → β → Prop}

theorem findRecord_forall₂ {l : List α} {m : List β} (h : List.Forall₂ R l m)
    (hR : ∀ a b, R a b → key a = key' b) (k : κ) :
    Option.Rel R (findRecord key k l) (findRecord key' k m) := by
  induction h with
  | nil => exact .none
  | cons hab _ ih =>
    rw [findRecord, findRecord, hR _ _ hab]
    split
    · exact .some hab
    · exact ih

theorem putRecord_forall₂ {l : List α} {m : List β} (h : List.Forall₂ R l m)
    (hR : ∀ a b, R a b → key a = key' b) {a : α} {b : β} (hab : R a b) :
    List.Forall₂ R (putRecord key a l) (putRecord key' b m) := by
  induction h with
  | nil => exact .cons hab .nil
  | cons hcd hrest ih =>
    rw [putRecord, putRecord, hR _ _ hcd, hR _ _ hab]
    split
    · exact .cons hab hrest
    · exact .cons hcd ih

namespace Catalog

theorem get?_putMany (c : Catalog key) (l : List α) (k : κ) :
    (c.putMany l).get? k = (findRecord key k l.reverse).or (c.get? k) := by
  induction l generalizing c with
  | nil => rfl
  | cons a rest ih =>
    have hput : (c.putMany (a :: rest)).get? k = ((c.put a).putMany rest).get? k := rfl
    rw [hput, ih, get?_put, List.reverse_cons, findRecord_append, Option.or_assoc]
    simp only [findRecord]
    split <;> rfl

theorem putMany_forall₂ {c : Catalog key} {d : Catalog key'}
    (h : List.Forall₂ R c.records d.records) (hR : ∀ a b, R a b → key a = key' b) {l : List α}
    {m : List β} (hlm : List.Forall₂ R l m) :
    List.Forall₂ R (c.putMany l).records (d.putMany m).records := by
  induction hlm generalizing c d with
  | nil => exact h
  | cons hab _ ih => exact ih (putRecord_forall₂ h hR hab)

theorem matched {c : Catalog key} {d : Catalog key'}
    (h : ∀ k, Option.Rel R (c.get? k) (d.get? k)) : Matched R c.records d.records := by
  refine ⟨?_, ?_⟩
  · intro a ha
    have hrel := h (key a)
    rw [get?_eq_some_iff.2 ⟨ha, rfl⟩] at hrel
    generalize hb : d.get? (key a) = b? at hrel
    cases hrel with
    | some hab => exact ⟨_, (get?_eq_some_iff.1 hb).1, hab⟩
  · intro b hb
    have hrel := h (key' b)
    rw [get?_eq_some_iff.2 ⟨hb, rfl⟩] at hrel
    generalize ha : c.get? (key' b) = a? at hrel
    cases hrel with
    | some hab => exact ⟨_, (get?_eq_some_iff.1 ha).1, hab⟩

end Catalog

end Records

namespace Contribution.Reordered

variable {l l' : List Contribution}

theorem interfaces_eq (h : Reordered l l') :
    l.filterMap interface? = l'.filterMap interface? := by
  obtain ⟨base, extra, extra', rfl, rfl, hp, -, hnone⟩ := h
  have hnone' : ∀ x ∈ extra', x.interface? = none := fun x hx => hnone x (hp.symm.subset hx)
  rw [List.filterMap_append, List.filterMap_append, List.filterMap_eq_nil_iff.2 hnone,
    List.filterMap_eq_nil_iff.2 hnone']

theorem findRecord_eq (h : Reordered l l') (name : String) :
    findRecord fieldName name (l.filter (·.interface?.isNone)).reverse =
      findRecord fieldName name (l'.filter (·.interface?.isNone)).reverse := by
  obtain ⟨base, extra, extra', rfl, rfl, hp, hnodup, hnone⟩ := h
  have hall : ∀ x ∈ extra, x.interface?.isNone = true := by
    intro x hx
    rw [hnone x hx, Option.isNone_none]
  have hall' : ∀ x ∈ extra', x.interface?.isNone = true := fun x hx => hall x (hp.symm.subset hx)
  have hreverse : extra.reverse.Perm extra'.reverse :=
    (List.reverse_perm extra).trans (hp.trans (List.reverse_perm extra').symm)
  have hnodup' : (extra.reverse.map fieldName).Nodup := by
    rw [List.map_reverse]
    exact List.nodup_reverse.2 hnodup
  rw [List.filter_append, List.filter_append, List.filter_eq_self.2 hall,
    List.filter_eq_self.2 hall', List.reverse_append, List.reverse_append, findRecord_append,
    findRecord_append, findRecord_eq_of_perm hreverse hnodup']

end Contribution.Reordered

theorem TypeNode.text_wrap {name name' : TypeId → String} {i i' : TypeId} (h : name i = name' i')
    (w : Wrapping) : (wrap i w).text name = (wrap i' w).text name' := by
  have hrequire : ∀ (b : Bool) (t t' : TypeNode), t.text name = t'.text name' →
      (requireIf b t).text name = (requireIf b t').text name' := by
    intro b t t' ht
    cases b with
    | false => exact ht
    | true => rw [requireIf, requireIf, if_pos rfl, if_pos rfl, text, text, ht]
  have hlists : ∀ first count, (inLists w.arrayNullable (.named i) first count).text name =
      (inLists w.arrayNullable (.named i') first count).text name' := by
    intro first count
    induction count generalizing first with
    | zero => exact h
    | succ n ih => rw [inLists, inLists, text, text, hrequire _ _ _ (ih (first + 1))]
  exact hrequire _ _ _ (hlists 0 w.depth)

section Shown

variable (S S' : Schema) (H H' : List Origin)

/-- Schemas in which the types of one origin stand under one name. -/
def Schema.InStep : Prop :=
  ∀ i i' x, H[i]? = some x → H'[i']? = some x → S.SamePlace S' i i'

variable {S S' H H'} (hstep : S.InStep S' H H') {o : BuildOptions} {r : Registry}

include hstep

theorem Denotes.typeText_eq {x? : Option Origin} {ref : Reference} {w : Wrapping}
    {n n' : TypeNode} (h : Denotes H x? ref w n) (h' : Denotes H' x? ref w n') :
    S.typeText n = S'.typeText n' := by
  obtain ⟨i, x, hx, hi, rfl⟩ := h
  obtain ⟨i', x', hx', hi', rfl⟩ := h'
  rw [hx, Option.some.injEq] at hx'
  subst hx'
  exact TypeNode.text_wrap (hstep i i' x hi hi').typeName _

theorem InputContribution.Shows.alike {x : InputContribution} {v v' : InputValue}
    (h : x.Shows o r H v) (h' : x.Shows o r H' v') : v.Alike S S' v' := by
  cases x with
  | parameter host name type wrapping description default =>
    obtain ⟨n, hn, rfl⟩ := h
    obtain ⟨n', hn', rfl⟩ := h'
    exact ⟨rfl, rfl, rfl, hn.typeText_eq hstep hn'⟩
  | property declaring p =>
    obtain ⟨n, hn, rfl⟩ := h
    obtain ⟨n', hn', rfl⟩ := h'
    exact ⟨rfl, rfl, rfl, hn.typeText_eq hstep hn'⟩
  | noBundle host bundle => exact h.elim

theorem Merges.alike {l : List InputContribution} {values values' : InputValues}
    (h : Merges o r H l values) (h' : Merges o r H' l values') :
    List.Forall₂ (InputValue.Alike S S') values.records values'.records := by
  obtain ⟨vs, hvs, rfl⟩ := h
  obtain ⟨vs', hvs', rfl⟩ := h'
  rw [InputValues.records, InputValues.records, OrderedMap.values_putMany,
    OrderedMap.values_putMany]
  refine Catalog.putMany_forall₂ .nil (fun _ _ hv => hv.name) ?_
  induction hvs generalizing vs' with
  | nil =>
    cases hvs'
    exact .nil
  | cons hx _ ih =>
    cases hvs' with
    | cons hx' hrest' => exact .cons (hx.alike hstep hx') (ih _ hrest')

theorem Contribution.Shows.alike {x : Contribution} {f f' : Field} (h : x.Shows o r H f)
    (h' : x.Shows o r H' f') : f.Alike S S' f' := by
  match x, h, h' with
  | .property declaring p, h, h' =>
    have hkeyed := h.keyed
    have hkeyed' := h'.keyed
    obtain ⟨n, hn, rfl⟩ := h
    obtain ⟨n', hn', rfl⟩ := h'
    refine ⟨rfl, rfl, rfl, hn.typeText_eq hstep hn', .nil, ?_, hkeyed, hkeyed'⟩
    split <;> rfl
  | .resolver b (some (ref, w)), h, h' =>
    obtain ⟨n, values, hn, hv, rfl⟩ := h
    obtain ⟨n', values', hn', hv', rfl⟩ := h'
    exact ⟨rfl, rfl, rfl, hn.typeText_eq hstep hn', hv.merges.alike hstep hv'.merges, rfl,
      hv.merges.keyed, hv'.merges.keyed⟩

theorem interfaces_alike {ids : List EntityId} {is is' : List TypeId}
    (h : List.Forall₂ (fun id i => H[i]? = some (.declared .interface id)) ids is)
    (h' : List.Forall₂ (fun id i => H'[i]? = some (.declared .interface id)) ids is') :
    List.Forall₂ (S.SamePlace S') is is' := by
  induction h generalizing is' with
  | nil =>
    cases h'
    exact .nil
  | cons hi _ ih =>
    cases h' with
    | cons hi' hrest' => exact .cons (hstep _ _ _ hi hi') (ih hrest')

/-- The last contribution of a name decides on both sides. -/
theorem fields_alike {l l' : List Contribution} (hl : Contribution.Reordered l l')
    {fs fs' : List Field}
    (h : List.Forall₂ (Contribution.Shows o r H) (l.filter (·.interface?.isNone)) fs)
    (h' : List.Forall₂ (Contribution.Shows o r H') (l'.filter (·.interface?.isNone)) fs')
    (name : String) :
    Option.Rel (Field.Alike S S') (((∅ : Catalog Field.name).putMany fs).get? name)
      (((∅ : Catalog Field.name).putMany fs').get? name) := by
  have hname : ∀ (H : List Origin) (x : Contribution) (f : Field), x.Shows o r H f →
      x.fieldName = f.name := fun _ _ _ hx => hx.name.symm
  have hshown := findRecord_forall₂ (List.forall₂_reverse_iff.2 h) (hname H) name
  have hshown' := findRecord_forall₂ (List.forall₂_reverse_iff.2 h') (hname H') name
  rw [hl.findRecord_eq] at hshown
  rw [Catalog.get?_putMany, Catalog.get?_putMany, Catalog.get?_empty, Option.or_none,
    Option.or_none]
  exact optionRel_of_rel hshown hshown' fun _ _ _ hx hx' => hx.alike hstep hx'

/-- Contributions in another order make up an object type or interface of the same content. -/
theorem Composes.alike {l l' : List Contribution} (hl : Contribution.Reordered l l')
    {c c' : Composition} (h : Composes o r H l c) (h' : Composes o r H' l' c') :
    List.Forall₂ (S.SamePlace S') c.interfaces c'.interfaces ∧
      Matched (Field.Alike S S') c.fields.records c'.fields.records := by
  obtain ⟨fs, hfs, hc⟩ := h.fields
  obtain ⟨fs', hfs', hc'⟩ := h'.fields
  refine ⟨?_, ?_⟩
  · have hinterfaces := h.interfaces
    rw [hl.interfaces_eq] at hinterfaces
    exact interfaces_alike hstep hinterfaces h'.interfaces
  · rw [hc, hc', Fields.records, Fields.records, OrderedMap.values_putMany,
      OrderedMap.values_putMany]
    exact Catalog.matched (fields_alike hstep hl hfs hfs')

end Shown

namespace Setting

variable {set set' : Setting} {S S' : Schema} {H H' : List Origin} {w w' : Wiring}

/-- One shell wired in two constructions becomes types of the same content. -/
theorem Alike.wired (h : set.Alike set') (hstep : S.InStep S' H H')
    (hroots : ∀ kind, ((set.rootBindings kind).map (·.handler.schemaName)).Nodup) {t : NamedType}
    (ht : t.IsShell set.registry) (hw : set.Wires H t.origin w) (hw' : set'.Wires H' t.origin w') :
    (t.wire w).Alike S S' (t.wire w') := by
  have hcomposes : ∀ {l l' : List Contribution} {c c' : Composition}, Contribution.Reordered l l' →
      Composes set.options set.registry H l c → Composes set'.options set'.registry H' l' c' →
      List.Forall₂ (S.SamePlace S') c.interfaces c'.interfaces ∧
        Matched (Field.Alike S S') c.fields.records c'.fields.records := by
    intro l l' c c' hl hc hc'
    have hshows := h.registry.shows (o := set.options)
    refine Composes.alike hstep hl hc ⟨hc'.interfaces, ?_⟩
    rw [hshows, h.options]
    exact hc'.fields
  have hkeyed : ∀ {c : Fields}, c.Keyed Field.name →
      ∀ x ∈ (none <|> some c : Option Fields), x.Keyed Field.name := by
    rintro c hc x ⟨⟩
    exact hc
  cases ht with
  | scalar t => exact hw.elim
  | root kind =>
    match w, w', hw, hw' with
    | .composite c, .composite c', hw, hw' =>
      obtain ⟨k, hk, hc⟩ := hw
      obtain ⟨k', hk', hc'⟩ := hw'
      have hkind := RootKind.typeName_injective hk
      have hkind' := RootKind.typeName_injective hk'
      subst hkind hkind'
      obtain ⟨hinterfaces, hfields⟩ := hcomposes (h.rootContributions (hroots kind)) hc hc'
      exact .object ⟨rfl, rfl, hinterfaces, rfl, hfields, hkeyed hc.keyed, hkeyed hc'.keyed⟩
  | declared k c known =>
    rw [NamedType.origin_shell] at hw hw'
    cases k with
    | object =>
      match w, w', hw, hw' with
      | .composite x, .composite x', hw, hw' =>
        obtain ⟨hinterfaces, hfields⟩ := hcomposes (h.contributions .object c.target) hw hw'
        exact .object ⟨rfl, rfl, hinterfaces, rfl, hfields, hkeyed (Composes.keyed hw),
          hkeyed (Composes.keyed hw')⟩
    | interface =>
      match w, w', hw, hw' with
      | .composite x, .composite x', hw, hw' =>
        obtain ⟨hinterfaces, hfields⟩ := hcomposes (h.contributions .interface c.target) hw hw'
        exact .interface ⟨rfl, rfl, hinterfaces, rfl, hfields, hkeyed (Composes.keyed hw),
          hkeyed (Composes.keyed hw')⟩
    | input =>
      match w, w', hw, hw' with
      | .input values, .input values', hw, hw' =>
        have hmerges : Merges set.options set.registry H
            (InputContribution.ofChain (set.registry.classChain .input c.target)) values := hw
        have hmerges' : Merges set'.options set'.registry H'
            (InputContribution.ofChain (set'.registry.classChain .input c.target)) values' := hw'
        rw [← h.options, ← h.registry.merges, ← h.registry.classChain] at hmerges'
        refine .input ⟨rfl, rfl, hmerges.alike hstep hmerges', ?_, ?_⟩
        · rintro x ⟨⟩
          exact hmerges.keyed
        · rintro x ⟨⟩
          exact hmerges'.keyed

namespace Abreast

variable {offered : ScalarType → Prop} {s s' : Realization}

theorem inStep (h : Abreast offered set set' s s') (hS : S.types = s.types)
    (hS' : S'.types = s'.types) : S.InStep S' s.origins s'.origins := by
  intro i i' x hi hi'
  rw [Realization.getElem?_origins] at hi hi'
  obtain ⟨t, ht, hx⟩ := Option.map_eq_some_iff.1 hi
  obtain ⟨t', ht', hx'⟩ := Option.map_eq_some_iff.1 hi'
  refine ⟨t, t', ?_, ?_, ?_⟩
  · rw [Schema.get?, hS, ht]
  · rw [Schema.get?, hS', ht']
  · rw [h.progress.coherent.name_eq (List.mem_of_getElem? ht),
      h.progress'.coherent.name_eq (List.mem_of_getElem? ht'), hx, hx', h.alike.registry.originName]

/-- Types of one origin have the same content when all is wired. -/
theorem typeAlike (h : Abreast offered set set' s s') (hS : S.types = s.types)
    (hS' : S'.types = s'.types) (hp : s.pending = []) (hp' : s'.pending = [])
    (hroots : ∀ kind, ((set.rootBindings kind).map (·.handler.schemaName)).Nodup)
    (hscalars : ∀ x y, offered x → offered y → x.name = y.name → x = y) {t t' : NamedType}
    (ht : t ∈ s.types) (ht' : t' ∈ s'.types) (ho : t.origin = t'.origin) : t.Alike S S' t' := by
  have hstep := h.inStep hS hS'
  rcases h.progress.fits_of_pending_eq_nil hp ht with hscalar | ⟨w, hw, he⟩
  · cases t with
    | scalar x =>
      have hscalar' : t'.isScalar = true := NamedType.isScalar_of_origin ho.symm
      cases t' with
      | scalar y =>
        have hname : x.name = y.name := by simpa using ho
        have hxy := hscalars x y (h.agree.below.scalars x ht) (h.agree.above.scalars y ht') hname
        rw [hxy]
        exact .scalar y
      | _ => cases hscalar'
    | _ => cases hscalar
  · have hshell := h.progress.coherent.isShell t ht
    have hshell' := h.symm.alike.registry.isShell (h.progress'.coherent.isShell t' ht')
    have hnot : t.isScalar = false := by
      cases t with
      | scalar x => exact hw.elim
      | _ => rfl
    have hunwired : t.unwired = t'.unwired := by
      refine hshell.eq_of_origin hshell' ?_ ?_
      · rw [NamedType.origin_unwired, NamedType.origin_unwired, ho]
      · cases t with
        | scalar x => cases hnot
        | _ => rfl
    rcases h.progress'.fits_of_pending_eq_nil hp' ht' with hscalar' | ⟨w', hw', he'⟩
    · have hscalar := NamedType.isScalar_of_origin
        (ho.trans (NamedType.origin_of_isScalar hscalar'))
      rw [hnot] at hscalar
      cases hscalar
    · rw [he, he', ← hunwired]
      refine h.alike.wired hstep hroots hshell ?_ ?_
      · rw [NamedType.origin_unwired]
        exact hw
      · rw [NamedType.origin_unwired, ho]
        exact hw'

/-- Schemas of constructions that have done the same are alike. -/
theorem schemaAlike (h : Abreast offered set set' s s') (hS : S.types = s.types)
    (hS' : S'.types = s'.types) (hp : s.pending = []) (hp' : s'.pending = [])
    (hroots : ∀ kind, ((set.rootBindings kind).map (·.handler.schemaName)).Nodup)
    (hscalars : ∀ x y, offered x → offered y → x.name = y.name → x = y)
    (hd : S.directives = S'.directives) : S.Alike S' := by
  have htypes : ∀ t ∈ s.types, ∀ t' ∈ s'.types, t.origin = t'.origin → t.Alike S S' t' :=
    fun _ ht _ ht' => h.typeAlike hS hS' hp hp' hroots hscalars ht ht'
  refine ⟨⟨?_, ?_⟩, ?_, ?_, hd⟩
  · rw [hS, hS']
    intro t ht
    obtain ⟨t', ht', ho⟩ := List.mem_map.1 (h.agree.below.origins _ (List.mem_map_of_mem ht))
    exact ⟨t', ht', htypes t ht t' ht' ho.symm⟩
  · rw [hS, hS']
    intro t' ht'
    obtain ⟨t, ht, ho⟩ := List.mem_map.1 (h.agree.above.origins _ (List.mem_map_of_mem ht'))
    exact ⟨t, ht, htypes t ht t' ht' ho⟩
  · rw [hS]
    exact h.progress.coherent.names_nodup
  · rw [hS']
    exact h.progress'.coherent.names_nodup

end Abreast

end Setting

end CodeFirst
