import CodeFirst.Document.TypeText
import Mathlib.Data.List.DropRight
import Mathlib.Logic.Function.Iterate

/-! Which texts are types. A type text is a bare name or the text of an item type in square
brackets, with any white space around every layer. Reading one gives as many lists as there are
pairs of brackets, around what the name stands for; any other text is refused for the innermost
layer that is neither a bare name nor closed by a bracket. -/

namespace CodeFirst

namespace Text

variable {cs t l r : List Char}

theorem trimLeft_append (hl : ∀ c ∈ l, isBlank c = true) : trimLeft (l ++ cs) = trimLeft cs :=
  List.dropWhile_append_of_pos hl

theorem trimRight_append (hr : ∀ c ∈ r, isBlank c = true) : trimRight (cs ++ r) = trimRight cs := by
  have hreverse : ∀ c ∈ r.reverse, isBlank c = true := fun c hc => hr c (List.mem_reverse.1 hc)
  rw [trimRight, List.reverse_append, List.dropWhile_append_of_pos hreverse, trimRight]

theorem trimmed_both (ht : trim t = t) : trimLeft t = t ∧ trimRight t = t := by
  have hsuffix : trimLeft t <:+ t := List.dropWhile_suffix _
  have hprefix : trim t <+: trimLeft t := List.rdropWhile_prefix _ _
  have hlength : t.length ≤ (trimLeft t).length := by simpa only [ht] using hprefix.length_le
  have hleft : trimLeft t = t := hsuffix.eq_of_length_le hlength
  exact ⟨hleft, by rwa [trim, hleft] at ht⟩

theorem trim_around (hl : ∀ c ∈ l, isBlank c = true) (hr : ∀ c ∈ r, isBlank c = true)
    (ht : trim t = t) : trim (l ++ t ++ r) = t := by
  obtain ⟨hleft, hright⟩ := trimmed_both ht
  have hmiddle : trimRight (trimLeft (t ++ r)) = t := by
    cases t with
    | nil => rw [← List.append_nil r, List.nil_append, trimLeft_append hr]; rfl
    | cons c w =>
      have hc : ¬ isBlank c = true := List.dropWhile_eq_self_iff.1 hleft (Nat.succ_pos _)
      rw [List.cons_append, trimLeft, List.dropWhile_cons_of_neg hc, ← List.cons_append,
        trimRight_append hr, hright]
  rw [List.append_assoc, trim, trimLeft_append hl, hmiddle]

end Text

namespace Document

/-- A name as it stands in a type text, without white space around it. -/
structure Bare (text : List Char) : Prop where
  nonempty : text ≠ []
  unbracketed : text.head? ≠ some '['
  allowed : ∀ c ∈ text, c ≠ ']' ∧ c ≠ '!' ∧ c ≠ ' '

/-- A text that is neither a bare name nor closed by the bracket that it opens with. -/
structure Flawed (text : List Char) : Prop where
  notBare : ¬ Bare text
  unclosed : ∀ item, text ≠ '[' :: (item ++ [']'])

/-- The texts of types. -/
inductive IsTypeText : List Char → Prop
  | name {cs : List Char} (bare : Bare (Text.trim cs)) : IsTypeText cs
  | list {cs item : List Char} (brackets : Text.trim cs = '[' :: (item ++ [']']))
    (inside : IsTypeText item) : IsTypeText cs

/-- What stands inside a number of bracket pairs at both ends of a text. -/
inductive Inside : Nat → List Char → List Char → Prop
  | here (cs : List Char) : Inside 0 cs cs
  | bracket {depth : Nat} {cs item text : List Char}
    (brackets : Text.trim cs = '[' :: (item ++ [']'])) (inside : Inside depth item text) :
    Inside (depth + 1) cs text

/-- What a name stands for: the entity that has it, or else the scalar of this name. -/
inductive Names (scope : Scope) (name : String) : Reference → Prop
  | entity {id : EntityId} (declared : scope.get? name = some id) : Names scope name (.declared id)
  | scalar (undeclared : scope.get? name = none) : Names scope name (.scalar name)

variable {scope : Scope} {cs item text : List Char} {name : String} {ref : Reference}
  {e : DocumentError}

theorem names_iff : Names scope name ref ↔ ref = nameReference scope name := by
  rw [nameReference]
  constructor
  · rintro (⟨h⟩ | ⟨h⟩) <;> simp [h]
  · rintro rfl
    cases h : scope.get? name with
    | some id => exact .entity h
    | none => exact .scalar h

theorem bare_iff : Bare text ↔
    text.head? ≠ some '[' ∧ (text.isEmpty || text.any isForbidden) = false := by
  have hallowed : (∀ c ∈ text, c ≠ ']' ∧ c ≠ '!' ∧ c ≠ ' ') ↔ text.any isForbidden = false := by
    simp [isForbidden, and_assoc]
  rw [Bool.or_eq_false_iff, List.isEmpty_eq_false_iff, ← hallowed]
  exact ⟨fun h => ⟨h.unbracketed, h.nonempty, h.allowed⟩, fun h => ⟨h.2.1, h.1, h.2.2⟩⟩

theorem beforeClosing?_eq_some_iff {rest : List Char} :
    beforeClosing? rest = some item ↔ rest = item ++ [']'] := by
  rw [beforeClosing?]
  constructor
  · intro h
    split_ifs at h with hlast
    rw [← Option.some.inj h, List.dropLast_append_getLast? _ hlast]
  · rintro rfl
    simp

/-- A text is bracketed, a bare name, or flawed. -/
inductive Layer : List Char → Prop
  | brackets (item : List Char) : Layer ('[' :: (item ++ [']']))
  | bare {text : List Char} (h : Bare text) : Layer text
  | flawed {text : List Char} (h : Flawed text) : Layer text

theorem layer (text : List Char) : Layer text := by
  by_cases hbare : Bare text
  · exact .bare hbare
  · by_cases hitem : ∃ item, text = '[' :: (item ++ [']'])
    · obtain ⟨item, rfl⟩ := hitem
      exact .brackets item
    · exact .flawed ⟨hbare, not_exists.1 hitem⟩

theorem readType_of_brackets (h : Text.trim cs = '[' :: (item ++ [']'])) :
    readType scope cs = (readType scope item).map .list := by
  rw [readType]
  split
  · next rest hrest =>
    obtain rfl : rest = item ++ [']'] := (List.cons.inj (hrest.symm.trans h)).2
    split
    · next hnone => simp [beforeClosing?] at hnone
    · next item' hitem =>
      rw [List.append_cancel_right (beforeClosing?_eq_some_iff.1 hitem)]
  · next hne => exact absurd h (hne _)

theorem readType_of_bare (h : Bare (Text.trim cs)) :
    readType scope cs = .ok (nameReference scope (String.ofList (Text.trim cs))) := by
  obtain ⟨hhead, hallowed⟩ := bare_iff.1 h
  rw [readType]
  split
  · next rest ht => simp [ht] at hhead
  · rw [hallowed]; rfl

theorem readType_of_flawed (h : Flawed (Text.trim cs)) :
    readType scope cs = .error (.invalidType (String.ofList (Text.trim cs))) := by
  rw [readType]
  split
  · next rest ht =>
    split
    · rw [ht]
    · next item hitem =>
      rw [beforeClosing?_eq_some_iff.1 hitem] at ht
      exact absurd ht (h.unclosed item)
  · next hne =>
    have hhead : (Text.trim cs).head? ≠ some '[' := by
      intro hsome
      obtain ⟨rest, hrest⟩ := List.head?_eq_some_iff.1 hsome
      exact hne rest hrest
    rw [if_pos]
    by_contra hallowed
    exact h.notBare (bare_iff.2 ⟨hhead, Bool.eq_false_iff.2 hallowed⟩)

theorem length_lt_of_brackets (h : Text.trim cs = '[' :: (item ++ [']'])) :
    item.length < cs.length := by
  have hle := Text.length_trim_le cs
  rw [h, List.length_cons, List.length_append] at hle
  omega

/-- Going inside as far as the brackets lead ends at a bare name or at a flawed text. -/
theorem exists_inside (cs : List Char) :
    ∃ depth text, Inside depth cs text ∧ (Bare (Text.trim text) ∨ Flawed (Text.trim text)) := by
  induction hn : cs.length using Nat.strongRecOn generalizing cs with
  | ind n ih =>
    subst hn
    generalize htrim : Text.trim cs = outermost
    cases layer outermost with
    | brackets item =>
      obtain ⟨depth, text, hinside, hend⟩ := ih _ (length_lt_of_brackets htrim) item rfl
      exact ⟨depth + 1, text, .bracket htrim hinside, hend⟩
    | bare h => exact ⟨0, cs, .here cs, .inl (htrim ▸ h)⟩
    | flawed h => exact ⟨0, cs, .here cs, .inr (htrim ▸ h)⟩

theorem isTypeText_iff :
    IsTypeText cs ↔ ∃ depth text, Inside depth cs text ∧ Bare (Text.trim text) := by
  constructor
  · intro h
    induction h with
    | @name cs bare => exact ⟨0, cs, .here cs, bare⟩
    | list brackets _ ih =>
      obtain ⟨depth, text, hinside, hbare⟩ := ih
      exact ⟨depth + 1, text, .bracket brackets hinside, hbare⟩
  · rintro ⟨depth, text, hinside, hbare⟩
    induction hinside with
    | here cs => exact .name hbare
    | bracket brackets _ ih => exact .list brackets (ih hbare)

/-- Each pair of brackets is one list. -/
theorem readType_of_inside {depth : Nat} (h : Inside depth cs text) :
    readType scope cs = (readType scope text).map Reference.list^[depth] := by
  induction h with
  | here cs => cases readType scope cs <;> rfl
  | bracket brackets _ ih =>
    rw [readType_of_brackets brackets, ih, Function.iterate_succ']
    cases readType scope _ <;> rfl

theorem readType_eq_ok_iff : readType scope cs = .ok ref ↔ ∃ depth text base,
    Inside depth cs text ∧ Bare (Text.trim text) ∧
      Names scope (String.ofList (Text.trim text)) base ∧ ref = Reference.list^[depth] base := by
  constructor
  · intro h
    obtain ⟨depth, text, hinside, hbare | hflawed⟩ := exists_inside cs
    · rw [readType_of_inside hinside, readType_of_bare hbare] at h
      exact ⟨depth, text, _, hinside, hbare, names_iff.2 rfl, (Except.ok.inj h).symm⟩
    · rw [readType_of_inside hinside, readType_of_flawed hflawed] at h
      cases h
  · rintro ⟨depth, text, base, hinside, hbare, hbase, rfl⟩
    rw [readType_of_inside hinside, readType_of_bare hbare, ← names_iff.1 hbase]
    rfl

theorem exists_readType_eq_ok_iff : (∃ ref, readType scope cs = .ok ref) ↔ IsTypeText cs := by
  rw [isTypeText_iff]
  constructor
  · rintro ⟨ref, h⟩
    obtain ⟨depth, text, base, hinside, hbare, -⟩ := readType_eq_ok_iff.1 h
    exact ⟨depth, text, hinside, hbare⟩
  · rintro ⟨depth, text, hinside, hbare⟩
    exact ⟨_, readType_eq_ok_iff.2 ⟨depth, text, _, hinside, hbare, names_iff.2 rfl, rfl⟩⟩

/-- All other texts are refused, for the layer where the brackets lead no further. -/
theorem not_isTypeText_iff : ¬ IsTypeText cs ↔ ∃ depth text,
    Inside depth cs text ∧ Flawed (Text.trim text) ∧
      readType scope cs = .error (.invalidType (String.ofList (Text.trim text))) := by
  constructor
  · intro h
    obtain ⟨depth, text, hinside, hbare | hflawed⟩ := exists_inside cs
    · exact absurd (isTypeText_iff.2 ⟨depth, text, hinside, hbare⟩) h
    · refine ⟨depth, text, hinside, hflawed, ?_⟩
      rw [readType_of_inside hinside, readType_of_flawed hflawed]
      rfl
  · rintro ⟨depth, text, -, -, herror⟩ h
    obtain ⟨ref, hok⟩ : ∃ ref, readType scope cs = .ok ref := exists_readType_eq_ok_iff.2 h
    rw [hok] at herror
    cases herror

structure Padding where
  before : List Char
  after : List Char
  blank_before : before.all Text.isBlank = true
  blank_after : after.all Text.isBlank = true

def Padding.around (p : Padding) (text : List Char) : List Char := p.before ++ text ++ p.after

/-- A name in as many brackets as there are outer layers, each layer with its own white space. -/
def layered (name : List Char) (innermost : Padding) : List Padding → List Char
  | [] => innermost.around name
  | p :: rest => p.around ('[' :: (layered name innermost rest ++ [']']))

theorem trim_brackets (item : List Char) :
    Text.trim ('[' :: (item ++ [']'])) = '[' :: (item ++ [']']) := by
  have hopening : ¬ Text.isBlank '[' = true := by decide
  have hclosing : ¬ Text.isBlank ']' = true := by decide
  have hright : Text.trimRight ('[' :: item ++ [']']) = '[' :: item ++ [']'] :=
    List.rdropWhile_concat_neg _ _ _ hclosing
  rw [Text.trim, Text.trimLeft, List.dropWhile_cons_of_neg hopening]
  exact hright

theorem Padding.trim_around (p : Padding) {text : List Char} (h : Text.trim text = text) :
    Text.trim (p.around text) = text :=
  Text.trim_around (List.all_eq_true.1 p.blank_before) (List.all_eq_true.1 p.blank_after) h

theorem inside_layered (name : List Char) (innermost : Padding) (outer : List Padding) :
    Inside outer.length (layered name innermost outer) (innermost.around name) := by
  induction outer with
  | nil => exact .here _
  | cons p rest ih =>
    exact .bracket (p.trim_around (trim_brackets _)) ih

theorem readType_layered {base : Reference} (innermost : Padding) (outer : List Padding)
    (hbare : Bare name.toList) (htrim : Text.trim name.toList = name.toList)
    (hbase : Names scope name base) : readType scope (layered name.toList innermost outer) =
      .ok (Reference.list^[outer.length] base) := by
  have hname : Text.trim (innermost.around name.toList) = name.toList :=
    innermost.trim_around htrim
  refine readType_eq_ok_iff.2 ⟨_, _, base, inside_layered _ innermost outer, ?_, ?_, rfl⟩
  · rwa [hname]
  · rwa [hname, String.ofList_toList]

/-- Reading accepts exactly the texts of types. Each pair of brackets gives one list, and the name
inside gives its entity, or else a scalar. All other texts are refused as invalid. So a name in
brackets is read back as it was written, whatever white space stands around the layers. -/
theorem readType_reads (scope : Scope) :
    (∀ cs, (∃ ref, readType scope cs = .ok ref) ↔ IsTypeText cs) ∧
    (∀ cs ref, readType scope cs = .ok ref ↔ ∃ depth text base, Inside depth cs text ∧
      Bare (Text.trim text) ∧ Names scope (String.ofList (Text.trim text)) base ∧
        ref = Reference.list^[depth] base) ∧
    (∀ cs, ¬ IsTypeText cs ↔ ∃ depth text, Inside depth cs text ∧ Flawed (Text.trim text) ∧
      readType scope cs = .error (.invalidType (String.ofList (Text.trim text)))) ∧
    ∀ (name : String) (base : Reference) (innermost : Padding) (outer : List Padding),
      Bare name.toList → Text.trim name.toList = name.toList → Names scope name base →
        readType scope (layered name.toList innermost outer) =
          .ok (Reference.list^[outer.length] base) :=
  ⟨fun _ => exists_readType_eq_ok_iff, fun _ _ => readType_eq_ok_iff, fun _ => not_isTypeText_iff,
    fun _ _ innermost outer hbare htrim hbase => readType_layered innermost outer hbare htrim hbase⟩

theorem readType_reads_recipe :
    layered "Recipe".toList ⟨['\t'], [], by decide, by decide⟩
        [⟨[' '], ['\n'], by decide, by decide⟩, ⟨[' ', ' '], [' '], by decide, by decide⟩] =
      " [  [\tRecipe] ]\n".toList ∧
    readType (.ofList [("Recipe", 0)]) " [  [\tRecipe] ]\n".toList =
      .ok (.list (.list (.declared 0))) := by
  have hbare : Bare "Recipe".toList := ⟨by decide, by decide, by simp⟩
  refine ⟨by decide, ?_⟩
  exact (readType_reads (.ofList [("Recipe", 0)])).2.2.2 "Recipe" (.declared 0)
    ⟨['\t'], [], by decide, by decide⟩
    [⟨[' '], ['\n'], by decide, by decide⟩, ⟨[' ', ' '], [' '], by decide, by decide⟩]
    hbare (by decide) (.entity (by decide))

end Document

end CodeFirst
