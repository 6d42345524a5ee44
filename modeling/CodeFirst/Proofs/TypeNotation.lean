import CodeFirst.Schema.Basic
import CodeFirst.Schema.Name
import Mathlib.Data.Set.Function

/-! The notation of types can be read back. A reader takes the longest name or a pair of square
brackets and then every mark that follows. Where the types of a schema have distinct names, it
accepts exactly the texts of the nodes of the schema, and gives for each text its node. -/

namespace CodeFirst

theorem takeWhile_append_of_stop {p : Char → Bool} {w rest : List Char}
    (hw : ∀ c ∈ w, p c = true) (hrest : ∀ c ∈ rest.head?, p c = false) :
    (w ++ rest).takeWhile p = w ∧ (w ++ rest).dropWhile p = rest := by
  rw [List.takeWhile_append_of_pos hw, List.dropWhile_append_of_pos hw]
  cases rest with
  | nil => simp
  | cons c rest =>
    have hc : p c = false := hrest c rfl
    simp [hc]

/-- A valid name begins like a name and goes on like one. -/
theorem exists_of_isValidName {name : String} (h : isValidName name = true) : ∃ c w,
    name.toList = c :: w ∧ isNameStart c = true ∧ ∀ d ∈ name.toList, isNameContinue d = true := by
  rw [isValidName] at h
  cases hname : name.toList with
  | nil => simp [hname, isNameChars] at h
  | cons c w =>
    rw [hname, isNameChars, Bool.and_eq_true, List.all_eq_true] at h
    refine ⟨c, w, rfl, h.1, List.forall_mem_cons.2 ⟨?_, h.2⟩⟩
    rw [isNameContinue, h.1, Bool.true_or]

namespace TypeNode

def scanMarks (n : TypeNode) : List Char → TypeNode × List Char
  | '!' :: rest => scanMarks (.nonNull n) rest
  | rest => (n, rest)

/-- The node at the front of a text with every mark behind it, and what follows it. -/
def scan (place? : String → Option TypeId) : List Char → Option (TypeNode × List Char)
  | [] => none
  | c :: rest =>
    if c = '[' then
      match scan place? rest with
      | some (item, ']' :: rest) => some (scanMarks (.list item) rest)
      | _ => none
    else
      (place? (String.ofList ((c :: rest).takeWhile isNameContinue))).map fun id =>
        scanMarks (.named id) ((c :: rest).dropWhile isNameContinue)

/-- The node that a whole text denotes. -/
def ofText? (place? : String → Option TypeId) (text : String) : Option TypeNode :=
  match scan place? text.toList with
  | some (n, []) => some n
  | _ => none

variable {place? : String → Option TypeId} {name : TypeId → String} {n m : TypeNode}
  {cs rest : List Char}

theorem scan_bracket (rest : List Char) : scan place? ('[' :: rest) =
    match scan place? rest with
    | some (item, ']' :: rest) => some (scanMarks (.list item) rest)
    | _ => none := by
  simp [scan]

theorem scan_name {text : String} (hvalid : isValidName text = true)
    (hrest : ∀ c ∈ rest.head?, isNameContinue c = false) :
    scan place? (text.toList ++ rest) =
      (place? text).map fun id => scanMarks (.named id) rest := by
  obtain ⟨c, w, htext, hstart, hparts⟩ := exists_of_isValidName hvalid
  have hc : c ≠ '[' := by
    rintro rfl
    exact absurd hstart (by decide)
  obtain ⟨htake, hdrop⟩ := takeWhile_append_of_stop hparts hrest
  rw [htext, List.cons_append] at htake hdrop ⊢
  rw [scan, if_neg hc, htake, hdrop, ← htext, String.ofList_toList]

/-- The text of a node is read as the node, with the marks that follow it. -/
theorem scan_text (hvalid : isValidName (name n.base) = true)
    (hplace : place? (name n.base) = some n.base)
    (hrest : ∀ c ∈ rest.head?, isNameContinue c = false) :
    scan place? ((n.text name).toList ++ rest) = some (scanMarks n rest) := by
  induction n generalizing rest with
  | named id =>
    have hid : place? (name id) = some id := hplace
    have hname : isValidName (name id) = true := hvalid
    rw [text, scan_name hname hrest, hid, Option.map_some]
  | list item ih =>
    have hstop : ∀ c ∈ (']' :: rest).head?, isNameContinue c = false := by
      simp [isNameContinue, isNameStart]
    have htext : ((list item).text name).toList ++ rest =
        '[' :: ((item.text name).toList ++ ']' :: rest) := by simp [text]
    rw [htext, scan_bracket, ih hvalid hplace hstop]
    rfl
  | nonNull inner ih =>
    have hstop : ∀ c ∈ ('!' :: rest).head?, isNameContinue c = false := by
      simp [isNameContinue, isNameStart]
    have htext : ((nonNull inner).text name).toList ++ rest =
        (inner.text name).toList ++ '!' :: rest := by simp [text]
    rw [htext, ih hvalid hplace hstop]
    rfl

/-- Marks lose nothing of the text. -/
theorem text_of_scanMarks (name : TypeId → String) (h : scanMarks n cs = (m, rest)) :
    (n.text name).toList ++ cs = (m.text name).toList ++ rest ∧ n.base = m.base := by
  fun_induction scanMarks n cs with
  | case1 n cs ih =>
    obtain ⟨htext, hbase⟩ := ih h
    exact ⟨by simpa [text] using htext, hbase⟩
  | case2 n cs =>
    cases h
    exact ⟨rfl, rfl⟩

/-- What is read as a node is its text, and the place of its named type. -/
theorem text_of_scan (hname : ∀ text id, place? text = some id → name id = text)
    (h : scan place? cs = some (n, rest)) :
    cs = (n.text name).toList ++ rest ∧ place? (name n.base) = some n.base := by
  fun_induction scan place? cs generalizing n rest with
  | case1 => cases h
  | case2 cs item more hscan ih =>
    obtain ⟨htext, hplace⟩ := ih hscan
    obtain ⟨hmarks, hbase⟩ := text_of_scanMarks name (Option.some.inj h)
    rw [← hbase]
    refine ⟨?_, hplace⟩
    rw [htext, ← hmarks]
    simp [text]
  | case3 => cases h
  | case4 c cs hc =>
    obtain ⟨id, hid, hmarks⟩ := Option.map_eq_some_iff.1 h
    obtain ⟨htext, hbase⟩ := text_of_scanMarks name hmarks
    have hplace : name id = String.ofList ((c :: cs).takeWhile isNameContinue) := hname _ _ hid
    rw [← hbase, base, hplace]
    refine ⟨?_, hid⟩
    rw [← htext, text, hplace, String.toList_ofList, List.takeWhile_append_dropWhile]

/-- Reading accepts the texts of nodes and nothing else. -/
theorem ofText?_eq_some_iff (hvalid : ∀ text id, place? text = some id → isValidName text = true)
    (hname : ∀ text id, place? text = some id → name id = text) {text : String} :
    ofText? place? text = some n ↔
      place? (name n.base) = some n.base ∧ n.text name = text := by
  constructor
  · intro h
    rw [ofText?] at h
    split at h
    · next m hscan =>
      obtain rfl : m = n := Option.some.inj h
      obtain ⟨htext, hplace⟩ := text_of_scan hname hscan
      exact ⟨hplace, String.toList_inj.1 (by rw [htext, List.append_nil])⟩
    · cases h
  · rintro ⟨hplace, rfl⟩
    have hstop : ∀ c ∈ ([] : List Char).head?, isNameContinue c = false := by simp
    have hscan : scan place? (n.text name).toList = some (n, []) := by
      simpa [scanMarks] using scan_text (hvalid _ _ hplace) hplace hstop
    rw [ofText?, hscan]

end TypeNode

namespace Schema

def place? (s : Schema) (name : String) : Option TypeId :=
  s.types.findIdx? fun t => t.name == name

/-- The node that a text in the notation of the schema denotes. -/
def readType? (s : Schema) (text : String) : Option TypeNode := TypeNode.ofText? s.place? text

variable {s : Schema} {name : String} {i : TypeId}

theorem typeName_of_place? (h : s.place? name = some i) : i < s.size ∧ s.typeName i = name := by
  obtain ⟨hi, hname, -⟩ := List.findIdx?_eq_some_iff_getElem.1 h
  refine ⟨hi, ?_⟩
  rw [typeName, get?, List.getElem?_eq_getElem hi]
  exact eq_of_beq hname

theorem place?_typeName (hnodup : (s.types.map NamedType.name).Nodup) (hi : i < s.size) :
    s.place? (s.typeName i) = some i := by
  have hname : s.typeName i = s.types[i].name := by
    rw [typeName, get?, List.getElem?_eq_getElem hi]
    rfl
  refine List.findIdx?_eq_some_iff_getElem.2 ⟨hi, beq_iff_eq.2 hname.symm, ?_⟩
  intro j hj hsame
  have hdistinct : s.types.Pairwise fun t u => t.name ≠ u.name := List.pairwise_map.1 hnodup
  exact List.pairwise_iff_getElem.1 hdistinct j i _ hi hj ((beq_iff_eq.1 hsame).trans hname)

theorem isValidName_of_place? (hvalid : ∀ t ∈ s.types, isValidName t.name = true)
    (h : s.place? name = some i) : isValidName name = true := by
  obtain ⟨hi, hname, -⟩ := List.findIdx?_eq_some_iff_getElem.1 h
  rw [← eq_of_beq hname]
  exact hvalid _ (List.getElem_mem hi)

/-- The notation of types is unambiguous. A text can be read back exactly if it is the text of a
node of the schema, and then it is read as that node; so no two nodes have the same text. -/
theorem typeText_unambiguous (hnodup : (s.types.map NamedType.name).Nodup)
    (hvalid : ∀ t ∈ s.types, isValidName t.name = true) :
    (∀ text n, s.readType? text = some n ↔ n.base < s.size ∧ s.typeText n = text) ∧
      Set.InjOn s.typeText {n | n.base < s.size} := by
  have hreads : ∀ text n, s.readType? text = some n ↔ n.base < s.size ∧ s.typeText n = text := by
    intro text n
    rw [readType?, TypeNode.ofText?_eq_some_iff (fun _ _ => isValidName_of_place? hvalid)
      fun _ _ h => (typeName_of_place? h).2]
    exact and_congr_left fun _ => ⟨fun h => (typeName_of_place? h).1, place?_typeName hnodup⟩
  refine ⟨hreads, ?_⟩
  intro n hn m hm htext
  have hn' : s.readType? (s.typeText n) = some n := (hreads _ n).2 ⟨hn, rfl⟩
  have hm' : s.readType? (s.typeText m) = some m := (hreads _ m).2 ⟨hm, rfl⟩
  rw [htext, hm'] at hn'
  exact (Option.some.inj hn').symm

/-- Two types, the name of one of which begins with the name of the other. -/
def singularPlural : Schema :=
  ⟨[.scalar ⟨"Recipe", none, none⟩, .scalar ⟨"Recipes", none, none⟩], ∅, none, none, none, []⟩

theorem typeText_unambiguous_singularPlural :
    singularPlural.readType? "[Recipes!]!" = some (.nonNull (.list (.nonNull (.named 1)))) ∧
    singularPlural.readType? "[Recipe!]!" = some (.nonNull (.list (.nonNull (.named 0)))) ∧
    Set.InjOn singularPlural.typeText {n | n.base < singularPlural.size} := by
  have h := typeText_unambiguous (s := singularPlural) (by decide) (by decide)
  exact ⟨(h.1 _ _).2 ⟨by decide, by decide⟩, (h.1 _ _).2 ⟨by decide, by decide⟩, h.2⟩

end Schema

end CodeFirst
