import CodeFirst.Sdl.Description
import Mathlib.Data.List.Infix

/-! Descriptions and the quotes around them. A printed description should be one block string on its
own, which is neither closed by the text in it nor left open at its end. That depends on the text:
only the quotes of a text on one line are escaped, and nothing is done about a quote or a backslash
next to the closing quotes. -/

namespace CodeFirst.Sdl

/-- The content of a block string behind its opening quotes, and what follows its closing quotes. A
backslash and three quotes stand for three quotes; the first other three quotes close it. -/
def blockText? : List Char → Option (List Char × List Char)
  | [] => none
  | '\\' :: '"' :: '"' :: '"' :: rest =>
    (blockText? rest).map fun (content, rest) => (tripleQuote ++ content, rest)
  | '"' :: '"' :: '"' :: rest => some ([], rest)
  | c :: rest => (blockText? rest).map fun (content, rest) => (c :: content, rest)

/-- The content of the block string at the front of a text, behind white space, and what follows
it. -/
def readBlock? (cs : List Char) : Option (List Char × List Char) :=
  match cs.dropWhile Char.isWhitespace with
  | '"' :: '"' :: '"' :: rest => blockText? rest
  | _ => none

/-- White space, one complete block string and a line feed. -/
def IsOneBlock (cs : List Char) : Prop := ∃ content, readBlock? cs = some (content, ['\n'])

/-- A text that closes a block string in which it stands. -/
def Closes (cs : List Char) : Prop := (blockText? cs).isSome = true

instance : DecidablePred Closes := fun _ => inferInstanceAs (Decidable (_ = true))

def trailingQuotes (cs : List Char) : Nat := (cs.reverse.takeWhile (· == '"')).length

/-- A text that leaves the closing quotes next to it alone: its last quotes can be escaped three by
three, and it does not escape what follows it. -/
def EndsWell (cs : List Char) : Prop := 3 ∣ trailingQuotes cs ∧ cs.getLast? ≠ some '\\'

instance : DecidablePred EndsWell := fun _ => inferInstanceAs (Decidable (_ ∧ _))

/-- A character that stands for itself in front of a text. -/
structure Plain (c : Char) (rest : List Char) : Prop where
  backslash : ∀ w, c = '\\' → rest ≠ '"' :: '"' :: '"' :: w
  quote : ∀ w, c = '"' → rest ≠ '"' :: '"' :: w

variable {c : Char} {cs more rest content : List Char}

theorem plain_of_ne (hbackslash : c ≠ '\\') (hquote : c ≠ '"') (rest : List Char) : Plain c rest :=
  ⟨fun _ h => absurd h hbackslash, fun _ h => absurd h hquote⟩

theorem blockText?_cons (h : Plain c rest) : blockText? (c :: rest) =
    (blockText? rest).map fun (content, rest) => (c :: content, rest) :=
  blockText?.eq_4 c rest h.backslash h.quote

/-- What is appended does not matter if it does not add a quote to the quotes behind the
character. -/
theorem Plain.append (h : Plain c rest) (hmore : more.head? ≠ some '"' ∨ 3 ≤ rest.length) :
    Plain c (rest ++ more) := by
  obtain ⟨hbackslash, hquote⟩ := h
  rcases rest with _ | ⟨d, _ | ⟨e, _ | ⟨f, rest⟩⟩⟩
  all_goals constructor <;> intro w hc hw <;> simp_all

theorem not_closes_nil : ¬ Closes [] := by decide

theorem closes_cons (h : Plain c rest) : Closes (c :: rest) ↔ Closes rest := by
  rw [Closes, blockText?_cons h, Option.isSome_map, Closes]

theorem closes_escaped : Closes ('\\' :: '"' :: '"' :: '"' :: rest) ↔ Closes rest := by
  rw [Closes, blockText?, Option.isSome_map, Closes]

theorem Closes.length (h : Closes cs) : 3 ≤ cs.length := by
  induction cs using blockText?.induct with
  | case1 => exact absurd h not_closes_nil
  | case2 rest | case3 rest => simp
  | case4 c rest hbackslash hquote ih =>
    have hrest := ih ((closes_cons ⟨hbackslash, hquote⟩).1 h)
    exact hrest.trans (Nat.le_succ _)

/-- A block string that is closed by a part of a text is closed there. -/
theorem Closes.append (h : Closes cs) (more : List Char) :
    ∃ content rest, blockText? (cs ++ more) = some (content, rest ++ more) := by
  induction cs using blockText?.induct with
  | case1 => exact absurd h not_closes_nil
  | case2 rest ih =>
    obtain ⟨content, after, ih⟩ := ih (closes_escaped.1 h)
    refine ⟨tripleQuote ++ content, after, ?_⟩
    simp [blockText?, ih]
  | case3 rest => exact ⟨[], rest, by simp [blockText?]⟩
  | case4 c rest hbackslash hquote ih =>
    have hplain : Plain c rest := ⟨hbackslash, hquote⟩
    have hrest := (closes_cons hplain).1 h
    obtain ⟨content, after, ih⟩ := ih hrest
    refine ⟨c :: content, after, ?_⟩
    rw [List.cons_append, blockText?_cons (hplain.append (.inr hrest.length)), ih]
    rfl

/-- A part of a text that does not close a block string is read over if no quote follows it. -/
theorem blockText?_append (h : ¬ Closes cs) : ∃ content, ∀ more, more.head? ≠ some '"' →
    blockText? (cs ++ more) = (blockText? more).map fun (c, rest) => (content ++ c, rest) := by
  induction cs using blockText?.induct with
  | case1 => exact ⟨[], fun more _ => by simp⟩
  | case2 rest ih =>
    obtain ⟨content, ih⟩ := ih (mt closes_escaped.2 h)
    refine ⟨tripleQuote ++ content, fun more hmore => ?_⟩
    simp [blockText?, ih more hmore, Function.comp_def]
  | case3 rest => exact absurd rfl h
  | case4 c rest hbackslash hquote ih =>
    have hplain : Plain c rest := ⟨hbackslash, hquote⟩
    obtain ⟨content, ih⟩ := ih (mt (closes_cons hplain).2 h)
    refine ⟨c :: content, fun more hmore => ?_⟩
    rw [List.cons_append, blockText?_cons (hplain.append (.inl hmore)), ih more hmore]
    simp [Function.comp_def]

theorem closes_append (hmore : more.head? ≠ some '"') :
    Closes (cs ++ more) ↔ Closes cs ∨ Closes more := by
  by_cases h : Closes cs
  · obtain ⟨content, rest, hcs⟩ := h.append more
    refine iff_of_true ?_ (.inl h)
    rw [Closes, hcs]
    rfl
  · obtain ⟨content, hcs⟩ := blockText?_append h
    rw [or_iff_right h, Closes, hcs more hmore, Option.isSome_map, Closes]

/-- The rest of a block string behind its opening quotes, and a line feed. -/
def IsRest (cs : List Char) : Prop := ∃ content, blockText? cs = some (content, ['\n'])

theorem isRest_cons (h : Plain c rest) : IsRest (c :: rest) ↔ IsRest rest := by
  simp [IsRest, blockText?_cons h]

theorem isRest_indentation (width : Nat) (cs : List Char) :
    IsRest (indentation width ++ cs) ↔ IsRest cs := by
  induction width with
  | zero => exact Iff.rfl
  | succ n ih =>
    have hplain := plain_of_ne (c := ' ') (by decide) (by decide) (indentation n ++ cs)
    rw [← ih, ← isRest_cons hplain]
    rfl

/-- Behind a line the block string goes on if the line does not close it. -/
theorem isRest_append_cons (hmore : more ≠ []) :
    IsRest (cs ++ '\n' :: more) ↔ ¬ Closes cs ∧ IsRest more := by
  have hplain := plain_of_ne (c := '\n') (by decide) (by decide) more
  by_cases h : Closes cs
  · obtain ⟨content, rest, hcs⟩ := h.append ('\n' :: more)
    refine iff_of_false ?_ fun hnot => hnot.1 h
    rintro ⟨content', hrest⟩
    rw [hcs] at hrest
    have hlength := congrArg List.length (Prod.mk.inj (Option.some.inj hrest)).2
    have hpos := List.length_pos_of_ne_nil hmore
    simp only [List.length_append, List.length_cons, List.length_nil] at hlength
    omega
  · obtain ⟨content, hcs⟩ := blockText?_append h
    have hiff : IsRest (cs ++ '\n' :: more) ↔ IsRest ('\n' :: more) := by
      simp [IsRest, hcs ('\n' :: more) (by simp)]
    rw [hiff, isRest_cons hplain, and_iff_right h]

theorem readBlock?_indentation (width : Nat) (cs : List Char) :
    readBlock? (indentation width ++ tripleQuote ++ cs) = blockText? cs := by
  have hblank : ∀ c ∈ indentation width, c.isWhitespace = true := by
    intro c hc
    rw [List.eq_of_mem_replicate hc]
    rfl
  rw [readBlock?, List.append_assoc, List.dropWhile_append_of_pos hblank]
  rfl

theorem isRest_lines (width : Nat) (ls : List (List Char)) :
    IsRest ((ls.flatMap fun line => indentation width ++ line ++ ['\n']) ++
      indentation width ++ tripleQuote ++ ['\n']) ↔ ∀ line ∈ ls, ¬ Closes line := by
  induction ls with
  | nil =>
    have h : IsRest (tripleQuote ++ ['\n']) := ⟨[], rfl⟩
    simpa using (isRest_indentation width _).2 h
  | cons line ls ih =>
    have htext : ((line :: ls).flatMap fun line => indentation width ++ line ++ ['\n']) ++
        indentation width ++ tripleQuote ++ ['\n'] = indentation width ++ (line ++ '\n' ::
          ((ls.flatMap fun line => indentation width ++ line ++ ['\n']) ++ indentation width ++
            tripleQuote ++ ['\n'])) := by simp
    rw [htext, isRest_indentation, isRest_append_cons (by simp), List.forall_mem_cons, ih]

theorem closes_dropReturn (line : List Char) :
    Closes (dropReturn line).reverse ↔ Closes line.reverse := by
  unfold dropReturn
  split
  · next line =>
    rw [List.reverse_cons, closes_append (by simp)]
    exact (or_iff_left (by decide)).symm
  · exact Iff.rfl

/-- Where a text is cut into lines does not matter: white space is no part of the quotes. -/
theorem closes_linesFrom (line cs : List Char) :
    (∃ l ∈ linesFrom line cs, Closes l) ↔ Closes (line.reverse ++ cs) := by
  induction line, cs using linesFrom.induct with
  | case1 line hline =>
    rw [List.isEmpty_iff.1 hline]
    simp [linesFrom, not_closes_nil]
  | case2 line hline => simp [linesFrom, hline]
  | case3 line rest ih =>
    have hplain := plain_of_ne (c := '\n') (by decide) (by decide) rest
    have hrest : (∃ l ∈ linesFrom [] rest, Closes l) ↔ Closes rest := ih
    rw [closes_append (by simp), closes_cons hplain, ← hrest, linesFrom]
    simp [closes_dropReturn]
  | case4 line c rest hc ih =>
    rw [linesFrom.eq_3 line c rest hc]
    simpa using ih

theorem forall_lines_not_closes (cs : List Char) :
    (∀ line ∈ lines cs, ¬ Closes line) ↔ ¬ Closes cs := by
  have h : (∃ line ∈ lines cs, Closes line) ↔ Closes cs := closes_linesFrom [] cs
  simp only [← h, not_exists, not_and]

theorem trailingQuotes_le (cs : List Char) : trailingQuotes cs ≤ cs.length := by
  rw [← List.length_reverse]
  exact (List.takeWhile_prefix _).length_le

theorem eq_replicate_of_trailingQuotes (h : trailingQuotes cs = cs.length) :
    cs = List.replicate cs.length '"' := by
  have hself : cs.reverse.takeWhile (· == '"') = cs.reverse :=
    (List.takeWhile_prefix _).eq_of_length (h.trans List.length_reverse.symm)
  refine List.eq_replicate_length.2 fun c hc => ?_
  have hall : (cs.reverse.takeWhile (· == '"')).all (· == '"') = true := List.all_takeWhile
  rw [hself, List.all_reverse] at hall
  exact eq_of_beq (List.all_eq_true.1 hall c hc)

theorem trailingQuotes_cons (h : c = '"' → trailingQuotes cs ≠ cs.length) :
    trailingQuotes (c :: cs) = trailingQuotes cs := by
  rw [trailingQuotes, List.reverse_cons, List.takeWhile_append]
  split
  · next hall =>
    have hc : c ≠ '"' := fun hc => h hc (hall.trans List.length_reverse)
    have hlength : cs.reverse.length = trailingQuotes cs := hall.symm
    simp [hc, ← hlength]
  · rfl

theorem trailingQuotes_replicate (n : Nat) : trailingQuotes (List.replicate n '"') = n := by
  simp [trailingQuotes]

theorem endsWell_quotes (cs : List Char) : EndsWell ('"' :: '"' :: '"' :: cs) ↔ EndsWell cs := by
  have hcount : 3 ∣ trailingQuotes ('"' :: '"' :: '"' :: cs) ↔ 3 ∣ trailingQuotes cs := by
    by_cases h : trailingQuotes cs = cs.length
    · rw [eq_replicate_of_trailingQuotes h, ← List.replicate_succ, ← List.replicate_succ,
        ← List.replicate_succ, trailingQuotes_replicate, trailingQuotes_replicate]
      omega
    · have hle := trailingQuotes_le cs
      have hone : trailingQuotes ('"' :: cs) = trailingQuotes cs := trailingQuotes_cons fun _ => h
      have htwo : trailingQuotes ('"' :: '"' :: cs) = trailingQuotes ('"' :: cs) :=
        trailingQuotes_cons fun _ => by rw [List.length_cons]; omega
      rw [trailingQuotes_cons fun _ => by simp only [List.length_cons]; omega, htwo, hone]
  have hlast : ('"' :: '"' :: '"' :: cs).getLast? ≠ some '\\' ↔ cs.getLast? ≠ some '\\' := by
    rcases List.eq_nil_or_concat cs with rfl | ⟨w, d, rfl⟩
    · decide
    · simp [List.getLast?_cons]
  rw [EndsWell, hcount, hlast, EndsWell]

/-- Fewer than three quotes, which are not escaped. -/
def IsShort (cs : List Char) : Prop := cs = [] ∨ cs = ['"'] ∨ cs = ['"', '"']

theorem isShort_or_of_trailingQuotes (h : trailingQuotes cs = cs.length) :
    IsShort cs ∨ ∃ w, cs = '"' :: '"' :: w := by
  rw [eq_replicate_of_trailingQuotes h]
  rcases cs.length with _ | _ | n
  · exact .inl (.inl rfl)
  · exact .inl (.inr (.inl rfl))
  · exact .inr ⟨List.replicate n '"', rfl⟩

theorem endsWell_cons (hc : ∀ w, c = '"' → rest ≠ '"' :: '"' :: w)
    (hshort : IsShort rest → c ≠ '\\' ∧ c ≠ '"') : EndsWell (c :: rest) ↔ EndsWell rest := by
  have hcount : trailingQuotes (c :: rest) = trailingQuotes rest := by
    refine trailingQuotes_cons fun hquote hall => ?_
    rcases isShort_or_of_trailingQuotes hall with h | ⟨w, hw⟩
    · exact (hshort h).2 hquote
    · exact hc w hquote hw
  have hlast : (c :: rest).getLast? ≠ some '\\' ↔ rest.getLast? ≠ some '\\' := by
    rcases List.eq_nil_or_concat rest with rfl | ⟨w, d, rfl⟩
    · simp [(hshort (.inl rfl)).1]
    · simp [List.getLast?_cons]
  rw [EndsWell, hcount, hlast, EndsWell]

theorem quote_escapeQuotes {w : List Char}
    (h : escapeQuotes cs ++ tripleQuote ++ ['\n'] = '"' :: w) :
    cs = [] ∨ ∃ x, cs = '"' :: x ∧ (∀ y, x ≠ '"' :: '"' :: y) ∧
      escapeQuotes x ++ tripleQuote ++ ['\n'] = w := by
  unfold escapeQuotes at h
  split at h
  · simp at h
  · next c rest hc =>
    rw [List.cons_append, List.cons_append] at h
    obtain ⟨rfl, hw⟩ := List.cons.inj h
    exact .inr ⟨rest, rfl, fun y => hc y rfl, hw⟩
  · exact .inl rfl

theorem isShort_or_of_escapeQuotes {w : List Char}
    (h : escapeQuotes cs ++ tripleQuote ++ ['\n'] = '"' :: '"' :: w) :
    IsShort cs ∨ ∃ x, cs = '"' :: '"' :: x ∧ ∀ y, w ≠ '"' :: y := by
  obtain rfl | ⟨x, rfl, hx, hw⟩ := quote_escapeQuotes h
  · exact .inl (.inl rfl)
  obtain rfl | ⟨x, rfl, -, hw⟩ := quote_escapeQuotes hw
  · exact .inl (.inr (.inl rfl))
  by_cases hthird : ∃ y, w = '"' :: y
  · obtain ⟨y, rfl⟩ := hthird
    obtain rfl | ⟨x, rfl, -, -⟩ := quote_escapeQuotes hw
    · exact .inl (.inr (.inr rfl))
    · exact absurd rfl (hx x)
  · exact .inr ⟨x, rfl, fun y hy => hthird ⟨y, hy⟩⟩

theorem plain_escapeQuotes (hc : ∀ w, c = '"' → rest ≠ '"' :: '"' :: w)
    (hshort : IsShort rest → c ≠ '\\' ∧ c ≠ '"') :
    Plain c (escapeQuotes rest ++ tripleQuote ++ ['\n']) := by
  constructor
  · intro w hbackslash hw
    rcases isShort_or_of_escapeQuotes hw with h | ⟨x, -, hx⟩
    · exact (hshort h).1 hbackslash
    · exact hx w rfl
  · intro w hquote hw
    rcases isShort_or_of_escapeQuotes hw with h | ⟨x, hx, -⟩
    · exact (hshort h).2 hquote
    · exact hc x hquote hx

/-- What is read of an end of a text together with the closing quotes: either these are escaped, or
the first three of the quotes close. -/
theorem not_isRest_of_isShort (hshort : IsShort rest) (hends : c = '\\' ∨ c = '"')
    (hc : ∀ w, c = '"' → rest ≠ '"' :: '"' :: w) :
    ¬ EndsWell (c :: rest) ∧ ¬ IsRest (escapeQuotes (c :: rest) ++ tripleQuote ++ ['\n']) := by
  rcases hends with rfl | rfl <;> rcases hshort with rfl | rfl | rfl
  case inr.inr.inr => exact absurd rfl (hc [] rfl)
  all_goals
    refine ⟨by decide, ?_⟩
    rintro ⟨content, h⟩
    simp [escapeQuotes, tripleQuote, blockText?] at h

theorem map_content_eq_some_iff {x : Option (List Char × List Char)} {text : List Char} {p : Prop}
    (h : ∀ content, x = some (content, more) ↔ p ∧ text = content)
    (f : List Char → List Char) (content : List Char) :
    (x.map fun (content, rest) => (f content, rest)) = some (content, more) ↔
      p ∧ f text = content := by
  rw [Option.map_eq_some_iff]
  constructor
  · rintro ⟨⟨w, rest⟩, hx, heq⟩
    obtain ⟨rfl, rfl⟩ := Prod.mk.inj heq
    obtain ⟨hp, rfl⟩ := (h w).1 hx
    exact ⟨hp, rfl⟩
  · rintro ⟨hp, rfl⟩
    exact ⟨(text, more), (h text).2 ⟨hp, rfl⟩, rfl⟩

/-- The content of a block string around an escaped text is that text, unless the closing quotes are
read together with its end. -/
theorem blockText?_escapeQuotes (text content : List Char) :
    blockText? (escapeQuotes text ++ tripleQuote ++ ['\n']) = some (content, ['\n']) ↔
      EndsWell text ∧ text = content := by
  induction text using escapeQuotes.induct generalizing content with
  | case1 rest ih =>
    have hread : blockText? (escapeQuotes ('"' :: '"' :: '"' :: rest) ++ tripleQuote ++ ['\n']) =
        (blockText? (escapeQuotes rest ++ tripleQuote ++ ['\n'])).map
          fun (content, rest) => (tripleQuote ++ content, rest) := rfl
    rw [hread, endsWell_quotes]
    exact map_content_eq_some_iff ih (tripleQuote ++ ·) content
  | case2 c rest hc ih =>
    by_cases hshort : IsShort rest → c ≠ '\\' ∧ c ≠ '"'
    · have hread : blockText? (escapeQuotes (c :: rest) ++ tripleQuote ++ ['\n']) =
          (blockText? (escapeQuotes rest ++ tripleQuote ++ ['\n'])).map
            fun (content, rest) => (c :: content, rest) := by
        rw [escapeQuotes.eq_2 c rest hc]
        exact blockText?_cons (plain_escapeQuotes hc hshort)
      rw [hread, endsWell_cons hc hshort]
      exact map_content_eq_some_iff ih (c :: ·) content
    · obtain ⟨hrest, hends⟩ := Classical.not_imp.1 hshort
      obtain ⟨hwell, hopen⟩ := not_isRest_of_isShort hrest (by tauto) hc
      exact iff_of_false (fun h => hopen ⟨content, h⟩) fun h => hwell h.1
  | case3 =>
    have hread : blockText? (tripleQuote ++ ['\n']) = some ([], ['\n']) := rfl
    have hwell : EndsWell [] := by decide
    simp [escapeQuotes, hread, hwell]

theorem infix_of_closes (h : Closes cs) : tripleQuote <:+: cs := by
  induction cs using blockText?.induct with
  | case1 => exact absurd h not_closes_nil
  | case2 rest => exact ⟨['\\'], rest, rfl⟩
  | case3 rest => exact ⟨[], rest, rfl⟩
  | case4 c rest hbackslash hquote ih =>
    have hrest := (closes_cons ⟨hbackslash, hquote⟩).1 h
    exact (ih hrest).trans (List.suffix_cons c rest).isInfix

theorem isOneBlock_descriptionText {text : List Char} (h : '\n' ∈ text) (width : Nat) :
    IsOneBlock (descriptionText width text) ↔ ¬ Closes text := by
  have hinside : IsRest ('\n' :: (((lines text).flatMap fun line => indentation width ++ line ++
      ['\n']) ++ indentation width ++ tripleQuote ++ ['\n'])) ↔ ¬ Closes text := by
    rw [isRest_cons (plain_of_ne (by decide) (by decide) _), isRest_lines, forall_lines_not_closes]
  have htext : descriptionText width text = indentation width ++ tripleQuote ++
      '\n' :: (((lines text).flatMap fun line => indentation width ++ line ++ ['\n']) ++
        indentation width ++ tripleQuote ++ ['\n']) := by
    simp [descriptionText, h]
  rw [← hinside, htext]
  simp only [IsOneBlock, IsRest, readBlock?_indentation]

theorem readBlock?_descriptionText {text : List Char} (h : '\n' ∉ text) (width : Nat)
    (content : List Char) :
    readBlock? (descriptionText width text) = some (content, ['\n']) ↔
      EndsWell text ∧ text = content := by
  have htext : descriptionText width text = indentation width ++ tripleQuote ++
      (escapeQuotes text ++ tripleQuote ++ ['\n']) := by
    simp [descriptionText, h]
  rw [htext, readBlock?_indentation, blockText?_escapeQuotes]

/-- Which descriptions are one block string on their own. With several lines the text must have no
three quotes without a backslash, as none are escaped. With one line it is the end of the text that
matters; if it ends well then the block string stands for the text itself. -/
theorem isOneBlock_description (width : Nat) (text : String) :
    (IsOneBlock (description width (some text)) ↔
      if '\n' ∈ text.toList then ¬ Closes text.toList else EndsWell text.toList) ∧
    ('\n' ∈ text.toList → ¬ tripleQuote <:+: text.toList →
      IsOneBlock (description width (some text))) ∧
    ('\n' ∉ text.toList → EndsWell text.toList →
      readBlock? (description width (some text)) = some (text.toList, ['\n'])) := by
  rw [description]
  refine ⟨?_, ?_, ?_⟩
  · split
    · next h => exact isOneBlock_descriptionText h width
    · next h => simp [IsOneBlock, readBlock?_descriptionText h]
  · intro h hquotes
    exact (isOneBlock_descriptionText h width).2 (mt infix_of_closes hquotes)
  · intro h hwell
    exact (readBlock?_descriptionText h width _).2 ⟨hwell, rfl⟩

/-- Quotes that a backslash escapes already, in a text of two lines, and three quotes at the end of
a text of one line. -/
theorem isOneBlock_description_escapedQuotes :
    IsOneBlock (description 2 (some "Strings in \\\"\"\"\nand \"\" are fine.")) ∧
    readBlock? (description 2 (some "Ends with \"\"\"")) =
      some ("Ends with \"\"\"".toList, ['\n']) :=
  ⟨(isOneBlock_description 2 "Strings in \\\"\"\"\nand \"\" are fine.").1.2 (by decide),
    (isOneBlock_description 2 "Ends with \"\"\"").2.2 (by decide) (by decide)⟩

-- a last quote is read as the first of four, and a last backslash escapes the closing quotes
example : ¬ EndsWell "A \"recipe\"".toList := by decide
example : ¬ EndsWell "Below C:\\".toList := by decide

/-- Three quotes on a line of their own close the block string around them. -/
theorem quotedLine_not_isOneBlock :
    ¬ ∀ (width : Nat) (text : String), IsOneBlock (description width (some text)) := by
  intro h
  obtain ⟨content, hread⟩ := h 0 "Text between\n\"\"\"\nis quoted."
  have hclosed : readBlock? (description 0 (some "Text between\n\"\"\"\nis quoted.")) =
      some ("\nText between\n".toList, "\nis quoted.\n\"\"\"\n".toList) := by decide
  rw [hclosed] at hread
  exact absurd (Prod.mk.inj (Option.some.inj hread)).2 (by decide)

end CodeFirst.Sdl
