import CodeFirst.Json.Tree
import CodeFirst.Proofs.TypeNotation
import CodeFirst.Sdl.Literal

/-! Literals survive printing. A reader of value literals cuts a text into tokens, skipping white
space and commas, and keeps a stack of open brackets. It reads the literal of a value as that value,
its numbers as they are written, and stops where the literal ends. -/

namespace CodeFirst

namespace Json

mutual
/-- All keys of objects, at every depth, are valid names. -/
def NamedKeys : Json → Prop
  | .arr items => NamedKeysOfItems items
  | .obj members => NamedKeysOfMembers members
  | _ => True
termination_by structural v => v

def NamedKeysOfItems : List Json → Prop
  | [] => True
  | v :: rest => NamedKeys v ∧ NamedKeysOfItems rest
termination_by structural l => l

def NamedKeysOfMembers : List (String × Json) → Prop
  | [] => True
  | (k, v) :: rest => isValidName k = true ∧ NamedKeys v ∧ NamedKeysOfMembers rest
termination_by structural l => l
end

end Json

namespace Sdl

/-- What a value literal says. Numbers are kept as they are written. -/
inductive Literal where
  | null
  | bool (b : Bool)
  | number (text : List Char)
  | text (s : String)
  | list (items : List Literal)
  | object (members : List (String × Literal))

mutual
def Literal.ofJson : Json → Literal
  | .null => .null
  | .bool b => .bool b
  | .num n => .number n.text
  | .str s => .text s
  | .arr items => .list (Literal.ofItems items)
  | .obj members => .object (Literal.ofMembers members)
termination_by structural v => v

def Literal.ofItems : List Json → List Literal
  | [] => []
  | v :: rest => Literal.ofJson v :: Literal.ofItems rest
termination_by structural l => l

def Literal.ofMembers : List (String × Json) → List (String × Literal)
  | [] => []
  | (k, v) :: rest => (k, Literal.ofJson v) :: Literal.ofMembers rest
termination_by structural l => l
end

inductive Token where
  | openList | closeList | openObject | closeObject | colon
  | name (name : String)
  | number (text : List Char)
  | text (s : String)

/-- A character that means nothing between tokens. -/
def isIgnored (c : Char) : Bool := c == ' ' || c == '\t' || c == '\n' || c == '\r' || c == ','

def isNumberStart (c : Char) : Bool := c == '-' || c.isDigit

def isNumberPart (c : Char) : Bool :=
  isNumberStart c || c == '+' || c == '.' || c == 'e' || c == 'E'

/-- The text in front of the next quote, with its escapes undone, and what follows the quote. -/
def scanText? (cs : List Char) : Option (String × List Char) :=
  (Tree.scanQuoted cs).bind fun (units, rest) =>
    (Tree.joinUnits units).map fun s => (String.ofList s, rest)

/-- The token at the front of a text, and what follows it. Three quotes would open a block
string, which no value is printed as. -/
def token? : List Char → Option (Token × List Char)
  | [] => none
  | '[' :: rest => some (.openList, rest)
  | ']' :: rest => some (.closeList, rest)
  | '{' :: rest => some (.openObject, rest)
  | '}' :: rest => some (.closeObject, rest)
  | ':' :: rest => some (.colon, rest)
  | '"' :: '"' :: '"' :: _ => none
  | '"' :: rest => (scanText? rest).map fun (s, rest) => (.text s, rest)
  | c :: rest =>
    if isNameStart c then
      some (.name (String.ofList ((c :: rest).takeWhile isNameContinue)),
        (c :: rest).dropWhile isNameContinue)
    else if isNumberStart c then
      some (.number ((c :: rest).takeWhile isNumberPart), (c :: rest).dropWhile isNumberPart)
    else none

theorem isNameContinue_of_isNameStart {c : Char} (h : isNameStart c = true) :
    isNameContinue c = true := by
  rw [isNameContinue, h, Bool.true_or]

theorem isNumberPart_of_isNumberStart {c : Char} (h : isNumberStart c = true) :
    isNumberPart c = true := by
  simp [isNumberPart, h]

theorem length_dropWhile_lt {p : Char → Bool} {c : Char} (hc : p c = true) (rest : List Char) :
    ((c :: rest).dropWhile p).length < (c :: rest).length := by
  rw [List.dropWhile_cons_of_pos hc]
  exact Nat.lt_succ_of_le (List.dropWhile_suffix p).length_le

theorem length_scanText? {cs rest : List Char} {s : String} (h : scanText? cs = some (s, rest)) :
    rest.length < cs.length := by
  obtain ⟨⟨units, more⟩, hunits, h⟩ := Option.bind_eq_some_iff.1 h
  obtain ⟨s', -, h⟩ := Option.map_eq_some_iff.1 h
  rw [← (Prod.mk.inj h).2]
  exact Tree.length_scanQuoted hunits

theorem length_token? {cs rest : List Char} {t : Token} (h : token? cs = some (t, rest)) :
    rest.length < cs.length := by
  unfold token? at h
  split at h
  case h_1 | h_7 => cases h
  case h_2 | h_3 | h_4 | h_5 | h_6 =>
    cases h
    exact Nat.lt_succ_self _
  case h_8 more _ =>
    obtain ⟨⟨s, rest'⟩, htext, h⟩ := Option.map_eq_some_iff.1 h
    cases h
    exact Nat.lt_succ_of_lt (length_scanText? htext)
  case h_9 c more _ _ _ _ _ _ _ =>
    split_ifs at h with hname hnumber
    · cases h
      exact length_dropWhile_lt (isNameContinue_of_isNameStart hname) more
    · cases h
      exact length_dropWhile_lt (isNumberPart_of_isNumberStart hnumber) more

inductive Frame where
  | items (done : List Literal)
  | members (done : List (String × Literal))
  /-- An object whose latest key waits for its colon. -/
  | key (done : List (String × Literal)) (key : String)
  | member (done : List (String × Literal)) (key : String)

inductive Progress where
  | inside (stack : List Frame)
  | complete (v : Literal)

def awaitsValue : List Frame → Bool
  | [] | .items _ :: _ | .member .. :: _ => true
  | .members _ :: _ | .key .. :: _ => false

/-- Puts a value into the innermost open bracket, if it waits for one. -/
def place (v : Literal) : List Frame → Option Progress
  | [] => some (.complete v)
  | .items done :: stack => some (.inside (.items (v :: done) :: stack))
  | .member done key :: stack => some (.inside (.members ((key, v) :: done) :: stack))
  | _ => none

/-- The value of a token that is one by itself. Other names than these are no values. -/
def leaf? : Token → Option Literal
  | .name n =>
    if n = "null" then some .null
    else if n = "true" then some (.bool true)
    else if n = "false" then some (.bool false)
    else none
  | .number text => some (.number text)
  | .text s => some (.text s)
  | _ => none

def enter (stack : List Frame) : Token → Option Progress
  | .openList => some (.inside (.items [] :: stack))
  | .openObject => some (.inside (.members [] :: stack))
  | t => (leaf? t).bind fun v => place v stack

def advance : List Frame → Token → Option Progress
  | .items done :: stack, .closeList => place (.list done.reverse) stack
  | .members done :: stack, .closeObject => place (.object done.reverse) stack
  | .members done :: stack, .name key => some (.inside (.key done key :: stack))
  | .key done key :: stack, .colon => some (.inside (.member done key :: stack))
  | stack, t => if awaitsValue stack then enter stack t else none

def readInside (stack : List Frame) (cs : List Char) : Option (Literal × List Char) :=
  match _h : token? (cs.dropWhile isIgnored) with
  | none => none
  | some (t, rest) =>
    match advance stack t with
    | none => none
    | some (.complete v) => some (v, rest)
    | some (.inside stack) => readInside stack rest
termination_by cs.length
decreasing_by
  have hlength := (List.dropWhile_suffix isIgnored (l := cs)).length_le
  have hless := length_token? _h
  omega

/-- The value literal at the front of a text, and what follows it. -/
def readLiteral (cs : List Char) : Option (Literal × List Char) := readInside [] cs

theorem hexValue?_hexDigit : ∀ n < 16, Tree.hexValue? (Json.hexDigit n) = some n := by decide

inductive Escaped (c : Char) : List Char → Prop
  | letter {e : Char} (unescape : Tree.unescape? e = some c) : Escaped c ['\\', e]
  | code (control : c.toNat < 0x20) : Escaped c
    ['\\', 'u', '0', '0', Json.hexDigit (c.toNat / 16), Json.hexDigit (c.toNat % 16)]
  | plain (quote : c ≠ '"') (backslash : c ≠ '\\') (control : ¬ c.toNat < 0x20) : Escaped c [c]

theorem escaped_escapeChar (c : Char) : Escaped c (Json.escapeChar c) := by
  unfold Json.escapeChar
  split_ifs with hquote hbackslash hn hr ht hb hf hcontrol
  any_goals (subst c; exact .letter rfl)
  · exact .code hcontrol
  · exact .plain hquote hbackslash hcontrol

/-- One character in a quoted text is read as one unit, which stands for that character. -/
theorem Escaped.exists_unit {c : Char} {w : List Char} (h : Escaped c w) : ∃ u : Char ⊕ Nat,
    (∀ cs, Tree.scanQuoted (w ++ cs) =
      (Tree.scanQuoted cs).map fun (units, rest) => (u :: units, rest)) ∧
    ∀ units, Tree.joinUnits (u :: units) = (Tree.joinUnits units).map (c :: ·) := by
  cases h with
  | @letter e unescape =>
    refine ⟨.inl c, fun cs => ?_, fun _ => rfl⟩
    have hu : e ≠ 'u' := by
      rintro rfl
      cases unescape
    simp [Tree.scanQuoted, unescape, hu]
  | code control =>
    have hvalue : Tree.hexValues? '0' '0' (Json.hexDigit (c.toNat / 16))
        (Json.hexDigit (c.toNat % 16)) = some c.toNat := by
      have hzero : Tree.hexValue? '0' = some 0 := by decide
      have hhigh := hexValue?_hexDigit (c.toNat / 16) (by omega)
      have hlow := hexValue?_hexDigit (c.toNat % 16) (by omega)
      simp only [Tree.hexValues?, hzero, hhigh, hlow, Option.bind_eq_bind, Option.bind_some,
        Option.pure_def, Option.some.injEq]
      omega
    refine ⟨.inr c.toNat, fun cs => ?_, fun units => ?_⟩
    · simp [Tree.scanQuoted, hvalue]
    · have hlow : ¬ (0xDC00 ≤ c.toNat ∧ c.toNat < 0xE000) := by omega
      have hhigh : ¬ (0xD800 ≤ c.toNat ∧ c.toNat < 0xDC00) := by omega
      rw [Tree.joinUnits.eq_def]
      simp only [if_neg hlow, if_neg hhigh, Char.ofNat_toNat]
  | plain quote backslash control =>
    refine ⟨.inl c, fun cs => ?_, fun _ => rfl⟩
    rw [List.singleton_append, Tree.scanQuoted.eq_def]
    simp [backslash, control]

theorem exists_scanQuoted (s rest : List Char) : ∃ units,
    Tree.scanQuoted (s.flatMap Json.escapeChar ++ '"' :: rest) = some (units, rest) ∧
      Tree.joinUnits units = some s := by
  induction s with
  | nil => exact ⟨[], by simp [Tree.scanQuoted], rfl⟩
  | cons c s ih =>
    obtain ⟨units, hscan, hjoin⟩ := ih
    obtain ⟨u, hu, hc⟩ := (escaped_escapeChar c).exists_unit
    refine ⟨u :: units, ?_, ?_⟩
    · rw [List.flatMap_cons, List.append_assoc, hu, hscan]
      rfl
    · rw [hc, hjoin]
      rfl

theorem scanText?_quote (s rest : List Char) :
    scanText? (s.flatMap Json.escapeChar ++ '"' :: rest) = some (String.ofList s, rest) := by
  obtain ⟨units, hscan, hjoin⟩ := exists_scanQuoted s rest
  simp only [scanText?, hscan, Option.bind_some, hjoin, Option.map_some]

/-- The next token of a text, after what means nothing, and what follows it. -/
def NextToken (cs : List Char) (t : Token) (rest : List Char) : Prop :=
  token? (cs.dropWhile isIgnored) = some (t, rest)

variable {cs rest : List Char} {t : Token} {name : String}

theorem nextToken_of_token? {c : Char} (hc : isIgnored c = false)
    (h : token? (c :: cs) = some (t, rest)) : NextToken (c :: cs) t rest := by
  rwa [NextToken, List.dropWhile_cons_of_neg (Bool.eq_false_iff.1 hc)]

theorem isIgnored_eq_false {p : Char → Bool} (hp : [' ', '\t', '\n', '\r', ','].any p = false)
    {c : Char} (hc : p c = true) : isIgnored c = false := by
  rw [Bool.eq_false_iff]
  intro hignored
  have hmem : c ∈ [' ', '\t', '\n', '\r', ','] := by simpa [isIgnored, or_assoc] using hignored
  exact List.any_eq_false.1 hp c hmem hc

theorem isNameStart_of_isNumberStart {c : Char} (h : isNumberStart c = true) :
    isNameStart c = false := by
  simp only [isNumberStart, Bool.or_eq_true, beq_iff_eq] at h
  rcases h with rfl | h
  · decide
  · simp only [Char.isDigit, ge_iff_le, UInt32.le_iff_toNat_le, Bool.and_eq_true,
      decide_eq_true_eq] at h
    rw [Bool.eq_false_iff]
    intro hname
    simp only [isNameStart, Char.le_def, UInt32.le_iff_toNat_le, Bool.or_eq_true, Bool.and_eq_true,
      decide_eq_true_eq, beq_iff_eq] at hname
    rcases hname with (rfl | hname) | hname
    · exact absurd h.2 (by decide)
    · exact absurd (hname.1.trans h.2) (by decide)
    · exact absurd (hname.1.trans h.2) (by decide)

def marks : List Char := ['[', ']', '{', '}', ':', '"']

theorem token?_of_notMem_marks {c : Char} (hc : c ∉ marks) : token? (c :: cs) =
    if isNameStart c then
      some (.name (String.ofList ((c :: cs).takeWhile isNameContinue)),
        (c :: cs).dropWhile isNameContinue)
    else if isNumberStart c then
      some (.number ((c :: cs).takeWhile isNumberPart), (c :: cs).dropWhile isNumberPart)
    else none := by
  simp only [marks, List.mem_cons, List.not_mem_nil, or_false, not_or] at hc
  obtain ⟨h₁, h₂, h₃, h₄, h₅, h₆⟩ := hc
  exact token?.eq_9 c cs h₁ h₂ h₃ h₄ h₅ (fun _ hc => absurd hc h₆) h₆

theorem nextToken_of_isNameStart {c : Char} (h : isNameStart c = true) (cs : List Char) :
    NextToken (c :: cs) (.name (String.ofList ((c :: cs).takeWhile isNameContinue)))
      ((c :: cs).dropWhile isNameContinue) := by
  have hmarks : marks.any isNameStart = false := by decide
  have hc : c ∉ marks := fun hc => List.any_eq_false.1 hmarks c hc h
  refine nextToken_of_token? (isIgnored_eq_false (by decide) h) ?_
  rw [token?_of_notMem_marks hc, if_pos h]

theorem nextToken_of_isNumberStart {c : Char} (h : isNumberStart c = true) (cs : List Char) :
    NextToken (c :: cs) (.number ((c :: cs).takeWhile isNumberPart))
      ((c :: cs).dropWhile isNumberPart) := by
  have hmarks : marks.any isNumberStart = false := by decide
  have hc : c ∉ marks := fun hc => List.any_eq_false.1 hmarks c hc h
  have hname : ¬ isNameStart c = true := Bool.eq_false_iff.1 (isNameStart_of_isNumberStart h)
  refine nextToken_of_token? (isIgnored_eq_false (by decide) h) ?_
  rw [token?_of_notMem_marks hc, if_neg hname, if_pos h]

theorem nextToken_name (hvalid : isValidName name = true)
    (hrest : ∀ c ∈ rest.head?, isNameContinue c = false) :
    NextToken (name.toList ++ rest) (.name name) rest := by
  obtain ⟨c, w, hname, hstart, hparts⟩ := exists_of_isValidName hvalid
  obtain ⟨htake, hdrop⟩ := takeWhile_append_of_stop hparts hrest
  have h := nextToken_of_isNameStart hstart (w ++ rest)
  rwa [← List.cons_append, ← hname, htake, hdrop, String.ofList_toList] at h

theorem nextToken_quote (s : String) (hrest : rest.head? ≠ some '"') :
    NextToken (Json.quote s ++ rest) (.text s) rest := by
  have htext : scanText? (s.toList.flatMap Json.escapeChar ++ '"' :: rest) = some (s, rest) := by
    rw [scanText?_quote, String.ofList_toList]
  have hquote : Json.quote s ++ rest =
      '"' :: (s.toList.flatMap Json.escapeChar ++ '"' :: rest) := by simp [Json.quote]
  rw [hquote]
  refine nextToken_of_token? (by decide) ?_
  -- three quotes in a row would need a quote right behind the first one, and then behind the last
  have hblock : ∀ more, s.toList.flatMap Json.escapeChar ++ '"' :: rest ≠ '"' :: '"' :: more := by
    intro more h
    cases hs : s.toList with
    | nil =>
      rw [hs] at h
      have hmore : rest = '"' :: more := by simpa using h
      simp [hmore] at hrest
    | cons c w =>
      rw [hs, List.flatMap_cons, List.append_assoc] at h
      have hc := escaped_escapeChar c
      generalize Json.escapeChar c = escaped at hc h
      cases hc with
      | letter | code => simp at h
      | plain quote => exact quote (List.cons.inj h).1
  rw [token?.eq_8 _ hblock, htext]
  rfl

structure IsNumberText (w : List Char) : Prop where
  start : ∃ c ∈ w.head?, isNumberStart c = true
  parts : ∀ c ∈ w, isNumberPart c = true

theorem IsNumberText.append {w x : List Char} (h : IsNumberText w)
    (hx : ∀ c ∈ x, isNumberPart c = true) : IsNumberText (w ++ x) := by
  obtain ⟨c, hc, hstart⟩ := h.start
  refine ⟨⟨c, ?_, hstart⟩, ?_⟩
  · rw [List.head?_append, Option.mem_def.1 hc]
    rfl
  · intro d hd
    rcases List.mem_append.1 hd with hd | hd
    · exact h.parts d hd
    · exact hx d hd

theorem isNumberPart_of_isDigit {c : Char} (h : c.isDigit = true) : isNumberPart c = true :=
  isNumberPart_of_isNumberStart (by simp [isNumberStart, h])

theorem isNumberText_of_digits {w : List Char} (hne : w ≠ []) (h : ∀ c ∈ w, c.isDigit = true) :
    IsNumberText w := by
  refine ⟨?_, fun c hc => isNumberPart_of_isDigit (h c hc)⟩
  obtain ⟨c, x, rfl⟩ := List.exists_cons_of_ne_nil hne
  exact ⟨c, rfl, by simp [isNumberStart, h c]⟩

theorem isDigit_of_mem_toDigits {n : Nat} {c : Char} (h : c ∈ Nat.toDigits 10 n) :
    c.isDigit = true := Nat.isDigit_of_mem_toDigits (by decide) (by decide) h

theorem isNumberPart_of_mem_toDigits {n : Nat} {c : Char} (h : c ∈ Nat.toDigits 10 n) :
    isNumberPart c = true := isNumberPart_of_isDigit (isDigit_of_mem_toDigits h)

theorem isNumberText_take_toDigits (n k : Nat) :
    IsNumberText ((Nat.toDigits 10 n).take (k + 1)) := by
  refine isNumberText_of_digits ?_ fun c hc => isDigit_of_mem_toDigits (List.mem_of_mem_take hc)
  simp [List.take_eq_nil_iff, Nat.toDigits_ne_nil]

theorem isNumberText_toDigits (n : Nat) : IsNumberText (Nat.toDigits 10 n) :=
  isNumberText_of_digits Nat.toDigits_ne_nil fun _ => isDigit_of_mem_toDigits

theorem isNumberText_decimal (x : Double.Decimal) : IsNumberText (x.text Double.layout) := by
  have hpoint : isNumberPart '.' = true := by decide
  have hzeros : ∀ k, ∀ c ∈ List.replicate k '0', isNumberPart c = true := by
    intro k c hc
    rw [List.eq_of_mem_replicate hc]
    decide
  have hdigits : ∀ n, ∀ c ∈ Nat.toDigits 10 n, isNumberPart c = true :=
    fun _ _ => isNumberPart_of_mem_toDigits
  have hdrop : ∀ n k, ∀ c ∈ '.' :: (Nat.toDigits 10 n).drop k, isNumberPart c = true :=
    fun n k => List.forall_mem_cons.2 ⟨hpoint, fun c hc => hdigits n c (List.mem_of_mem_drop hc)⟩
  have hpower : ∀ sign, isNumberPart sign = true → ∀ n,
      ∀ c ∈ Double.layout.mark :: sign :: Nat.toDigits 10 n, isNumberPart c = true :=
    fun _ hsign n => List.forall_mem_cons.2 ⟨by decide, List.forall_mem_cons.2 ⟨hsign, hdigits n⟩⟩
  rw [Double.Decimal.text]
  dsimp only
  split_ifs with hlayout hexponent htop hsingle hnegative hnegative
  · exact ((isNumberText_toDigits _).append (hzeros _)).append (List.all_eq_true.1 (by decide))
  · exact (isNumberText_take_toDigits _ _).append (hdrop _ _)
  · have hzero : IsNumberText ['0', '.'] := ⟨⟨'0', rfl, by decide⟩, List.all_eq_true.1 (by decide)⟩
    exact hzero.append (List.forall_mem_append.2 ⟨hzeros _, hdigits _⟩)
  · rw [List.append_nil]
    exact (isNumberText_take_toDigits _ 0).append (hpower _ (by decide) _)
  · rw [List.append_nil]
    exact (isNumberText_take_toDigits _ 0).append (hpower _ (by decide) _)
  · exact ((isNumberText_take_toDigits _ 0).append (hdrop _ _)).append (hpower _ (by decide) _)
  · exact ((isNumberText_take_toDigits _ 0).append (hdrop _ _)).append (hpower _ (by decide) _)

theorem IsNumberText.signed {w : List Char} (h : IsNumberText w) (negative : Bool) :
    IsNumberText ((if negative then ['-'] else []) ++ w) := by
  cases negative with
  | false => exact h
  | true =>
    have hsign : IsNumberText ['-'] := ⟨⟨'-', rfl, by decide⟩, List.all_eq_true.1 (by decide)⟩
    exact hsign.append h.parts

theorem isNumberText_text (n : Number) : IsNumberText n.text := by
  cases n with
  | int n =>
    have h := (isNumberText_toDigits n.natAbs).signed (decide (n < 0))
    rw [Number.text]
    simpa only [decide_eq_true_eq] using h
  | float x =>
    refine IsNumberText.signed ?_ x.negative
    split
    · exact ⟨⟨'0', rfl, by decide⟩, List.all_eq_true.1 (by decide)⟩
    · exact isNumberText_decimal _

theorem nextToken_number (n : Number) (hrest : ∀ c ∈ rest.head?, isNumberPart c = false) :
    NextToken (n.text ++ rest) (.number n.text) rest := by
  obtain ⟨⟨c, hc, hstart⟩, hparts⟩ := isNumberText_text n
  obtain ⟨htake, hdrop⟩ := takeWhile_append_of_stop hparts hrest
  obtain ⟨w, hw⟩ := List.head?_eq_some_iff.1 hc
  have h := nextToken_of_isNumberStart hstart (w ++ rest)
  rwa [← List.cons_append, ← hw, htake, hdrop] at h

def delimiters : List Char := [',', ')', ']', '}', ' ', '\n']

/-- A text that may follow a value. -/
def Delimited (rest : List Char) : Prop := ∀ c ∈ rest.head?, c ∈ delimiters

namespace Delimited

variable {v : Json}

theorem head? {p : Char → Bool} (hp : delimiters.any p = false) (h : Delimited rest) :
    ∀ c ∈ rest.head?, p c = false :=
  fun c hc => Bool.eq_false_iff.2 (List.any_eq_false.1 hp c (h c hc))

theorem items (l : List Json) (rest : List Char) : Delimited (literalItems l ++ ']' :: rest) := by
  cases l <;> simp [Delimited, delimiters, literalItems]

theorem members (l : List (String × Json)) (rest : List Char) :
    Delimited (literalMembers l ++ '}' :: rest) := by
  cases l <;> simp [Delimited, delimiters, literalMembers]

end Delimited

variable {stack : List Frame} {v : Literal}

def resume : Option Progress → List Char → Option (Literal × List Char)
  | none, _ => none
  | some (.complete v), rest => some (v, rest)
  | some (.inside stack), rest => readInside stack rest

theorem resume_place_items (done : List Literal) (rest : List Char) :
    resume (place v (.items done :: stack)) rest = readInside (.items (v :: done) :: stack) rest :=
  rfl

theorem resume_place_member (done : List (String × Literal)) (rest : List Char) :
    resume (place v (.member done name :: stack)) rest =
      readInside (.members ((name, v) :: done) :: stack) rest := rfl

theorem readInside_eq (stack : List Frame) (cs : List Char) : readInside stack cs =
    match token? (cs.dropWhile isIgnored) with
    | none => none
    | some (t, rest) => resume (advance stack t) rest := by
  rw [readInside]
  split
  · next hnone => rw [hnone]
  · next t rest hsome =>
    rw [hsome]
    change _ = resume (advance stack t) rest
    rcases advance stack t with _ | _ | _ <;> rfl

theorem readInside_skip {c : Char} (hc : isIgnored c = true) :
    readInside stack (c :: cs) = readInside stack cs := by
  rw [readInside_eq, List.dropWhile_cons_of_pos hc, ← readInside_eq]

theorem readInside_of_nextToken (h : NextToken cs t rest) :
    readInside stack cs = resume (advance stack t) rest := by
  rw [readInside_eq, h]

theorem readInside_mark (t : Token) {c : Char} (hc : isIgnored c = false)
    (h : token? (c :: cs) = some (t, cs)) :
    readInside stack (c :: cs) = resume (advance stack t) cs :=
  readInside_of_nextToken (nextToken_of_token? hc h)

theorem advance_of_awaitsValue (hs : awaitsValue stack = true) (ht : t ≠ .closeList) :
    advance stack t = enter stack t := by
  rcases stack with _ | ⟨_ | _ | _ | _, stack⟩
  · cases t <;> rfl
  · cases t <;> first | rfl | exact absurd rfl ht
  · cases hs
  · cases hs
  · cases t <;> rfl

theorem readInside_leaf (hs : awaitsValue stack = true) (h : NextToken cs t rest)
    (ht : leaf? t = some v) : readInside stack cs = resume (place v stack) rest := by
  have hclose : t ≠ .closeList := by
    rintro rfl
    cases ht
  have henter : enter stack t = place v stack := by
    rw [enter.eq_3 stack t (by rintro rfl; cases ht) (by rintro rfl; cases ht), ht]
    rfl
  rw [readInside_of_nextToken h, advance_of_awaitsValue hs hclose, henter]

theorem readInside_openList (hs : awaitsValue stack = true) :
    readInside stack ('[' :: cs) = readInside (.items [] :: stack) cs := by
  rw [readInside_mark .openList rfl rfl, advance_of_awaitsValue hs (by simp)]
  rfl

theorem readInside_openObject (hs : awaitsValue stack = true) :
    readInside stack ('{' :: cs) = readInside (.members [] :: stack) cs := by
  rw [readInside_mark .openObject rfl rfl, advance_of_awaitsValue hs (by simp)]
  rfl

theorem readInside_closeList (done : List Literal) : readInside (.items done :: stack) (']' :: cs) =
    resume (place (.list done.reverse) stack) cs :=
  readInside_mark .closeList rfl rfl

theorem readInside_closeObject (done : List (String × Literal)) :
    readInside (.members done :: stack) ('}' :: cs) =
      resume (place (.object done.reverse) stack) cs :=
  readInside_mark .closeObject rfl rfl

theorem readInside_comma (stack : List Frame) (cs : List Char) :
    readInside stack (',' :: ' ' :: cs) = readInside stack cs := by
  rw [readInside_skip rfl, readInside_skip rfl]

theorem readInside_key (hvalid : isValidName name = true) (done : List (String × Literal)) :
    readInside (.members done :: stack) (name.toList ++ ':' :: ' ' :: cs) =
      readInside (.member done name :: stack) cs := by
  have hstop : ∀ c ∈ (':' :: ' ' :: cs).head?, isNameContinue c = false := by
    simp [isNameContinue, isNameStart]
  have hcolon : readInside (.key done name :: stack) (':' :: ' ' :: cs) =
      readInside (.member done name :: stack) (' ' :: cs) := readInside_mark .colon rfl rfl
  rw [readInside_of_nextToken (nextToken_name hvalid hstop)]
  exact hcolon.trans (readInside_skip rfl)

theorem readInside_word (word : String) (hvalid : isValidName word = true)
    (hword : leaf? (.name word) = some v) (hs : awaitsValue stack = true) (hrest : Delimited rest) :
    readInside stack (word.toList ++ rest) = resume (place v stack) rest :=
  readInside_leaf hs (nextToken_name hvalid (hrest.head? (by decide))) hword

mutual
/-- The literal of a value is read as that value, whatever brackets are open. -/
theorem readInside_literal : ∀ (v : Json), v.NamedKeys → ∀ {stack : List Frame},
    awaitsValue stack = true → ∀ {rest : List Char}, Delimited rest →
    readInside stack (literal v ++ rest) = resume (place (.ofJson v) stack) rest
  | .null, _, stack, hs, rest, hrest => readInside_word "null" (by decide) rfl hs hrest
  | .bool true, _, stack, hs, rest, hrest =>
    readInside_word "true" (by decide) rfl hs hrest
  | .bool false, _, stack, hs, rest, hrest =>
    readInside_word "false" (by decide) rfl hs hrest
  | .num n, _, stack, hs, rest, hrest =>
    readInside_leaf hs (nextToken_number n (hrest.head? (by decide))) rfl
  | .str s, _, stack, hs, rest, hrest => by
    have hquote : rest.head? ≠ some '"' := fun h => absurd (hrest _ h) (by decide)
    exact readInside_leaf hs (nextToken_quote s hquote) rfl
  | .arr [], _, stack, hs, rest, _ => by
    have hopen : readInside stack ('[' :: ']' :: rest) = _ := readInside_openList hs
    exact hopen.trans (readInside_closeList [])
  | .arr (v :: l), hkeys, stack, hs, rest, _ => by
    have hfirst : readInside (.items [] :: stack) (literal v ++ (literalItems l ++ ']' :: rest)) =
      _ := readInside_literal v hkeys.1 rfl (Delimited.items l rest)
    have htext : literal (.arr (v :: l)) ++ rest =
        '[' :: (literal v ++ (literalItems l ++ ']' :: rest)) := by simp [literal]
    rw [htext, readInside_openList hs, hfirst]
    exact readInside_items l hkeys.2
  | .obj [], _, stack, hs, rest, _ => by
    have hopen : readInside stack ('{' :: '}' :: rest) = _ := readInside_openObject hs
    exact hopen.trans (readInside_closeObject [])
  | .obj ((k, v) :: l), hkeys, stack, hs, rest, _ => by
    have hfirst : readInside (.member [] k :: stack)
      (literal v ++ (literalMembers l ++ '}' :: rest)) = _ :=
        readInside_literal v hkeys.2.1 rfl (Delimited.members l rest)
    have htext : literal (.obj ((k, v) :: l)) ++ rest =
        '{' :: (k.toList ++ ':' :: ' ' :: (literal v ++ (literalMembers l ++ '}' :: rest))) := by
      simp [literal]
    rw [htext, readInside_openObject hs, readInside_key hkeys.1, hfirst]
    exact readInside_members l hkeys.2.2

theorem readInside_items : ∀ (l : List Json), Json.NamedKeysOfItems l →
    ∀ {done : List Literal} {stack : List Frame} {rest : List Char},
    readInside (.items done :: stack) (literalItems l ++ ']' :: rest) =
      resume (place (.list (done.reverse ++ Literal.ofItems l)) stack) rest
  | [], _, done, stack, rest => by
    rw [Literal.ofItems, List.append_nil]
    exact readInside_closeList done
  | v :: l, hkeys, done, stack, rest => by
    have hfirst : readInside (.items done :: stack) (literal v ++ (literalItems l ++ ']' :: rest)) =
      _ := readInside_literal v hkeys.1 rfl (Delimited.items l rest)
    have htext : literalItems (v :: l) ++ ']' :: rest =
        ',' :: ' ' :: (literal v ++ (literalItems l ++ ']' :: rest)) := by simp [literalItems]
    rw [htext, readInside_comma, hfirst, resume_place_items, readInside_items l hkeys.2]
    simp [Literal.ofItems]

theorem readInside_members : ∀ (l : List (String × Json)), Json.NamedKeysOfMembers l →
    ∀ {done : List (String × Literal)} {stack : List Frame} {rest : List Char},
    readInside (.members done :: stack) (literalMembers l ++ '}' :: rest) =
      resume (place (.object (done.reverse ++ Literal.ofMembers l)) stack) rest
  | [], _, done, stack, rest => by
    rw [Literal.ofMembers, List.append_nil]
    exact readInside_closeObject done
  | (k, v) :: l, hkeys, done, stack, rest => by
    have hfirst : readInside (.member done k :: stack)
      (literal v ++ (literalMembers l ++ '}' :: rest)) = _ :=
        readInside_literal v hkeys.2.1 rfl (Delimited.members l rest)
    have htext : literalMembers ((k, v) :: l) ++ '}' :: rest =
        ',' :: ' ' :: (k.toList ++ ':' :: ' ' ::
          (literal v ++ (literalMembers l ++ '}' :: rest))) := by simp [literalMembers]
    rw [htext, readInside_comma, readInside_key hkeys.1, hfirst, resume_place_member,
      readInside_members l hkeys.2.2]
    simp [Literal.ofMembers]
end

end Sdl

end CodeFirst
