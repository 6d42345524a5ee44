import CodeFirst.Json.Numeral

/-! A text is cut into tokens, and a stack of open brackets turns the tokens into a tree. The tree
keeps repeated keys, and it marks what is well written but stands for no value; whether that matters
is for the reader of the tree to say, since a part nobody looks at may hold anything. -/

namespace CodeFirst

inductive Tree where
  | null
  | bool (b : Bool)
  | num (n : Number)
  | str (s : String)
  | arr (items : List Tree)
  /-- The members in order; a key that is no valid text is `none`. -/
  | obj (members : List (Option String × Tree))
  /-- A number out of range, a text with half a surrogate pair, or nesting that is too deep. -/
  | unusable
  deriving Repr, Inhabited

namespace Tree

mutual
/-- The value a tree stands for. Of a repeated key the first place and the last value count. -/
def value? : Tree → Option Json
  | .null => some .null
  | .bool b => some (.bool b)
  | .num n => some (.num n)
  | .str s => some (.str s)
  | .arr items => (values? items).map .arr
  | .obj members => (members? members).map fun ms => .ofMap (.ofList ms)
  | .unusable => none
termination_by structural t => t

def values? : List Tree → Option (List Json)
  | [] => some []
  | t :: rest => do return (← value? t) :: (← values? rest)
termination_by structural l => l

def members? : List (Option String × Tree) → Option (List (String × Json))
  | [] => some []
  | (key, t) :: rest => do return (← key, ← value? t) :: (← members? rest)
termination_by structural l => l
end

mutual
def ofJson : Json → Tree
  | .null => .null
  | .bool b => .bool b
  | .num n => .num n
  | .str s => .str s
  | .arr items => .arr (ofItems items)
  | .obj members => .obj (ofMembers members)
termination_by structural v => v

def ofItems : List Json → List Tree
  | [] => []
  | v :: rest => ofJson v :: ofItems rest
termination_by structural l => l

def ofMembers : List (String × Json) → List (Option String × Tree)
  | [] => []
  | (k, v) :: rest => (some k, ofJson v) :: ofMembers rest
termination_by structural l => l
end

inductive Token where
  | openArray | closeArray | openObject | closeObject | comma | colon
  | null
  | bool (b : Bool)
  | num (n : Option Number)
  | str (s : Option String)
  deriving Repr

def isSpace (c : Char) : Bool := c == ' ' || c == '\n' || c == '\t' || c == '\r'

def hexValue? (c : Char) : Option Nat :=
  if '0' ≤ c ∧ c ≤ '9' then some (c.toNat - '0'.toNat)
  else if 'a' ≤ c ∧ c ≤ 'f' then some (c.toNat - 'a'.toNat + 10)
  else if 'A' ≤ c ∧ c ≤ 'F' then some (c.toNat - 'A'.toNat + 10)
  else none

def hexValues? (a b c d : Char) : Option Nat := do
  return (((← hexValue? a) * 16 + (← hexValue? b)) * 16 + (← hexValue? c)) * 16 + (← hexValue? d)

def unescape? (c : Char) : Option Char :=
  if c = '"' ∨ c = '\\' ∨ c = '/' then some c
  else if c = 'n' then some '\n'
  else if c = 'r' then some '\r'
  else if c = 't' then some '\t'
  else if c = 'b' then some '\x08'
  else if c = 'f' then some '\x0c'
  else none

/-- A quoted text up to its closing quote: each unit is a character or an escaped 16-bit unit. -/
def scanQuoted : List Char → Option (List (Char ⊕ Nat) × List Char)
  | [] => none
  | '"' :: rest => some ([], rest)
  | '\\' :: 'u' :: a :: b :: c :: d :: rest =>
    match hexValues? a b c d with
    | none => none
    | some n => (scanQuoted rest).map fun (units, more) => (.inr n :: units, more)
  | '\\' :: c :: rest =>
    match unescape? c with
    | none => none
    | some e => (scanQuoted rest).map fun (units, more) => (.inl e :: units, more)
  | c :: rest =>
    if c.toNat < 0x20 ∨ c = '\\' then none
    else (scanQuoted rest).map fun (units, more) => (.inl c :: units, more)

/-- Joins surrogate pairs; `none` if half a pair stands alone. -/
def joinUnits : List (Char ⊕ Nat) → Option (List Char)
  | [] => some []
  | .inl c :: rest => (joinUnits rest).map (c :: ·)
  | .inr n :: rest =>
    if 0xDC00 ≤ n ∧ n < 0xE000 then none
    else if 0xD800 ≤ n ∧ n < 0xDC00 then
      match rest with
      | .inr m :: rest =>
        if 0xDC00 ≤ m ∧ m < 0xE000 then
          (joinUnits rest).map
            (Char.ofNat (0x10000 + (n - 0xD800) * 0x400 + (m - 0xDC00)) :: ·)
        else none
      | _ => none
    else (joinUnits rest).map (Char.ofNat n :: ·)

def scanPlain (cs : List Char) : Option (Token × List Char) :=
  match cs with
  | '[' :: rest => some (.openArray, rest)
  | ']' :: rest => some (.closeArray, rest)
  | '{' :: rest => some (.openObject, rest)
  | '}' :: rest => some (.closeObject, rest)
  | ',' :: rest => some (.comma, rest)
  | ':' :: rest => some (.colon, rest)
  | 'n' :: 'u' :: 'l' :: 'l' :: rest => some (.null, rest)
  | 't' :: 'r' :: 'u' :: 'e' :: rest => some (.bool true, rest)
  | 'f' :: 'a' :: 'l' :: 's' :: 'e' :: rest => some (.bool false, rest)
  | cs => (Numeral.scan cs).map fun (x, rest) => (.num x.value?, rest)

theorem length_scanQuoted {cs rest : List Char} {units : List (Char ⊕ Nat)}
    (h : scanQuoted cs = some (units, rest)) : rest.length < cs.length := by
  fun_induction scanQuoted cs generalizing units rest with
  | case1 => simp at h
  | case2 r => simp at h; simp [← h.2]
  | case3 => simp at h
  | case5 => simp at h
  | case7 => simp at h
  | case4 | case6 | case8 =>
    rename_i ih
    simp only [Option.map_eq_some_iff, Prod.mk.injEq, Prod.exists] at h
    obtain ⟨_, _, hr, _, rfl⟩ := h
    have := ih hr
    simp only [List.length_cons]; omega

theorem length_digits? {cs ds rest : List Char} (h : Numeral.digits? cs = some (ds, rest)) :
    rest.length < cs.length := by
  have hl := congrArg List.length (List.takeWhile_append_dropWhile (p := Char.isDigit) (l := cs))
  unfold Numeral.digits? at h
  split at h
  · simp at h
  · next d ds' hd =>
    simp only [Option.some.injEq, Prod.mk.injEq] at h
    rw [hd, List.length_append, List.length_cons] at hl
    rw [← h.2]; omega

theorem length_scanNumeral {cs rest : List Char} {x : Numeral}
    (h : Numeral.scan cs = some (x, rest)) : rest.length < cs.length := by
  simp only [Numeral.scan, Option.bind_eq_bind, Option.pure_def, Option.bind_eq_some_iff,
    Option.some.injEq, Prod.mk.injEq, Prod.exists] at h
  obtain ⟨whole, r₁, h₁, fraction, r₂, h₂, power, r₃, h₃, _, rfl⟩ := h
  have hs : (Numeral.signed cs).2.length ≤ cs.length := by
    unfold Numeral.signed; split <;> simp
  have hw : r₁.length < (Numeral.signed cs).2.length := by
    unfold Numeral.scanWhole at h₁
    split at h₁
    · simp at h₁
    · exact length_digits? h₁
  have hf : r₂.length ≤ r₁.length := by
    unfold Numeral.scanFraction at h₂
    split at h₂
    · simp only [Option.map_eq_some_iff, Prod.mk.injEq, Prod.exists] at h₂
      obtain ⟨_, _, hd, _, rfl⟩ := h₂
      have := length_digits? hd
      simp only [List.length_cons]; omega
    · simp only [Option.some.injEq, Prod.mk.injEq] at h₂
      exact Nat.le_of_eq (congrArg List.length h₂.2.symm)
  have hp : r₃.length ≤ r₂.length := by
    unfold Numeral.scanPower at h₃
    split at h₃
    · split at h₃
      · split at h₃ <;>
        · simp only [Option.map_eq_some_iff, Prod.mk.injEq, Prod.exists] at h₃
          obtain ⟨_, _, hd, _, rfl⟩ := h₃
          have := length_digits? hd
          simp only [List.length_cons] at *; omega
      · simp only [Option.some.injEq, Prod.mk.injEq] at h₃
        exact Nat.le_of_eq (congrArg List.length h₃.2.symm)
    · simp only [Option.some.injEq, Prod.mk.injEq] at h₃
      exact Nat.le_of_eq (congrArg List.length h₃.2.symm)
  omega

theorem length_scanPlain {cs rest : List Char} {t : Token}
    (h : scanPlain cs = some (t, rest)) : rest.length < cs.length := by
  unfold scanPlain at h
  split at h
  all_goals first
    | (simp only [Option.some.injEq, Prod.mk.injEq] at h
       obtain ⟨_, rfl⟩ := h
       simp only [List.length_cons]; omega)
    | (simp only [Option.map_eq_some_iff, Prod.mk.injEq, Prod.exists] at h
       obtain ⟨_, _, hs, _, rfl⟩ := h
       exact length_scanNumeral hs)

def tokens? (cs : List Char) : Option (List Token) :=
  match cs with
  | [] => some []
  | c :: rest =>
    if isSpace c then tokens? rest
    else if c = '"' then
      match h : scanQuoted rest with
      | none => none
      | some (units, more) =>
        have := length_scanQuoted h
        (tokens? more).map (.str ((joinUnits units).map String.ofList) :: ·)
    else
      match h : scanPlain (c :: rest) with
      | none => none
      | some (t, more) =>
        have := length_scanPlain h
        (tokens? more).map (t :: ·)
termination_by cs.length
decreasing_by all_goals simp_all <;> omega

/-- An open bracket with the parts read so far, latest first. -/
inductive Frame where
  | items (done : List Tree)
  | members (done : List (Option String × Tree))
  /-- An open object whose latest key waits for its value. -/
  | member (done : List (Option String × Tree)) (key : Option String)
  deriving Repr

inductive Awaiting where
  | value
  | valueOrClose
  | key
  | keyOrClose
  | colon (key : Option String)
  /-- A complete value; a comma, a closing bracket or the end may follow. -/
  | done (t : Tree)
  deriving Repr

/-- Whether one more level inside the open brackets is within `room` levels. -/
def hasRoom : Nat → List Frame → Bool
  | 0, _ => false
  | _ + 1, [] => true
  | n + 1, _ :: stack => hasRoom n stack

/-- A bracket inside these open brackets closes; beyond `room` levels its tree is unusable. -/
def close (room : Nat) (stack : List Frame) (t : Tree) : Awaiting :=
  .done (if hasRoom room stack then t else .unusable)

def leaf? : Token → Option Tree
  | .null => some .null
  | .bool b => some (.bool b)
  | .num n => some ((n.map Tree.num).getD .unusable)
  | .str s => some ((s.map Tree.str).getD .unusable)
  | _ => none

/-- One token of a text with at most `room` levels of nesting. -/
def advance (room : Nat) : Awaiting × List Frame → Token → Option (Awaiting × List Frame)
  | (.valueOrClose, .items [] :: stack), .closeArray =>
    some (close room stack (.arr []), stack)
  | (.keyOrClose, .members [] :: stack), .closeObject =>
    some (close room stack (.obj []), stack)
  | (.value, stack), .openArray => some (.valueOrClose, .items [] :: stack)
  | (.valueOrClose, stack), .openArray => some (.valueOrClose, .items [] :: stack)
  | (.value, stack), .openObject => some (.keyOrClose, .members [] :: stack)
  | (.valueOrClose, stack), .openObject => some (.keyOrClose, .members [] :: stack)
  | (.value, stack), t => (leaf? t).map fun t => (.done t, stack)
  | (.valueOrClose, stack), t => (leaf? t).map fun t => (.done t, stack)
  | (.key, stack), .str s => some (.colon s, stack)
  | (.keyOrClose, stack), .str s => some (.colon s, stack)
  | (.colon key, .members done :: stack), .colon => some (.value, .member done key :: stack)
  | (.done t, .items done :: stack), .comma => some (.value, .items (t :: done) :: stack)
  | (.done t, .items done :: stack), .closeArray =>
    some (close room stack (.arr (t :: done).reverse), stack)
  | (.done t, .member done key :: stack), .comma =>
    some (.key, .members ((key, t) :: done) :: stack)
  | (.done t, .member done key :: stack), .closeObject =>
    some (close room stack (.obj ((key, t) :: done).reverse), stack)
  | _, _ => none

def maxDepth : Nat := 127

def read? (room : Nat) (cs : List Char) : Option Tree := do
  let tokens ← tokens? cs
  match ← tokens.foldlM (advance room) (.value, []) with
  | (.done t, []) => some t
  | _ => none

def ofText? (s : String) : Option Tree := read? maxDepth s.toList

end Tree

end CodeFirst
