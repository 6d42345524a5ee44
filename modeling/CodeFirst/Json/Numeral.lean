import CodeFirst.Json.Value

/-! A numeral is cut into its digits first and valued afterwards. The first digits that fit into 64
bits make the significand; the digits after them only count as decimal places. -/

namespace CodeFirst

structure Numeral where
  negative : Bool
  whole : List Char
  fraction : Option (List Char)
  /-- The exponent's sign (negative or not) and digits. -/
  power : Option (Bool × List Char)
  deriving Repr

namespace Numeral

def digitValue (c : Char) : Nat := c.toNat - '0'.toNat

def valueOf (ds : List Char) : Nat := ds.foldl (fun n c => n * 10 + digitValue c) 0

def digits? (cs : List Char) : Option (List Char × List Char) :=
  match cs.takeWhile Char.isDigit with
  | [] => none
  | d :: ds => some (d :: ds, cs.dropWhile Char.isDigit)

def signed (cs : List Char) : Bool × List Char :=
  match cs with
  | '-' :: rest => (true, rest)
  | _ => (false, cs)

/-- A whole part has no leading zero, unless it is zero. -/
def scanWhole (cs : List Char) : Option (List Char × List Char) :=
  match digits? cs with
  | some ('0' :: _ :: _, _) => none
  | found => found

def scanFraction (cs : List Char) : Option (Option (List Char) × List Char) :=
  match cs with
  | '.' :: rest => (digits? rest).map fun (ds, rest) => (some ds, rest)
  | _ => some (none, cs)

def scanPower (cs : List Char) : Option (Option (Bool × List Char) × List Char) :=
  let scan (negative : Bool) (rest : List Char) :=
    (digits? rest).map fun (ds, rest) => (some (negative, ds), rest)
  match cs with
  | c :: rest =>
    if c = 'e' ∨ c = 'E' then
      match rest with
      | '+' :: rest => scan false rest
      | '-' :: rest => scan true rest
      | _ => scan false rest
    else some (none, cs)
  | [] => some (none, cs)

def scan (cs : List Char) : Option (Numeral × List Char) := do
  let (negative, cs) := signed cs
  let (whole, cs) ← scanWhole cs
  let (fraction, cs) ← scanFraction cs
  let (power, cs) ← scanPower cs
  return (⟨negative, whole, fraction, power⟩, cs)

/-- Takes digits into a significand as long as it stays below `2 ^ 64`; also returns the digits
that are left. -/
def gather (significand : Nat) : List Char → Nat × List Char
  | [] => (significand, [])
  | c :: rest =>
    let next := significand * 10 + digitValue c
    if next < powerOfTwo 64 then gather next rest else (significand, c :: rest)

/-- The significand and the decimal exponent of a numeral, its own exponent left out. Whole digits
that do not fit shift the point; fraction digits that do not fit are dropped. -/
def significand (x : Numeral) : Nat × Int :=
  let (s, more) := gather 0 x.whole
  let fraction := x.fraction.getD []
  let (t, dropped) := gather s fraction
  (t, (more.length : Int) - ((fraction.length : Int) - dropped.length))

/-- The value of a numeral. A whole number in the 64-bit ranges stays whole, but negative zero is a
double; `none` if the value is beyond the doubles. -/
def value? (x : Numeral) : Option Number :=
  let n := valueOf x.whole
  match x.fraction, x.power with
  | none, none =>
    if x.negative ∧ 0 < n ∧ n ≤ powerOfTwo 63 then some (.int (-n))
    else if ¬ x.negative ∧ n < powerOfTwo 64 then some (.int n)
    else
      let (s, e) := x.significand
      (Double.ofDecimal? x.negative s e).map .float
  | _, power =>
    let (s, e) := x.significand
    let e := match power with
      | none => e
      | some (true, ds) => e - valueOf ds
      | some (false, ds) => e + valueOf ds
    (Double.ofDecimal? x.negative s e).map .float

end Numeral

end CodeFirst
