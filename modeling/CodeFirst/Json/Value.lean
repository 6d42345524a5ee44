import CodeFirst.OrderedMap
import CodeFirst.Json.Double

/-! Values as they travel through a schema: object members keep their order, and whole numbers stay
apart from doubles. The compact text of a value is what is shown wherever JSON is printed. -/

namespace CodeFirst

/-- A JSON number: a whole number from `-2 ^ 63` to `2 ^ 64 - 1`, or a double. -/
inductive Number where
  | int (n : Int)
  | float (x : Double)
  deriving DecidableEq, Repr, Inhabited

namespace Number

/-- Numeric equality within one kind; a whole number never equals a double. -/
def same : Number → Number → Bool
  | .int a, .int b => a == b
  | .float a, .float b => a.same b
  | _, _ => false

def text : Number → List Char
  | .int n => (if n < 0 then ['-'] else []) ++ Nat.toDigits 10 n.natAbs
  | .float x => x.text

end Number

inductive Json where
  | null
  | bool (b : Bool)
  | num (n : Number)
  | str (s : String)
  | arr (items : List Json)
  | obj (members : List (String × Json))
  deriving Repr, Inhabited

namespace Json

def ofNat (n : Nat) : Json := .num (.int n)

def ofMap (m : OrderedMap String Json) : Json := .obj m.entries

mutual
/-- Equality of values: object members may come in any order. -/
def same : Json → Json → Bool
  | .null, .null => true
  | .bool a, .bool b => a == b
  | .num a, .num b => a.same b
  | .str a, .str b => a == b
  | .arr a, .arr b => sameItems a b
  | .obj a, .obj b => a.length == b.length && sameMembers a b
  | _, _ => false
termination_by structural v => v

def sameItems : List Json → List Json → Bool
  | [], [] => true
  | a :: as, b :: bs => same a b && sameItems as bs
  | _, _ => false
termination_by structural l => l

def sameMembers : List (String × Json) → List (String × Json) → Bool
  | [], _ => true
  | (k, v) :: rest, members =>
    (match lookupEntry k members with
      | some w => same v w
      | none => false) && sameMembers rest members
termination_by structural l => l
end

def hexDigit (n : Nat) : Char :=
  if n < 10 then Char.ofNat ('0'.toNat + n) else Char.ofNat ('a'.toNat + (n - 10))

/-- One character inside a quoted text: quote, backslash and control characters are escaped, all
others stand for themselves. -/
def escapeChar (c : Char) : List Char :=
  if c = '"' then ['\\', '"']
  else if c = '\\' then ['\\', '\\']
  else if c = '\n' then ['\\', 'n']
  else if c = '\r' then ['\\', 'r']
  else if c = '\t' then ['\\', 't']
  else if c = '\x08' then ['\\', 'b']
  else if c = '\x0c' then ['\\', 'f']
  else if c.toNat < 0x20 then
    ['\\', 'u', '0', '0', hexDigit (c.toNat / 16), hexDigit (c.toNat % 16)]
  else [c]

def quote (s : String) : List Char :=
  '"' :: (s.toList.flatMap escapeChar ++ ['"'])

mutual
def compact : Json → List Char
  | .null => ['n', 'u', 'l', 'l']
  | .bool true => ['t', 'r', 'u', 'e']
  | .bool false => ['f', 'a', 'l', 's', 'e']
  | .num n => n.text
  | .str s => quote s
  | .arr [] => ['[', ']']
  | .arr (v :: rest) => '[' :: (compact v ++ compactItems rest ++ [']'])
  | .obj [] => ['{', '}']
  | .obj ((k, v) :: rest) =>
    '{' :: (quote k ++ ':' :: (compact v ++ compactMembers rest ++ ['}']))
termination_by structural v => v

def compactItems : List Json → List Char
  | [] => []
  | v :: rest => ',' :: (compact v ++ compactItems rest)
termination_by structural l => l

def compactMembers : List (String × Json) → List Char
  | [] => []
  | (k, v) :: rest => ',' :: (quote k ++ ':' :: (compact v ++ compactMembers rest))
termination_by structural l => l
end

def text (v : Json) : String := String.ofList v.compact

end Json

end CodeFirst
