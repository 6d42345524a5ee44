/-! A finite double is a sign, a whole mantissa and a power of two. Rounding a quotient to the
nearest double, and finding the shortest decimal that rounds back to a double, are done in exact
whole number arithmetic. -/

namespace CodeFirst

/-- The number `± mantissa · 2 ^ exponent`. Doubles made by rounding are in canonical form: the
mantissa is below `2 ^ 53`, the exponent is between `-1074` and `971`, and the mantissa is at least
`2 ^ 52` unless the exponent is `-1074`. -/
structure Double where
  negative : Bool
  mantissa : Nat
  exponent : Int
  deriving DecidableEq, Repr, Inhabited

/-- The whole number nearest to `n / d`; halfway cases go to the even neighbour. -/
def roundHalfEven (n d : Nat) : Nat :=
  let q := n / d
  let r := n % d
  if 2 * r < d then q
  else if d < 2 * r then q + 1
  else if q % 2 = 0 then q else q + 1

def powerOfTwo (k : Nat) : Nat := Nat.pow 2 k
def powerOfTen (k : Nat) : Nat := Nat.pow 10 k

/-- The fraction `n / d` divided by `2 ^ e`, as numerator and denominator. -/
def scaleFraction (n d : Nat) (e : Int) : Nat × Nat :=
  if 0 ≤ e then (n, d * powerOfTwo e.toNat) else (n * powerOfTwo (-e).toNat, d)

namespace Double

def zero (negative : Bool) : Double := ⟨negative, 0, -1074⟩

def isZero (x : Double) : Bool := x.mantissa == 0

def negate (x : Double) : Double := { x with negative := !x.negative }

def fraction (x : Double) : Nat × Nat :=
  if 0 ≤ x.exponent then (x.mantissa * powerOfTwo x.exponent.toNat, 1)
  else (x.mantissa, powerOfTwo (-x.exponent).toNat)

/-- The double nearest to `± n / d`, or `none` if it lies beyond the largest one. -/
def nearest? (negative : Bool) (n d : Nat) : Option Double :=
  if n = 0 then some (zero negative) else
  let guess : Int := (n.log2 : Int) - (d.log2 : Int) - 52
  let (n₀, d₀) := scaleFraction n d guess
  let fitted := if powerOfTwo 52 * d₀ ≤ n₀ then guess else guess - 1
  let e := max fitted (-1074)
  let (n₁, d₁) := scaleFraction n d e
  let m := roundHalfEven n₁ d₁
  let (m, e) := if m = powerOfTwo 53 then (powerOfTwo 52, e + 1) else (m, e)
  if 971 < e then none else some ⟨negative, m, e⟩

/-- Numeric equality: the two zeros are equal. -/
def same (x y : Double) : Bool := x == y || (x.isZero && y.isZero)

def roundedPowerOfTen (k : Nat) : Nat × Nat :=
  ((nearest? false (powerOfTen k) 1).getD (zero false)).fraction

/-- Divides by `10 ^ k`, at most `10 ^ 308` at a time, rounding after every division. -/
def dividePowerOfTen (x : Double) (k : Nat) : Double :=
  let (n, d) := x.fraction
  let p := roundedPowerOfTen (min k 308)
  let y := (nearest? x.negative (n * p.2) (d * p.1)).getD (zero x.negative)
  if k ≤ 308 || y.isZero then y else dividePowerOfTen y (k - 308)
termination_by k
decreasing_by simp_all; omega

/-- The double read from `± significand · 10 ^ exponent`: the significand is rounded first, then its
product or quotient with the rounded power of ten. `none` beyond the largest double. -/
def ofDecimal? (negative : Bool) (significand : Nat) (exponent : Int) : Option Double :=
  match nearest? negative significand 1 with
  | none => none
  | some x =>
    if exponent < 0 then some (x.dividePowerOfTen (-exponent).toNat)
    else if x.isZero then some x
    else if 308 < exponent then none
    else
      let (n, d) := x.fraction
      let p := roundedPowerOfTen exponent.toNat
      nearest? negative (n * p.1) (d * p.2)

/-- A positive decimal `digits · 10 ^ exponent`. -/
structure Decimal where
  digits : Nat
  exponent : Int
  deriving DecidableEq, Repr

def digitCount (n : Nat) : Nat := (Nat.toDigits 10 n).length

/-- The largest `k` with `10 ^ k ≤ n / d`, for positive `n` and `d`. -/
def decimalExponent (n d : Nat) : Int :=
  if d ≤ n then (digitCount (n / d) : Int) - 1
  else -(digitCount ((d + n - 1) / n - 1) : Int)

/-- The interval of numbers that round to a positive double, with the double itself: lower end,
middle and upper end as numerators over one denominator. Below a power of two the next double is
only half as far away. -/
def roundingInterval (x : Double) : (Nat × Nat × Nat) × Nat :=
  let low := if x.mantissa = powerOfTwo 52 ∧ -1074 < x.exponent then 1 else 2
  let m := 4 * x.mantissa
  if 0 ≤ x.exponent then
    let u := powerOfTwo x.exponent.toNat
    (((m - low) * u, m * u, (m + 2) * u), 4)
  else ((m - low, m, m + 2), 4 * powerOfTwo (-x.exponent).toNat)

/-- The nearest multiple of `10 ^ k` inside the rounding interval, if there is one. The ends count
when the mantissa is even; of two equally near multiples the even one is taken. -/
def onGrid? (x : Double) (k : Int) : Option Nat :=
  let ((low, mid, high), d) := x.roundingInterval
  -- all of them in units of `10 ^ k`
  let (num, den) := if 0 ≤ k then (1, powerOfTen k.toNat) else (powerOfTen (-k).toNat, 1)
  let low := low * num
  let mid := mid * num
  let high := high * num
  let d := d * den
  let below := mid / d
  let above := below + 1
  let even := x.mantissa % 2 = 0
  let belowIn := if even then low ≤ below * d else low < below * d
  let aboveIn := if even then above * d ≤ high else above * d < high
  let nearer := roundHalfEven mid d
  if belowIn ∧ aboveIn then some nearer
  else if belowIn then some below
  else if aboveIn then some above
  else none

def Decimal.trim : Nat → Decimal → Decimal
  | 0, x => x
  | fuel + 1, x => if x.digits % 10 = 0 then trim fuel ⟨x.digits / 10, x.exponent + 1⟩ else x

/-- The coarsest decimal grid that has a point in the rounding interval, searched from exponent `k`
downwards. -/
def firstGrid (x : Double) (k : Int) : Nat → Decimal
  | 0 => ⟨(x.onGrid? k).getD 0, k⟩
  | n + 1 =>
    match x.onGrid? k with
    | some digits => ⟨digits, k⟩
    | none => firstGrid x (k - 1) n

/-- The decimal with the fewest digits that rounds to a positive double, and of those the
nearest. -/
def shortest (x : Double) : Decimal :=
  let (n, d) := x.fraction
  (firstGrid x (decimalExponent n d) 17).trim 17

/-- How a decimal is laid out: in positional notation for decimal exponents from `lowest` to
`highest`, always with a point, and otherwise with a signed exponent. -/
structure Layout where
  lowest : Int
  highest : Int
  mark : Char
  deriving Repr

/-- Positional from `0.00001` up to `1000000000000000.0`. -/
def layout : Layout := ⟨-5, 15, 'e'⟩

def Decimal.text (style : Layout) (x : Decimal) : List Char :=
  let ds := Nat.toDigits 10 x.digits
  let top := x.exponent + (ds.length : Int) - 1
  if style.lowest ≤ top ∧ top ≤ style.highest then
    if 0 ≤ x.exponent then ds ++ List.replicate x.exponent.toNat '0' ++ ['.', '0']
    else if 0 ≤ top then ds.take (top.toNat + 1) ++ '.' :: ds.drop (top.toNat + 1)
    else '0' :: '.' :: (List.replicate ((-top).toNat - 1) '0' ++ ds)
  else
    let fractional := if ds.length = 1 then [] else '.' :: ds.drop 1
    ds.take 1 ++ fractional ++ style.mark ::
      (if top < 0 then '-' else '+') :: Nat.toDigits 10 top.natAbs

/-- The shortest decimal text that reads back as the double. -/
def text (x : Double) : List Char :=
  (if x.negative then ['-'] else []) ++
    if x.isZero then ['0', '.', '0'] else x.shortest.text layout

end Double

end CodeFirst
