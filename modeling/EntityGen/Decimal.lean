namespace EntityGen.Decimal

/-- Half to even. -/
def roundDiv (num den : Nat) : Nat :=
  let q := num / den
  let r := num % den
  if 2 * r < den ∨ (2 * r = den ∧ q % 2 = 0) then q else q + 1

/-- A finite number without its sign. Below `2 ^ 52` the mantissa goes with the least exponent. -/
structure Binary64 where
  mantissa : Nat
  exponent : Int
  deriving DecidableEq

namespace Binary64

def precision : Nat := 53
def leastExponent : Int := -1074
def greatestExponent : Int := 971

def zero : Binary64 := ⟨0, leastExponent⟩

def scaled (num den : Nat) (q : Int) : Nat × Nat :=
  if 0 ≤ q then (num, den * Nat.pow 2 q.toNat) else (num * Nat.pow 2 (-q).toNat, den)

def floorLog (num den : Nat) : Int :=
  let b : Int := num.log2 - den.log2
  let s := scaled num den b
  if s.2 ≤ s.1 then b else b - 1

def ofRatio (num den : Nat) : Option Binary64 :=
  let q := max (floorLog num den - (precision - 1)) leastExponent
  let s := scaled num den q
  let m := roundDiv s.1 s.2
  let r : Binary64 :=
    if m = Nat.pow 2 precision then ⟨Nat.pow 2 (precision - 1), q + 1⟩ else ⟨m, q⟩
  if r.exponent ≤ greatestExponent then some r else none

def digitCount (n : Nat) : Nat := (Nat.toDigits 10 n).length

/-- The number nearest to `c * 10 ^ e`; `none` where that is too large. Decimals far out of range
are told by their number of places, so no power is computed for them. -/
def ofDecimal (c : Nat) (e : Int) : Option Binary64 :=
  let places := digitCount c + e
  if c = 0 ∨ places < -330 then some zero
  else if 310 < places then none
  else if 0 ≤ e then ofRatio (c * Nat.pow 10 e.toNat) 1
  else ofRatio c (Nat.pow 10 (-e).toNat)

end Binary64

end EntityGen.Decimal

namespace EntityGen.Decimal

structure Scientific where
  digits : Nat
  exponent : Int
  deriving DecidableEq

namespace Shortest

variable (x : Binary64)

/-- Quarters of the last binary place, as a fraction: every bound below is a whole number of them. -/
def unit : Nat × Nat :=
  let q := x.exponent - 2
  if 0 ≤ q then (Nat.pow 2 q.toNat, 1) else (1, Nat.pow 2 (-q).toNat)

def value : Nat := 4 * x.mantissa

/-- The gap to the next lower number halves where the mantissa is least. -/
def lower : Nat :=
  if x.mantissa = Nat.pow 2 52 ∧ Binary64.leastExponent < x.exponent then value x - 1
  else value x - 2

def upper : Nat := value x + 2

def scales (n : Nat) (d : Nat) (j : Int) : Nat × Nat :=
  let u := unit x
  if 0 ≤ j then (d * Nat.pow 10 j.toNat * u.2, n * u.1)
  else (d * u.2, n * u.1 * Nat.pow 10 (-j).toNat)

def decimalLt (d : Nat) (j : Int) (n : Nat) : Bool := let s := scales x n d j; s.1 < s.2
def decimalGt (d : Nat) (j : Int) (n : Nat) : Bool := let s := scales x n d j; s.2 < s.1

/-- Whether `d * 10 ^ j` reads back as `x`. A bound itself goes to the even mantissa. -/
def readsBack (d : Nat) (j : Int) : Bool :=
  if x.mantissa % 2 = 0 then !decimalLt x d j (lower x) && !decimalGt x d j (upper x)
  else decimalGt x d j (lower x) && decimalLt x d j (upper x)

/-- The number of digits before the point; for a number below one, less the zeros after it. -/
def places : Int :=
  let u := unit x
  let num := value x * u.1
  if u.2 ≤ num then Binary64.digitCount (num / u.2)
  else
    let k := Binary64.digitCount (u.2 / num)
    if num * Nat.pow 10 (k - 1) = u.2 then 2 - k else 1 - k

def floorAt (j : Int) : Nat :=
  let u := unit x
  if 0 ≤ j then value x * u.1 / (u.2 * Nat.pow 10 j.toNat)
  else value x * u.1 * Nat.pow 10 (-j).toNat / u.2

/-- Of the two multiples of `10 ^ j` around `x`, the nearer, then the even one. -/
def nearer (j : Int) (d : Nat) : Nat :=
  let s := scales x (2 * value x) (2 * d + 1) j
  if s.2 < s.1 ∨ (s.2 = s.1 ∧ d % 2 = 0) then d else d + 1

def tryAt (j : Int) : Option Nat :=
  let d := floorAt x j
  match readsBack x d j, readsBack x (d + 1) j with
  | true, true => some (nearer x j d)
  | true, false => some d
  | false, true => some (d + 1)
  | false, false => none

/-- Tries `count` numbers of digits, the first being `n`. Rounding up can carry to `10 ^ n`. -/
def search : Nat → Nat → Scientific
  | 0, n => ⟨floorAt x (places x - n), places x - n⟩
  | count + 1, n =>
    match tryAt x (places x - n) with
    | some d => if d = Nat.pow 10 n then ⟨1, places x⟩ else ⟨d, places x - n⟩
    | none => search count (n + 1)

end Shortest

/-- The decimal with the fewest digits that is nearer to `x` than to any other number, and of those the
one nearest to `x`. -/
def shortest (x : Binary64) : Scientific :=
  if x.mantissa = 0 then ⟨0, 0⟩ else Shortest.search x 17 1

end EntityGen.Decimal

namespace EntityGen.Decimal

/-- Where positional writing begins and ends, as powers of ten, and the signs of other exponents. -/
structure Layout where
  least : Int
  bound : Int
  mark : String
  positive : String
  negative : String

namespace Layout

variable (l : Layout)

def zeros (n : Int) : List Char := .replicate n.toNat '0'

def positional (digits : List Char) (places : Int) : List Char :=
  if places ≤ 0 then '0' :: '.' :: zeros (-places) ++ digits
  else if digits.length ≤ places then digits ++ zeros (places - digits.length) ++ ['.', '0']
  else digits.take places.toNat ++ '.' :: digits.drop places.toNat

def scientific (digits : List Char) (power : Int) : List Char :=
  let head := match digits with
    | d :: e :: ds => d :: '.' :: e :: ds
    | ds => ds
  let sign := if 0 ≤ power then l.positive else l.negative
  head ++ l.mark.toList ++ sign.toList ++ Nat.toDigits 10 power.natAbs

def write (s : Scientific) : String :=
  let digits := Nat.toDigits 10 s.digits
  let power := digits.length + s.exponent - 1
  if s.digits = 0 ∨ (l.least ≤ power ∧ power < l.bound) then
    .ofList (positional digits (power + 1))
  else .ofList (l.scientific digits power)

end Layout

end EntityGen.Decimal
