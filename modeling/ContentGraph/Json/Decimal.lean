import ContentGraph.Word

/-!
# Decimal text of binary64 numbers

A finite double is `mantissa · 2 ^ exponent`. Its shortest decimal is the one with the fewest
digits that lies in the interval of reals which round to it; of two such, the nearer. Doubles are
written positionally from `0.00001` up to below `1e16`, with `.0` behind a whole number, and in
exponent form with a signed exponent otherwise.
-/

namespace ContentGraph.Binary64

/-- A positive finite double as `mantissa · 2 ^ exponent`. -/
structure Parts where
  mantissa : Nat
  exponent : Int
  /-- Holds when the gap to the next smaller double is half the gap to the next greater. -/
  narrowBelow : Bool
deriving Repr, DecidableEq

/-- The parts of the double with these bits, its sign left out. -/
def parts (bits : UInt64) : Parts :=
  let fraction : Nat := bits.toNat % Nat.pow 2 52
  let biased : Nat := bits.toNat / Nat.pow 2 52 % Nat.pow 2 11
  if biased = 0 then ⟨fraction, -1074, false⟩
  else ⟨fraction + Nat.pow 2 52, (biased : Int) - 1075, fraction = 0 && 1 < biased⟩

/-- Holds when the sign bit is set. -/
def isNegative (bits : UInt64) : Bool := Word.count 63 ≤ bits.toNat

/-- Digits and scientific exponent: `d₁.d₂d₃… · 10 ^ exponent`. -/
structure Decimal where
  digits : List Char
  exponent : Int
deriving Repr, DecidableEq

/-- An interval `[low, high] / scale` with the value it surrounds, all over one denominator. -/
structure Interval where
  low : Nat
  value : Nat
  high : Nat
  scale : Nat
  closed : Bool
deriving Repr

/-- The reals that round to a double. -/
def interval (p : Parts) : Interval :=
  let low := 4 * p.mantissa - (if p.narrowBelow then 1 else 2)
  let factor := Nat.pow 2 (p.exponent - 2).toNat
  ⟨low * factor, 4 * p.mantissa * factor, (4 * p.mantissa + 2) * factor,
    Nat.pow 2 (2 - p.exponent).toNat, p.mantissa % 2 = 0⟩

/-- The greatest `e ≥ start - fuel` below `start` with `10 ^ e ≤ value / scale`. -/
def findExponent (value scale : Nat) : Nat → Int → Int
  | 0, e => e
  | fuel + 1, e =>
    if scale * Nat.pow 10 e.toNat ≤ value * Nat.pow 10 (-e).toNat then e
    else findExponent value scale fuel (e - 1)

/-- Holds when `n · 10 ^ unit` lies in the interval. -/
def Interval.holds (i : Interval) (n : Nat) (unit : Int) : Bool :=
  let x := n * Nat.pow 10 unit.toNat * i.scale
  let f := Nat.pow 10 (-unit).toNat
  if i.closed then i.low * f ≤ x && x ≤ i.high * f else i.low * f < x && x < i.high * f

/-- The multiple of `10 ^ unit` in the interval that is nearest to its value; a tie goes to the
even one. -/
def Interval.nearest? (i : Interval) (unit : Int) : Option Nat :=
  let f := Nat.pow 10 (-unit).toNat
  let g := Nat.pow 10 unit.toNat * i.scale
  let below := i.value * f / g
  let toBelow := i.value * f - below * g
  let toAbove := (below + 1) * g - i.value * f
  match i.holds below unit && below != 0, i.holds (below + 1) unit with
  | true, true =>
    if toBelow < toAbove || (toBelow == toAbove && below % 2 == 0) then some below
    else some (below + 1)
  | true, false => some below
  | false, true => some (below + 1)
  | false, false => none

/-- Tries grids of more and more digits below the leading power `10 ^ exponent`. -/
def shortestFrom (i : Interval) (exponent : Int) : Nat → Int → Nat × Int
  | 0, unit => (i.value / i.scale, unit)
  | fuel + 1, unit =>
    match i.nearest? unit with
    | some n => (n, unit)
    | none => shortestFrom i exponent fuel (unit - 1)

/-- Drops trailing zero digits and counts them. -/
def stripZeros (digits : List Char) : List Char :=
  (digits.reverse.dropWhile (· == '0')).reverse

/-- The shortest decimal of a positive finite double. -/
def shortest (p : Parts) : Decimal :=
  let i := interval p
  let top := findExponent i.value i.scale 700 310
  let (n, unit) := shortestFrom i top 20 top
  let digits := Nat.toDigits 10 n
  ⟨stripZeros digits, unit + (digits.length - 1 : Nat)⟩

/-- Writes a decimal: positional for exponents from -5 to 15, else with a signed exponent. -/
def Decimal.text (d : Decimal) : List Char :=
  if -5 ≤ d.exponent ∧ d.exponent < 0 then
    "0.".toList ++ List.replicate ((-d.exponent).toNat - 1) '0' ++ d.digits
  else if 0 ≤ d.exponent ∧ d.exponent ≤ 15 then
    let whole := d.exponent.toNat + 1
    if d.digits.length ≤ whole then
      d.digits ++ List.replicate (whole - d.digits.length) '0' ++ ".0".toList
    else d.digits.take whole ++ '.' :: d.digits.drop whole
  else
    let mantissa := match d.digits with
      | [] => ['0']
      | [c] => [c]
      | c :: r => c :: '.' :: r
    let sign := if d.exponent < 0 then '-' else '+'
    mantissa ++ 'e' :: sign :: Nat.toDigits 10 d.exponent.natAbs

/-- The text of a finite double. -/
def text (bits : UInt64) : List Char :=
  let p := parts bits
  let body := if p.mantissa = 0 then "0.0".toList else (shortest p).text
  if isNegative bits then '-' :: body else body

/-! ## Reading -/

/-- `significand · 10 ^ exponent` as a double: the significand is rounded to a double, which is
then multiplied or divided by powers of ten, each step rounded. `none` beyond the range. -/
def scale? : Nat → Float → Int → Option Float
  | 0, f, _ => some f
  | fuel + 1, f, exponent =>
    if exponent.natAbs ≤ 308 then
      let power := Float.ofScientific 1 false exponent.natAbs
      if 0 ≤ exponent then
        let g := f * power
        if g.isInf then none else some g
      else some (f / power)
    else if f == 0.0 then some f
    else if 0 ≤ exponent then none
    else scale? fuel (f / 1e308) (exponent + 308)

/-- The bits of `± significand · 10 ^ exponent`, unless its magnitude is out of range.
The significand is below 2⁶⁴. -/
def ofParts? (negative : Bool) (significand : Nat) (exponent : Int) : Option UInt64 :=
  (scale? 8 (UInt64.ofNat significand).toFloat exponent).map fun f => (if negative then -f else f).toBits

end ContentGraph.Binary64
