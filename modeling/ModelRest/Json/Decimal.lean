import ModelRest.Json.Basic

/-!
# Doubles as decimals

Reading a double from decimal digits and writing it with decimal digits.

A decimal is read as its leading digits, as many as fit 64 bits, and a power of ten. The digits are
rounded to a double, and the double is multiplied or divided by the double nearest the power of
ten; a product beyond the largest double is refused.

A double is written with the fewest digits that no other double is nearer to. It stands for a whole
number `m` times a power of two, and the reals that round to it form an interval around it, ends
included if `m` is even. A grid of decimals meets the interval if one of the two neighbours of the
double on the grid lies in it; the coarsest such grid gives the digits.
-/

namespace ModelRest

namespace Double

/-- The double of a runtime number. -/
def ofFloat (f : Float) : Double := ⟨f.toBits⟩

/-- The runtime number of a double. -/
def toFloat (d : Double) : Float := Float.ofBits d.bits

/-! ### Reading -/

/-- The largest number of 64 bits. -/
def wordMax : Nat := 18446744073709551615

/-- Appends decimal digits to a number as long as it fits 64 bits; the digits left over follow. -/
def appendDigits : Nat → List Nat → Nat × List Nat
  | n, [] => (n, [])
  | n, d :: rest => if n * 10 + d ≤ wordMax then appendDigits (n * 10 + d) rest else (n, d :: rest)

/-- The double nearest a power of ten. -/
def powerOfTen (k : Nat) : Float := Float.ofScientific 1 false k

/-- A number times a power of ten with a negative exponent, given without its sign. A number of 64
bits divided twice by `10 ^ 308` is zero. -/
def scaleDown (f : Float) (k : Nat) : Float :=
  if k ≤ 308 then f / powerOfTen k
  else if k ≤ 616 then f / powerOfTen 308 / powerOfTen (k - 308)
  else 0

/-- The digits `n` scaled by `10 ^ exponent`, with a sign; nothing if that is beyond all doubles. -/
def ofDecimal? (negative : Bool) (n : Nat) (exponent : Int) : Option Double :=
  let f := n.toUInt64.toFloat
  let scaled :=
    if n = 0 then some 0
    else if exponent < 0 then some (scaleDown f exponent.natAbs)
    else if exponent ≤ 308 then
      let product := f * powerOfTen exponent.natAbs
      if product.isInf then none else some product
    else none
  scaled.map fun f => ofFloat (if negative then -f else f)

/-! ### The shortest digits -/

/-- The sign bit is set. -/
def isNegative (d : Double) : Bool := d.bits >>> 63 == 1

/-- The eleven bits of the exponent. -/
def exponentBits (d : Double) : Nat := ((d.bits >>> 52) &&& 0x7FF).toNat

/-- The fifty-two bits of the fraction. -/
def fractionBits (d : Double) : Nat := (d.bits &&& 0xFFFFFFFFFFFFF).toNat

/-- The whole number `m` of the value `m * 2 ^ q`, sign aside. -/
def significand (d : Double) : Nat :=
  if d.exponentBits = 0 then d.fractionBits else d.fractionBits + Nat.pow 2 52

/-- The exponent `q` of the value `m * 2 ^ q`. -/
def binaryExponent (d : Double) : Int :=
  if d.exponentBits = 0 then -1074 else (d.exponentBits : Int) - 1075

/-- How many decimal digits a number has. -/
def digitCount (n : Nat) : Nat := (Nat.toDigits 10 n).length

/-- A positive rational number. -/
structure Ratio where
  /-- What is above the line. -/
  num : Nat
  /-- What is below the line. -/
  den : Nat

namespace Ratio

/-- `n * 2 ^ q`. -/
def ofBinary (n : Nat) (q : Int) : Ratio :=
  if q < 0 then ⟨n, Nat.pow 2 q.natAbs⟩ else ⟨n * Nat.pow 2 q.natAbs, 1⟩

/-- The ratio in units of `10 ^ k`. -/
def inUnitsOf (r : Ratio) (k : Int) : Ratio :=
  if k < 0 then ⟨r.num * Nat.pow 10 k.natAbs, r.den⟩ else ⟨r.num, r.den * Nat.pow 10 k.natAbs⟩

/-- The exponent of the largest power of ten that is not above the ratio. -/
def decimalExponent (r : Ratio) : Int :=
  let e := (digitCount r.num : Int) - digitCount r.den
  let unit := r.inUnitsOf e
  if unit.den ≤ unit.num then e else e - 1

end Ratio

/-- The value in quarters of the last binary place, and the ends of the interval that rounds to it
in the same unit. The interval is half as wide below a power of two. -/
structure Interval where
  /-- The lower end. -/
  low : Nat
  /-- The value. -/
  mid : Nat
  /-- The upper end. -/
  high : Nat
  /-- The ends belong to the interval. -/
  closed : Bool
  /-- The exponent of two of the unit. -/
  exponent : Int

/-- The interval of the reals that round to a double. -/
def interval (d : Double) : Interval :=
  let m := d.significand
  let narrow := d.fractionBits = 0 && 1 < d.exponentBits
  { low := 4 * m - (if narrow then 1 else 2), mid := 4 * m, high := 4 * m + 2
    closed := m % 2 = 0, exponent := d.binaryExponent - 2 }

namespace Interval

/-- The decimal `n` in units of `10 ^ k` lies in the interval. -/
def holds (i : Interval) (n : Nat) (k : Int) : Bool :=
  let low := (Ratio.ofBinary i.low i.exponent).inUnitsOf k
  let high := (Ratio.ofBinary i.high i.exponent).inUnitsOf k
  if i.closed then low.num ≤ n * low.den && n * high.den ≤ high.num
  else low.num < n * low.den && n * high.den < high.num

/-- The neighbour of the value in units of `10 ^ k` that lies in the interval, the nearer one if
both do, and the even one if both are equally near. -/
def onGrid? (i : Interval) (k : Int) : Option Nat :=
  let v := (Ratio.ofBinary i.mid i.exponent).inUnitsOf k
  let below := v.num / v.den
  let rest := v.num % v.den
  let lowerNearer := 2 * rest < v.den || (2 * rest = v.den && below % 2 = 0)
  match i.holds below k, i.holds (below + 1) k with
  | true, true => some (if lowerNearer then below else below + 1)
  | true, false => some below
  | false, true => some (below + 1)
  | false, false => none

/-- The first grid that meets the interval, from the unit `10 ^ k` to finer ones. -/
def firstGrid (i : Interval) : Nat → Int → Nat × Int
  | 0, k => (((Ratio.ofBinary i.mid i.exponent).inUnitsOf k).num, k)
  | tries + 1, k =>
    match i.onGrid? k with
    | some n => (n, k)
    | none => firstGrid i tries (k - 1)

end Interval

/-- The digits of a positive double and the exponent of its first digit: the value is
`d.ddd * 10 ^ e`. Seventeen digits are enough for every double. -/
def shortest (d : Double) : List Char × Int :=
  let i := d.interval
  let e := (Ratio.ofBinary i.mid i.exponent).decimalExponent
  let (n, k) := i.firstGrid 17 e
  let digits := Nat.toDigits 10 n
  (dropEndZeros digits, k + digits.length - 1)
where
  /-- The digits without zeros at the end. -/
  dropEndZeros (digits : List Char) : List Char :=
    (digits.reverse.dropWhile (· = '0')).reverse

end Double

/-! ### Layout -/

/-- How a decimal is laid out. -/
structure DecimalLayout where
  /-- The least exponent written without a power of ten. -/
  minPositional : Int
  /-- The greatest exponent written without a power of ten. -/
  maxPositional : Int
  /-- A positive power of ten has a sign. -/
  plusSign : Bool

/-- Doubles are written with all their places from `10 ^ -5` to below `10 ^ 16`, always with a
point; beyond that with one place before the point and a signed power of ten. -/
def jsonLayout : DecimalLayout := { minPositional := -5, maxPositional := 15, plusSign := true }

namespace DecimalLayout

/-- A whole number with its sign. -/
def exponentText (layout : DecimalLayout) (e : Int) : List Char :=
  let digits := Nat.toDigits 10 e.natAbs
  if e < 0 then '-' :: digits else if layout.plusSign then '+' :: digits else digits

/-- The digits of a decimal as text, given the exponent of the first digit. -/
def write (layout : DecimalLayout) (digits : List Char) (e : Int) : List Char :=
  if layout.minPositional ≤ e && e ≤ layout.maxPositional then
    if e < 0 then '0' :: '.' :: (List.replicate (e.natAbs - 1) '0' ++ digits)
    else
      let places := e.natAbs + 1
      let whole := digits.take places ++ List.replicate (places - digits.length) '0'
      let fraction := digits.drop places
      whole ++ '.' :: (if fraction.isEmpty then ['0'] else fraction)
  else
    match digits with
    | [] => []
    | [d] => d :: 'e' :: layout.exponentText e
    | d :: rest => d :: '.' :: (rest ++ 'e' :: layout.exponentText e)

end DecimalLayout

/-- The text of a double. -/
def Double.text (d : Double) : List Char :=
  let body :=
    if d.isZero then ['0', '.', '0']
    else
      let (digits, e) := d.shortest
      jsonLayout.write digits e
  if d.isNegative then '-' :: body else body

end ModelRest
