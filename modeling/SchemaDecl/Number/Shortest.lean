import SchemaDecl.Number.Double

/-! Shortest decimals. Among all decimals that round to a given positive double
`nearest?` looks for one with the fewest digits, and among those for the nearest,
an exact tie going to the even digit. A decimal rounds to the double when it
lies between the midpoints to its neighbours, the midpoints themselves counting
when the significand is even. Everything is measured in quarters of the unit
`2^exponent`, where midpoints are integers. -/

namespace SchemaDecl.Number

/-- The value `digits * 10^scale`. -/
structure Decimal where
  digits : Nat
  scale : Int
  deriving DecidableEq

namespace Shortest

/-- Numerators over one denominator: the value and the midpoints on its two sides. -/
structure Interval where
  value : Nat
  low : Nat
  high : Nat
  den : Nat
  closed : Bool

def interval (x : Double) : Interval :=
  let m := x.significand
  let below := if m = twoTo 52 && 1 < x.biasedExponent then 1 else 2
  let unit := x.exponent - 2
  let up := twoTo unit.toNat
  ⟨4 * m * up, (4 * m - below) * up, (4 * m + 2) * up, twoTo (-unit).toNat, m % 2 == 0⟩

def Interval.holds (i : Interval) (num den : Nat) : Bool :=
  let left := i.low * den
  let right := i.high * den
  let middle := num * i.den
  if i.closed then left ≤ middle && middle ≤ right else left < middle && middle < right

/-- The exponent of the first digit of `num / den`. -/
def decimalOrder (num den : Nat) : Int :=
  let guess : Int := (Nat.toDigits 10 num).length - (Nat.toDigits 10 den).length
  let reached :=
    if 0 ≤ guess then den * tenTo guess.toNat ≤ num else den ≤ num * tenTo (-guess).toNat
  if reached then guess else guess - 1

/-- The best multiple of `10^scale` inside the interval. -/
def onGrid? (i : Interval) (scale : Int) : Option Decimal :=
  let up := tenTo scale.toNat
  let down := tenTo (-scale).toNat
  let num := i.value * down
  let den := i.den * up
  let floor := num / den
  let twice := 2 * (num % den)
  let first := if twice < den || (twice == den && floor % 2 == 0) then floor else floor + 1
  let second := if first = floor then floor + 1 else floor
  ([first, second].find? fun n => i.holds (n * up) down).map fun n => ⟨n, scale⟩

def dropZeros : Nat → Decimal → Decimal
  | 0, d => d
  | fuel + 1, d =>
    if d.digits % 10 = 0 && d.digits != 0 then dropZeros fuel ⟨d.digits / 10, d.scale + 1⟩ else d

/-- Seventeen digits always suffice, so the last alternative is never taken. -/
def decimal (x : Double) : Decimal :=
  let i := interval x
  let order := decimalOrder i.value i.den
  let found := (List.range 17).findSome? fun (n : Nat) => onGrid? i (order - n)
  dropZeros 20 (found.getD ⟨x.significand, x.exponent⟩)

end Shortest

end SchemaDecl.Number
