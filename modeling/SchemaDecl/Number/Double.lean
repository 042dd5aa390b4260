/-! Double precision numbers as their sixty-four bits. A finite one is
`(-1)^sign * significand * 2^exponent` with an exponent of at least -1074, and
every operation is done on the integers of that form. `ofDecimal` is the
double nearest to a decimal, a tie going to the even significand and values
past the range to infinity; `toInt?` is exact. -/

namespace SchemaDecl.Number

def twoTo (n : Nat) : Nat := Nat.pow 2 n

def tenTo (n : Nat) : Nat := Nat.pow 10 n

structure Double where
  bits : UInt64
  deriving DecidableEq

namespace Double

def ofNatBits (n : Nat) : Double := ⟨UInt64.ofNat n⟩

def isNegative (x : Double) : Bool := twoTo 63 ≤ x.bits.toNat

def magnitudeBits (x : Double) : Nat := x.bits.toNat % twoTo 63

def biasedExponent (x : Double) : Nat := x.magnitudeBits / twoTo 52

def fraction (x : Double) : Nat := x.magnitudeBits % twoTo 52

def isNaN (x : Double) : Bool := x.biasedExponent == 2047 && x.fraction != 0

def isInfinite (x : Double) : Bool := x.biasedExponent == 2047 && x.fraction == 0

def isZero (x : Double) : Bool := x.magnitudeBits == 0

def significand (x : Double) : Nat :=
  if x.biasedExponent = 0 then x.fraction else twoTo 52 + x.fraction

def exponent (x : Double) : Int := (max x.biasedExponent 1 : Nat) - 1075

def infinityBits : Nat := 2047 * twoTo 52

def infinity (negative : Bool) : Double :=
  ofNatBits (infinityBits + if negative then twoTo 63 else 0)

def nan : Double := ofNatBits (infinityBits + twoTo 51)

def halfEven (num den : Nat) : Nat :=
  let quotient := num / den
  let rest := 2 * (num % den)
  if rest < den || (rest == den && quotient % 2 == 0) then quotient else quotient + 1

/-- The power of two at or below `num / den`. -/
def binaryOrder (num den : Nat) : Int :=
  let guess : Int := num.log2 - den.log2
  let reached :=
    if 0 ≤ guess then den * twoTo guess.toNat ≤ num else den ≤ num * twoTo (-guess).toNat
  if reached then guess else guess - 1

/-- Bits of the double nearest to the positive ratio `num / den`. -/
def ratioBits (num den : Nat) : Nat :=
  let unit := max (binaryOrder num den - 52) (-1074)
  let rounded := if 0 ≤ unit then halfEven num (den * twoTo unit.toNat)
    else halfEven (num * twoTo (-unit).toNat) den
  let bits := if rounded < twoTo 52 then rounded
    else (unit + 1075).toNat * twoTo 52 + (rounded - twoTo 52)
  min bits infinityBits

/-- Digits that reach beyond 10^310 or stay below 10^-330 are not expanded. -/
def ofDecimal (negative : Bool) (digits : Nat) (scale : Int) : Double :=
  let top : Int := (Nat.toDigits 10 digits).length + scale
  let bits :=
    if digits = 0 || top < -330 then 0
    else if 310 < top then infinityBits
    else if 0 ≤ scale then ratioBits (digits * tenTo scale.toNat) 1
    else ratioBits digits (tenTo (-scale).toNat)
  ofNatBits (bits + if negative then twoTo 63 else 0)

def toInt? (x : Double) : Option Int :=
  if x.biasedExponent = 2047 then none
  else
    let size : Option Nat :=
      if 0 ≤ x.exponent then some (x.significand * twoTo x.exponent.toNat)
      else
        let den := twoTo (-x.exponent).toNat
        if x.significand % den = 0 then some (x.significand / den) else none
    size.map fun n => if x.isNegative then -(n : Int) else n

example : (ofDecimal false 1 (-1)).bits = 0x3fb999999999999a := by decide +kernel

end Double

end SchemaDecl.Number
