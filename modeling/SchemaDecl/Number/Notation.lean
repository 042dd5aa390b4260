import SchemaDecl.Number.Shortest

/-! Written forms of doubles. A `Style` holds the decisions that the two forms
of the library differ in or share: the window of decimal exponents written
positionally, the least number of exponent digits and the three special words. -/

namespace SchemaDecl.Number

structure Style where
  leastPositional : Int
  leastExponential : Int
  exponentDigits : Nat
  nan : String
  infinity : String

/-- Numbers inside JSON text. -/
def jsonStyle : Style := ⟨-4, 16, 2, "NaN", "Infinity"⟩

/-- Numbers shown as values. -/
def displayStyle : Style := ⟨-4, 16, 2, "nan", "inf"⟩

def digitText (n : Nat) : List Char := Nat.toDigits 10 n

def padLeft (width : Nat) (cs : List Char) : List Char :=
  List.replicate (width - cs.length) '0' ++ cs

/-- Digits with the point after the first `point` of them, zeros filling what is missing. -/
def positional (digits : List Char) (point : Int) : List Char :=
  if point ≤ 0 then '0' :: '.' :: (List.replicate (-point).toNat '0' ++ digits)
  else
    let whole := digits.take point.toNat
    let part := digits.drop point.toNat
    let zeros := List.replicate (point.toNat - whole.length) '0'
    whole ++ zeros ++ '.' :: (if part.isEmpty then ['0'] else part)

def exponential (style : Style) (digits : List Char) (exponent : Int) : List Char :=
  let mantissa := match digits with
    | first :: second :: rest => first :: '.' :: second :: rest
    | short => short
  mantissa ++ 'e' :: (if exponent < 0 then '-' else '+')
    :: padLeft style.exponentDigits (digitText exponent.natAbs)

def Style.write (style : Style) (x : Double) : String :=
  if x.isNaN then style.nan
  else
    let sign := if x.isNegative then "-" else ""
    if x.isInfinite then sign ++ style.infinity
    else if x.isZero then sign ++ "0.0"
    else
      let d := Shortest.decimal x
      let digits := digitText d.digits
      let point : Int := digits.length + d.scale
      let positionally := style.leastPositional ≤ point - 1 && point - 1 < style.leastExponential
      sign ++ String.ofList
        (if positionally then positional digits point else exponential style digits (point - 1))

example : jsonStyle.write (.ofDecimal false 1 15) = "1000000000000000.0" ∧
    jsonStyle.write (.ofDecimal false 1 16) = "1e+16" ∧
    jsonStyle.write (.ofDecimal false 1 (-4)) = "0.0001" ∧
    jsonStyle.write (.ofDecimal false 12 (-6)) = "1.2e-05" := by decide +kernel

end SchemaDecl.Number
