import SchemaDecl.Shell.Format

/-! Values. A text from outside that looks like a number is compared as one. A number
is shown by its digits if it is whole and by a format otherwise. -/

namespace SchemaDecl.Shell.Awk

open Number

inductive Value
  | unset
  | number (x : Float)
  | text (s : String)
  /-- A text from outside, with the number that it looks like. -/
  | both (s : String) (x : Float)

/-! Numbers in texts. -/

def hexadecimal (cs : List Char) : List Char := cs.takeWhile fun c => Arithmetic.digitValue c < 16

def isWordOf (word : String) (cs : List Char) : Bool :=
  (cs.take word.length).map Char.toLower = word.toList

/-- The number at the beginning of a text, without its sign, and the rest of the text. -/
def unsignedNumber (cs : List Char) : Option (Float × List Char) :=
  let ofBits := fun (x : Double) => Float.ofBits x.bits
  match cs with
  | '0' :: x :: rest =>
    if (x = 'x' || x = 'X') && !(hexadecimal rest).isEmpty then
      let digits := hexadecimal rest
      some (ofBits (Double.ofDecimal false (Arithmetic.valueIn 16 digits) 0),
        rest.drop digits.length)
    else decimal cs
  | cs =>
    if isWordOf "infinity" cs then some (ofBits (Double.infinity false), cs.drop 8)
    else if isWordOf "inf" cs then some (ofBits (Double.infinity false), cs.drop 3)
    else if isWordOf "nan" cs then some (ofBits Double.nan, cs.drop 3)
    else decimal cs
where
  decimal (cs : List Char) : Option (Float × List Char) :=
    let whole := cs.takeWhile Char.isDigit
    let rest := cs.drop whole.length
    let (part, rest) := match rest with
      | '.' :: after =>
        let digits := after.takeWhile Char.isDigit
        (digits, after.drop digits.length)
      | rest => ([], rest)
    if whole.isEmpty && part.isEmpty then none
    else
      let (exponent, rest) := exponentOf rest
      let x := Double.ofDecimal false (natOf (whole ++ part)) (exponent - part.length)
      some (Float.ofBits x.bits, rest)
  exponentOf (cs : List Char) : Int × List Char :=
    match cs with
    | e :: after =>
      if e != 'e' && e != 'E' then (0, cs)
      else
        let (minus, digits) : Bool × List Char := match after with
          | '-' :: rest => (true, rest)
          | '+' :: rest => (false, rest)
          | rest => (false, rest)
        let found := digits.takeWhile Char.isDigit
        if found.isEmpty then (0, cs)
        else (if minus then -(natOf found : Int) else natOf found, digits.drop found.length)
    | [] => (0, [])

/-- The number that a text begins with, and what follows it. -/
def numberAt (cs : List Char) : Float × List Char :=
  let (negative, rest) := match cs with
    | '-' :: rest => (true, rest)
    | '+' :: rest => (false, rest)
    | cs => (false, cs)
  match unsignedNumber rest with
  | some (x, rest) => (if negative then -x else x, rest)
  | none => (0, cs)

/-- A text from outside. It looks like a number if that is all it holds between blanks. -/
def Value.ofInput (s : String) : Value :=
  let cs := s.toList.dropWhile isSpace
  let begins := match cs with
    | c :: _ => c.isDigit || c = '+' || c = '-' || c = '.'
    | [] => false
  if !begins then .text s
  else
    let (x, rest) := numberAt cs
    if rest.length < cs.length && rest.all isSpace then .both s x else .text s

def Value.toNumber : Value → Float
  | .unset => 0
  | .number x | .both _ x => x
  | .text s => (numberAt (s.toList.dropWhile isSpace)).1

/-! Whole numbers. -/

def doubleOf (x : Float) : Double := ⟨x.toBits⟩

/-- A number without what follows the point. -/
def truncated (x : Float) : Int :=
  let d := doubleOf x
  if d.isNaN || d.isInfinite then 0
  else
    let (num, den) := Format.ratio d
    if d.isNegative then -(num / den : Nat) else (num / den : Nat)

def ofInt (n : Int) : Float := Float.ofInt n

def isWhole (x : Float) : Bool :=
  let d := doubleOf x
  if d.isNaN || d.isInfinite then false
  else
    let (num, den) := Format.ratio d
    num % den = 0

/-- A number within the range of machine words. -/
def wordOf (x : Float) : Int :=
  let d := doubleOf x
  let bound : Nat := Number.twoTo 63
  if d.isInfinite then if d.isNegative then -bound else bound - 1
  else max (-bound) (min (truncated x) (bound - 1))

def unsignedWordOf (x : Float) : Nat :=
  let d := doubleOf x
  let bound : Nat := Number.twoTo 64
  if d.isInfinite && !d.isNegative then bound - 1
  else
    let n := truncated x
    if n < 0 then ((wordOf x) % bound).toNat else (min n (bound - 1)).toNat

/-! Formats. -/

/-- The text of a number that is none. -/
def unusualText? (x : Float) : Option String :=
  let d := doubleOf x
  if d.isNaN then some "-nan"
  else if d.isInfinite then some (if d.isNegative then "-inf" else "inf")
  else none

/-- A number in a format for numbers with a point. -/
def pointText (d : Format.Directive) (x : Float) : String :=
  match unusualText? x with
  | some text => Format.padTo d (if d.letter.isUpper then Format.upperText text else text)
  | none => Format.doubleText d (doubleOf x)

/-- A number in a format that holds one directive. -/
def conversionText (format : String) (x : Float) : String :=
  let cs := format.toList
  let front := cs.takeWhile (· != '%')
  let rest := cs.drop (front.length + 1)
  let flags := rest.takeWhile ['#', '-', '+', ' ', '0'].contains
  let rest := rest.drop flags.length
  let width := rest.takeWhile Char.isDigit
  let rest := rest.drop width.length
  let (precision, rest) := match rest with
    | '.' :: after =>
      let digits := after.takeWhile Char.isDigit
      (some (natOf digits), after.drop digits.length)
    | rest => (none, rest)
  match rest with
  | [] => format
  | letter :: after =>
    let d : Format.Directive :=
      { flags
        width := if width.isEmpty then none else some (natOf width)
        precision
        letter }
    let text := if letter = 'd' || letter = 'i' then Format.numberText d (wordOf x)
      else pointText d x
    String.ofList front ++ text ++ String.ofList after

/-- The text of a number: its digits if it is whole and not too large, else by the format. -/
def numberText (format : String) (x : Float) : String :=
  match unusualText? x with
  | some text => text
  | none =>
    if isWhole x then
      let n := truncated x
      let least : Nat := Number.twoTo 63
      let bound : Nat := Number.twoTo 64
      if -least ≤ n && n ≤ bound then toString (min n (bound - 1))
      else conversionText format x
    else conversionText format x

def Value.toText (format : String) : Value → String
  | .unset => ""
  | .number x => numberText format x
  | .text s | .both s _ => s

def Value.isTrue : Value → Bool
  | .unset => false
  | .number x | .both _ x => !(x == 0)
  | .text s => !s.isEmpty

def Value.ofBool (b : Bool) : Value := .number (if b then 1 else 0)

def Value.ofNat (n : Nat) : Value := .number n.toFloat

/-- How two values stand to each other: as numbers unless one of them is a mere text. -/
def Value.compare (format : String) (a b : Value) : Ordering × Bool :=
  let asTexts := fun (_ : Unit) =>
    (Ord.compare (a.toText format) (b.toText format), true)
  match a, b with
  | .text _, _ | _, .text _ => asTexts ()
  | a, b =>
    let x := a.toNumber
    let y := b.toNumber
    if x < y then (.lt, true) else if x == y then (.eq, true) else if y < x then (.gt, true)
    else (.eq, false)

/-! Arithmetic. -/

/-- What is left of a division of two numbers that are no whole numbers, with the sign of the
first. -/
def remainder (x y : Float) : Float :=
  let a := doubleOf x
  let b := doubleOf y
  if a.isNaN || b.isNaN || a.isInfinite || b.isZero then 0 / 0
  else if b.isInfinite then x
  else
    let (n, d) := Format.ratio a
    let (m, e) := Format.ratio b
    let rest := (n * e) % (m * d)
    let size := Float.ofBits (Double.ofNatBits (Double.ratioBits rest (d * e))).bits
    if rest = 0 then (if a.isNegative then -0.0 else 0)
    else if a.isNegative then -size else size

end SchemaDecl.Shell.Awk
