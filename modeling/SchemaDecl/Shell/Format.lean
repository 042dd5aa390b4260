import SchemaDecl.Number.Double
import SchemaDecl.Shell.Arithmetic

/-! Printing commands. `echo` writes its words with blanks between them, `printf`
writes a format with arguments put in and writes it again as long as it takes up
arguments. An escape of three octal digits is one byte; in a text that is echoed
the digits may follow a zero, and an escape can end all output. -/

namespace SchemaDecl.Shell.Format

open Number

/-! Escapes. -/

def plainEscape? : Char → Option Char
  | 'n' => some '\n'
  | 'r' => some '\r'
  | 't' => some '\t'
  | 'a' => some '\x07'
  | 'b' => some '\x08'
  | 'f' => some '\x0c'
  | 'v' => some '\x0b'
  | 'e' => some '\x1b'
  | '"' => some '"'
  | '\\' => some '\\'
  | _ => none

def isOctal (c : Char) : Bool := '0' ≤ c && c ≤ '7'

def octalChar (digits : List Char) : Char :=
  Char.ofNat (Arithmetic.valueIn 8 digits % 256)

/-- How many hexadecimal digits can follow an escape of the larger language. -/
def hexadecimalLength : Char → Nat
  | 'x' => 2
  | 'u' => 4
  | 'U' => 8
  | _ => 0

/-- The text that a hexadecimal escape stands for: a byte or a character. -/
def hexadecimalText (letter : Char) (digits : List Char) : List Char :=
  let n := Arithmetic.valueIn 16 digits
  if letter = 'x' then [Char.ofNat (n % 256)] else (encode (String.singleton (Char.ofNat n))).toList

/-- The text of an escape, which begins after the backslash, and what follows it. -/
def escape (extended : Bool) (cs : List Char) : List Char × List Char :=
  match cs with
  | [] => (['\\'], [])
  | c :: rest =>
    match plainEscape? c with
    | some x => ([x], rest)
    | none =>
      let digits := (cs.take 3).takeWhile isOctal
      let hexadecimal := (rest.take (hexadecimalLength c)).takeWhile fun d =>
        Arithmetic.digitValue d < 16
      if extended && !hexadecimal.isEmpty then
        (hexadecimalText c hexadecimal, rest.drop hexadecimal.length)
      else if digits.isEmpty then (['\\', c], rest)
      else ([octalChar digits], cs.drop digits.length)

/-- A text with its escapes resolved, and whether one of them ends all output. -/
def echoed (extended : Bool) : Nat → List Char → List Char × Bool
  | 0, _ => ([], false)
  | _, [] => ([], false)
  | fuel + 1, '\\' :: rest =>
    if rest.head? = some 'c' then ([], true)
    else
      let (front, rest) := match rest with
        | '0' :: after =>
          let digits := (after.take 3).takeWhile isOctal
          if digits.isEmpty then (['\x00'], after)
          else ([octalChar digits], after.drop digits.length)
        | rest => escape extended rest
      let (back, stop) := echoed extended fuel rest
      (front ++ back, stop)
  | fuel + 1, c :: rest =>
    let (back, stop) := echoed extended fuel rest
    (c :: back, stop)

def echoedText (extended : Bool) (s : String) : String × Bool :=
  let (cs, stop) := echoed extended (s.length + 1) s.toList
  (String.ofList cs, stop)

def echo (words : List String) : String :=
  let (noEnd, words) := match words with
    | "-n" :: rest => (true, rest)
    | words => (false, words)
  let (text, stop) := echoedText false (String.intercalate " " words)
  if noEnd || stop then text else text ++ "\n"

/-- Options of `echo` in the larger language: letters out of `n`, `e` and `E`. -/
def echoOptions : List String → List Char × List String
  | [] => ([], [])
  | word :: rest => match word.toList with
    | '-' :: c :: cs =>
      if (c :: cs).all ['n', 'e', 'E'].contains then
        let (letters, words) := echoOptions rest
        (c :: cs ++ letters, words)
      else ([], word :: rest)
    | _ => ([], word :: rest)

def extendedEcho (words : List String) : String :=
  let (letters, words) := echoOptions words
  let text := String.intercalate " " words
  let resolves := (letters.filter (· != 'n')).getLast? = some 'e'
  let (text, stop) := if resolves then echoedText true text else (text, false)
  if letters.contains 'n' || stop then text else text ++ "\n"

/-! Formats. -/

structure Directive where
  flags : List Char
  width : Option Nat
  precision : Option Nat
  letter : Char

/-- What was written, what was wrong, and whether nothing more is to be written. -/
structure Written where
  text : String
  warnings : List String
  status : Nat
  ended : Bool

def Written.add (w : Written) (text : String) : Written := { w with text := w.text ++ text }

def Written.warn (w : Written) (warning : String) : Written :=
  { w with warnings := w.warnings ++ [warning], status := 1 }

def padTo (d : Directive) (s : String) : String :=
  pad (d.width.getD 0) (d.flags.contains '-') s

/-- A number with its sign, filled up with zeros or blanks. -/
def padNumber (d : Directive) (sign digits : String) : String :=
  let digits := match d.precision with
    | some n => repeated (n - digits.length) '0' ++ digits
    | none =>
      if d.flags.contains '0' && !d.flags.contains '-' then
        repeated (d.width.getD 0 - sign.length - digits.length) '0' ++ digits
      else digits
  padTo d (sign ++ digits)

def positiveSign (d : Directive) : String :=
  if d.flags.contains '+' then "+" else if d.flags.contains ' ' then " " else ""

def digitsIn (base : Nat) (n : Nat) : String := String.ofList (Nat.toDigits base n)

def upperText (s : String) : String := String.ofList (s.toList.map Char.toUpper)

/-- A number at the beginning of an argument, and whether all of it is the number. -/
def argumentNumber (s : String) : Int × Bool × Bool :=
  match s.toList with
  | '\'' :: c :: _ | '"' :: c :: _ => (c.toNat, true, true)
  | cs =>
    let cs := cs.dropWhile isSpace
    let (negative, cs) := match cs with
      | '-' :: rest => (true, rest)
      | '+' :: rest => (false, rest)
      | cs => (false, cs)
    let (n, length) := Arithmetic.numberAt cs
    (if negative then -(n : Int) else n, 0 < length, length = cs.length)

/-! Numbers with a point. -/

/-- A fraction at the beginning of an argument as a double. -/
def argumentDouble (s : String) : Double × Bool :=
  let cs := s.toList.dropWhile isSpace
  let (negative, cs) := match cs with
    | '-' :: rest => (true, rest)
    | '+' :: rest => (false, rest)
    | cs => (false, cs)
  let whole := cs.takeWhile Char.isDigit
  let rest := cs.drop whole.length
  let part := match rest with
    | '.' :: after => after.takeWhile Char.isDigit
    | _ => []
  let rest := if rest.head? = some '.' then rest.drop (part.length + 1) else rest
  let (exponent, rest) : Int × List Char := match rest with
    | e :: after =>
      if e = 'e' || e = 'E' then
        let (minus, digits) := match after with
          | '-' :: ds => (true, ds.takeWhile Char.isDigit)
          | '+' :: ds => (false, ds.takeWhile Char.isDigit)
          | ds => (false, ds.takeWhile Char.isDigit)
        if digits.isEmpty then (0, rest)
        else
          let sign := if after.head? = some '-' || after.head? = some '+' then 1 else 0
          (if minus then -(natOf digits : Int) else natOf digits, after.drop (digits.length + sign))
      else (0, rest)
    | [] => (0, [])
  (Double.ofDecimal negative (natOf (whole ++ part)) (exponent - part.length), rest.isEmpty)

/-- Numerator and denominator of a finite double. -/
def ratio (x : Double) : Nat × Nat :=
  if 0 ≤ x.exponent then (x.significand * twoTo x.exponent.toNat, 1)
  else (x.significand, twoTo (-x.exponent).toNat)

def fixedText (x : Double) (places : Nat) : String :=
  let (num, den) := ratio x
  let digits := (Nat.toDigits 10 (Double.halfEven (num * tenTo places) den))
  let digits := List.replicate (places + 1 - digits.length) '0' ++ digits
  let whole := String.ofList (digits.take (digits.length - places))
  if places = 0 then whole
  else whole ++ "." ++ String.ofList (digits.drop (digits.length - places))

/-- Digits of a double rounded to so many, and the exponent of the first. -/
def roundedDigits (x : Double) (count : Nat) : List Char × Int :=
  let (num, den) := ratio x
  if num = 0 then (List.replicate count '0', 0)
  else
    let guess : Int := (Nat.toDigits 10 num).length - (Nat.toDigits 10 den).length
    let at_ := fun (e : Int) =>
      let scale : Int := (count : Int) - 1 - e
      Double.halfEven (num * tenTo scale.toNat) (den * tenTo (-scale).toNat)
    let exponent := ([guess + 1, guess, guess - 1].find? fun e =>
      tenTo (count - 1) ≤ at_ e && at_ e < tenTo count).getD (guess + 1)
    (Nat.toDigits 10 (at_ exponent), exponent)

def exponentText (letter : Char) (e : Int) : String :=
  let digits := toString e.natAbs
  String.singleton letter ++ (if e < 0 then "-" else "+") ++
    repeated (2 - digits.length) '0' ++ digits

def exponentialText (letter : Char) (x : Double) (places : Nat) : String :=
  let (digits, e) := roundedDigits x (places + 1)
  let part := if places = 0 then "" else "." ++ String.ofList (digits.drop 1)
  String.ofList (digits.take 1) ++ part ++ exponentText letter e

def withoutZeros (s : String) : String :=
  if s.toList.contains '.' then
    let cs := s.toList.reverse.dropWhile (· = '0')
    String.ofList (cs.dropWhile (· = '.')).reverse
  else s

def generalText (upper : Bool) (x : Double) (precision : Nat) : String :=
  let count := max precision 1
  let (digits, e) := roundedDigits x count
  if e < -4 || (count : Int) ≤ e then
    let mantissa := withoutZeros
      (String.ofList (digits.take 1) ++ "." ++ String.ofList (digits.drop 1))
    mantissa ++ exponentText (if upper then 'E' else 'e') e
  else withoutZeros (fixedText x ((count : Int) - 1 - e).toNat)

def doubleText (d : Directive) (x : Double) : String :=
  let precision := d.precision.getD 6
  let text := match d.letter with
    | 'f' | 'F' => fixedText x precision
    | 'e' => exponentialText 'e' x precision
    | 'E' => exponentialText 'E' x precision
    | 'G' => generalText true x precision
    | _ => generalText false x precision
  let sign := if x.isNegative then "-" else positiveSign d
  padNumber { d with precision := none } sign text

/-! Directives. -/

def isConversion (c : Char) : Bool :=
  ['d', 'i', 'o', 'u', 'x', 'X', 'e', 'E', 'f', 'F', 'g', 'G', 'c', 's', 'b'].contains c

def clampSigned (n : Int) : Int := max (-9223372036854775808) (min n 9223372036854775807)

def unsigned (n : Int) : Nat := (min n 18446744073709551615 % 18446744073709551616).toNat

def numberText (d : Directive) (n : Int) : String :=
  match d.letter with
  | 'd' | 'i' =>
    let n := clampSigned n
    padNumber d (if n < 0 then "-" else positiveSign d) (toString n.natAbs)
  | 'o' =>
    let text := digitsIn 8 (unsigned n)
    padNumber d "" (if d.flags.contains '#' then "0" ++ text else text)
  | 'x' => padNumber d (if d.flags.contains '#' then "0x" else "") (digitsIn 16 (unsigned n))
  | 'X' =>
    padNumber d (if d.flags.contains '#' then "0X" else "") (upperText (digitsIn 16 (unsigned n)))
  | _ => padNumber d "" (toString (unsigned n))

def writeNumber (d : Directive) (argument : Option String) (w : Written) : Written :=
  let s := argument.getD ""
  let (n, found, whole) := argumentNumber s
  let w := w.add (numberText d n)
  if s.isEmpty then w
  else if !found then w.warn (s ++ ": expected numeric value")
  else if !whole then w.warn (s ++ ": not completely converted")
  else if clampSigned n != n && (d.letter = 'd' || d.letter = 'i') then
    w.warn (s ++ ": Numerical result out of range")
  else w

def writeDirective (extended : Bool) (d : Directive) (argument : Option String) (w : Written) :
    Written :=
  match d.letter with
  | 's' =>
    let cs := (argument.getD "").toList
    w.add (padTo d (String.ofList (match d.precision with
      | some n => cs.take n
      | none => cs)))
  | 'b' =>
    let (text, stop) := echoedText extended (argument.getD "")
    let text := match d.precision with
      | some n => String.ofList (text.toList.take n)
      | none => text
    { w.add (padTo d text) with ended := stop }
  | 'c' => w.add (padTo d (String.singleton ((argument.getD "").toList.headD '\x00')))
  | 'd' | 'i' | 'o' | 'u' | 'x' | 'X' => writeNumber d argument w
  | _ =>
    let (x, whole) := argumentDouble (argument.getD "")
    let w := w.add (doubleText d x)
    if whole then w else w.warn (argument.getD "" ++ ": not completely converted")

/-- A number in a directive, which may be taken from the arguments. -/
def directiveNumber (cs : List Char) (arguments : List String) :
    Option Int × List Char × List String :=
  match cs with
  | '*' :: rest => (some (argumentNumber (arguments.headD "")).1, rest, arguments.drop 1)
  | cs =>
    let digits := cs.takeWhile Char.isDigit
    (if digits.isEmpty then none else some (natOf digits), cs.drop digits.length, arguments)

/-- Writes a format once; the arguments that are left. -/
def writeOnce (extended : Bool) : Nat → List Char → List String → Written → Written × List String
  | 0, _, arguments, w => (w, arguments)
  | _, [], arguments, w => (w, arguments)
  | fuel + 1, '\\' :: rest, arguments, w =>
    let (front, rest) := escape extended rest
    writeOnce extended fuel rest arguments (w.add (String.ofList front))
  | fuel + 1, '%' :: '%' :: rest, arguments, w => writeOnce extended fuel rest arguments (w.add "%")
  | fuel + 1, '%' :: rest, arguments, w =>
    let flags := rest.takeWhile ['#', '-', '+', ' ', '0'].contains
    let start := rest.drop flags.length
    let (width, after, arguments) := directiveNumber start arguments
    let (precision, after, arguments) := match after with
      | '.' :: digits =>
        let (n, after, arguments) := directiveNumber digits arguments
        (some (n.getD 0), after, arguments)
      | after => (none, after, arguments)
    match after with
    | [] => ({ w.warn "missing format character" with status := 2, ended := true }, [])
    | letter :: after' =>
      if isConversion letter then
        let d : Directive :=
          { flags := if width.any (· < 0) then '-' :: flags else flags
            width := width.map Int.natAbs
            precision := precision.map Int.toNat
            letter }
        let w := writeDirective extended d arguments.head? w
        if w.ended then (w, [])
        else writeOnce extended fuel after' (arguments.drop 1) w
      else
        let written := (rest.take (rest.length - after.length + 1))
        ({ w.warn ("%" ++ String.ofList written ++ ": invalid directive") with
            status := 2, ended := true }, [])
  | fuel + 1, c :: rest, arguments, w =>
    writeOnce extended fuel rest arguments (w.add (String.singleton c))

def writeAll (extended : Bool) (format : List Char) : Nat → List String → Written → Written
  | 0, _, w => w
  | fuel + 1, arguments, w =>
    let (w, left) := writeOnce extended (format.length + 1) format arguments w
    if w.ended || left.isEmpty || left.length = arguments.length then w
    else writeAll extended format fuel left w

def printf (extended : Bool) (format : String) (arguments : List String) : Written :=
  writeAll extended format.toList (arguments.length + 1) arguments ⟨"", [], 0, false⟩

end SchemaDecl.Shell.Format
