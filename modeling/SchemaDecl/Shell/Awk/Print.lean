import SchemaDecl.Shell.Awk.State

/-! Formatted printing. A letter for whole numbers cuts a number off after the point;
a number as a character is the byte with that value. -/

namespace SchemaDecl.Shell.Awk

/-- A value as a whole number. What is too large for a signed word is shown without a sign. -/
def wholeText (d : Format.Directive) (x : Float) : String :=
  match d.letter with
  | 'd' | 'i' =>
    if x ≥ 9223372036854775808.0 then
      Format.padNumber d (Format.positiveSign d) (toString (unsignedWordOf x))
    else Format.numberText d (wordOf x)
  | _ => Format.numberText d (unsignedWordOf x)

def characterText (d : Format.Directive) (v : Value) (text : String) : String :=
  let c := match v with
    | .number x | .both _ x => Char.ofNat ((unsignedWordOf x) % 256)
    | _ => text.toList.headD '\x00'
  Format.padTo d (String.singleton c)

def valueText (d : Format.Directive) (v : Value) (text : String) : String :=
  match d.letter with
  | 's' =>
    Format.padTo d (match d.precision with
      | some n => String.ofList (text.toList.take n)
      | none => text)
  | 'c' => characterText d v text
  | 'd' | 'i' | 'o' | 'x' | 'X' | 'u' => wholeText d v.toNumber
  | _ => pointText d v.toNumber

def isLetter (c : Char) : Bool := "diouxXcsfeEgGF".toList.contains c

/-- A width or a precision, which may be taken from the values. -/
def sizeAt (cs : List Char) (vs : List Value) :
    Option (Option Int × List Char × List Value) :=
  match cs with
  | '*' :: rest => match vs with
    | v :: vs => some (some (truncated v.toNumber), rest, vs)
    | [] => none
  | cs =>
    let digits := cs.takeWhile Char.isDigit
    some (if digits.isEmpty then none else some (natOf digits), cs.drop digits.length, vs)

/-- A format with values put in. The fault names the function and the format. -/
def formatText (function format : String) : Nat → Nat → List Char → List Value → AwkM String
  | 0, _, _, _ => return ""
  | fuel + 1, count, cs, vs => match cs with
    | [] => return ""
    | '%' :: '%' :: rest => return "%" ++ (← formatText function format fuel count rest vs)
    | '%' :: rest => do
      let place := function ++ "(\"" ++ format ++ "\")"
      let tooFew : AwkM String := runFault ("not enough arguments passed to " ++ place)
      let flags := rest.takeWhile ['#', '-', '+', ' ', '0'].contains
      match sizeAt (rest.drop flags.length) vs with
      | none => tooFew
      | some (width, rest, vs) =>
        let after? : Option (Option Int × List Char × List Value) := match rest with
          | '.' :: rest => (sizeAt rest vs).map fun (n, rest, vs) => (some (n.getD 0), rest, vs)
          | rest => some (none, rest, vs)
        match after? with
        | none => tooFew
        | some (precision, rest, vs) =>
          let rest := match rest with
            | 'l' :: 'l' :: rest | 'l' :: rest | 'h' :: rest => rest
            | rest => rest
          match rest with
          | [] =>
            runFault ("improper conversion(number " ++ toString count ++ ") in " ++ place)
          | letter :: rest =>
            if !isLetter letter then
              runFault ("improper conversion(number " ++ toString count ++ ") in " ++ place)
            else match vs with
              | [] => tooFew
              | v :: vs =>
                let d : Format.Directive :=
                  { flags := if width.any (· < 0) then '-' :: flags else flags
                    width := width.map Int.natAbs
                    precision := precision.bind fun n => if n < 0 then none else some n.toNat
                    letter }
                let text := valueText d v (← asText v)
                return text ++ (← formatText function format fuel (count + 1) rest vs)
    | c :: rest =>
      let front := c :: rest.takeWhile (· != '%')
      return String.ofList front ++
        (← formatText function format fuel count (rest.drop (front.length - 1)) vs)

def formatted (function : String) (vs : List Value) : AwkM String := do
  match vs with
  | [] => return ""
  | format :: vs =>
    let format ← asText format
    formatText function format (format.length + 1) 1 format.toList vs

end SchemaDecl.Shell.Awk
