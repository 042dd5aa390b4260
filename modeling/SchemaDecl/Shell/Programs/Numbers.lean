import SchemaDecl.Shell.Format
import SchemaDecl.Shell.Programs.Options
import SchemaDecl.Shell.Regex

/-! Programs that calculate: `seq` counts, `expr` evaluates an expression whose
every operator and operand is a word of its own. -/

namespace SchemaDecl.Shell

/-! Counting. A number with a point is an integer divided by a power of ten. -/

structure Decimal where
  digits : Int
  places : Nat

def Decimal.read? (s : String) : Option Decimal :=
  let (negative, cs) := match s.toList.dropWhile isSpace with
    | '-' :: rest => (true, rest)
    | '+' :: rest => (false, rest)
    | cs => (false, cs)
  let whole := cs.takeWhile Char.isDigit
  let part : Option (List Char) := match cs.drop whole.length with
    | [] => some []
    | '.' :: rest => if rest.all Char.isDigit then some rest else none
    | _ => none
  part.bind fun part =>
    if whole.isEmpty && part.isEmpty then none
    else
      let n : Int := natOf (whole ++ part)
      some ⟨if negative then -n else n, part.length⟩

def Decimal.scaled (d : Decimal) (places : Nat) : Int :=
  d.digits * Number.tenTo (places - d.places)

def decimalText (places : Nat) (n : Int) : String :=
  let digits := Nat.toDigits 10 n.natAbs
  let digits := List.replicate (places + 1 - digits.length) '0' ++ digits
  let whole := digits.take (digits.length - places)
  (if n < 0 then "-" else "") ++ String.ofList whole ++
    (if places = 0 then "" else "." ++ String.ofList (digits.drop whole.length))

/-- The numbers from the first to the last. -/
def countUp (step last : Int) : Nat → Int → List Int
  | 0, _ => []
  | fuel + 1, n =>
    if (0 < step && last < n) || (step < 0 && n < last) then []
    else n :: countUp step last fuel (n + step)

def padZeros (width : Nat) (s : String) : String :=
  match s.toList with
  | '-' :: rest => "-" ++ repeated (width - s.length) '0' ++ String.ofList rest
  | cs => repeated (width - s.length) '0' ++ String.ofList cs

/-- A negative number looks like an option. -/
def protectNumbers : List String → List String
  | [] => []
  | w :: rest => match w.toList with
    | '-' :: c :: _ => if c.isDigit || c = '.' then "--" :: w :: rest else w :: protectNumbers rest
    | _ => w :: protectNumbers rest

def countFrom (o : Options) (first step last : Decimal) : ShellM Nat := do
  let places := max first.places step.places
  let scale := max places last.places
  let span := (last.scaled scale - first.scaled scale).natAbs
  let numbers := countUp (step.scaled scale) (last.scaled scale)
    (span / (step.scaled scale).natAbs + 1) (first.scaled scale)
  let shown := numbers.map fun n =>
    decimalText places (n / (Number.tenTo (scale - places) : Int))
  let texts := match o.value? 'f' with
    | some format => shown.map fun s => (Format.printf true format [s]).text
    | none =>
      if o.has 'w' then shown.map (padZeros ((shown.map String.length).foldl max 0)) else shown
  if !texts.isEmpty then
    out (String.intercalate ((o.value? 's').getD "\n") texts ++ "\n")
  return 0

def seq : Program := fun name arguments =>
  withOptions ⟨"w", "sf", [("equal-width", 'w'), ("separator", 's'), ("format", 'f')]⟩ 1
    (fun name o => do
      let one : Decimal := ⟨1, 0⟩
      if o.words.isEmpty then return ← refuse name "missing operand" 1
      match o.words[3]? with
      | some extra => refuse name ("extra operand " ++ curlyName extra) 1
      | none => match o.words.find? fun w => (Decimal.read? w).isNone with
        | some w => refuse name ("invalid floating point argument: " ++ curlyName w) 1
        | none => match o.words.filterMap Decimal.read? with
          | [last] => countFrom o one one last
          | [first, last] => countFrom o first one last
          | [first, step, last] =>
            if step.digits = 0 then
              refuse name ("invalid Zero increment value: " ++ curlyName (o.words.getD 1 "")) 1
            else countFrom o first step last
          | _ => return 0)
    name (protectNumbers arguments)

/-! Expressions. -/

namespace Expr

inductive Fault
  | argumentMissing (after : String)
  | unexpected (word : String)
  | parenthesisMissing (after : String)
  | noInteger
  | divisionByZero
  | regex (message : String)

def Fault.message : Fault → String
  | .argumentMissing after => "syntax error: missing argument after " ++ curlyName after
  | .unexpected ")" => "syntax error: unexpected " ++ quotedName ")"
  | .unexpected word => "syntax error: unexpected argument " ++ curlyName word
  | .parenthesisMissing after =>
    "syntax error: expecting " ++ quotedName ")" ++ " after " ++ curlyName after
  | .noInteger => "non-integer argument"
  | .divisionByZero => "division by zero"
  | .regex message => message

/-- A value, the words that are left and the last word that was taken. -/
abbrev Step := Except Fault (String × List String × String)

def integerOf (s : String) : Except Fault Int :=
  match s.toList with
  | '+' :: _ => .error .noInteger
  | cs => if cs.any isSpace then .error .noInteger else match integer? s with
    | some n => .ok n
    | none => .error .noInteger

def isTrue (s : String) : Bool :=
  let cs := match s.toList with
    | '-' :: rest => rest
    | cs => cs
  !(s.isEmpty || (!cs.isEmpty && cs.all (· = '0')))

def bool (b : Bool) : String := if b then "1" else "0"

def compared (o : String) (order : Ordering) : Bool :=
  match o with
  | "<" => order = .lt
  | "<=" => order != .gt
  | "=" | "==" => order = .eq
  | "!=" => order != .eq
  | ">=" => order != .lt
  | _ => order = .gt

def orderOf (a b : String) : Ordering :=
  match integerOf a, integerOf b with
  | .ok x, .ok y => compare x y
  | _, _ => if a < b then .lt else if b < a then .gt else .eq

/-- A match at the beginning of a text: the first group, or how long the match is. -/
def matched (text pattern : String) : Except Fault String :=
  match Regex.read Regex.basic (characters pattern) with
  | .error message => .error (.regex message)
  | .ok r =>
    let subject := Regex.subject false (characters text)
    let hasGroup := 0 < r.groupCount
    match Regex.find? subject r 0 with
    | some m =>
      if m.start != 0 then .ok (if hasGroup then "" else "0")
      else if hasGroup then .ok (ofCharacters (m.group subject 1))
      else .ok (toString (m.stop - m.start))
    | none => .ok (if hasGroup then "" else "0")

def applyOperator (o a b : String) : Except Fault String :=
  match o with
  | "|" => .ok (if isTrue a then a else if isTrue b then b else "0")
  | "&" => .ok (if isTrue a && isTrue b then a else "0")
  | "+" => do return toString ((← integerOf a) + (← integerOf b))
  | "-" => do return toString ((← integerOf a) - (← integerOf b))
  | "*" => do return toString ((← integerOf a) * (← integerOf b))
  | "/" | "%" => do
    let x ← integerOf a
    let y ← integerOf b
    if y = 0 then throw .divisionByZero
    return toString (if o = "/" then Int.tdiv x y else Int.tmod x y)
  | ":" => matched a b
  | o => .ok (bool (compared o (orderOf a b)))

def levels : List (List String) :=
  [["|"], ["&"], ["<", "<=", "=", "==", "!=", ">=", ">"], ["+", "-"], ["*", "/", "%"], [":"]]

/-- The part of a text of so many characters from a position, which counts from one. -/
def part (s position length : String) : String :=
  match integer? position, integer? length with
  | some p, some n =>
    if p < 1 || n < 1 then "" else ofCharacters (((characters s).drop (p.toNat - 1)).take n.toNat)
  | _, _ => ""

def indexOf (s chars : String) : Nat :=
  match (characters s).findIdx? (characters chars).contains with
  | some i => i + 1
  | none => 0

mutual
def binary : Nat → List (List String) → List String → String → Step
  | 0, _, _, last => .error (.argumentMissing last)
  | fuel + 1, [], ws, last => primary fuel ws last
  | fuel + 1, level :: deeper, ws, last => do
    let (a, ws, last) ← binary fuel deeper ws last
    more fuel level deeper a ws last

def more : Nat → List String → List (List String) → String → List String → String → Step
  | 0, _, _, _, _, last => .error (.argumentMissing last)
  | fuel + 1, level, deeper, a, ws, last =>
    match ws with
    | o :: rest =>
      if level.contains o then do
        let (b, ws, last) ← binary fuel deeper rest o
        more fuel level deeper (← applyOperator o a b) ws last
      else .ok (a, ws, last)
    | [] => .ok (a, ws, last)

def primary : Nat → List String → String → Step
  | 0, _, last => .error (.argumentMissing last)
  | fuel + 1, ws, last =>
    match ws with
    | [] => .error (.argumentMissing last)
    | "(" :: rest => do
      let (a, ws, last) ← binary fuel levels rest "("
      match ws with
      | ")" :: rest => return (a, rest, ")")
      | _ => throw (.parenthesisMissing last)
    | ")" :: _ => .error (.unexpected ")")
    | ["+"] => .error (.argumentMissing "+")
    | "+" :: w :: rest => .ok (w, rest, w)
    | "length" :: rest => do
      let (a, ws, last) ← primary fuel rest "length"
      return (toString (characters a).length, ws, last)
    | "match" :: rest => do
      let (a, ws, last) ← primary fuel rest "match"
      let (b, ws, last) ← primary fuel ws last
      return (← matched a b, ws, last)
    | "index" :: rest => do
      let (a, ws, last) ← primary fuel rest "index"
      let (b, ws, last) ← primary fuel ws last
      return (toString (indexOf a b), ws, last)
    | "substr" :: rest => do
      let (a, ws, last) ← primary fuel rest "substr"
      let (b, ws, last) ← primary fuel ws last
      let (c, ws, last) ← primary fuel ws last
      return (part a b c, ws, last)
    | w :: rest => .ok (w, rest, w)
end

def evaluate (ws : List String) : Except Fault String := do
  let (a, left, _) ← binary (32 * ws.length + 32) levels ws ""
  match left with
  | [] => return a
  | w :: _ => throw (.unexpected w)

end Expr

def expr : Program := fun name arguments => do
  let words := if arguments.head? = some "--" then arguments.drop 1 else arguments
  if words = ["--version"] || words = ["--help"] then
    out (name ++ "\n")
    return 0
  if words.isEmpty then return ← refuse name "missing operand" 2
  match Expr.evaluate words with
  | .ok a =>
    out (a ++ "\n")
    return if Expr.isTrue a then 0 else 1
  | .error fault =>
    tell name fault.message
    return 2

end SchemaDecl.Shell
