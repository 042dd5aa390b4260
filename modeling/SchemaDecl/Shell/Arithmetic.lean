import SchemaDecl.Shell.Bytes

/-! Arithmetic of the shell on 64-bit integers that wrap around. An expression is
read into a tree first, so that a choice evaluates only the branch it takes; what
is assigned on the way is collected and left to the caller. -/

namespace SchemaDecl.Shell.Arithmetic

inductive Expression
  | number (value : Int64)
  | variable (name : String)
  | unary (operator : String) (argument : Expression)
  | binary (operator : String) (left right : Expression)
  | conditional (condition yes no : Expression)
  | assign (name operator : String) (value : Expression)
  /-- Adds to a variable and stands for its value before. -/
  | step (name : String) (amount : Int64)

inductive Token
  | number (value : Int64)
  | name (name : String)
  | operator (text : String)
  | unknown
  deriving DecidableEq

inductive Fault
  | expected (what : String)
  | divisionByZero
  | illegalNumber (text : String)

/-! Tokens. -/

def operators : List String :=
  ["<<=", ">>=", "&&", "||", "<<", ">>", "<=", ">=", "==", "!=", "*=", "/=", "%=", "+=", "-=", "&=",
    "^=", "|=", "+", "-", "*", "/", "%", "<", ">", "&", "^", "|", "!", "~", "?", ":", "=", "(", ")"]

def extendedOperators : List String := ["**", "++", "--", ","] ++ operators

def digitValue (c : Char) : Nat :=
  if c.isDigit then c.toNat - 48
  else if 'a' ≤ c && c ≤ 'f' then c.toNat - 87
  else if 'A' ≤ c && c ≤ 'F' then c.toNat - 55
  else 99

def valueIn (base : Nat) (digits : List Char) : Nat :=
  digits.foldl (fun n c => base * n + digitValue c) 0

/-- The number that begins a text, with a leading `0x` or `0` as in a program, and its length. -/
def numberAt (cs : List Char) : Nat × Nat :=
  match cs with
  | '0' :: x :: c :: rest =>
    if (x = 'x' || x = 'X') && digitValue c < 16 then
      let digits := (c :: rest).takeWhile fun d => digitValue d < 16
      (valueIn 16 digits, digits.length + 2)
    else
      let digits := cs.takeWhile fun d => digitValue d < 8
      (valueIn 8 digits, digits.length)
  | '0' :: _ =>
    let digits := cs.takeWhile fun d => digitValue d < 8
    (valueIn 8 digits, digits.length)
  | cs =>
    let digits := cs.takeWhile Char.isDigit
    (natOf digits, digits.length)

def tokens (operators : List String) : Nat → List Char → List Token
  | 0, _ => []
  | _, [] => []
  | fuel + 1, c :: rest =>
    if isSpace c then tokens operators fuel rest
    else if c.isDigit then
      let (value, n) := numberAt (c :: rest)
      .number (Int64.ofNat value) :: tokens operators fuel (rest.drop (n - 1))
    else if isNameStart c then
      let name := c :: rest.takeWhile isNameChar
      .name (String.ofList name) :: tokens operators fuel (rest.drop (name.length - 1))
    else match operators.find? fun o => o.toList.isPrefixOf (c :: rest) with
      | some o => .operator o :: tokens operators fuel (rest.drop (o.length - 1))
      | none => [.unknown]

/-! Trees. -/

/-- Binary operators from the loosest to the tightest. -/
def levels : List (List String) :=
  [["||"], ["&&"], ["|"], ["^"], ["&"], ["==", "!="], ["<", "<=", ">", ">="], ["<<", ">>"],
    ["+", "-"], ["*", "/", "%"], ["**"]]

def assignments : List String :=
  ["=", "*=", "/=", "%=", "+=", "-=", "<<=", ">>=", "&=", "^=", "|="]

abbrev Step := Except Fault (Expression × List Token)

mutual
def assignment : Nat → List Token → Step
  | 0, _ => .error (.expected "primary")
  | fuel + 1, ts => match ts with
    | .name name :: .operator o :: rest =>
      if assignments.contains o then do
        let (value, rest) ← assignment fuel rest
        return (.assign name (String.ofList (o.toList.dropLast)) value, rest)
      else choice fuel ts
    | ts => choice fuel ts

def choice : Nat → List Token → Step
  | 0, _ => .error (.expected "primary")
  | fuel + 1, ts => do
    let (condition, rest) ← binary fuel levels ts
    match rest with
    | .operator "?" :: rest =>
      let (yes, rest) ← assignment fuel rest
      match rest with
      | .operator ":" :: rest =>
        let (no, rest) ← assignment fuel rest
        return (.conditional condition yes no, rest)
      | _ => throw (.expected "':'")
    | rest => return (condition, rest)

def binary : Nat → List (List String) → List Token → Step
  | 0, _, _ => .error (.expected "primary")
  | fuel + 1, levels, ts => match levels with
    | [] => unary fuel ts
    | level :: tighter => do
      let (left, rest) ← binary fuel tighter ts
      moreBinary fuel level tighter left rest

def moreBinary : Nat → List String → List (List String) → Expression → List Token → Step
  | 0, _, _, _, _ => .error (.expected "primary")
  | fuel + 1, level, tighter, left, ts => match ts with
    | .operator o :: rest =>
      if level.contains o then do
        let (right, rest) ← binary fuel tighter rest
        moreBinary fuel level tighter (.binary o left right) rest
      else .ok (left, ts)
    | ts => .ok (left, ts)

def unary : Nat → List Token → Step
  | 0, _ => .error (.expected "primary")
  | fuel + 1, ts => match ts with
    | .operator "++" :: .name name :: rest =>
      .ok (.assign name "+" (.number 1), rest)
    | .operator "--" :: .name name :: rest =>
      .ok (.assign name "-" (.number 1), rest)
    | .operator o :: rest =>
      if ["!", "~", "+", "-"].contains o then do
        let (argument, rest) ← unary fuel rest
        return (.unary o argument, rest)
      else if o = "(" then do
        let (inside, rest) ← assignment fuel rest
        match rest with
        | .operator ")" :: rest => return (inside, rest)
        | _ => throw (.expected "')'")
      else .error (.expected "primary")
    | .number n :: rest => .ok (.number n, rest)
    | .name name :: .operator "++" :: rest => .ok (.step name 1, rest)
    | .name name :: .operator "--" :: rest => .ok (.step name (-1), rest)
    | .name name :: rest => .ok (.variable name, rest)
    | _ => .error (.expected "primary")
end

/-- Expressions with commas between them; the last one counts. -/
def series (fuel : Nat) : Nat → List Token → Step
  | 0, ts => assignment fuel ts
  | steps + 1, ts => do
    let (first, rest) ← assignment fuel ts
    match rest with
    | .operator "," :: rest =>
      let (second, rest) ← series fuel steps rest
      return (.binary "," first second, rest)
    | rest => return (first, rest)

/-- An empty expression is zero in the larger language. -/
def read (extended : Bool) (text : String) : Except Fault Expression := do
  let operators := if extended then extendedOperators else operators
  let ts := tokens operators (text.length + 1) text.toList
  let fuel := 32 * ts.length + 32
  if ts.isEmpty && extended then return .number 0
  let (e, rest) ← series fuel ts.length ts
  if rest.isEmpty then return e else throw (.expected "EOF")

/-! Values. -/

/-- Values assigned so far, the latest first. -/
abbrev Evaluation := StateT (List (String × Int64)) (Except Fault)

def ofBool (b : Bool) : Int64 := if b then 1 else 0

def power (base : Int64) : Nat → Int64
  | 0 => 1
  | n + 1 => base * power base n

def apply (o : String) (a b : Int64) : Except Fault Int64 :=
  match o with
  | "+" => .ok (a + b)
  | "-" => .ok (a - b)
  | "*" => .ok (a * b)
  | "/" => if b = 0 then .error .divisionByZero else .ok (a / b)
  | "%" => if b = 0 then .error .divisionByZero else .ok (a % b)
  | "<<" => .ok (a <<< b)
  | ">>" => .ok (a >>> b)
  | "&" => .ok (a &&& b)
  | "|" => .ok (a ||| b)
  | "^" => .ok (a ^^^ b)
  | "==" => .ok (ofBool (a = b))
  | "!=" => .ok (ofBool (a ≠ b))
  | "<" => .ok (ofBool (a < b))
  | "<=" => .ok (ofBool (a ≤ b))
  | ">" => .ok (ofBool (b < a))
  | ">=" => .ok (ofBool (b ≤ a))
  | "**" => .ok (power a (min b.toInt.toNat 64))
  | _ => .ok b

def applyUnary (o : String) (a : Int64) : Int64 :=
  match o with
  | "!" => ofBool (a = 0)
  | "~" => ~~~a
  | "-" => -a
  | _ => a

/-- The value of a variable, which has to be a number if it is not empty. -/
def numberOf (text : String) : Except Fault Int64 :=
  let cs := text.toList.dropWhile isSpace
  let (negative, cs) := match cs with
    | '-' :: rest => (true, rest)
    | '+' :: rest => (false, rest)
    | cs => (false, cs)
  if text.isEmpty then .ok 0
  else
    let (value, n) := numberAt cs
    if n = 0 || !(cs.drop n).all isSpace then .error (.illegalNumber text)
    else .ok (if negative then -(Int64.ofNat value) else Int64.ofNat value)

def lookUp (bindings : String → String) (name : String) : Evaluation Int64 := do
  match (← get).lookup name with
  | some n => return n
  | none => (numberOf (bindings name) : Except _ _)

def evaluate (bindings : String → String) : Expression → Evaluation Int64
  | .number n => return n
  | .variable name => lookUp bindings name
  | .unary o a => return applyUnary o (← evaluate bindings a)
  | .binary "&&" a b => do
    if (← evaluate bindings a) = 0 then return 0
    return ofBool ((← evaluate bindings b) ≠ 0)
  | .binary "||" a b => do
    if (← evaluate bindings a) ≠ 0 then return 1
    return ofBool ((← evaluate bindings b) ≠ 0)
  | .binary o a b => do
    let a ← evaluate bindings a
    let b ← evaluate bindings b
    (apply o a b : Except _ _)
  | .conditional c a b => do
    if (← evaluate bindings c) ≠ 0 then evaluate bindings a else evaluate bindings b
  | .assign name o e => do
    let value ← evaluate bindings e
    let value ← if o.isEmpty then pure value
      else do
        let before ← lookUp bindings name
        (apply o before value : Except _ _)
    modify fun set => (name, value) :: set
    return value
  | .step name n => do
    let before ← lookUp bindings name
    modify fun set => (name, before + n) :: set
    return before

/-- The value of an expression, and what it assigns, the latest first. -/
def calculate (extended : Bool) (bindings : String → String) (text : String) :
    Except Fault (Int64 × List (String × Int64)) := do
  let e ← read extended text
  (evaluate bindings e).run []

def Fault.message (text : String) : Fault → String
  | .expected what => "arithmetic expression: expecting " ++ what ++ ": \"" ++ text ++ "\""
  | .divisionByZero => "arithmetic expression: division by zero: \"" ++ text ++ "\""
  | .illegalNumber number => "Illegal number: " ++ number

end SchemaDecl.Shell.Arithmetic
