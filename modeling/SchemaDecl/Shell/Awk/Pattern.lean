import SchemaDecl.Shell.Regex

/-! Regular expressions of the language. The notation is the extended one, but a
backslash also stands before letters for control characters, inside of brackets
too, and both anchors are anchors wherever they stand. A text is a row of bytes. -/

namespace SchemaDecl.Shell.Awk.Pattern

inductive Fault
  | operandMissing
  | parenthesisMissing
  | badClass
  | repeatedAnchor
  | tooDeep

def Fault.message : Fault → String
  | .operandMissing => "missing operand"
  | .parenthesisMissing => "missing ')'"
  | .badClass => "bad class -- [], [^] or ["
  | .repeatedAnchor => "syntax error ^* or ^+"
  | .tooDeep => "out of memory"

abbrev Reading := Except Fault

/-- A byte as a character of a text: beyond ASCII it belongs to no class. -/
def byte (c : Char) : Char := if c.toNat < 0x80 then c else strayByte c

/-- The character that an escape stands for, and what follows it. -/
def escaped : List Char → Char × List Char
  | [] => ('\\', [])
  | c :: rest =>
    match c with
    | 'a' => ('\x07', rest)
    | 'b' => ('\x08', rest)
    | 'f' => ('\x0c', rest)
    | 'n' => ('\n', rest)
    | 'r' => ('\r', rest)
    | 't' => ('\t', rest)
    | 'v' => ('\x0b', rest)
    | c =>
      let digits := ((c :: rest).take 3).takeWhile fun d => '0' ≤ d && d ≤ '7'
      if digits.isEmpty then (byte c, rest)
      else
        let n := digits.foldl (fun n d => 8 * n + (d.toNat - 48)) 0
        (byte (Char.ofNat (n % 256)), (c :: rest).drop digits.length)

/-- A character inside of brackets. -/
def insideChar : List Char → Option (Char × List Char)
  | [] => none
  | '\\' :: rest => some (escaped rest)
  | c :: rest => some (byte c, rest)

def brackets (negated : Bool) : Nat → Bool → List (Char × Char) → List String → List Char →
    Reading (Regex × List Char)
  | 0, _, _, _, _ => .error .badClass
  | fuel + 1, isFirst, ranges, classes, cs =>
    match isFirst, cs with
    | false, ']' :: rest => .ok (.oneOf negated ranges.reverse classes.reverse, rest)
    | _, '[' :: ':' :: after =>
      let name := after.takeWhile Char.isAlpha
      match after.drop name.length with
      | ':' :: ']' :: rest =>
        if Regex.knownClasses.contains (String.ofList name) then
          brackets negated fuel false ranges (String.ofList name :: classes) rest
        else .error .badClass
      | _ => brackets negated fuel false (('[', '[') :: ranges) classes (':' :: after)
    | _, cs => match insideChar cs with
      | none => .error .badClass
      | some (c, '-' :: rest) =>
        if rest.head? = some ']' then
          brackets negated fuel false ((c, c) :: ranges) classes ('-' :: rest)
        else match insideChar rest with
          | none => .error .badClass
          | some (d, rest) =>
            let new := if c ≤ d then [(c, d)] else []
            brackets negated fuel false (new ++ ranges) classes rest
      | some (c, rest) => brackets negated fuel false ((c, c) :: ranges) classes rest

/-- The bounds of a repetition in braces. -/
def bounds? (cs : List Char) : Option (Nat × Option Nat × List Char) :=
  let least := cs.takeWhile Char.isDigit
  let number := fun (digits : List Char) => natOf digits
  match cs.drop least.length with
  | '\x7d' :: rest => if least.isEmpty then none else some (number least, some (number least), rest)
  | ',' :: rest =>
    let most := rest.takeWhile Char.isDigit
    match rest.drop most.length with
    | '\x7d' :: rest =>
      if least.isEmpty && most.isEmpty then none
      else some (number least, if most.isEmpty then none else some (number most), rest)
    | _ => none
  | _ => none

mutual
/-- Whether an expression stands for texts of one shape, without a choice in it. -/
def isRigid : Regex → Bool
  | .char _ | .anyOne | .oneOf .. => true
  | .group _ r => isRigid r
  | .sequence rs => areRigid rs
  | _ => false

def areRigid : List Regex → Bool
  | [] => true
  | r :: rs => isRigid r && areRigid rs
end

/-- A repetition with bounds. If it is to occur at least twice, but not a fixed number of times,
something rigid occurs just that often, and anything else also fewer times. -/
def bounded (r : Regex) (least : Nat) (most : Option Nat) : Regex :=
  if least < 2 || most = some least then .repeated r least most
  else if isRigid r then .repeated r least (some least)
  else .repeated r 1 most

/-- What is repeated as long as signs of repetition follow. -/
def repetitions : Nat → Regex → List Char → Regex × List Char
  | 0, r, cs => (r, cs)
  | fuel + 1, r, cs => match cs with
    | '*' :: rest => repetitions fuel (.repeated r 0 none) rest
    | '+' :: rest => repetitions fuel (.repeated r 1 none) rest
    | '?' :: rest => repetitions fuel (.repeated r 0 (some 1)) rest
    | '\x7b' :: rest => match bounds? rest with
      | some (least, most, rest) => repetitions fuel (bounded r least most) rest
      | none => (r, cs)
    | _ => (r, cs)

def startsRepetition (cs : List Char) : Bool :=
  match cs with
  | '*' :: _ | '+' :: _ | '?' :: _ => true
  | '\x7b' :: rest => (bounds? rest).isSome
  | _ => false

mutual
def alternatives : Nat → Nat → List Char → Reading (Regex × List Char)
  | 0, _, _ => .error .tooDeep
  | fuel + 1, depth, cs => do
    let (first, rest) ← branch fuel depth [] cs
    match rest with
    | '|' :: rest =>
      let (others, rest) ← alternatives fuel depth rest
      match others with
      | .either rs => return (.either (first :: rs), rest)
      | r => return (.either [first, r], rest)
    | rest => return (first, rest)

/-- Items one after another; a parenthesis that closes nothing is one of them. -/
def branch : Nat → Nat → List Regex → List Char → Reading (Regex × List Char)
  | 0, _, _, _ => .error .tooDeep
  | fuel + 1, depth, items, cs => do
    let ended := match cs with
      | [] | '|' :: _ => true
      | ')' :: _ => depth != 0
      | _ => false
    if ended then
      if items.isEmpty then throw .operandMissing else return (.sequence items.reverse, cs)
    if startsRepetition cs && cs.head? != some '\x7b' then throw .operandMissing
    let (item, rest) ← atom fuel depth cs
    match item with
    | .textStart =>
      if startsRepetition rest then throw .repeatedAnchor
      branch fuel depth (item :: items) rest
    | _ =>
      let (item, rest) := repetitions (rest.length + 1) item rest
      branch fuel depth (item :: items) rest

def atom : Nat → Nat → List Char → Reading (Regex × List Char)
  | 0, _, _ => .error .tooDeep
  | fuel + 1, depth, cs => match cs with
    | ['('] => throw .parenthesisMissing
    | '(' :: rest => do
      match ← alternatives fuel (depth + 1) rest with
      | (r, ')' :: rest) => return (.group 0 r, rest)
      | _ => throw .parenthesisMissing
    | '[' :: '^' :: rest => brackets true (rest.length + 1) true [] [] rest
    | '[' :: rest => brackets false (rest.length + 1) true [] [] rest
    | '.' :: rest => return (.anyOne, rest)
    | '^' :: rest => return (.textStart, rest)
    | '$' :: rest => return (.textEnd, rest)
    | '\\' :: rest =>
      let (c, rest) := escaped rest
      return (.char c, rest)
    | c :: rest => return (.char (byte c), rest)
    | [] => throw .operandMissing
end

/-- The expression that a text stands for; the empty text matches everywhere. -/
def read (source : String) : Reading Regex := do
  let cs := source.toList
  if cs.isEmpty then return .sequence []
  let (r, _) ← alternatives (4 * cs.length + 8) 0 cs
  return r

/-- A text to be searched. -/
def subject (s : String) : Regex.Subject := ⟨(s.toList.map byte).toArray, false, none⟩

/-- The place of the first match from a position on, as the position and the one after it. -/
def find? (r : Regex) (s : Regex.Subject) (start : Nat) : Option (Nat × Nat) :=
  (Regex.find? s r start).map fun m => (m.start, m.stop)

def isIn (r : Regex) (s : String) : Bool := (find? r (subject s) 0).isSome

end SchemaDecl.Shell.Awk.Pattern
