import SchemaDecl.Shell.Programs.Filters

/-! Programs that write a part of their input: its beginning, its end, or some
columns of its lines. -/

namespace SchemaDecl.Shell

open Files

/-! The beginning and the end of the input. -/

def multipliers : List (String × Nat) :=
  [("", 1), ("b", 512), ("kB", 1000), ("k", 1024), ("K", 1024), ("KiB", 1024), ("MB", 1000000),
    ("m", 1048576), ("M", 1048576), ("MiB", 1048576), ("GB", 1000000000), ("G", 1073741824)]

/-- A number that may have a multiplier. -/
def count? (s : String) : Option Nat :=
  let digits := s.toList.takeWhile Char.isDigit
  if digits.isEmpty then none
  else (multipliers.lookup (String.ofList (s.toList.drop digits.length))).map (natOf digits * ·)

/-- The old form of the options: a sign, a number, and letters. -/
def modernFirst (signs : List Char) : List String → Except Char (List String)
  | [] => .ok []
  | word :: rest => match word.toList with
    | sign :: c :: cs =>
      if signs.contains sign && c.isDigit then
        let digits := (c :: cs).takeWhile Char.isDigit
        let letters := (c :: cs).drop digits.length
        let number := (if sign = '+' then "+" else "") ++ String.ofList digits
        let unit := if letters.contains 'c' || letters.contains 'b' then "-c" else "-n"
        let multiplier := if letters.contains 'b' then "b" else if letters.contains 'k' then "k"
          else if letters.contains 'm' then "m" else ""
        let others := letters.filter fun l => l = 'q' || l = 'v'
        match letters.find? fun l => !(['c', 'b', 'k', 'm', 'l', 'q', 'v'].contains l) with
        | some l => .error l
        | none =>
          let options := others.map fun l => String.ofList ['-', l]
          .ok ([unit ++ number ++ multiplier] ++ options ++ rest)
      else .ok (word :: rest)
    | _ => .ok (word :: rest)

def piecesOf (bytes : Bool) (ending : Char) (text : List Char) : List (List Char) :=
  if bytes then text.map fun c => [c] else rawLinesBy ending text

def headOf (bytes : Bool) (ending : Char) (fromEnd : Bool) (n : Nat) (text : List Char) :
    List Char :=
  let pieces := piecesOf bytes ending text
  (pieces.take (if fromEnd then pieces.length - n else n)).flatten

/-- `fromStart` counts from the beginning, the first line or character being number one. -/
def tailOf (bytes : Bool) (ending : Char) (fromStart : Bool) (n : Nat) (text : List Char) :
    List Char :=
  let pieces := piecesOf bytes ending text
  (pieces.drop (if fromStart then n - 1 else pieces.length - n)).flatten

/-- Takes a part of each input, under a headline if there are several. The mark before a number
says that it counts from the other end. -/
def partProgram (mark : Char) (signs : List Char)
    (part : Bool → Char → Bool → Nat → List Char → List Char) : Program := fun name arguments => do
  match modernFirst signs arguments with
  | .error c => refuse name ("invalid trailing option -- " ++ String.singleton c) 1
  | .ok arguments =>
  withOptions ⟨"qvzfF0123456789", "ncs", [("bytes", 'c'), ("lines", 'n'), ("quiet", 'q'),
    ("silent", 'q'), ("verbose", 'v'), ("zero-terminated", 'z'), ("sleep-interval", 's')]⟩ 1
    (fun name o => do
      let letters := o.given.map Prod.fst
      match letters.find? Char.isDigit with
      | some c => refuse name ("invalid trailing option -- " ++ String.singleton c) 1
      | none =>
      let last := o.given.reverse.find? fun g => g.1 = 'n' || g.1 = 'c'
      let bytes := last.any fun g => g.1 = 'c'
      let value := (last.map Prod.snd).getD "10"
      let marked := value.toList.head? = some mark
      let isSigned := marked || ['+', '-'].any fun c => value.toList.head? = some c
      match count? (String.ofList (if isSigned then value.toList.drop 1 else value.toList)) with
      | none => do
        tell name ("invalid number of " ++ (if bytes then "bytes" else "lines") ++ ": " ++
          curlyName value)
        return 1
      | some n => do
        let words := if o.words.isEmpty then ["-"] else o.words
        let quiet := (letters.filter fun c => c = 'q' || c = 'v').getLast?
        let headlines := quiet = some 'v' || (1 < words.length && quiet != some 'q')
        let cut := part bytes (if o.has 'z' then '\x00' else '\n') marked n
        let (_, failed) ← words.foldlM (fun (first, failed) word => do
          let headline := fun (first : Bool) => if !headlines then ""
            else (if first then "" else "\n") ++ "==> " ++
              (if word = "-" then "standard input" else word) ++ " <==\n"
          if word = "-" then
            let text ← lookAhead 0
            let kept := cut text
            let exact := mark = '-' && (bytes || (← isFile 0))
            take 0 (if exact then kept.length else text.length)
            out (headline first ++ String.ofList kept)
            return (false, failed)
          match ← readFile word with
          | .ok text =>
            out (headline first ++ String.ofList (cut text.toList))
            return (false, failed)
          | .error fault =>
            if fault = .isADirectory then out (headline first)
            tell name (openReport word fault)
            return (first && fault != .isADirectory, true)) (true, false)
        return statusOf failed)
    name arguments

def head : Program := partProgram '-' ['-'] headOf

def tail : Program := partProgram '+' ['-', '+'] tailOf

/-! Columns. -/

/-- Positions from one to another; an open end reaches to the end of the line. -/
structure Range where
  first : Nat
  last : Option Nat

/-- What is selected: bytes or fields, which have names of their own in messages. -/
structure Wanted where
  fields : Bool

def Wanted.fromOne (w : Wanted) : String :=
  (if w.fields then "fields" else "byte/character positions") ++ " are numbered from 1"

def Wanted.number (w : Wanted) (s : String) : Except String Nat :=
  let digits := s.toList.takeWhile Char.isDigit
  if digits.length < s.length then
    .error ("invalid " ++ (if w.fields then "field value " else "byte/character position ") ++
      curlyName s)
  else if 18446744073709551614 < natOf digits then
    .error ((if w.fields then "field number " else "byte/character offset ") ++ curlyName s ++
      " is too large")
  else if natOf digits = 0 then .error w.fromOne
  else .ok (natOf digits)

def Wanted.range (w : Wanted) (s : String) : Except String Range := do
  if s.isEmpty then throw w.fromOne
  match s.splitOn "-" with
  | [n] =>
    let n ← w.number n
    return ⟨n, some n⟩
  | ["", ""] => throw "invalid range with no endpoint: -"
  | [a, b] =>
    if a.toList.any (!Char.isDigit ·) then discard (w.number s)
    let first ← if a.isEmpty then pure 1 else w.number a
    let last ← if b.isEmpty then pure none else some <$> w.number b
    if last.any (· < first) then throw "invalid decreasing range"
    return ⟨first, last⟩
  | _ => throw ("invalid " ++ (if w.fields then "field" else "byte or character") ++ " range")

/-- Ranges in order, with those that touch each other made one. -/
def mergeRanges (ranges : List Range) : List Range :=
  let sorted := ranges.mergeSort fun a b => a.first ≤ b.first
  (sorted.foldl (fun (done : List Range) r => match done with
    | p :: rest =>
      if p.last.all (r.first ≤ ·) then
        let last := match p.last, r.last with
          | some a, some b => some (max a b)
          | _, _ => none
        ⟨p.first, last⟩ :: rest
      else r :: done
    | [] => [r]) []).reverse

/-- What the ranges leave out. -/
def complementRanges (ranges : List Range) : List Range :=
  let (gaps, next) := ranges.foldl (fun (gaps, next) r =>
    let gaps := match next with
      | some n => if n < r.first then gaps ++ [⟨n, some (r.first - 1)⟩] else gaps
      | none => gaps
    (gaps, r.last.map (· + 1))) (([] : List Range), some 1)
  gaps ++ match next with
    | some n => [⟨n, none⟩]
    | none => []

def Range.part (r : Range) (items : List α) : List α :=
  let items := items.drop (r.first - 1)
  match r.last with
  | some n => items.take (n + 1 - r.first)
  | none => items

def wantedRanges (w : Wanted) (list : String) (complement : Bool) : Except String (List Range) := do
  let items := (list.map fun c => if c = ' ' || c = '\t' then ',' else c).splitOn ","
  let ranges := mergeRanges (← items.mapM w.range)
  return if complement then complementRanges ranges else ranges

def cutLine (o : Options) (w : Wanted) (ranges : List Range) (line : String) : Option String :=
  let delimiter := match o.value? 'd' with
    | some "" => "\x00"
    | some d => d
    | none => "\t"
  if w.fields then
    let fields := line.splitOn delimiter
    if fields.length < 2 then if o.has 's' then none else some line
    else
      let chosen := (ranges.map fun r => r.part fields).flatten
      some (String.intercalate ((o.value? '\x01').getD delimiter) chosen)
  else
    let parts := (ranges.map fun r => r.part line.toList).filter (!·.isEmpty)
    some (String.intercalate ((o.value? '\x01').getD "") (parts.map String.ofList))

def cut : Program :=
  withOptions ⟨"snz", "dfcb\x01", [("bytes", 'b'), ("characters", 'c'), ("fields", 'f'),
    ("delimiter", 'd'), ("only-delimited", 's'), ("output-delimiter", '\x01'),
    ("complement", '\x02'), ("zero-terminated", 'z')]⟩ 1 fun name o => do
  let lists := o.given.filter fun g => ['f', 'c', 'b'].contains g.1
  let w : Wanted := ⟨(lists.head?.map Prod.fst) = some 'f'⟩
  match lists with
  | [] => refuse name "you must specify a list of bytes, characters, or fields" 1
  | _ :: _ :: _ => refuse name "only one list may be specified" 1
  | [(_, list)] =>
    if (o.value? 'd').any fun d => 1 < d.length then
      return ← refuse name "the delimiter must be a single character" 1
    if (o.value? 'd').isSome && !w.fields then
      return ← refuse name "an input delimiter may be specified only when operating on fields" 1
    if o.has 's' && !w.fields then
      return ← refuse name ("suppressing non-delimited lines makes sense\n\t" ++
        "only when operating on fields") 1
    match wantedRanges w list (o.has '\x02') with
    | .error message => refuse name message 1
    | .ok ranges =>
      let ending := if o.has 'z' then "\x00" else "\n"
      let (_, failed) ← eachInput name plainReport o.words () fun _ i =>
        let lines := i.text.splitOn ending
        let lines := if lines.getLast? = some "" then lines.dropLast else lines
        out (String.join (lines.filterMap fun line =>
          (cutLine o w ranges line).map (· ++ ending)))
      return statusOf failed

end SchemaDecl.Shell
