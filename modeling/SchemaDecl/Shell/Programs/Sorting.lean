import SchemaDecl.Shell.Programs.Filters

/-! Programs for lines in order: sorting them, comparing neighbours, and going
through two sorted files side by side. -/

namespace SchemaDecl.Shell

open Files

def compareTexts (a b : String) : Ordering :=
  if a < b then .lt else if b < a then .gt else .eq

/-! Keys. -/

/-- A place in a line: a field and a character in it, and whether blanks before it count. -/
structure KeyPlace where
  field : Nat
  char : Option Nat
  skipsBlanks : Bool

/-- A key of a line, with ordering letters of its own. -/
structure SortKey where
  first : KeyPlace
  last : Option KeyPlace
  letters : List Char

def orderingLetters : List Char := ['b', 'd', 'f', 'g', 'h', 'i', 'M', 'n', 'R', 'r', 'V']

def invalidKey (what spec : String) : Except String α :=
  .error (what ++ ": invalid field specification " ++ curlyName spec)

/-- Reads a place and the letters after it. -/
def keyPlace (atStart : Bool) (spec : String) (cs : List Char) :
    Except String (KeyPlace × List Char × List Char) := do
  let digits := cs.takeWhile Char.isDigit
  if digits.isEmpty then
    throw ("invalid number " ++
      (if atStart then "at field start" else "after " ++ quotedName ",") ++
      ": invalid count at start of " ++ curlyName (String.ofList cs))
  let field := natOf digits
  if field = 0 then invalidKey "field number is zero" spec
  let rest := cs.drop digits.length
  let (char, rest) ← match rest with
    | '.' :: after =>
      let digits := after.takeWhile Char.isDigit
      if digits.isEmpty then throw ("invalid number after " ++ quotedName "." ++
        ": invalid count at start of " ++ curlyName (String.ofList after))
      else if natOf digits = 0 && atStart then invalidKey "character offset is zero" spec
      else pure (some (natOf digits), after.drop digits.length)
    | rest => pure (none, rest)
  let letters := rest.takeWhile orderingLetters.contains
  return (⟨field, char, letters.contains 'b'⟩, letters, rest.drop letters.length)

def readKey (spec : String) : Except String SortKey := do
  let (first, letters, rest) ← keyPlace true spec spec.toList
  match rest with
  | [] => return ⟨first, none, letters⟩
  | ',' :: rest =>
    let (last, more, rest) ← keyPlace false spec rest
    if rest.isEmpty then return ⟨first, some last, letters ++ more⟩
    else invalidKey "stray character in field spec" spec
  | _ => invalidKey "stray character in field spec" spec

/-- The old form of a key, places that count from zero. -/
def oldPlace? (sign : Char) (word : String) : Option (Nat × Option Nat × String) :=
  match word.toList with
  | s :: c :: cs =>
    if s = sign && c.isDigit then
      let field := (c :: cs).takeWhile Char.isDigit
      let rest := (c :: cs).drop field.length
      match rest with
      | '.' :: after =>
        let char := after.takeWhile Char.isDigit
        some (natOf field, some (natOf char), String.ofList (after.drop char.length))
      | rest => some (natOf field, none, String.ofList rest)
    else none
  | _ => none

def modernKeys : List String → List String
  | [] => []
  | word :: rest => match oldPlace? '+' word with
    | none => word :: modernKeys rest
    | some (field, char, letters) =>
      let first := toString (field + 1) ++ (char.map fun c => "." ++ toString (c + 1)).getD "" ++
        letters
      match rest.head?.bind (oldPlace? '-') with
      | some (f, c, l) =>
        let last := match c with
          | some (n + 1) => toString (f + 1) ++ "." ++ toString (n + 1)
          | _ => toString f
        ("-k" ++ first ++ "," ++ last ++ l) :: modernKeys (rest.drop 1)
      | none => ("-k" ++ first) :: modernKeys rest
termination_by words => words.length

/-! Parts of a line. -/

def isBlankChar (c : Char) : Bool := c = ' ' || c = '\t'

/-- Passes over so many fields; without a delimiter a field begins with the blanks before it. -/
def dropFields (delimiter : Option Char) : Nat → List Char → List Char
  | 0, cs => cs
  | n + 1, cs =>
    let rest := match delimiter with
      | some d => (cs.dropWhile (· != d)).drop 1
      | none => (cs.dropWhile isBlankChar).dropWhile (!isBlankChar ·)
    dropFields delimiter n rest

/-- How many characters the fields up to one have, without a delimiter after them. -/
def fieldsLength (delimiter : Option Char) (n : Nat) (cs : List Char) : Nat :=
  match delimiter with
  | some d =>
    let before := dropFields delimiter (n - 1) cs
    cs.length - before.length + (before.takeWhile (· != d)).length
  | none => cs.length - (dropFields none n cs).length

def keyStart (delimiter : Option Char) (p : KeyPlace) (cs : List Char) : Nat :=
  let rest := dropFields delimiter (p.field - 1) cs
  let rest := if p.skipsBlanks then rest.dropWhile isBlankChar else rest
  min cs.length (cs.length - rest.length + (p.char.getD 1 - 1))

def keyStop (delimiter : Option Char) (p : KeyPlace) (cs : List Char) : Nat :=
  match p.char with
  | none | some 0 => fieldsLength delimiter p.field cs
  | some n =>
    let rest := dropFields delimiter (p.field - 1) cs
    let rest := if p.skipsBlanks then rest.dropWhile isBlankChar else rest
    min cs.length (cs.length - rest.length + n)

def keyText (delimiter : Option Char) (k : SortKey) (line : String) : String :=
  let cs := line.toList
  let start := keyStart delimiter k.first cs
  let stop := match k.last with
    | some p => keyStop delimiter p cs
    | none => cs.length
  String.ofList ((cs.drop start).take (stop - start))

/-! Orders. -/

/-- A decimal number at the beginning of a text: its sign, its digits and its fraction. -/
structure Leading where
  negative : Bool
  whole : Nat
  fraction : List Char
  rest : List Char

def leadingOf (s : String) : Leading :=
  let cs := s.toList.dropWhile isBlankChar
  let (negative, cs) := match cs with
    | '-' :: rest => (true, rest)
    | cs => (false, cs)
  let whole := cs.takeWhile Char.isDigit
  let rest := cs.drop whole.length
  let fraction := match rest with
    | '.' :: rest => rest.takeWhile Char.isDigit
    | _ => []
  let rest := match rest with
    | '.' :: _ => rest.drop (fraction.length + 1)
    | rest => rest
  ⟨negative, natOf whole, fraction, rest⟩

/-- The number scaled by a power of ten. -/
def Leading.scaled (n : Leading) (places : Nat) : Int :=
  let digits := n.fraction ++ List.replicate (places - n.fraction.length) '0'
  let value : Int := n.whole * Number.tenTo places + natOf digits
  if n.negative then -value else value

def compareLeading (a b : Leading) : Ordering :=
  let places := max a.fraction.length b.fraction.length
  compare (a.scaled places) (b.scaled places)

/-- The rank of the letter of a size, such as `K` or `M`. -/
def sizeRank (n : Leading) : Int :=
  let rank : Nat := match n.rest with
    | 'k' :: _ => 1
    | c :: _ => (['K', 'M', 'G', 'T', 'P', 'E', 'Z', 'Y', 'R', 'Q'].idxOf? c).elim 0 (· + 1)
    | [] => 0
  let isZero := n.whole = 0 && n.fraction.all (· = '0')
  if isZero then 0 else if n.negative then -(rank : Int) else rank

def monthRank (s : String) : Nat :=
  let name := Format.upperText (String.ofList ((s.toList.dropWhile isBlankChar).take 3))
  (["JAN", "FEB", "MAR", "APR", "MAY", "JUN", "JUL", "AUG", "SEP", "OCT", "NOV", "DEC"].idxOf?
    name).elim 0 (· + 1)

/-- The rank of a character in a version: the end first, letters before other characters. -/
def versionRank : Option Char → Int
  | none => 0
  | some '~' => -1
  | some c => if c.isDigit then 0 else if c.isAlpha then c.toNat else c.toNat + 256

/-- Versions are compared by their runs of other characters and of digits in turn. -/
def compareVersions : Nat → List Char → List Char → Ordering
  | 0, _, _ => .eq
  | fuel + 1, a, b =>
    if a.isEmpty && b.isEmpty then .eq
    else
      let notDigit := fun (c : Char) => !c.isDigit
      let x := a.takeWhile notDigit
      let y := b.takeWhile notDigit
      let order := ((List.range (max x.length y.length)).map fun i =>
        compare (versionRank x[i]?) (versionRank y[i]?)).foldl Ordering.then .eq
      let a := a.drop x.length
      let b := b.drop y.length
      let n := a.takeWhile Char.isDigit
      let m := b.takeWhile Char.isDigit
      (order.then (compare (natOf n) (natOf m))).then
        (compareVersions fuel (a.drop n.length) (b.drop m.length))

def plainKey (letters : List Char) (s : String) : String :=
  let cs := s.toList
  let cs := if letters.contains 'd' then
      cs.filter fun c => c.isAlphanum || isBlankChar c
    else if letters.contains 'i' then cs.filter fun c => 32 ≤ c.toNat && c.toNat < 127
    else cs
  String.ofList (if letters.contains 'f' then cs.map Char.toUpper else cs)

def compareKeys (letters : List Char) (a b : String) : Ordering :=
  let order :=
    if letters.contains 'n' then compareLeading (leadingOf a) (leadingOf b)
    else if letters.contains 'h' then
      let x := leadingOf a
      let y := leadingOf b
      (compare (sizeRank x) (sizeRank y)).then (compareLeading x y)
    else if letters.contains 'g' then
      let x := Format.argumentDouble a
      let y := Format.argumentDouble b
      let isNumber := fun (s : String) => match s.toList.dropWhile isSpace with
        | c :: d :: _ => c.isDigit || ((c = '-' || c = '+' || c = '.') && (d.isDigit || d = '.'))
        | [c] => c.isDigit
        | [] => false
      match isNumber a, isNumber b with
      | true, true => compareLeading (leadingOf (Format.fixedText x.1 9 |> signed x.1))
          (leadingOf (Format.fixedText y.1 9 |> signed y.1))
      | false, true => .lt
      | true, false => .gt
      | false, false => .eq
    else if letters.contains 'M' then compare (monthRank a) (monthRank b)
    else if letters.contains 'V' then
      compareVersions (a.length + b.length + 1) a.toList b.toList
    else compareTexts (plainKey letters a) (plainKey letters b)
  if letters.contains 'r' then order.swap else order
where
  signed (x : Number.Double) (s : String) : String := if x.isNegative then "-" ++ s else s

/-- How lines are put in order. -/
structure Sorting where
  general : List Char
  delimiter : Option Char
  keys : List SortKey
  stable : Bool

def Sorting.byKeys (s : Sorting) (a b : String) : Ordering :=
  if s.keys.isEmpty then
    let trim := fun (x : String) => if s.general.contains 'b' then
      String.ofList (x.toList.dropWhile isBlankChar) else x
    compareKeys s.general (trim a) (trim b)
  else s.keys.foldl (fun order k =>
    let inherits := k.letters.isEmpty
    let letters := if inherits then s.general else k.letters
    let k := if inherits && s.general.contains 'b' then
        { k with first := { k.first with skipsBlanks := true }
                 last := k.last.map fun p => { p with skipsBlanks := true } }
      else k
    order.then (compareKeys letters (keyText s.delimiter k a) (keyText s.delimiter k b))) .eq

def Sorting.compare (s : Sorting) (a b : String) : Ordering :=
  let order := s.byKeys a b
  if s.stable then order
  else order.then (if s.general.contains 'r' then compareTexts b a else compareTexts a b)

/-- Of lines that are the same only the first one stays. -/
def dropRepeated (same : String → String → Bool) : List String → List String
  | a :: b :: rest =>
    if same a b then dropRepeated same (a :: rest) else a :: dropRepeated same (b :: rest)
  | xs => xs
termination_by xs => xs.length

/-- Merges two lists by their first lines. -/
def mergeTwo (before : String → String → Bool) : Nat → List String → List String → List String
  | 0, as, bs => as ++ bs
  | _, [], bs => bs
  | _, as, [] => as
  | fuel + 1, a :: as, b :: bs =>
    if before a b then a :: mergeTwo before fuel as (b :: bs)
    else b :: mergeTwo before fuel (a :: as) bs

/-- The number and the text of the first line that is out of order. -/
def disorder? (order : String → String → Ordering) (strict : Bool) :
    Nat → List String → Option (Nat × String)
  | n, a :: b :: rest =>
    if order a b = .gt || (strict && order a b = .eq) then some (n + 1, b)
    else disorder? order strict (n + 1) (b :: rest)
  | _, _ => none

/-- Letters that cannot be asked for together. -/
def incompatible? (letters : List Char) : Option String :=
  let kinds := (['d', 'i', 'g', 'h', 'M', 'n', 'R', 'V'].filter letters.contains)
  let kinds := if kinds.contains 'd' && kinds.contains 'i' then kinds.filter (· != 'i') else kinds
  if 1 < kinds.length then some (String.ofList ('-' :: kinds)) else none

def sortOptions : OptionTable :=
  ⟨"bdfgiMnhRrVcCmsuz", "ktoST\x01\x02", [("ignore-leading-blanks", 'b'),
    ("dictionary-order", 'd'), ("ignore-case", 'f'), ("general-numeric-sort", 'g'),
    ("ignore-nonprinting", 'i'), ("month-sort", 'M'), ("human-numeric-sort", 'h'),
    ("numeric-sort", 'n'), ("random-sort", 'R'), ("reverse", 'r'), ("version-sort", 'V'),
    ("check", '\x03'), ("key", 'k'), ("merge", 'm'), ("output", 'o'), ("stable", 's'),
    ("buffer-size", 'S'), ("field-separator", 't'), ("temporary-directory", 'T'),
    ("parallel", '\x01'), ("unique", 'u'), ("zero-terminated", 'z')]⟩

def sortDelimiter (o : Options) : Except String (Option Char) :=
  match o.value? 't' with
  | none => .ok none
  | some "" => .error "empty tab"
  | some "\\0" => .ok (some '\x00')
  | some s => match s.toList with
    | [c] => .ok (some c)
    | _ => .error ("multi-character tab " ++ curlyName s)

def sortReport (word : String) (fault : FileFault) : String :=
  match fault with
  | .isADirectory => "read failed: " ++ word ++ ": " ++ fault.text
  | fault => "cannot read: " ++ word ++ ": " ++ fault.text

def sortingOf (o : Options) : Except String Sorting := do
  let delimiter ← sortDelimiter o
  let keys ← (o.values 'k').mapM readKey
  let letters := (o.given.map Prod.fst).filter orderingLetters.contains
  match incompatible? letters with
  | some which => throw ("options " ++ quotedName which ++ " are incompatible")
  | none => return ⟨letters, delimiter, keys, o.has 's' || o.has 'u'⟩

def sort : Program := fun name arguments =>
  withOptions sortOptions 2 (fun name o => do
    match sortingOf o with
    | .error message =>
      tell name message
      return 2
    | .ok sorting =>
      let check := o.value? '\x03'
      let quiet := o.has 'C' || check = some "quiet" || check = some "silent"
      let checks := o.has 'c' || o.has 'C' || check.isSome
      if checks && 1 < o.words.length then
        tell name ("extra operand " ++ quotedName (o.words.getD 1 "") ++ " not allowed with -c")
        return 2
      let (found, failed) ← inputs name sortReport o.words
      if failed then return 2
      let ending := if o.has 'z' then "\x00" else "\n"
      let files := found.map fun i =>
        let lines := i.text.splitOn ending
        if lines.getLast? = some "" then lines.dropLast else lines
      let lines := files.flatten
      if checks then
        match disorder? sorting.compare (o.has 'u') 1 lines with
        | none => return 0
        | some (n, line) =>
          if !quiet then
            tell name (o.words.headD "-" ++ ":" ++ toString n ++ ": disorder: " ++ line)
          return 1
      let before := fun (a b : String) => sorting.compare a b != .gt
      let sorted := if o.has 'm' then files.foldl (mergeTwo before (lines.length + 1)) []
        else lines.mergeSort before
      let sorted := if o.has 'u' then dropRepeated (fun a b => sorting.byKeys a b = .eq) sorted
        else sorted
      let text := String.join (sorted.map (· ++ ending))
      match o.value? 'o' with
      | none =>
        out text
        return 0
      | some path => match ← openFile path .write with
        | .ok id =>
          onMachine fun m => m.write id text
          return 0
        | .error fault =>
          tell name ("open failed: " ++ plainReport path fault)
          return 2)
    name (modernKeys arguments)

/-! Neighbours. -/

/-- Runs of equal lines. -/
def lineRuns (same : String → String → Bool) (lines : List String) : List (List String) :=
  ((lines.foldl (fun (runs : List (List String)) line => match runs with
    | (first :: more) :: rest =>
      if same first line then (first :: more ++ [line]) :: rest else [line] :: runs
    | _ => [line] :: runs) [])).reverse

/-- The part of a line that counts. -/
def uniqKey (o : Options) (line : String) : String :=
  let number := fun (letter : Char) => (o.value? letter).bind natural?
  let skip := fun (n : Nat) (cs : List Char) => (List.range n).foldl (fun cs _ =>
    (cs.dropWhile isBlankChar).dropWhile (!isBlankChar ·)) cs
  let cs := (skip ((number 'f').getD 0) line.toList).drop ((number 's').getD 0)
  let cs := match number 'w' with
    | some n => cs.take n
    | none => cs
  String.ofList (if o.has 'i' then cs.map Char.toLower else cs)

/-- Runs as they are shown when whole groups are wanted: separated by empty lines. -/
def groupedRuns (how : String) (ending : String) (runs : List (List String)) : String :=
  let texts := runs.map fun run => String.join (run.map (· ++ ending))
  let body := match how with
    | "none" => String.join texts
    | _ => String.intercalate ending texts
  if runs.isEmpty then ""
  else (if how = "prepend" || how = "both" then ending else "") ++ body ++
    (if how = "append" || how = "both" then ending else "")

def uniqOptions : OptionTable :=
  ⟨"cdDuiz", "fsw", [("count", 'c'), ("repeated", 'd'), ("all-repeated", '\x02'), ("unique", 'u'),
    ("ignore-case", 'i'), ("skip-fields", 'f'), ("skip-chars", 's'), ("check-chars", 'w'),
    ("zero-terminated", 'z'), ("group", '\x01')]⟩

/-- The old forms of the numbers: `-N` for fields and `+N` for characters. -/
def modernSkips (word : String) : String :=
  match word.toList with
  | sign :: c :: cs =>
    if (sign = '-' || sign = '+') && (c :: cs).all Char.isDigit then
      (if sign = '-' then "-f" else "-s") ++ String.ofList (c :: cs)
    else word
  | _ => word

def uniq : Program := fun name arguments =>
  withOptions uniqOptions 1 (fun name o => do
    let wrong := [('f', "fields to skip"), ('s', "bytes to skip"),
      ('w', "bytes to compare")].find? fun (letter, _) =>
        (o.value? letter).any fun v => (natural? v).isNone
    match wrong, o.words[2]? with
    | some (letter, what), _ =>
      tell name ((o.value? letter).getD "" ++ ": invalid number of " ++ what)
      return 1
    | none, some extra => refuse name ("extra operand " ++ curlyName extra) 1
    | none, none =>
      let (found, failed) ← inputs name plainReport (o.words.take 1)
      if failed then return 1
      let ending := if o.has 'z' then "\x00" else "\n"
      let lines := found.flatMap fun i =>
        let lines := i.text.splitOn ending
        if lines.getLast? = some "" then lines.dropLast else lines
      let runs := lineRuns (fun a b => uniqKey o a = uniqKey o b) lines
      let repeated_ := runs.filter fun run => 1 < run.length
      let text := match o.value? '\x01' with
        | some how => groupedRuns (if how.isEmpty then "separate" else how) ending runs
        | none =>
          if o.has 'D' || o.has '\x02' then
            let how := (o.value? '\x02').getD ""
            groupedRuns (if how.isEmpty then "none" else how) ending repeated_
          else
            let kept := runs.filter fun run =>
              !(o.has 'd' && run.length = 1) && !(o.has 'u' && run.length != 1)
            String.join (kept.map fun run =>
              (if o.has 'c' then pad 7 false (toString run.length) ++ " " else "") ++
                run.headD "" ++ ending)
      match o.words[1]? with
      | none | some "-" =>
        out text
        return 0
      | some path => match ← openFile path .write with
        | .ok id =>
          onMachine fun m => m.write id text
          return 0
        | .error fault =>
          tell name (plainReport path fault)
          return 1)
    name (arguments.map modernSkips)

/-! Two sorted files. -/

/-- Which lines are only in the first file, only in the second, or in both. -/
inductive Side
  | first
  | second
  | both
  deriving DecidableEq

def sidesOf : Nat → List String → List String → List (Side × String)
  | 0, _, _ => []
  | _, [], bs => bs.map (Side.second, ·)
  | _, as, [] => as.map (Side.first, ·)
  | fuel + 1, a :: as, b :: bs => match compareTexts a b with
    | .lt => (.first, a) :: sidesOf fuel as (b :: bs)
    | .gt => (.second, b) :: sidesOf fuel (a :: as) bs
    | .eq => (.both, a) :: sidesOf fuel as bs

def twoWords (name : String) (words : List String) : ShellM (Option (String × String)) := do
  match words with
  | [a, b] => return some (a, b)
  | [] =>
    discard (refuse name "missing operand" 1)
    return none
  | [a] =>
    discard (refuse name ("missing operand after " ++ curlyName a) 1)
    return none
  | _ :: _ :: c :: _ =>
    discard (refuse name ("extra operand " ++ curlyName c) 1)
    return none

def isSorted : List String → Bool
  | a :: b :: rest => compareTexts a b != .gt && isSorted (b :: rest)
  | _ => true

def comm : Program :=
  withOptions ⟨"123z", "\x01", [("check-order", '\x02'), ("nocheck-order", '\x03'),
    ("output-delimiter", '\x01'), ("total", '\x04'), ("zero-terminated", 'z')]⟩ 1
    fun name o => do
  match ← twoWords name o.words with
  | none => return 1
  | some (a, b) =>
    let (found, failed) ← inputs name plainReport [a, b]
    match failed, found with
    | false, [x, y] =>
      let as := linesOf x.text
      let bs := linesOf y.text
      let sides := sidesOf (as.length + bs.length + 1) as bs
      let delimiter := (o.value? '\x01').getD "\t"
      let indent := fun (hidden : List Char) =>
        String.join ((hidden.filter fun c => !o.has c).map fun _ => delimiter)
      out (String.join (sides.map fun (side, line) => match side with
        | .first => if o.has '1' then "" else line ++ "\n"
        | .second => if o.has '2' then "" else indent ['1'] ++ line ++ "\n"
        | .both => if o.has '3' then "" else indent ['1', '2'] ++ line ++ "\n"))
      let count := fun (side : Side) => toString ((sides.map Prod.fst).count side)
      if o.has '\x04' then
        out (String.intercalate delimiter
          [count .first, count .second, count .both, "total"] ++ "\n")
      let differs := (sides.map Prod.fst).any (· != Side.both)
      let checks := o.has '\x02' || (differs && !o.has '\x03')
      let faults := (if isSorted as then [] else [1]) ++ (if isSorted bs then [] else [2])
      if checks && !faults.isEmpty then
        faults.forM fun n => tell name ("file " ++ toString n ++ " is not in sorted order")
        tell name "input is not in sorted order"
        return 1
      return 0
    | _, _ => return 1

/-- Fields of a line for joining. -/
def joinFields (delimiter : Option Char) (line : String) : List String :=
  match delimiter with
  | some d => line.splitOn (String.singleton d)
  | none => ((line.map fun c => if c = '\t' then ' ' else c).splitOn " ").filter (!·.isEmpty)

/-- The lines of two files with equal keys together, and those without a partner. -/
def joinedLists (key₁ key₂ : List String → String) :
    Nat → List (List String) → List (List String) →
      List (Option (List String) × Option (List String))
  | 0, _, _ => []
  | _, [], bs => bs.map fun b => (none, some b)
  | _, as, [] => as.map fun a => (some a, none)
  | fuel + 1, a :: as, b :: bs => match compareTexts (key₁ a) (key₂ b) with
    | .lt => (some a, none) :: joinedLists key₁ key₂ fuel as (b :: bs)
    | .gt => (none, some b) :: joinedLists key₁ key₂ fuel (a :: as) bs
    | .eq =>
      let sameA := (a :: as).takeWhile fun x => key₁ x = key₁ a
      let sameB := (b :: bs).takeWhile fun x => key₂ x = key₂ b
      (sameA.flatMap fun x => sameB.map fun y => (some x, some y)) ++
        joinedLists key₁ key₂ fuel ((a :: as).drop sameA.length) ((b :: bs).drop sameB.length)

/-- A line of a join: the key and the other fields, or the fields that were asked for. -/
def joinLine (o : Options) (n₁ n₂ : Nat) (glue : String) (a b : Option (List String)) : String :=
  let field := fun (xs : Option (List String)) (n : Nat) =>
    match xs.bind fun xs => xs[n - 1]? with
    | some "" | none => (o.value? 'e').getD ""
    | some s => s
  let key := match a with
    | some _ => field a n₁
    | none => field b n₂
  let others := fun (xs : Option (List String)) (n : Nat) =>
    ((xs.getD []).zipIdx.filter fun e => e.2 + 1 != n).map Prod.fst
  match o.values 'o' with
  | [] => String.intercalate glue (key :: others a n₁ ++ others b n₂)
  | specs =>
    let items := specs.flatMap fun s => (s.map fun c => if c = ' ' then ',' else c).splitOn ","
    String.intercalate glue (items.map fun item => match item.splitOn "." with
      | ["1", n] => field a ((natural? n).getD 1)
      | ["2", n] => field b ((natural? n).getD 1)
      | _ => key)

def join : Program :=
  withOptions ⟨"iz", "a12jtove", [("ignore-case", 'i'), ("check-order", '\x02'),
    ("nocheck-order", '\x03'), ("header", '\x04'), ("zero-terminated", 'z')]⟩ 1 fun name o => do
  match ← twoWords name o.words with
  | none => return 1
  | some (a, b) =>
    let (found, failed) ← inputs name plainReport [a, b]
    match failed, found with
    | false, [x, y] =>
      let delimiter := (o.value? 't').bind fun t => t.toList.head?
      let number := fun (letter : Char) =>
        (((o.value? letter).orElse fun _ => o.value? 'j').bind natural?).getD 1
      let (n₁, n₂) := (number '1', number '2')
      let plain := fun (s : String) => if o.has 'i' then s.map Char.toLower else s
      let key := fun (n : Nat) (fields : List String) => plain (fields.getD (n - 1) "")
      let as := (linesOf x.text).map (joinFields delimiter)
      let bs := (linesOf y.text).map (joinFields delimiter)
      let all := joinedLists (key n₁) (key n₂) (as.length + bs.length + 1) as bs
      let glue := (delimiter.map String.singleton).getD " "
      let only := o.values 'v'
      let also := o.values 'a' ++ only
      out (String.join (all.map fun (a, b) =>
        let shown := match a, b with
          | some _, some _ => only.isEmpty
          | some _, none => also.contains "1"
          | _, _ => also.contains "2"
        if shown then joinLine o n₁ n₂ glue a b ++ "\n" else ""))
      return 0
    | _, _ => return 1

end SchemaDecl.Shell
