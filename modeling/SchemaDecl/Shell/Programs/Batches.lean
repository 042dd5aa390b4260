import SchemaDecl.Shell.Programs.Invoking

/-! A program that runs another one on what it reads: on all words at once, on so
many words or lines at a time, or on each line in the places that a mark shows. -/

namespace SchemaDecl.Shell

open Files

/-! Reading. -/

/-- A line of the input, and whether it counts as one. A blank before its end makes the next line
a part of it. -/
structure InputLine where
  words : List String
  counts : Bool

/-- What the reading is amidst of. -/
inductive Amidst
  | blanks
  | word
  | quotes (quote : Char)
  | escape

/-- What was read: lines, and, if a quote was not closed, that quote with the words before it. -/
structure WordInput where
  lines : List InputLine
  unclosed : Option (Char × List String)

namespace WordInput

def addLine (line : List String) (counts : Bool) (i : WordInput) : WordInput :=
  { i with lines := ⟨line, counts⟩ :: i.lines }

/-- Reads words between blanks, or whole lines, in which quotes and backslashes protect. The word
is gathered from its end, and so is the line. -/
def read (splitting : Bool) (place : Amidst) (previous : Char) (seen : Bool) (word : List Char)
    (line : List String) : List Char → WordInput
  | [] =>
    let line := line.reverse
    let text := String.ofList word.reverse
    match place, word with
    | _, [] => ⟨if line.isEmpty then [] else [⟨line, false⟩], none⟩
    | .quotes q, _ => ⟨[], some (q, line)⟩
    | _, _ => ⟨[⟨line ++ [text], false⟩], none⟩
  | c :: rest =>
    let outside := fun (_ : Unit) =>
      if c = '\n' then
        if word.isEmpty && !seen then
          read splitting .blanks c false [] line rest
        else
          let text := String.ofList word.reverse
          addLine (line.reverse ++ [text]) (previous != ' ' && previous != '\t')
            (read splitting .blanks c false [] [] rest)
      else if splitting && (c = ' ' || c = '\t') then
        read splitting .blanks c false [] (String.ofList word.reverse :: line) rest
      else if c = '\\' then read splitting .escape c true word line rest
      else if c = '\'' || c = '"' then read splitting (.quotes c) c true word line rest
      else read splitting .word c true (c :: word) line rest
    match place with
    | .blanks => if isSpace c then read splitting .blanks c seen word line rest else outside ()
    | .word => outside ()
    | .quotes q =>
      if c = '\n' then ⟨[], some (q, line.reverse)⟩
      else if c = q then read splitting .word c true word line rest
      else read splitting (.quotes q) c true (c :: word) line rest
    | .escape => read splitting .word c true (c :: word) line rest

/-- Words between separators. -/
def ofSeparated (separator : String) (text : String) : WordInput :=
  let parts := text.splitOn separator
  let parts := if parts.getLast? = some "" then parts.dropLast else parts
  ⟨parts.map fun w => ⟨[w], true⟩, none⟩

/-- The input before a word that ends it. -/
def endAt (mark : String) (i : WordInput) : WordInput :=
  match i.lines.findIdx? fun l => l.words.contains mark with
  | none => match i.unclosed with
    | some (_, words) =>
      if words.contains mark then
        ⟨i.lines ++ [⟨words.takeWhile (· != mark), false⟩], none⟩
      else i
    | none => i
  | some n =>
    let last := (i.lines[n]?.map InputLine.words).getD []
    ⟨i.lines.take n ++ [⟨last.takeWhile (· != mark), false⟩], none⟩

/-- No word goes on after a null character. -/
def cutAtNull (i : WordInput) : WordInput :=
  let cut := fun (w : String) => String.ofList (w.toList.takeWhile (· != '\x00'))
  ⟨i.lines.map fun l => { l with words := l.words.map cut },
    i.unclosed.map fun u => (u.1, u.2.map cut)⟩

def words (i : WordInput) : List String :=
  i.lines.flatMap InputLine.words ++ (i.unclosed.map Prod.snd).getD []

end WordInput

/-! Grouping. -/

inductive Grouping
  | all
  | byWords (n : Nat)
  | byLines (n : Nat)
  | eachLine (mark : String)

def groupsOf (n : Nat) : Nat → List String → List (List String)
  | 0, _ => []
  | _, [] => []
  | fuel + 1, words => words.take n :: groupsOf n fuel (words.drop n)

/-- The words of so many lines at a time; the rest comes with them. -/
def lineGroups (n : Nat) : Nat → List String → List InputLine → List (List String) × List String
  | _, words, [] => ([], words)
  | count, words, l :: rest =>
    let words := words ++ l.words
    let count := if l.counts then count + 1 else count
    if n ≤ count then
      let (groups, last) := lineGroups n 0 [] rest
      (words :: groups, last)
    else lineGroups n count words rest

/-- The commands to be run. A strict grouping wants no group that an unclosed quote cut short. -/
def Grouping.commands (g : Grouping) (always strict : Bool) (command : List String)
    (i : WordInput) : List (List String) :=
  let orOnce := fun (groups : List (List String)) =>
    if groups.isEmpty && always && i.unclosed.isNone then [command]
    else groups.map (command ++ ·)
  match g with
  | .eachLine mark => i.lines.map fun l =>
      let line := String.intercalate " " l.words
      command.map fun w => if mark.isEmpty then w else String.intercalate line (w.splitOn mark)
  | .byLines n =>
    let (groups, last) := lineGroups n 0 [] i.lines
    orOnce (groups ++ if last.isEmpty || i.unclosed.isSome then [] else [last])
  | .byWords n =>
    let groups := groupsOf n i.words.length i.words
    orOnce (if strict && i.unclosed.isSome then groups.filter fun g => g.length = n else groups)
  | .all => orOnce (if i.words.isEmpty || (strict && i.unclosed.isSome) then [] else [i.words])

/-! Running. -/

def traceCommand (words : List String) : ShellM Unit :=
  put 2 (String.intercalate " " (words.map (shellNameIfNeeded false)) ++ "\n")

/-- Runs commands until one makes it impossible to go on; the status tells how bad it went. -/
def runBatches (run : Runner) (name : String) (trace : Bool) : List (List String) → ShellM Nat
  | [] => return 0
  | words :: rest => do
    if trace then traceCommand words
    let program := words.headD ""
    let status ← taskStatus run (.program
      (fun fault => name ++ ": " ++ program ++ ": " ++ fault.text ++ "\n") words)
    if status = 126 || status = 127 then return status
    else if status = 255 then
      tell name (program ++ ": exited with status 255; aborting")
      return 124
    else if 128 < status && status < 160 then
      tell name (program ++ ": terminated by signal " ++ toString (status - 128))
      return 125
    else
      let others ← runBatches run name trace rest
      return if status = 0 then others else if others = 0 then 123 else others

/-- Runs commands of which the last goes on while a fault is reported, unless that one does not
even start. -/
def runBeforeFault (run : Runner) (name : String) (trace : Bool) (fault : String)
    (commands : List (List String)) : ShellM Nat := do
  let status ← runBatches run name trace commands.dropLast
  if 124 ≤ status then return status
  let id ← newStream (.sink "")
  let last ← restoring (fun s t => { t with descriptors := s.descriptors }) do
    setDescriptor 2 (some id)
    runBatches run name false (commands.drop (commands.length - 1))
  let written := (← get).machine.written id
  if let (true, some words) := (trace, commands.getLast?) then traceCommand words
  if last = 126 || last = 127 then
    put 2 written
    return last
  tell name fault
  put 2 written
  return if last != 0 then last else max 1 status

/-- The character that a text for a separator stands for. -/
def separator? (text : String) : Option String :=
  match text.toList with
  | [c] => some (String.singleton c)
  | '\\' :: rest =>
    let s := String.ofList (Format.escape true rest).1
    if s.length = 1 then some s else none
  | _ => none

/-- Options that may have a value attached, in the form with a value of their own. -/
def withOwnValue (word : String) : Option String :=
  let attached := fun (value default : String) => if value.isEmpty then default else value
  match word.toList with
  | '-' :: 'i' :: value => some ("-I" ++ attached (String.ofList value) "\x7b\x7d")
  | '-' :: 'l' :: value => some ("-L" ++ attached (String.ofList value) "1")
  | '-' :: 'e' :: value => if value.isEmpty then none else some ("-E" ++ String.ofList value)
  | _ =>
    if word = "--replace" then some "-I\x7b\x7d" else if word = "--max-lines" then some "-L1"
    else if word = "--eof" then none else some word

def batchOptions : OptionTable :=
  ⟨"0rtpxo", "nLIdPsEa", [("null", '0'), ("no-run-if-empty", 'r'), ("verbose", 't'),
    ("interactive", 'p'), ("exit", 'x'), ("open-tty", 'o'), ("max-args", 'n'), ("max-lines", 'L'),
    ("replace", 'I'), ("delimiter", 'd'), ("max-procs", 'P'), ("max-chars", 's'), ("eof", 'E'),
    ("arg-file", 'a')]⟩

def groupingNames : Grouping → String × String
  | .byWords _ => ("--max-args", "--max-args/-n")
  | .byLines _ => ("--max-lines", "-L")
  | .eachLine _ => ("--replace", "--replace/-I/-i")
  | .all => ("", "")

/-- The grouping that the options ask for, and the pairs of which only the last counts. One word
at a time can go with a mark. -/
def groupingOf (o : Options) : Grouping × List (Grouping × Grouping) :=
  let asked := o.given.filterMap fun (letter, value) => match letter with
    | 'n' => some (Grouping.byWords ((natural? value).getD 1))
    | 'L' => some (Grouping.byLines ((natural? value).getD 1))
    | 'I' => some (Grouping.eachLine value)
    | _ => none
  asked.foldl (fun (before, clashes) g => match before, g with
    | .eachLine mark, .byWords 1 => (.eachLine mark, clashes)
    | .all, g => (g, clashes)
    | .byWords _, .byWords n => (.byWords n, clashes)
    | .byLines _, .byLines n => (.byLines n, clashes)
    | .eachLine _, .eachLine mark => (.eachLine mark, clashes)
    | before, g => (g, clashes ++ [(before, g)])) (.all, [])

def clashMessage (clash : Grouping × Grouping) : String :=
  let name := (groupingNames clash.1).1
  "warning: options " ++ name ++ " and " ++ (groupingNames clash.2).2 ++
    " are mutually exclusive, ignoring previous " ++ name ++ " value"

/-- A count that is none, and what is wrong with it. -/
def countFault? (o : Options) : Option String :=
  o.given.findSome? fun (letter, value) =>
    if letter = 'n' || letter = 'L' || letter = 's' || letter = 'P' then
      match natural? value with
      | none =>
        some ("invalid number \"" ++ value ++ "\" for -" ++ String.singleton letter ++ " option")
      | some 0 => if letter = 'P' then none else
          some ("value 0 for -" ++ String.singleton letter ++ " option should be >= 1")
      | some _ => none
    else none

def xargs (run : Runner) : Program := fun name arguments => do
  if asksVersion arguments then return ← answerVersion name
  let (options, command) := splitCommand ["-n", "-L", "-I", "-d", "-P", "-s", "-E", "-a",
    "--max-args", "--delimiter", "--max-procs", "--max-chars", "--arg-file"] arguments
  match readOptions batchOptions (options.filterMap withOwnValue) with
  | .error fault => refuse name (optionMessage fault) 1
  | .ok o =>
    if let some fault := countFault? o then return ← refuse name fault 1
    let (grouping, clashes) := groupingOf o
    clashes.forM fun clash => tell name (clashMessage clash)
    let separator ← match o.has '0', o.value? 'd' with
      | true, _ => pure (some "\x00")
      | _, none => pure none
      | _, some d => match separator? d with
        | some s => pure (some s)
        | none => do
          tell name ("Invalid input delimiter specification " ++ d ++ ": the delimiter must be " ++
            "either a single character or an escape sequence starting with \\.")
          return 1
    let text ← match o.value? 'a' with
      | none => readAll 0
      | some path => match ← readFile path with
        | .ok text => pure text
        | .error fault => do
          tell name ("Cannot open input file " ++ curlyName path ++ ": " ++ fault.text)
          return 1
    let splitting := match grouping with
      | .eachLine _ => false
      | _ => true
    let input := match separator with
      | some s => WordInput.ofSeparated s text
      | none => (WordInput.read splitting .blanks '\n' false [] [] text.toList).cutAtNull
    if separator.isNone && text.toList.contains '\x00' then
      tell name ("WARNING: a NUL character occurred in the input.  It cannot be passed through " ++
        "in the argument list.  Did you mean to use the --null option?")
    let input := match o.value? 'E' with
      | some mark => if separator.isSome then input else input.endAt mark
      | none => input
    let command := if command.isEmpty then ["echo"] else command
    let commands := grouping.commands (!o.has 'r') (o.has 'x') command input
    restoring (fun s t => { t with descriptors := s.descriptors }) do
      if !o.has 'a' then setDescriptor 0 (some (← newStream .nowhere))
      match input.unclosed with
      | none => runBatches run name (o.has 't') commands
      | some (quote, _) =>
        runBeforeFault run name (o.has 't') ("unmatched " ++
          (if quote = '"' then "double" else "single") ++
          " quote; by default quotes are special to " ++ name ++ " unless you use the -0 option")
          commands

end SchemaDecl.Shell
