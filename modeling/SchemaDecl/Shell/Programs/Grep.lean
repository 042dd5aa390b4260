import SchemaDecl.Shell.Programs.Options
import SchemaDecl.Shell.Regex

/-! Searching for lines. A line is selected when one of the expressions occurs in
it, or with inversion when none does; the exit status says whether any line was. -/

namespace SchemaDecl.Shell.Grep

open Files

structure Search where
  regexes : List Regex
  ignoreCase : Bool
  inverted : Bool
  wholeWords : Bool
  wholeLines : Bool

def literal (cs : List Char) : Regex := .sequence (cs.map .char)

/-- Whether a match from one position to another counts. -/
def admits (search : Search) (s : Regex.Subject) (start stop : Nat) : Bool :=
  (!search.wholeLines || (start = 0 && stop = s.text.size)) &&
  (!search.wholeWords ||
    (!(0 < start && Regex.isWordAt s (start - 1)) && !Regex.isWordAt s stop))

def earlier (a b : Option Regex.Match) : Option Regex.Match :=
  match a, b with
  | some x, some y =>
    if y.start < x.start || (y.start = x.start && x.stop < y.stop) then some y else some x
  | some x, none => some x
  | none, b => b

def find (search : Search) (line : List Char) (position : Nat) : Option Regex.Match :=
  let s := Regex.subject search.ignoreCase line
  search.regexes.foldl (fun best r => earlier best
    (Regex.findWhere s r (admits search s) position)) none

def isSelected (search : Search) (line : List Char) : Bool :=
  (find search line 0).isSome != search.inverted

/-- The parts of a line that match, with where they begin. -/
def parts (search : Search) (line : List Char) : Nat → Nat → List (Nat × List Char)
  | 0, _ => []
  | fuel + 1, position =>
    match find search line position with
    | none => []
    | some m =>
      if m.stop = m.start then
        if m.start < line.length then parts search line fuel (m.start + 1) else []
      else
        (m.start, (line.drop m.start).take (m.stop - m.start)) :: parts search line fuel m.stop

def kindOf (o : Options) : Char :=
  ((o.given.map Prod.fst).filter ['E', 'F', 'G', 'P'].contains).getLast?.getD 'G'

def readRegexes (o : Options) (patterns : List String) : Except String (List Regex) :=
  let kind := kindOf o
  (patterns.flatMap fun p => p.splitOn "\n").mapM fun line =>
    let cs := characters line
    if kind = 'F' then .ok (literal cs)
    else Regex.read ⟨kind = 'E' || kind = 'P', true⟩ cs

/-- A line of the input: where it begins, counted in bytes, and its text. -/
structure Line where
  offset : Nat
  text : String
  characters : List Char

/-- How selected lines are to be shown. -/
structure Showing where
  label : Option String
  numbered : Bool
  offsets : Bool
  tabbed : Bool
  around : Option (Nat × Nat)
  separator : Option String
  lineEnd : String

def Showing.of (o : Options) (label : Option String) : Showing :=
  let context := fun (letter : Char) =>
    ((o.value? letter).orElse fun _ => o.value? 'C').bind natural?
  let after := context 'A'
  let before := context 'B'
  ⟨label, o.has 'n', o.has 'b', o.has 'T',
    if after.isSome || before.isSome then some (before.getD 0, after.getD 0) else none,
    if o.has '\x02' then none else some ((o.value? '\x01').getD "--"),
    if o.has 'z' then "\x00" else "\n"⟩

/-- What stands before a line: the name of its file, its number and its offset. -/
def Showing.front (s : Showing) (mark : String) (number offset : Nat) : String :=
  let fields := s.label.toList ++ (if s.numbered then [toString number] else []) ++
    (if s.offsets then [toString offset] else [])
  let isNumber := s.numbered || s.offsets
  let width := if s.numbered then 4 else 0
  let padded := fun (text : String) => if s.tabbed && s.label.isNone && isNumber then
    pad (width - 2) false text else text
  String.join (fields.map fun f => padded f ++ mark) ++
    (if s.tabbed && !fields.isEmpty then "\t" else "")

/-- The selected lines with those around them, but for hidden ones. -/
def shownLines (s : Showing) (lines : Array Line) (selected : List Nat) (isHidden : Nat → Bool) :
    String :=
  let (before, after) := s.around.getD (0, 0)
  let shown := (List.range lines.size).filter fun i =>
    selected.any fun j => j ≤ i + before && i ≤ j + after
  let row := fun (state : String × Option Nat) (i : Nat) =>
    let mark := if selected.contains i then ":" else "-"
    let gap := match state.2, s.separator with
      | some j, some text => if s.around.isSome && j + 1 < i then text ++ "\n" else ""
      | _, _ => ""
    match lines[i]?, isHidden i with
    | some line, false =>
      (state.1 ++ gap ++ s.front mark (i + 1) line.offset ++ line.text ++ s.lineEnd, some i)
    | _, _ => state
  (shown.foldl row ("", none)).1

def shownParts (s : Showing) (search : Search) (lines : Array Line) (selected : List Nat) :
    String :=
  String.join (selected.map fun i => match lines[i]? with
    | none => ""
    | some line =>
      String.join ((parts search line.characters (line.characters.length + 2) 0).map
        fun (start, part) =>
          let offset := line.offset + (ofCharacters (line.characters.take start)).length
          s.front ":" (i + 1) offset ++ ofCharacters part ++ s.lineEnd))

def linesWithOffsets (separator : String) (text : String) : List Line :=
  let texts := text.splitOn separator
  let texts := if texts.getLast? = some "" then texts.dropLast else texts
  (texts.foldl (fun (state : List Line × Nat) line =>
    (⟨state.2, line, characters line⟩ :: state.1, state.2 + line.length + 1)) ([], 0)).1.reverse

/-- What a search shows of an input. -/
structure Found where
  shown : String
  /-- Whether a line was selected that is not to be shown, because it does not look like text. -/
  hidden : Bool
  any : Bool

/-- Whether a line has bytes that are no characters. -/
def isBinaryLine (line : Line) : Bool := line.characters.any isStray

def searchInput (o : Options) (search : Search) (named : Bool) (i : Input) : Found :=
  let name := if i.name = "-" then (o.value? '\x03').getD "(standard input)" else i.name
  let asked := (o.given.map Prod.fst).filter fun c => c = 'H' || c = 'h'
  let label := if asked.getLast? = some 'H' || (named && asked.isEmpty) then some name else none
  let isBinary := !o.has 'a' && !o.has 'z' && i.text.toList.contains '\x00'
  let text := if isBinary then i.text.map fun c => if c = '\x00' then '\n' else c else i.text
  let lines := (linesWithOffsets (if o.has 'z' then "\x00" else "\n") text).toArray
  let selected := (List.range lines.size).filter fun n =>
    (lines[n]?.map fun line => isSelected search line.characters).getD false
  let limited := match (o.value? 'm').bind integer? with
    | some (.ofNat n) => selected.take n
    | _ => selected
  let lines := match selected.drop limited.length with
    | first :: _ => lines.extract 0 first
    | [] => lines
  let any := !limited.isEmpty
  let front := (label.map (· ++ ":")).getD ""
  let nameEnd := if o.has 'Z' then "\x00" else "\n"
  if o.has 'q' then ⟨"", false, any⟩
  else if o.has 'l' then ⟨if any then name ++ nameEnd else "", false, any⟩
  else if o.has 'L' then ⟨if any then "" else name ++ nameEnd, false, any⟩
  else if o.has 'c' then ⟨front ++ toString limited.length ++ "\n", false, any⟩
  else if isBinary then ⟨"", any, any⟩
  else
    let showing := Showing.of o label
    if o.has 'o' then
      ⟨if search.inverted then "" else shownParts showing search lines limited, false, any⟩
    else
      let isHidden := fun n => !o.has 'a' && (lines[n]?.map isBinaryLine).getD false
      ⟨shownLines showing lines limited isHidden, limited.any isHidden, any⟩

/-- The files of a directory and of what is below it; each with whether it was found so. -/
def filesBelow : Nat → Bool → String → ShellM (List (String × Bool))
  | 0, _, _ => return []
  | fuel + 1, found, path => do
    match ← nodeAt path, ← locate path with
    | .ok .directory, .ok l =>
      let names := sortedTexts ((← tree).namesIn l)
      let below ← names.mapM fun n => filesBelow fuel true (path ++ "/" ++ encode n)
      return below.flatten
    | _, _ => return [(path, found)]

def adviseUse (name : String) : ShellM Unit := do
  put 2 ("Usage: " ++ name ++ " [OPTION]... PATTERNS [FILE]...\n")
  adviseHelp name

def options : OptionTable :=
  ⟨"EFGPivclLnoqswxhHzrRabyTZUu", "efmABCdD\x01\x03", [("basic-regexp", 'G'),
    ("extended-regexp", 'E'), ("fixed-regexp", 'F'), ("fixed-strings", 'F'),
    ("perl-regexp", 'P'), ("after-context", 'A'), ("before-context", 'B'),
    ("binary-files", '\x06'), ("binary", 'U'), ("byte-offset", 'b'), ("context", 'C'),
    ("color", '\x05'), ("colour", '\x05'), ("count", 'c'), ("devices", 'D'),
    ("directories", 'd'), ("exclude", '\x06'), ("exclude-from", '\x06'),
    ("exclude-dir", '\x06'), ("file", 'f'), ("files-with-matches", 'l'),
    ("files-without-match", 'L'), ("group-separator", '\x01'), ("no-group-separator", '\x02'),
    ("ignore-case", 'i'), ("no-ignore-case", '\x04'), ("include", '\x06'),
    ("initial-tab", 'T'), ("label", '\x03'), ("line-buffered", '\x04'), ("line-number", 'n'),
    ("line-regexp", 'x'), ("max-count", 'm'), ("no-filename", 'h'), ("no-messages", 's'),
    ("null", 'Z'), ("null-data", 'z'), ("only-matching", 'o'), ("quiet", 'q'),
    ("recursive", 'r'), ("dereference-recursive", 'R'), ("regexp", 'e'), ("invert-match", 'v'),
    ("silent", 'q'), ("text", 'a'), ("unix-byte-offsets", 'u'), ("with-filename", 'H'),
    ("word-regexp", 'w')]⟩

/-- Digits among option letters are the width of the context; letters up to one that takes a
value, and whether that one still waits for it. -/
def splitDigits (valued : List Char) : List Char → List Char × List Char × Bool
  | [] => ([], [], false)
  | c :: rest =>
    if valued.contains c then (c :: rest, [], rest.isEmpty)
    else
      let (letters, digits, waits) := splitDigits valued rest
      if c.isDigit then (letters, c :: digits, waits) else (c :: letters, digits, waits)

/-- A number as an option is the width of the context. -/
def contextWords : List String → List String
  | [] => []
  | word :: rest => match word.toList with
    | ['-', '-'] => word :: rest
    | '-' :: '-' :: _ => word :: contextWords rest
    | '-' :: c :: cs =>
      let (letters, digits, waits) := splitDigits options.valued.toList (c :: cs)
      let width := if digits.isEmpty then [] else ["-C" ++ String.ofList digits]
      let front := width ++ if letters.isEmpty then [] else [String.ofList ('-' :: letters)]
      match waits, rest with
      | true, value :: rest => front ++ value :: contextWords rest
      | _, rest => front ++ contextWords rest
    | _ => word :: contextWords rest

/-- Reports a number that is none. -/
def wrongNumber? (o : Options) : Option String :=
  let context := ['A', 'B', 'C'].flatMap o.values |>.find? fun v => (natural? v).isNone
  match context with
  | some v => some (v ++ ": invalid context length argument")
  | none =>
    if (o.values 'm').any fun v => (integer? v).isNone then some "invalid max count" else none

/-- Searches a file; whether a line was selected, and whether something went wrong. -/
def searchWord (o : Options) (search : Search) (named : Bool) (name word : String) :
    ShellM (Bool × Bool) := do
  let text ← if word = "-" then pure (.ok (← readAll 0)) else readFile word
  match text with
  | .ok text =>
    let found := searchInput o search named ⟨word, text⟩
    out found.shown
    if found.hidden && !o.has 's' then
      tell name ((if word = "-" then (o.value? '\x03').getD "(standard input)" else word) ++
        ": binary file matches")
    return (found.any, false)
  | .error fault =>
    if fault = .isADirectory && o.value? 'd' = some "skip" then return (false, false)
    if !o.has 's' then tell name (unquotedReport word fault)
    return (false, true)

def grepWith (more : List Char) : Program := fun name arguments =>
  withAdvice options 2 adviseUse (fun name o => do
    let o := more.foldl (fun o c => o.add c "") o
    let o := if o.has 'y' then o.add 'i' "" else o
    let files ← (o.values 'f').mapM fun path => return (path, ← readFile path)
    let fromFiles : Except String (List (List String)) := files.mapM fun (path, text) =>
      match text with
      | .ok text => .ok (linesOf text)
      | .error fault => .error (path ++ ": " ++ fault.text)
    match wrongNumber? o, fromFiles with
    | some message, _ | none, .error message =>
      tell name message
      return 2
    | none, .ok fromFiles =>
      let isGiven := o.has 'e' || o.has 'f'
      let (patterns, words) := match isGiven, o.words with
        | false, pattern :: words => ([pattern], words)
        | _, words => (o.values 'e' ++ fromFiles.flatten, words)
      if !isGiven && o.words.isEmpty then
        adviseUse name
        return 2
      match readRegexes o patterns with
      | .error message =>
        tell name message
        return 2
      | .ok regexes =>
        let search : Search := ⟨regexes, o.has 'i', o.has 'v', o.has 'w', o.has 'x'⟩
        let recursive := o.has 'r' || o.has 'R'
        let many := 1 < words.length
        let found ← if recursive then
            (return (← (if words.isEmpty then ["."] else words).mapM (filesBelow 64 many)).flatten)
          else pure ((if words.isEmpty then ["-"] else words).map fun w => (w, many))
        if kindOf o = 'E' then
          (patterns.flatMap fun p => p.splitOn "\n").forM fun line =>
            let cs := characters line
            (Regex.strayRepetitions (cs.length + 1) true cs).forM fun repetition =>
              tell name ("warning: " ++ repetition ++ " at start of expression")
        let results ← found.mapM fun (word, named) => searchWord o search named name word
        let any := results.any Prod.fst
        if results.any Prod.snd && !(any && o.has 'q') then return 2
        return if any then 0 else 1)
    name (contextWords arguments)

end SchemaDecl.Shell.Grep
