import SchemaDecl.Shell.Programs.Options
import SchemaDecl.Shell.Programs.SedScript

/-! The stream editor. The input goes through the script line by line. Besides the
line there is a second text to keep things in, and what is to follow a line waits
until the line was written. A line that had no end is written without one, unless
something is to follow it. -/

namespace SchemaDecl.Shell.Sed

open Files

/-- A line of the input, and what is known about the place it comes from. -/
structure Line where
  text : List Char
  ended : Bool
  number : Nat
  isLast : Bool
  fileName : String

/-- A line at hand or kept, and whether an end is to be written after it. -/
structure Space where
  text : List Char
  ended : Bool

structure State where
  space : Space
  held : Space
  number : Nat
  isLast : Bool
  fileName : String
  /-- The lines still to come. -/
  left : List Line
  /-- For each command whose range is open, the line at which it began. -/
  ranges : List (Nat × Nat)
  replaced : Bool
  lastSearch : Option Search
  queue : List String
  output : String
  files : List (String × String)
  /-- The files, or the output itself, to which the end of a line is owed. -/
  owing : List (Option String)
  /-- The lines still to be taken from files that are read line by line. -/
  sources : List (String × List String)
  fault : Option String

structure Setting where
  silent : Bool
  lineEnd : Char
  width : Nat
  content : String → String

/-- What becomes of a line: it goes on to the next command, ends, or starts over. -/
inductive After
  | next
  | jump (label : List Char)
  | finish
  | drop
  | restart
  | quit (silent : Bool) (status : Nat)

def Setting.ending (setting : Setting) : String := String.singleton setting.lineEnd

/-! Writing. -/

/-- Writes to the output or to a file. -/
def State.emitTo (setting : Setting) (s : State) (target : Option String) (text : String) :
    State :=
  let text := (if s.owing.contains target then setting.ending else "") ++ text
  let s := { s with owing := s.owing.filter (· != target) }
  match target with
  | none | some "/dev/stdout" => { s with output := s.output ++ text }
  | some path => { s with files := s.files ++ [(path, text)] }

def State.emit (setting : Setting) (s : State) (text : String) : State :=
  s.emitTo setting none text

/-- Writes a line with its end, or owes the end. -/
def State.emitLine (setting : Setting) (s : State) (target : Option String) (text : List Char)
    (ended : Bool) : State :=
  let line := ofCharacters text
  if ended then s.emitTo setting target (line ++ setting.ending)
  else
    let s := s.emitTo setting target line
    { s with owing := target :: s.owing }

def State.show (setting : Setting) (s : State) : State :=
  s.emitLine setting none s.space.text s.space.ended

/-- Writes what was to follow the line: the content of a file, or a text. -/
def State.flush (setting : Setting) (s : State) : State :=
  let s := s.queue.foldl (fun s entry => match entry.toList with
    | 'r' :: path => s.emit setting (setting.content (String.ofList path))
    | _ :: text => s.emit setting (String.ofList text)
    | [] => s) s
  { s with queue := [] }

/-! Addresses. -/

def searchOf (s : State) (search : Option Search) : Option Search :=
  search.orElse fun _ => s.lastSearch

def subjectOf (setting : Setting) (search : Search) (text : List Char) : Regex.Subject :=
  ⟨text.toArray, search.ignoreCase, if search.linewise then some setting.lineEnd else none⟩

def noExpression : String := "-e expression #1, char 0: no previous regular expression"

def matchesAddress (setting : Setting) (s : State) (a : Address) : Bool × State :=
  match a with
  | .line n => (s.number = n, s)
  | .last => (s.isLast, s)
  | .step first step => (first ≤ s.number && (s.number - first) % step = 0, s)
  | .search search => match searchOf s search with
    | some search =>
      ((Regex.find? (subjectOf setting search s.space.text) search.regex 0).isSome,
        { s with lastSearch := some search })
    | none => (false, { s with fault := some noExpression })

def leaveRange (s : State) (index : Nat) : State :=
  { s with ranges := s.ranges.filter fun r => r.1 != index }

def enterRange (s : State) (index : Nat) : State :=
  { s with ranges := (index, s.number) :: s.ranges }

/-- Whether a command with two addresses applies to the line. -/
def matchesRange (setting : Setting) (s : State) (index : Nat) (first : Address)
    (last : RangeEnd) : Bool × State :=
  match s.ranges.lookup index with
  | some began =>
    let (ends, s) : Bool × State := match last with
      | .address (.line n) => (n ≤ s.number, s)
      | .address a => matchesAddress setting s a
      | .more n => (began + n ≤ s.number, s)
      | .multiple n => (s.number % n = 0, s)
    let past : Bool := match last with
      | .address (.line n) => n < s.number
      | _ => false
    (!past, if ends then leaveRange s index else s)
  | none =>
    let zero : Bool := match first with
      | .line 0 => s.number = 1
      | _ => false
    if zero then
      let (ends, s) : Bool × State := match last with
        | .address a => matchesAddress setting s a
        | _ => (false, s)
      (true, if ends then s else enterRange s index)
    else
      let (starts, s) := matchesAddress setting s first
      let single : Bool := match last with
        | .address (.line n) => n ≤ s.number
        | .more 0 => true
        | .multiple 0 => true
        | _ => false
      (starts, if starts && !single then enterRange s index else s)

def applies (setting : Setting) (s : State) (index : Nat) (c : Command) : Bool × State :=
  match c.first, c.last with
  | none, _ => (!c.negated, s)
  | some a, none =>
    let (yes, s) := matchesAddress setting s a
    (yes != c.negated, s)
  | some a, some e =>
    let (yes, s) := matchesRange setting s index a e
    (yes != c.negated, s)

/-! Substitution. -/

structure Casing where
  lasting : Option Char
  once : Option Char

def cased (casing : Casing) (c : Char) : Char :=
  match casing.once, casing.lasting with
  | some 'u', _ => upperCase c
  | some _, _ => lowerCase c
  | none, some 'U' => upperCase c
  | none, some 'L' => lowerCase c
  | none, _ => c

def appendCased (state : List Char × Casing) (c : Char) : List Char × Casing :=
  (cased state.2 c :: state.1, { state.2 with once := none })

def replacementText (subject : Regex.Subject) (m : Regex.Match) (pieces : List Piece) : List Char :=
  let (cs, _) := pieces.foldl (fun (state : List Char × Casing) piece => match piece with
    | .char c => appendCased state c
    | .group n => (m.group subject n).foldl appendCased state
    | .case 'E' => (state.1, ⟨none, none⟩)
    | .case 'u' => (state.1, { state.2 with once := some 'u' })
    | .case 'l' => (state.1, { state.2 with once := some 'l' })
    | .case c => (state.1, { state.2 with lasting := some c })) ([], ⟨none, none⟩)
  cs.reverse

/-- The text with the character at a position split into its bytes: after an empty match the
search goes on with the next byte if the expression looks at bytes. -/
def splitBytes (r : Regex) (subject : Regex.Subject) (position : Nat) : Regex.Subject :=
  match subject.text[position]? with
  | some c =>
    if c.toNat < 0x80 || isStray c || subject.ignoreCase || !r.isBytewise then subject
    else
      let bytes := ((ofCharacters [c]).toList.map strayByte).toArray
      { subject with text := subject.text.extract 0 position ++ bytes ++
          subject.text.extract (position + 1) subject.text.size }
  | none => subject

/-- The text from a position on with its matches replaced, and whether there was one. An empty
match right after another match does not count. -/
def replaceFrom (sub : Substitution) (r : Regex) :
    Nat → Regex.Subject → Nat → Nat → Option Nat → List Char × Bool
  | 0, subject, position, _, _ => (Regex.slice subject position subject.text.size, false)
  | fuel + 1, subject, position, seen, previous =>
    if subject.text.size < position then ([], false)
    else match Regex.find? subject r position with
      | none => (Regex.slice subject position subject.text.size, false)
      | some m =>
        let before := Regex.slice subject position m.start
        if m.stop = m.start && previous = some m.start then
          let subject := splitBytes r subject m.start
          let char := Regex.slice subject m.start (m.start + 1)
          let (rest, any) := replaceFrom sub r fuel subject (m.start + 1) seen none
          (before ++ char ++ rest, any)
        else
          let seen := seen + 1
          let number := sub.number.getD 1
          let counts := seen = number || (sub.everywhere && number ≤ seen)
          let new := if counts then replacementText subject m sub.replacement
            else Regex.slice subject m.start m.stop
          if counts && !sub.everywhere then
            (before ++ new ++ Regex.slice subject m.stop subject.text.size, true)
          else if m.stop = m.start then
            let subject := splitBytes r subject m.start
            let char := Regex.slice subject m.start (m.start + 1)
            let (rest, any) := replaceFrom sub r fuel subject (m.start + 1) seen none
            (before ++ new ++ char ++ rest, any || counts)
          else
            let (rest, any) := replaceFrom sub r fuel subject m.stop seen (some m.stop)
            (before ++ new ++ rest, any || counts)

def substitute (setting : Setting) (s : State) (sub : Substitution) : State :=
  match searchOf s sub.search with
  | none => { s with fault := some noExpression }
  | some search =>
    let subject := subjectOf setting search s.space.text
    let (new, any) := replaceFrom sub search.regex (4 * s.space.text.length + 2) subject 0 0 none
    let s := { s with lastSearch := some search }
    if !any then s
    else
      let s := { s with space := { s.space with text := new }, replaced := true }
      let s := if sub.prints then s.show setting else s
      match sub.file with
      | some path => s.emitLine setting (some path) new s.space.ended
      | none => s

/-! Single commands. -/

def beforeLineEnd (setting : Setting) (cs : List Char) : List Char :=
  cs.takeWhile (· != setting.lineEnd)

def listedByte (c : Char) : String :=
  match c with
  | '\\' => "\\\\"
  | '\x07' => "\\a"
  | '\x08' => "\\b"
  | '\x0c' => "\\f"
  | '\n' => "\\n"
  | '\r' => "\\r"
  | '\t' => "\\t"
  | '\x0b' => "\\v"
  | c => if 32 ≤ c.toNat && c.toNat < 127 then String.singleton c
    else
      let digits := String.ofList (Nat.toDigits 8 c.toNat)
      "\\" ++ repeated (3 - digits.length) '0' ++ digits

/-- The bytes of a line so that all of them can be seen, broken into lines of a width. -/
def listed (width : Nat) (cs : List Char) : String :=
  let add := fun (state : String × Nat) (c : Char) =>
    let piece := listedByte c
    if 0 < width && width ≤ state.2 + piece.length then
      (state.1 ++ "\\\n" ++ piece, piece.length)
    else (state.1 ++ piece, state.2 + piece.length)
  ((ofCharacters cs).toList.foldl add ("", 0)).1 ++ "$\n"

def spaceOf (line : Line) : Space := ⟨line.text, line.ended⟩

/-- Goes on to a line of the input, of which the text at hand becomes the given one. -/
def State.moveTo (s : State) (line : Line) (left : List Line) (text : List Char) : State :=
  { s with
    space := ⟨text, line.ended⟩
    number := line.number
    isLast := line.isLast
    fileName := line.fileName
    left
    replaced := false }

/-- The next line of the input as the line at hand. -/
def State.advance (s : State) : State :=
  match s.left with
  | line :: left => s.moveTo line left line.text
  | [] => s

def runPlain (setting : Setting) (s : State) : Char → State × After
  | 'd' => (s, .drop)
  | 'D' =>
    if s.space.text.contains setting.lineEnd then
      let rest := s.space.text.drop ((beforeLineEnd setting s.space.text).length + 1)
      ({ s with space := { s.space with text := rest } }, .restart)
    else (s, .drop)
  | 'p' => (s.show setting, .next)
  | 'P' =>
    let front := beforeLineEnd setting s.space.text
    (s.emitLine setting none front (s.space.ended || front.length < s.space.text.length), .next)
  | 'n' =>
    let s := if setting.silent then s else s.show setting
    if s.isLast || s.left.isEmpty then (s, .drop) else ((s.flush setting).advance, .next)
  | 'N' => match s.isLast, s.left with
    | false, line :: left =>
      let s := s.flush setting
      (s.moveTo line left (s.space.text ++ setting.lineEnd :: line.text), .next)
    | _, _ => (if setting.silent then s else s.show setting, .drop)
  | 'g' => ({ s with space := s.held }, .next)
  | 'G' =>
    let text := s.space.text ++ setting.lineEnd :: s.held.text
    ({ s with space := ⟨text, s.held.ended⟩ }, .next)
  | 'h' => ({ s with held := s.space }, .next)
  | 'H' =>
    let text := s.held.text ++ setting.lineEnd :: s.space.text
    ({ s with held := ⟨text, s.space.ended⟩ }, .next)
  | 'x' => ({ s with space := s.held, held := s.space }, .next)
  | '=' => (s.emit setting (toString s.number ++ setting.ending), .next)
  | 'z' => ({ s with space := { s.space with text := [] } }, .next)
  | 'F' => (s.emit setting (s.fileName ++ setting.ending), .next)
  | _ => (s, .next)

/-- Takes the next line of a file that is read line by line. -/
def nextLine (setting : Setting) (s : State) (path : String) : State :=
  let lines := (s.sources.lookup path).getD (linesOf (setting.content path))
  let s := match lines with
    | line :: _ => { s with queue := s.queue ++ ["a" ++ line ++ "\n"] }
    | [] => s
  { s with sources := (path, lines.drop 1) :: s.sources.filter fun e => e.1 != path }

def isInsideRange (s : State) (index : Nat) (c : Command) : Bool :=
  c.last.isSome && !c.negated && (s.ranges.lookup index).isSome

def runAction (setting : Setting) (s : State) (index : Nat) (c : Command) : State × After :=
  match c.action with
  | .substitute sub => (substitute setting s sub, .next)
  | .transliterate pairs =>
    let text := s.space.text.map fun x => (pairs.lookup x).getD x
    ({ s with space := { s.space with text } }, .next)
  | .text 'i' text => (s.emit setting (ofCharacters text), .next)
  | .text 'a' text => ({ s with queue := s.queue ++ ["a" ++ ofCharacters text] }, .next)
  | .text _ text =>
    (if isInsideRange s index c then s else s.emit setting (ofCharacters text), .drop)
  | .branch 'b' label => (s, .jump label)
  | .branch 't' label =>
    if s.replaced then ({ s with replaced := false }, .jump label) else (s, .next)
  | .branch _ label =>
    if s.replaced then ({ s with replaced := false }, .next) else (s, .jump label)
  | .file 'r' path => ({ s with queue := s.queue ++ ["r" ++ path] }, .next)
  | .file 'R' path => (nextLine setting s path, .next)
  | .file 'W' path =>
    (s.emitLine setting (some path) (beforeLineEnd setting s.space.text) true, .next)
  | .file _ path => (s.emitLine setting (some path) s.space.text s.space.ended, .next)
  | .quit silent status => (s, .quit silent status)
  | .list width => (s.emit setting (listed (width.getD setting.width) s.space.text), .next)
  | .plain letter => runPlain setting s letter
  | .label _ | .block | .blockEnd => (s, .next)

/-- The place after the end of a block that begins before the given place. -/
def blockEnd (program : Array Command) : Nat → Nat → Nat → Nat
  | 0, index, _ => index
  | fuel + 1, index, depth => match program[index]? with
    | none => index
    | some c => match c.action with
      | .block => blockEnd program fuel (index + 1) (depth + 1)
      | .blockEnd => if depth = 0 then index + 1 else blockEnd program fuel (index + 1) (depth - 1)
      | _ => blockEnd program fuel (index + 1) depth

def labelIndex (program : Array Command) (label : List Char) : Nat :=
  if label.isEmpty then program.size
  else (program.findIdx? fun c => match c.action with
    | .label name => name = label
    | _ => false).getD program.size

/-- Runs the commands from a place on. -/
def runFrom (setting : Setting) (program : Array Command) : Nat → Nat → State → State × After
  | 0, _, s => (s, .finish)
  | fuel + 1, index, s => match program[index]? with
    | none => (s, .finish)
    | some c =>
      let (yes, s) := applies setting s index c
      let (s, after) := if yes then runAction setting s index c else (s, .next)
      if s.fault.isSome then (s, .quit true 1)
      else match after with
        | .next =>
          let index := match c.action with
            | .block => if yes then index + 1 else blockEnd program program.size (index + 1) 0
            | _ => index + 1
          runFrom setting program fuel index s
        | .jump label => runFrom setting program fuel (labelIndex program label) s
        | after => (s, after)

/-- Runs the script on the line at hand and on all that follow; the exit status. -/
def runLines (setting : Setting) (program : Array Command) : Nat → State → State × Nat
  | 0, s => (s, 0)
  | fuel + 1, s =>
    let finish := fun (printed : Bool) (s : State) =>
      (if printed && !setting.silent then s.show setting else s).flush setting
    match runFrom setting program (10000 + 4 * s.left.length) 0 s with
    | (s, .quit silent status) => (finish (!silent) s, status)
    | (s, .restart) => runLines setting program fuel (s.flush setting)
    | (s, after) =>
      let printed := match after with
        | .drop => false
        | _ => true
      let s := finish printed s
      if s.left.isEmpty then (s, 0) else runLines setting program fuel s.advance

/-- The lines of a file, counted from a number on. -/
def fileLines (setting : Setting) (fileName text : String) (number : Nat) : List Line :=
  let texts := text.splitOn setting.ending
  let ended := texts.getLast? = some ""
  let texts := if ended then texts.dropLast else texts
  texts.zipIdx.map fun (text, i) =>
    ⟨characters text, ended || i + 1 < texts.length, number + i, false, fileName⟩

/-- Marks the last line of an input; of other lines only the last one can lack its end. -/
def withLast (lines : List Line) : List Line :=
  match lines.reverse with
  | [] => []
  | line :: front => (({ line with isLast := true } : Line) :: front).reverse

def joinedLines (setting : Setting) (separate : Bool) (inputs : List Input) : List Line :=
  let all := inputs.foldl (fun (lines : List Line) (i : Input) =>
    let lines := lines.map fun line => { line with ended := true }
    let new := fileLines setting i.name i.text (if separate then 1 else lines.length + 1)
    lines ++ (if separate then withLast new else new)) []
  if separate then all else withLast all

def runScript (setting : Setting) (program : Array Command) (lines : List Line) : State × Nat :=
  let start : State := ⟨⟨[], true⟩, ⟨[], true⟩, 0, false, "-", lines, [], false, none, [], "", [],
    [], [], none⟩
  if lines.isEmpty then (start, 0)
  else runLines setting program (16 * lines.length + 16) start.advance

/-! The program. -/

/-- An option to edit in place may carry a suffix, which cannot be told from letters. -/
def inPlaceWord (word : String) : List String :=
  match word.toList with
  | '-' :: 'i' :: suffix => ["-I", String.ofList suffix]
  | _ =>
    if word = "--in-place" then ["-I", ""]
    else if word.startsWith "--in-place=" then ["-I", String.ofList (word.toList.drop 11)]
    else [word]

def pathsOf (letters : List Char) (program : List Command) : List String :=
  program.filterMap fun c => match c.action with
    | .file letter path => if letters.contains letter then some path else none
    | .substitute s => if letters.contains 'w' then s.file else none
    | _ => none

def fileContents (paths : List String) : ShellM (List (String × String)) :=
  paths.mapM fun path => do
    match ← readFile path with
    | .ok text => return (path, text)
    | .error _ => return (path, "")

def storeFiles (paths : List String) (files : List (String × String)) : ShellM Unit :=
  paths.eraseDups.forM fun path => do
    let text := String.join ((files.filter fun f => f.1 = path).map Prod.snd)
    if path != "/dev/stdout" then
      match ← openFile path .write with
      | .ok id => onMachine fun m => m.write id text
      | .error _ => return ()

def adviseUse (name : String) : ShellM Unit :=
  put 2 ("Usage: " ++ name ++
    " [OPTION]... \x7bscript-only-if-no-other-script\x7d [input-file]...\n")

def options : OptionTable :=
  ⟨"nErsuzb", "efIl", [("quiet", 'n'), ("silent", 'n'), ("regexp-extended", 'E'),
    ("expression", 'e'), ("file", 'f'), ("separate", 's'), ("null-data", 'z'),
    ("zero-terminated", 'z'), ("line-length", 'l'), ("unbuffered", 'u'), ("posix", '\x01'),
    ("debug", '\x01'), ("follow-symlinks", '\x01'), ("sandbox", '\x01'), ("binary", 'b')]⟩

/-- The parts of the script that options give. -/
def sourcesOf (o : Options) : ShellM (Except String (List Source)) := do
  let given := o.given.filter fun g => g.1 = 'e' || g.1 = 'f'
  let sources ← given.mapM fun g => do
    if g.1 = 'e' then return Except.ok (Source.mk none g.2)
    let text ← if g.2 = "-" then pure (.ok (← readAll 0)) else readFile g.2
    match text with
    | .ok text =>
      let text := if text.toList.getLast? = some '\n' then (text.dropEnd 1).toString else text
      return Except.ok (Source.mk (some g.2) text)
    | .error fault => return Except.error ("couldn't open file " ++ g.2 ++ ": " ++ fault.text)
  return sources.mapM id

/-- Writes the edited text back to the file that it came from. -/
def editFile (name suffix : String) (setting : Setting) (program : List Command)
    (word : String) : ShellM Nat := do
  match ← readFile word with
  | .error .isADirectory =>
    tell name ("couldn't edit " ++ word ++ ": not a regular file")
    return 4
  | .error fault =>
    tell name ("can't read " ++ word ++ ": " ++ fault.text)
    return 2
  | .ok text =>
    let (s, status) := runScript setting program.toArray (joinedLines setting false [⟨word, text⟩])
    let unread := String.join (s.left.map fun line =>
      ofCharacters line.text ++ (if line.ended then setting.ending else ""))
    let backup := if suffix.toList.contains '*' then
        String.ofList (suffix.toList.flatMap fun c => if c = '*' then word.toList else [c])
      else word ++ suffix
    if !suffix.isEmpty then
      match ← openFile backup .write with
      | .ok id => onMachine fun m => m.write id text
      | .error _ => pure ()
    match ← openFile word .write with
    | .ok id => onMachine fun m => m.write id (s.output ++ unread)
    | .error _ => pure ()
    storeFiles (pathsOf ['w', 'W'] program) s.files
    return status

/-- Reads the input files; one that cannot be read is left out, but a directory ends it all. -/
def readInputs (name : String) : List String → ShellM (List Input × Option Nat)
  | [] => return ([], none)
  | word :: rest => do
    let text ← if word = "-" then pure (.ok (← readAll 0)) else readFile word
    match text with
    | .ok text =>
      let (inputs, status) ← readInputs name rest
      return (⟨word, text⟩ :: inputs, status)
    | .error .isADirectory =>
      tell name ("read error on " ++ word ++ ": " ++ FileFault.isADirectory.text)
      return ([], some 4)
    | .error fault =>
      tell name ("can't read " ++ word ++ ": " ++ fault.text)
      let (inputs, status) ← readInputs name rest
      return (inputs, some (status.getD 2))

/-- Gives back what was not needed of an input in which a reader can go back. -/
def giveBack (words : List String) (left : List Line) : ShellM Unit := do
  if words.isEmpty && (← isFile 0) then
    let size := left.foldl (fun n line => n + (ofCharacters line.text).length + 1) 0
    let size := match left.getLast? with
      | some line => if line.ended then size else size - 1
      | none => 0
    match ← streamOf 0 with
    | some id => onMachine fun m => m.goBack id size
    | none => return ()

def edit (name : String) (o : Options) (silent : Bool) (program : List Command)
    (words : List String) : ShellM Nat := do
  let settingWith := fun (contents : List (String × String)) => (⟨silent,
    if o.has 'z' then '\x00' else '\n', ((o.value? 'l').bind natural?).getD 70,
    fun path => (contents.lookup path).getD ""⟩ : Setting)
  let readPaths := pathsOf ['r', 'R'] program
  match o.value? 'I' with
  | some suffix =>
    if words.isEmpty then
      tell name "no input files"
      return 4
    let setting := settingWith (← fileContents readPaths)
    let statuses ← words.mapM (editFile name suffix setting program)
    return statuses.foldl max 0
  | none =>
    let (found, failure) ← readInputs name (if words.isEmpty then ["-"] else words)
    let setting := settingWith (← fileContents readPaths)
    let (s, status) := runScript setting program.toArray (joinedLines setting (o.has 's') found)
    out s.output
    giveBack words s.left
    storeFiles (pathsOf ['w', 'W'] program) s.files
    match s.fault with
    | some message =>
      tell name message
      return 1
    | none => return if status = 0 then failure.getD 0 else status

def sed : Program := fun name arguments =>
  withAdvice options 1 adviseUse (fun name o => do
    match ← sourcesOf o with
    | .error message =>
      tell name message
      return 4
    | .ok sources =>
      match sources, o.words with
      | [], [] =>
        adviseUse name
        return 1
      | sources, words =>
        let (sources, words) := match sources, words with
          | [], script :: words => ([Source.mk none script], words)
          | sources, words => (sources, words)
        match readScript (o.has 'E' || o.has 'r') sources with
        | .error (message, status) =>
          tell name message
          return status
        | .ok program => edit name o (o.has 'n' || asksSilence sources) program words)
    name (arguments.flatMap inPlaceWord)

end SchemaDecl.Shell.Sed
