import SchemaDecl.Shell.Awk.Pattern
import SchemaDecl.Shell.Awk.Syntax
import SchemaDecl.Shell.Awk.Table
import SchemaDecl.Shell.Task

/-! What a script works on: its variables and tables, the record at hand with its
fields, and the files and commands that it reads from and writes to. The record and
its fields follow each other; the number of fields is a variable too. What is
printed waits until a command runs or the script ends. -/

namespace SchemaDecl.Shell.Awk

open Files

/-- What a name stands for. A name that was only handed over to a function can still become a
table. -/
inductive Slot
  | value (v : Value)
  | table (id : Nat)
  | undecided (id : Nat)

/-- Where lines are read from: the text that is left, and the status of a command. -/
structure LineReader where
  left : List Char
  status : Nat

/-- Where lines are printed to: an open file with what waits to be written, or a command that gets
the text at the end. -/
inductive Output
  | file (stream : Nat) (waiting : String)
  | command (text : String)

structure State where
  program : String
  globals : Std.HashMap String Slot
  /-- The names of the function that runs. -/
  locals : Option (List (String × Slot))
  tables : Array Table
  functions : List (String × Function)
  record : String
  fields : Array Value
  /-- What is left of the file that is read. -/
  input : Option (List Char)
  /-- The next argument to be looked at, and whether one of them was a file. -/
  position : Nat
  hadFile : Bool
  openRanges : List Nat
  pending : String
  outputs : List (String × Output)
  readers : List (String × LineReader)
  seed : Float
  status : Nat

/-- How a rule or a function ends before its end. -/
inductive Leave
  | next
  | nextFile
  | stopLoop
  | nextRound
  | result (v : Value)
  | exit
  /-- A fault, and whether the place in the input is reported with it. -/
  | fault (message : String) (located : Bool)

abbrev AwkM := ExceptT Leave (StateT State ShellM)

def lifted (m : ShellM α) : AwkM α := ExceptT.lift (StateT.lift m)

def runFault (message : String) : AwkM α := throw (.fault ("run time error: " ++ message) true)

/-! Names. -/

def slotOf (name : String) : AwkM (Option Slot) := do
  let s ← get
  match s.locals.bind fun l => l.lookup name with
  | some slot => return some slot
  | none => return s.globals[name]?

def setSlot (name : String) (slot : Slot) : AwkM Unit :=
  modify fun s =>
    match s.locals with
    | some locals =>
      if (locals.lookup name).isSome then
        { s with locals := some (locals.map fun l => if l.1 = name then (name, slot) else l) }
      else { s with globals := s.globals.insert name slot }
    | none => { s with globals := s.globals.insert name slot }

def newTable (t : Table) : AwkM Nat := do
  let id := (← get).tables.size
  modify fun s => { s with tables := s.tables.push t }
  return id

/-- The table that a name stands for. -/
def tableId (name : String) : AwkM Nat := do
  match ← slotOf name with
  | some (.table id) => return id
  | some (.undecided id) =>
    setSlot name (.table id)
    return id
  | _ =>
    let id ← newTable .empty
    setSlot name (.table id)
    return id

def tableAt (id : Nat) : AwkM Table := return (← get).tables.getD id .empty

def setTable (id : Nat) (t : Table) : AwkM Unit :=
  modify fun s => { s with tables := s.tables.setIfInBounds id t }

/-- What a name hands over to a function. -/
def handedOver (name : String) : AwkM Slot := do
  match ← slotOf name with
  | some (.value .unset) | none =>
    let id ← newTable .empty
    setSlot name (.undecided id)
    return .undecided id
  | some slot => return slot

def plainValue (name : String) : AwkM Value := do
  match ← slotOf name with
  | some (.value v) => return v
  | _ => return .unset

/-- The text of a variable that has to do with the output. -/
def textOf (name : String) : AwkM String := do
  match ← plainValue name with
  | .text s | .both s _ => return s
  | .number x => return numberText "%.6g" x
  | .unset => return ""

def asText (v : Value) : AwkM String := do
  match v with
  | .number x => return numberText (← textOf "CONVFMT") x
  | v => return v.toText ""

def global (name : String) (v : Value) : AwkM Unit :=
  modify fun s => { s with globals := s.globals.insert name (.value v) }

/-- What a value looks an entry up by. Only whole numbers of a small size count as numbers. -/
def indexOf (v : Value) : AwkM Index := do
  match v with
  | .number x =>
    let n := truncated x
    let bound : Nat := Number.twoTo 31
    if isWhole x && -bound < n && n < bound then return .number n
    else return .name (← asText v)
  | v => return .name (← asText v)

/-! Records and fields. -/

/-- The pieces of a text between matches that are not empty. -/
def piecesBetween (r : Regex) (subject : Regex.Subject) (cs : Array Char) :
    Nat → Nat → Nat → List String
  | 0, start, _ => [String.ofList (cs.extract start cs.size).toList]
  | fuel + 1, start, position =>
    match Pattern.find? r subject position with
    | none => [String.ofList (cs.extract start cs.size).toList]
    | some (a, b) =>
      if a = b then
        if cs.size ≤ a then [String.ofList (cs.extract start cs.size).toList]
        else piecesBetween r subject cs fuel start (a + 1)
      else String.ofList (cs.extract start a).toList :: piecesBetween r subject cs fuel b b

def isFieldBlank (c : Char) : Bool := c = ' ' || c = '\t' || c = '\n'

def wordsOf : Nat → List Char → List String
  | 0, _ => []
  | fuel + 1, cs =>
    let cs := cs.dropWhile isFieldBlank
    let word := cs.takeWhile fun c => !isFieldBlank c
    if word.isEmpty then [] else String.ofList word :: wordsOf fuel (cs.drop word.length)

def regexOfText (source : String) : AwkM Regex := do
  match Pattern.read source with
  | .ok r => return r
  | .error fault =>
    runFault ("regular expression compile failed (" ++ fault.message ++ ")\n" ++ source)

/-- Splits at matches of an expression. -/
def splitAt (r : Regex) (s : String) : List String :=
  if s.isEmpty then []
  else
    let cs := s.toList.toArray
    piecesBetween r (Pattern.subject s) cs (cs.size + 1) 0 0

/-- Splits at what a separator says: blanks, every character, one character or an expression. -/
def splitBy (separator s : String) : AwkM (List String) := do
  if s.isEmpty then return []
  match separator.toList with
  | [] => return s.toList.map String.singleton
  | [' '] => return wordsOf (s.length + 1) s.toList
  | [_] => return s.splitOn separator
  | _ => return splitAt (← regexOfText separator) s

def setRecord (record : String) : AwkM Unit := do
  let pieces ← splitBy (← textOf "FS") record
  modify fun s => { s with record, fields := (pieces.map Value.ofInput).toArray }
  global "NF" (.ofNat pieces.length)

/-- Writes the record anew from its fields. -/
def rebuild : AwkM Unit := do
  let texts ← (← get).fields.toList.mapM asText
  let record := String.intercalate (← textOf "OFS") texts
  modify fun s => { s with record }

def setCount (n : Nat) : AwkM Unit := do
  modify fun s => { s with
    fields := (s.fields.extract 0 n) ++ Array.replicate (n - s.fields.size) .unset }
  global "NF" (.ofNat n)

def fieldPosition (v : Value) : AwkM Nat := do
  let n := truncated v.toNumber
  if n < 0 then runFault ("negative field index $" ++ toString n) else return n.toNat

def field (n : Nat) : AwkM Value := do
  let s ← get
  if n = 0 then return .ofInput s.record else return s.fields.getD (n - 1) .unset

def setField (n : Nat) (v : Value) : AwkM Unit := do
  if n = 0 then setRecord (← asText v)
  else
    if (← get).fields.size < n then setCount n
    modify fun s => { s with fields := s.fields.setIfInBounds (n - 1) v }
    rebuild

def setName (name : String) (v : Value) : AwkM Unit := do
  setSlot name (.value v)
  if name = "NF" then
    setCount (truncated v.toNumber).toNat
    rebuild

/-! Reading. -/

/-- The text before the first empty line, and what follows the empty lines. -/
def paragraph : Nat → List Char → List Char → List Char × List Char
  | 0, seen, cs => (seen.reverse, cs)
  | fuel + 1, seen, cs => match cs with
    | [] => (seen.reverse, [])
    | '\n' :: '\n' :: rest => (seen.reverse, rest.dropWhile (· = '\n'))
    | ['\n'] => (seen.reverse, [])
    | c :: rest => paragraph fuel (c :: seen) rest

/-- The next record of a text, as the record separator says, and what is left. -/
def nextRecord (cs : List Char) : AwkM (Option (String × List Char)) := do
  match (← textOf "RS").toList with
  | [] =>
    let cs := cs.dropWhile (· = '\n')
    if cs.isEmpty then return none
    let (record, rest) := paragraph (cs.length + 1) [] cs
    return some (String.ofList record, rest)
  | [separator] =>
    if cs.isEmpty then return none
    let record := cs.takeWhile (· != separator)
    return some (String.ofList record, cs.drop (record.length + 1))
  | source =>
    if cs.isEmpty then return none
    let r ← regexOfText (String.ofList source)
    match Pattern.find? r (Pattern.subject (String.ofList cs)) 0 with
    | some (a, b) =>
      if a = b then return some (String.ofList cs, [])
      else return some (String.ofList (cs.take a), cs.drop b)
    | none => return some (String.ofList cs, [])

def increase (name : String) : AwkM Unit := do
  global name (.number ((← plainValue name).toNumber + 1))

/-- An argument that gives a variable its value. -/
def assignment? (word : String) : Option (String × String) :=
  let cs := word.toList
  let name := cs.takeWhile isNameChar
  match cs.drop name.length with
  | '=' :: value =>
    if isName (String.ofList name) then some (String.ofList name, String.ofList value) else none
  | _ => none

def openFailure (name : String) (fault : FileFault) (suffix : String) : String :=
  "cannot open \"" ++ name ++ "\"" ++ suffix ++ " (" ++ fault.text ++ ")"

/-- Opens the next file among the arguments; without any it is the standard input. -/
def nextInput (unescape : String → String) : Nat → AwkM Bool
  | 0 => return false
  | fuel + 1 => do
    let s ← get
    let count := truncated (← plainValue "ARGC").toNumber
    if count ≤ s.position then
      if s.hadFile then return false
      else
        modify fun s => { s with hadFile := true }
        openInput "-"
    else
      modify fun s => { s with position := s.position + 1 }
      let arguments ← tableAt (← tableId "ARGV")
      let (found, _) := arguments.find false (.number s.position)
      let word ← asText (if found then (arguments.get (.number s.position)).1 else .unset)
      if word.isEmpty then nextInput unescape fuel
      else match assignment? word with
        | some (name, value) =>
          setName name (.ofInput (unescape value))
          nextInput unescape fuel
        | none =>
          modify fun s => { s with hadFile := true }
          openInput word
where
  openInput (word : String) : AwkM Bool := do
    let text ← if word = "-" then pure (.ok (← lifted (readAll 0))) else lifted (readFile word)
    match text with
    | .ok text =>
      modify fun s => { s with input := some text.toList }
      global "FILENAME" (.ofInput word)
      global "FNR" (.number 0)
      return true
    | .error fault => throw (.fault (openFailure word fault "") false)

/-- The next record of the main input, which is counted. -/
def mainRecord (unescape : String → String) : Nat → AwkM (Option String)
  | 0 => return none
  | fuel + 1 => do
    match (← get).input with
    | none =>
      let count := (truncated (← plainValue "ARGC").toNumber).toNat
      if ← nextInput unescape (count + 1) then mainRecord unescape fuel else return none
    | some left => match ← nextRecord left with
      | none =>
        modify fun s => { s with input := none }
        mainRecord unescape fuel
      | some (record, rest) =>
        modify fun s => { s with input := some rest }
        increase "NR"
        increase "FNR"
        return some record

/-! Writing. -/

def Output.flushed : Output → Output
  | .file id _ => .file id ""
  | .command text => .command text

/-- Writes what waits for a file. -/
def Output.write : Output → AwkM Unit
  | .file id text => lifted (onMachine fun m => m.write id text)
  | .command _ => return ()

/-- Writes what waits to be printed or written. -/
def flush : AwkM Unit := do
  let s ← get
  modify fun s => { s with
    pending := ""
    outputs := s.outputs.map fun e => (e.1, e.2.flushed) }
  lifted (out s.pending)
  s.outputs.reverse.forM fun e => e.2.write

/-- Puts an entry to the front of a list. -/
def toFront (name : String) (a : α) (entries : List (String × α)) : List (String × α) :=
  (name, a) :: entries.filter fun e => e.1 != name

def printTo (name : String) (mode : FileMode) (text : String) : AwkM Unit := do
  if name = "/dev/stdout" || name = "-" then
    modify fun s => { s with pending := s.pending ++ text }
  else if name = "/dev/stderr" then lifted (put 2 text)
  else match (← get).outputs.lookup name with
    | some (.file id waiting) =>
      modify fun s => { s with outputs := toFront name (.file id (waiting ++ text)) s.outputs }
    | some (.command before) =>
      modify fun s => { s with outputs := toFront name (.command (before ++ text)) s.outputs }
    | none => match ← lifted (openFile name mode) with
      | .error fault => throw (.fault (openFailure name fault " for output") false)
      | .ok id => modify fun s => { s with outputs := toFront name (.file id text) s.outputs }

def printToCommand (command text : String) : AwkM Unit := do
  match (← get).outputs.lookup command with
  | some (.command before) =>
    modify fun s => { s with outputs := toFront command (.command (before ++ text)) s.outputs }
  | _ =>
    flush
    modify fun s => { s with outputs := toFront command (.command text) s.outputs }

/-- Runs a command, perhaps with an input of its own, and perhaps for what it writes. -/
def runCommand (run : Runner) (command : String) (input : Option String) (reads : Bool) :
    ShellM (Nat × String) := do
  let id ← newStream (.sink "")
  let status ← restoring (fun s t => { t with descriptors := s.descriptors }) do
    if let some text := input then setDescriptor 0 (some (← newStream (.source text.toList)))
    if reads then setDescriptor 1 (some id)
    taskStatus run (.program (fun fault => "/bin/sh: " ++ fault.text ++ "\n")
      ["/bin/sh", "-c", command])
  return (status, (← get).machine.written id)

/-- A status as a script gets to know it: one that a signal caused is larger. -/
def reported (status : Nat) : Nat := if 128 < status && status < 160 then status + 128 else status

/-- Closes files and commands of a name; the status tells how a command ended. -/
def close (run : Runner) (name : String) : AwkM Int := do
  let s ← get
  let key := if (s.readers.lookup ("|" ++ name)).isSome then "|" ++ name else "<" ++ name
  match s.outputs.lookup name, s.readers.lookup key with
  | some output, _ =>
    modify fun s => { s with outputs := s.outputs.filter fun e => e.1 != name }
    match output with
    | .file id text =>
      lifted (onMachine fun m => m.write id text)
      return 0
    | .command text =>
      flush
      return (reported (← lifted (runCommand run name (some text) false)).1 : Nat)
  | none, some reader =>
    modify fun s => { s with readers := s.readers.filter fun e => e.1 != key }
    return (reported reader.status : Nat)
  | none, none => return -1

/-- Closes everything at the end; commands still write before what waits to be printed. -/
def closeAll (run : Runner) : Nat → AwkM Unit
  | 0 => flush
  | fuel + 1 => do
    match (← get).outputs with
    | [] => flush
    | (name, output) :: rest =>
      modify fun s => { s with outputs := rest }
      match output with
      | .file id text => lifted (onMachine fun m => m.write id text)
      | .command text => discard (lifted (runCommand run name (some text) false))
      closeAll run fuel

/-- The next record of a file or of what a command writes; nothing if there is no such file. -/
def readerRecord (run : Runner) (name : String) (isCommand : Bool) :
    AwkM (Option (Option String)) := do
  let key := (if isCommand then "|" else "<") ++ name
  let reader ← match (← get).readers.lookup key with
    | some reader => pure (some reader)
    | none =>
      if isCommand then do
        flush
        let (status, text) ← lifted (runCommand run name none true)
        pure (some ⟨text.toList, status⟩)
      else
        let text ← if name = "-" || name = "/dev/stdin" then pure (.ok (← lifted (readAll 0)))
          else lifted (readFile name)
        match text with
        | .ok text => pure (some ⟨text.toList, 0⟩)
        | .error _ => pure none
  match reader with
  | none => return none
  | some reader =>
    match ← nextRecord reader.left with
    | none =>
      modify fun s => { s with readers := toFront key { reader with left := [] } s.readers }
      return some none
    | some (record, left) =>
      modify fun s => { s with readers := toFront key { reader with left } s.readers }
      return some (some record)

end SchemaDecl.Shell.Awk
