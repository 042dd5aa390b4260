import SchemaDecl.Files.Standard
import SchemaDecl.Shell.Parser

/-! What a script works on. A machine is a file tree with the permissions of its
files and the streams that were opened; a shell runs on a machine and has
variables, functions, descriptors that lead to streams, and a place in the tree.
What a command does to the machine stays, also when the command ends early: the
ways to end early are the escapes. -/

namespace SchemaDecl.Shell

open Files

inductive Stream
  /-- Output that somebody else will read. -/
  | sink (written : String)
  /-- Input of which this is left. -/
  | source (left : List Char)
  | file (place : Location) (offset : Nat) (append : Bool)
  | nowhere

structure Machine where
  tree : Tree
  modes : List (Location × Nat)
  streams : Array Stream

structure Variable where
  value : Option String
  exported : Bool
  constant : Bool

structure Shell where
  machine : Machine
  directory : Location
  name : String
  arguments : List String
  bindings : List (String × Variable)
  /-- For each function that runs, what its own variables were before. -/
  saved : List (List (String × Option Variable))
  functions : List (String × Command)
  documents : List (Nat × Document)
  announced : Nat
  descriptors : List (Nat × Nat)
  /-- Letters of the options that are on. -/
  flags : List Char
  status : Nat
  /-- Status of the last command that was run for what it writes. -/
  substituted : Nat
  /-- Status of the last command that was put into the background. -/
  lastJob : Option Nat
  /-- Whether somebody asks for the status of the command that runs. -/
  tested : Bool
  /-- Permissions that new files do not get. -/
  mask : Nat
  line : Nat
  /-- The command of the shell itself that runs, for its messages. -/
  running : Option String
  extended : Bool
  traps : List (String × String)
  loops : Nat
  /-- Position of the next option inside an argument, when options are taken one by one. -/
  cluster : Nat
  /-- Whether something was written although the output is closed. -/
  lost : Bool

inductive Escape
  | exit (status : Nat)
  /-- A fault ends the script, unless it came up in an ordinary command of the shell. -/
  | fault (status : Nat)
  | leave (status : Nat)
  | stopLoop (levels : Nat)
  | nextRound (levels : Nat)
  | killed (signal : Nat)
  deriving DecidableEq

abbrev ShellM := ExceptT Escape (StateM Shell)

namespace Machine

def mode (m : Machine) (l : Location) : Nat :=
  (m.modes.lookup l).getD
    (if m.tree.node? l = some .directory || Tree.programDirectories.contains l.parent then 0o755
    else 0o644)

def isExecutable (m : Machine) (l : Location) : Bool := m.mode l &&& 0o111 != 0

def setMode (m : Machine) (l : Location) (mode : Nat) : Machine :=
  { m with modes := (l, mode) :: m.modes.filter fun e => e.1 != l }

/-- Takes a place away with everything below it. -/
def remove (m : Machine) (l : Location) : Machine :=
  { m with tree := m.tree.eraseAll l, modes := m.modes.filter fun e => !l.isPrefixOf e.1 }

/-- Puts what is at one place, with everything below it, at another place. -/
def move (m : Machine) (source target : Location) : Machine :=
  let below := fun (l : Location) => target ++ l.drop source.length
  let entries := (m.tree.entries.filter fun e => source.isPrefixOf e.1).map fun e =>
    (below e.1, e.2)
  let modes := (m.modes.filter fun e => source.isPrefixOf e.1).map fun e => (below e.1, e.2)
  let m := (m.remove source).remove target
  { m with tree := ⟨entries ++ m.tree.entries⟩, modes := modes ++ m.modes }

def addStream (m : Machine) (s : Stream) : Machine × Nat :=
  ({ m with streams := m.streams.push s }, m.streams.size)

def putFile (m : Machine) (l : Location) (content : ByteArray) : Machine :=
  { m with tree := m.tree.insert l (.file content) }

def contentOf (m : Machine) (l : Location) : ByteArray :=
  (m.tree.contentOf l).getD ByteArray.empty

/-- Writes at an offset, or at the end, of a file that is still there. -/
def writeAt (m : Machine) (l : Location) (offset : Nat) (append : Bool) (bytes : ByteArray) :
    Machine × Nat :=
  let content := m.contentOf l
  let offset := if append then content.size else offset
  let before := content.extract 0 offset
  let gap : ByteArray := ⟨(List.replicate (offset - before.size) (0 : UInt8)).toArray⟩
  let after := content.extract (offset + bytes.size) content.size
  let m := if (m.tree.node? l).isSome then m.putFile l (before ++ gap ++ bytes ++ after) else m
  (m, offset + bytes.size)

def write (m : Machine) (id : Nat) (text : String) : Machine :=
  match m.streams[id]? with
  | some (.sink written) => { m with streams := m.streams.set! id (.sink (written ++ text)) }
  | some (.file l offset append) =>
    let (m, offset) := m.writeAt l offset append (toBytes text)
    { m with streams := m.streams.set! id (.file l offset append) }
  | _ => m

/-- What can still be read from a stream. -/
def unread (m : Machine) (id : Nat) : List Char :=
  match m.streams[id]? with
  | some (.source left) => left
  | some (.file l offset _) => (ofBytes (m.contentOf l)).toList.drop offset
  | _ => []

/-- Moves a stream on by a number of characters. -/
def skip (m : Machine) (id n : Nat) : Machine :=
  match m.streams[id]? with
  | some (.source left) => { m with streams := m.streams.set! id (.source (left.drop n)) }
  | some (.file l offset append) =>
    { m with streams := m.streams.set! id (.file l (offset + n) append) }
  | _ => m

/-- Moves a stream on a file back by a number of characters. -/
def goBack (m : Machine) (id n : Nat) : Machine :=
  match m.streams[id]? with
  | some (.file l offset append) =>
    { m with streams := m.streams.set! id (.file l (offset - n) append) }
  | _ => m

def written (m : Machine) (id : Nat) : String :=
  match m.streams[id]? with
  | some (.sink text) => text
  | _ => ""

end Machine

/-! Small steps of a shell. -/

def onMachine (f : Machine → Machine) : ShellM Unit :=
  modify fun s => { s with machine := f s.machine }

def tree : ShellM Tree := return (← get).machine.tree

def setTree (tree : Tree) : ShellM Unit := onMachine fun m => { m with tree }

def streamOf (descriptor : Nat) : ShellM (Option Nat) :=
  return (← get).descriptors.lookup descriptor

def put (descriptor : Nat) (text : String) : ShellM Unit := do
  match ← streamOf descriptor with
  | some id => onMachine fun m => m.write id text
  | none => if descriptor = 1 && !text.isEmpty then modify fun s => { s with lost := true }

def out (text : String) : ShellM Unit := put 1 text

def isOpen (descriptor : Nat) : ShellM Bool := return (← streamOf descriptor).isSome

/-- Everything that is left of the input. -/
def readAll (descriptor : Nat) : ShellM String := do
  match ← streamOf descriptor with
  | some id =>
    let left := (← get).machine.unread id
    onMachine fun m => m.skip id left.length
    return String.ofList left
  | none => return ""

/-- What is left of the input, without taking it. -/
def lookAhead (descriptor : Nat) : ShellM (List Char) := do
  match ← streamOf descriptor with
  | some id => return (← get).machine.unread id
  | none => return []

def take (descriptor n : Nat) : ShellM Unit := do
  match ← streamOf descriptor with
  | some id => onMachine fun m => m.skip id n
  | none => return ()

/-- Whether the input is a file, in which a reader can go back. -/
def isFile (descriptor : Nat) : ShellM Bool := do
  match ← streamOf descriptor with
  | some id => match (← get).machine.streams[id]? with
    | some (.file ..) => return true
    | _ => return false
  | none => return false

def newStream (s : Stream) : ShellM Nat := do
  let (m, id) := (← get).machine.addStream s
  onMachine fun _ => m
  return id

def setDescriptor (descriptor : Nat) (stream : Option Nat) : ShellM Unit :=
  modify fun s =>
    let others := s.descriptors.filter fun d => d.1 != descriptor
    { s with descriptors := (stream.map fun id => (descriptor, id)).toList ++ others }

/-! Messages. -/

def complain (message : String) : ShellM Unit := do
  let s ← get
  let line := (if s.extended then "line " else "") ++ toString s.line
  let running := (s.running.map (· ++ ": ")).getD ""
  put 2 (s.name ++ ": " ++ line ++ ": " ++ running ++ message ++ "\n")

def faultStatus : ShellM Nat := return if (← get).extended then 1 else 2

def fatal (message : String) : ShellM α := do
  complain message
  throw (.fault (← faultStatus))

/-! Files. -/

def placeOf (path : String) : ShellM Location :=
  return Location.within (← get).directory (decode path)

/-- Where a path leads; an empty path leads nowhere. -/
def locate (path : String) : ShellM (Except FileFault Location) := do
  if path.isEmpty then return .error .missing
  return (← tree).resolve (← placeOf path)

def nodeAt (path : String) : ShellM (Except FileFault Node) := do
  if path.isEmpty then return .error .missing
  return (← tree).find (← placeOf path)

/-- The descriptor that a path in the device directory names. -/
def deviceDescriptor? (path : String) : Option Nat :=
  match path with
  | "/dev/stdin" => some 0
  | "/dev/stdout" => some 1
  | "/dev/stderr" => some 2
  | _ => match path.splitOn "/dev/fd/" with
    | ["", n] => natural? n
    | _ => none

/-- A place for a file to be written: what is there now, if it may be replaced. -/
def writable (path : String) : ShellM (Except FileFault (Location × Option ByteArray)) := do
  match ← locate path with
  | .error fault => return .error fault
  | .ok l => match (← tree).node? l with
    | some .directory => return .error .isADirectory
    | some (.file content) => return .ok (l, some content)
    | none => return .ok (l, none)

def openFile (path : String) (mode : FileMode) : ShellM (Except FileFault Nat) := do
  if path = "/dev/null" then return .ok (← newStream .nowhere)
  match deviceDescriptor? path with
  | some descriptor => match ← streamOf descriptor with
    | some id => return .ok id
    | none => return .error .missing
  | none => match mode with
    | .read => match ← locate path with
      | .error fault => return .error fault
      | .ok l => match (← tree).node? l with
        | some _ => return .ok (← newStream (.file l 0 false))
        | none => return .error .missing
    | mode => match ← writable path with
      | .error fault => return .error fault
      | .ok (l, content) =>
        let kept := if mode = .write || mode = .overwrite then ByteArray.empty
          else content.getD ByteArray.empty
        onMachine fun m => m.putFile l kept
        return .ok (← newStream (.file l 0 (mode = .append)))

/-- The content of a file; a directory has none. -/
def readFile (path : String) : ShellM (Except FileFault String) := do
  if path = "/dev/null" then return .ok ""
  match deviceDescriptor? path with
  | some descriptor => return .ok (← readAll descriptor)
  | none => match ← nodeAt path with
    | .error fault => return .error fault
    | .ok .directory => return .error .isADirectory
    | .ok (.file content) => return .ok (ofBytes content)

/-! Variables. -/

def variableOf (name : String) : ShellM (Option Variable) := return (← get).bindings.lookup name

def valueOf (name : String) : ShellM String :=
  return ((← variableOf name).bind Variable.value).getD ""

def putVariable (name : String) (v : Option Variable) : ShellM Unit :=
  modify fun s =>
    let others := s.bindings.filter fun e => e.1 != name
    { s with bindings := (v.map fun v => (name, v)).toList ++ others }

def assign (name value : String) : ShellM Unit := do
  let before ← variableOf name
  let v := before.getD ⟨none, false, false⟩
  if v.constant then fatal (name ++ ": is read only")
  let exported := v.exported || (← get).flags.contains 'a'
  putVariable name (some { v with value := some value, exported })
  if name = "OPTIND" then modify fun s => { s with cluster := 0 }

def hasFlag (flag : Char) : ShellM Bool := return (← get).flags.contains flag

def separators : ShellM String := do
  match (← variableOf "IFS").bind Variable.value with
  | some s => return s
  | none => return " \t\n"

end SchemaDecl.Shell
