import SchemaDecl.Shell.Expansion

/-! Tasks that one command gives another. A command of the shell or a program can
have others run in the middle of its own work; whoever runs a task leaves its
status in the shell. Whatever a task leads to, the shell can be put back as it
was, all but the machine. -/

namespace SchemaDecl.Shell

open Files

/-- Why a program does not run. -/
inductive LaunchFault
  | missing
  | notADirectory
  | notPermitted
  | notAProgram
  | nested
  deriving DecidableEq

def LaunchFault.text : LaunchFault → String
  | .missing => FileFault.missing.text
  | .notADirectory => FileFault.notADirectory.text
  | .notPermitted => "Permission denied"
  | .notAProgram => "Exec format error"
  | .nested => "Too many levels of symbolic links"

/-- The status with which others report that a program does not run. -/
def LaunchFault.status : LaunchFault → Nat
  | .missing | .notADirectory => 127
  | .notPermitted | .notAProgram | .nested => 126

inductive Task
  /-- Commands of the script that runs. -/
  | commands (commands : List Command)
  /-- A text that is read as a script and run by the same shell. -/
  | script (text : String)
  /-- A command by its words; functions may be passed over. -/
  | words (functions : Bool) (words : List String)
  /-- A program by its words, and what to say if there is no such program. -/
  | program (complaint : LaunchFault → String) (words : List String)

abbrev Runner := Task → ShellM Unit

/-- A command of the shell: it ends with a status. -/
abbrev Builtin := Runner → List String → ShellM Nat

/-- Runs a step and afterwards, however it ended, restores what the step was not to change. -/
def restoring (restore : Shell → Shell → Shell) (m : ShellM α) : ShellM α :=
  ExceptT.mk fun s =>
    let (result, t) := m s
    (result, restore s t)

/-- The outcome of a step as a value. -/
def outcome (m : ShellM α) : ShellM (Except Escape α) :=
  ExceptT.mk fun s =>
    let (result, t) := m s
    (.ok result, t)

/-- Runs a step whose failure somebody asks for. -/
def testing (m : ShellM α) : ShellM α :=
  restoring (fun s t => { t with tested := s.tested }) do
    modify fun s => { s with tested := true }
    m

def setStatus (status : Nat) : ShellM Unit := modify fun s => { s with status }

def taskStatus (run : Runner) (task : Task) : ShellM Nat := do
  run task
  return (← get).status

/-- The status with which a script ends, and whether it asked for that itself. -/
def endStatus (m : ShellM Unit) : ShellM (Nat × Bool) := do
  match ← outcome m with
  | .ok () => return ((← get).status, false)
  | .error (.exit n) => return (n, true)
  | .error (.fault n) | .error (.leave n) => return (n, true)
  | .error (.stopLoop _) | .error (.nextRound _) => return ((← get).status, false)
  | .error (.killed signal) => throw (.killed signal)

/-- Runs a whole script, with what it wants to have done at its end. -/
def wholeScript (run : Runner) (m : ShellM Unit) : ShellM Nat := do
  let (status, _) ← endStatus m
  match (← get).traps.lookup "EXIT" with
  | none => return status
  | some text => do
    modify fun s => { s with status, traps := s.traps.filter fun t => t.1 != "EXIT" }
    let (last, asked) ← endStatus (run (.script text))
    return if asked then last else status

/-- Runs commands in a copy of the shell; what they do to the machine stays. -/
def inCopy (run : Runner) (m : ShellM Unit) : ShellM Nat :=
  restoring (fun s t => { s with machine := t.machine }) do
    modify fun s => { s with traps := [], loops := 0, lastJob := none }
    wholeScript run m

/-- What commands write, without the line ends at its end. -/
def outputOf (run : Runner) (commands : List Command) : ShellM String := do
  let id ← newStream (.sink "")
  let status ← inCopy run do
    setDescriptor 1 (some id)
    modify fun s => { s with tested := false }
    run (.commands commands)
  modify fun s => { s with substituted := status }
  return (← get).machine.written id

end SchemaDecl.Shell
