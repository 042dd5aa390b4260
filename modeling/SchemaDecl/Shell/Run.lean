import SchemaDecl.Shell.Brackets
import SchemaDecl.Shell.Builtins.Table

/-! What commands do. A simple command has its words expanded, its streams
redirected and its variables assigned before it runs; what runs is a special
command of the shell, a function, an ordinary command of the shell or a program.
The stages of a pipeline run one after another, each on what the one before it
wrote. Every command leaves its status in the shell. -/

namespace SchemaDecl.Shell

open Files

/-! Redirections. -/

def openMessage (extended : Bool) (mode : FileMode) (path : String) (fault : FileFault) :
    String :=
  if extended then path ++ ": " ++ fault.text
  else match mode, fault with
    | .read, .missing => "cannot open " ++ path ++ ": No such file"
    | .read, fault => "cannot open " ++ path ++ ": " ++ fault.text
    | _, .missing => "cannot create " ++ path ++ ": Directory nonexistent"
    | _, fault => "cannot create " ++ path ++ ": " ++ fault.text

/-- Opens a file for a redirection, or complains about it. -/
def openFor (mode : FileMode) (path : String) : ShellM (Option Nat) := do
  let keeps := mode = .write && (← hasFlag 'C') && fileAnswer (← get) "-f" path
  let result ← if keeps then pure (.error (.alreadyThere path)) else openFile path mode
  match result with
  | .ok id => return some id
  | .error fault =>
    complain (openMessage (← get).extended mode path fault)
    return none

/-- The text of a here document. -/
def documentText (run : Runner) (id : Nat) : ShellM String := do
  let s ← get
  match s.documents.lookup id with
  | none => return ""
  | some document =>
    if !document.expanded then return document.text
    match documentParts s.extended document.text with
    | .ok parts => return Glyph.text (← expandParts (outputOf run) parts)
    | .error fault => fatal fault.message

/-- Whether a redirection succeeded. -/
def redirect (run : Runner) : Redirection → ShellM Bool
  | .file descriptor mode target => do
    let path ← expandText (outputOf run) target
    match ← openFor mode path with
    | some id => do
      setDescriptor descriptor (some id)
      return true
    | none => return false
  | .everything mode target => do
    match ← openFor mode (← expandText (outputOf run) target) with
    | some id => do
      setDescriptor 1 (some id)
      setDescriptor 2 (some id)
      return true
    | none => return false
  | .document descriptor id => do
    let text ← documentText run id
    setDescriptor descriptor (some (← newStream (.source text.toList)))
    return true
  | .literal descriptor word => do
    let text := (← expandText (outputOf run) word) ++ "\n"
    setDescriptor descriptor (some (← newStream (.source text.toList)))
    return true
  | .duplicate descriptor target => do
    let word ← expandText (outputOf run) target
    if word = "-" then
      setDescriptor descriptor none
      return true
    match natural? word with
    | some n => match ← streamOf n with
      | some id => do
        setDescriptor descriptor (some id)
        return true
      | none => do
        complain (word ++ ": Bad file descriptor")
        return false
    | none =>
      if (← get).extended && descriptor = 1 then
        match ← openFor .write word with
        | some id => do
          setDescriptor 1 (some id)
          setDescriptor 2 (some id)
          return true
        | none => return false
      else
        complain "Syntax error: Bad fd number"
        return false

def redirectAll (run : Runner) : List Redirection → ShellM Bool
  | [] => return true
  | r :: rest => do
    if ← redirect run r then redirectAll run rest else return false

def keepingDescriptors (m : ShellM α) : ShellM α :=
  restoring (fun s t => { t with descriptors := s.descriptors }) m

/-! Words of a command. -/

/-- An argument of a command that assigns is not split if it is an assignment. -/
def expandArguments (run : Runner) (words : List (List Part)) : ShellM (List String) := do
  let substitute := outputOf run
  match words with
  | [] => return []
  | first :: rest => do
    let front ← expandWords substitute [first]
    let assigns := ["export", "readonly", "local", "declare", "typeset"].contains
      (front.headD "")
    let others ← rest.mapM fun word => do
      match assigns, assignment? word with
      | true, some (name, value) =>
        return [name ++ "=" ++ (← expandText substitute value)]
      | _, _ => expandWords substitute [word]
    return front ++ others.flatten

def tracePart (s : Shell) : String :=
  ((s.bindings.lookup "PS4").bind Variable.value).getD ""

/-! Simple commands. -/

/-- Assignments before a command, which are expanded one after another, and what is to be done
when they are made. -/
structure Preparation where
  assignments : List (String × List Part)
  afterwards : List (String × String) → ShellM Unit

/-- Makes the assignments in a given way. -/
def Preparation.carryOut (p : Preparation) (run : Runner) (set : String → String → ShellM Unit) :
    ShellM Unit := do
  let values ← p.assignments.mapM fun (name, value) => do
    let value ← expandText (outputOf run) value
    set name value
    return (name, value)
  p.afterwards values

def assignExported (name value : String) : ShellM Unit := do
  assign name value
  match ← variableOf name with
  | some v => putVariable name (some { v with exported := true })
  | none => return ()

/-- Assigns for the time of one command. -/
def withAssignments (run : Runner) (p : Preparation) (m : ShellM α) : ShellM α := do
  let names := (p.assignments.map Prod.fst).eraseDups
  restoring (fun s t =>
    let old := s.bindings.filter fun v => names.contains v.1
    let others := t.bindings.filter fun v => !names.contains v.1
    { t with bindings := old ++ others }) do
    p.carryOut run assignExported
    m

def callFunction (run : Runner) (p : Preparation) (body : Command) (arguments : List String) :
    ShellM Nat := do
  let s ← get
  set { s with saved := [] :: s.saved }
  p.carryOut run fun name value => do
    saveVariable name
    assignExported name value
  modify fun t => { t with arguments, loops := 0, cluster := 0 }
  let result ← outcome (run (.commands [body]))
  restoreVariables ((← get).saved.headD [])
  modify fun t => { t with
    saved := s.saved, arguments := s.arguments, loops := s.loops, cluster := s.cluster
    tested := s.tested }
  match result with
  | .ok () | .error (.stopLoop _) | .error (.nextRound _) => return (← get).status
  | .error (.leave n) => return n
  | .error escape => throw escape

/-- Runs a command of the shell under its name. -/
def callBuiltin (run : Runner) (builtin : Builtin) (name : String) (arguments : List String) :
    ShellM Nat :=
  restoring (fun s t => { t with running := s.running }) do
    modify fun s => { s with running := some name, lost := false }
    let status ← builtin run arguments
    if (← get).lost then
      complain (name ++ ": I/O error")
      modify fun s => { s with lost := false }
      return max 1 status
    return status

/-- A fault of an ordinary command is only its status. -/
def callOrdinary (run : Runner) (builtin : Builtin) (name : String) (arguments : List String) :
    ShellM Nat := do
  match ← outcome (callBuiltin run builtin name arguments) with
  | .ok n => return n
  | .error (.fault n) => return n
  | .error escape => throw escape

def notFound (s : Shell) (word : String) (fault : LaunchFault) : String :=
  if s.extended then
    word ++ ": " ++ (if fault.status = 127 && !word.toList.contains '/' then "command not found"
      else fault.text)
  else if fault.status = 127 && !word.isEmpty then word ++ ": not found"
  else word ++ ": Permission denied"

def callProgram (run : Runner) (words : List String) : ShellM Nat := do
  match ← runProgram run words with
  | .ok n => return n
  | .error fault =>
    complain (notFound (← get) (words.headD "") fault)
    return fault.status

/-- Runs words as a command. If functions are passed over, a special command is like any other. -/
def runWords (run : Runner) (functions : Bool) (p : Preparation) (words : List String) :
    ShellM Nat := do
  let rest := withoutPrefix words
  let functions := functions && rest = words
  match rest with
  | [] => do
    p.carryOut run assign
    return (← get).substituted
  | name :: arguments =>
    let s ← get
    match ← findSpecial name with
    | some builtin => do
      p.carryOut run assign
      if functions then callBuiltin run builtin name arguments
      else callOrdinary run builtin name arguments
    | none => match if functions then s.functions.lookup name else none with
      | some body => callFunction run p body arguments
      | none => match ← findOrdinary name with
        | some builtin => withAssignments run p (callOrdinary run builtin name arguments)
        | none => withAssignments run p (callProgram run rest)

/-- Ends the script after a failure that nobody asked for, if failures are to do so. -/
def checkStatus : ShellM Unit := do
  let s ← get
  if s.status != 0 && s.flags.contains 'e' && !s.tested then throw (.exit s.status)

def trace (stream : Option Nat) (assignments : List (String × String)) (words : List String) :
    ShellM Unit := do
  if ← hasFlag 'x' then
    let texts := (assignments.map fun (name, value) => name ++ "=" ++ value) ++ words
    let s ← get
    let text := tracePart s ++ String.intercalate " " texts ++ "\n"
    match stream with
    | some id => onMachine fun m => m.write id text
    | none => return ()

/-- What is done after the words of a simple command were expanded. -/
def runExpanded (run : Runner) (assignments : List (String × List Part)) (words : List String)
    (redirections : List Redirection) : ShellM Nat := do
  let errors ← streamOf 2
  if !(← redirectAll run redirections) then
    let status ← faultStatus
    if (← findSpecial (words.headD "")).isSome then throw (.fault status)
    return status
  runWords run true ⟨assignments, fun values => trace errors values words⟩ words

def runSimple (run : Runner) (line : Nat) (assignments : List (String × List Part))
    (words : List (List Part)) (redirections : List Redirection) : ShellM Unit := do
  modify fun s => { s with line, substituted := 0 }
  let words ← expandArguments run words
  let body := runExpanded run assignments words redirections
  let status ← if words = ["exec"] then body else keepingDescriptors body
  setStatus status
  checkStatus

/-! Compound commands. -/

/-- Runs stages one after another; the statuses, the last one first. -/
def runStages (run : Runner) : Option Nat → List Nat → List Command → ShellM (List Nat)
  | _, statuses, [] => return statuses
  | input, statuses, stage :: rest => do
    let output ← if rest.isEmpty then pure none else some <$> newStream (.sink "")
    let status ← inCopy run do
      match input with
      | some id => setDescriptor 0 (some id)
      | none => pure ()
      match output with
      | some id => setDescriptor 1 (some id)
      | none => pure ()
      run (.commands [stage])
    match output with
    | none => return status :: statuses
    | some id => do
      let text := (← get).machine.written id
      let next ← newStream (.source text.toList)
      runStages run (some next) (status :: statuses) rest

def runPipeline (run : Runner) (stages : List Command) : ShellM Unit := do
  let statuses ← runStages run none [] stages
  let status := if ← hasFlag anyStage then (statuses.find? (· != 0)).getD 0 else statuses.headD 0
  setStatus status
  checkStatus

/-- Whether a loop goes on after a round. -/
def roundGoesOn (round : ShellM Bool) : ShellM Bool := do
  match ← outcome round with
  | .ok goesOn => return goesOn
  | .error (.stopLoop n) => do
    setStatus 0
    if 1 < n then throw (.stopLoop (n - 1))
    return false
  | .error (.nextRound n) => do
    setStatus 0
    if 1 < n then throw (.nextRound (n - 1))
    return true
  | .error escape => throw escape

/-- Runs a body as part of a loop. -/
def inLoop (m : ShellM α) : ShellM α :=
  restoring (fun s t => { t with loops := s.loops, tested := s.tested }) do
    modify fun s => { s with loops := s.loops + 1 }
    m

def runRounds (run : Runner) (untilTrue : Bool) (condition body : List Command) :
    Nat → Nat → ShellM Unit
  | 0, status => setStatus status
  | fuel + 1, status => do
    let last := status
    let holds ← outcome (inLoop (testing (run (.commands condition))))
    match holds with
    | .error (.stopLoop n) => do
      setStatus last
      if 1 < n then throw (.stopLoop (n - 1))
    | .error (.nextRound n) => do
      if 1 < n then throw (.nextRound (n - 1))
      runRounds run untilTrue condition body fuel last
    | .error escape => throw escape
    | .ok () =>
      if ((← get).status = 0) = untilTrue then setStatus last
      else
        let goesOn ← roundGoesOn (inLoop do
          run (.commands body)
          return true)
        if goesOn then runRounds run untilTrue condition body fuel (← get).status
        else return ()

def mostRounds : Nat := 100000

def runIteration (run : Runner) (name : String) (body : List Command) : List String → ShellM Unit
  | [] => return ()
  | value :: rest => do
    assign name value
    let goesOn ← roundGoesOn (inLoop do
      run (.commands body)
      return true)
    if goesOn then runIteration run name body rest else return ()

/-- The commands behind the first pattern that a text matches. -/
def chosen (run : Runner) (text : String) :
    List (List (List Part) × List Command) → ShellM (List Command)
  | [] => return []
  | (patterns, body) :: rest => do
    let found ← patterns.findM? fun pattern => do
      return (← expandPattern (outputOf run) pattern).matchesAll text.toList
    if found.isSome then return body else chosen run text rest

def bracketOperand (run : Runner) (word : List Part) : ShellM Brackets.Operand := do
  let gs ← glyphsOf (outputOf run) word
  let plain := match word with
    | [.text false _] => true
    | _ => false
  return ⟨Glyph.text gs, Glyph.marks gs, plain⟩

def runBrackets (run : Runner) (words : List (List Part)) : ShellM Nat := do
  let operands ← words.mapM (bracketOperand run)
  match Brackets.holds (← conditionSetting) operands with
  | .ok answer => return if answer then 0 else 1
  | .error fault =>
    complain ("[[: " ++ fault.message)
    return 2

def runBody (run : Runner) (commands : List Command) : ShellM Unit := do
  if commands.isEmpty then setStatus 0 else run (.commands commands)

def runCommand (run : Runner) : Command → ShellM Unit
  | .simple line assignments words redirections =>
    runSimple run line assignments words redirections
  | .pipeline stages => runPipeline run stages
  | .negated command => do
    testing (run (.commands [command]))
    setStatus (if (← get).status = 0 then 1 else 0)
  | .both first second => do
    testing (run (.commands [first]))
    if (← get).status = 0 then run (.commands [second])
  | .either first second => do
    testing (run (.commands [first]))
    if (← get).status != 0 then run (.commands [second])
  | .sequence commands => run (.commands commands)
  | .background command => do
    let input ← newStream .nowhere
    let status ← inCopy run do
      setDescriptor 0 (some input)
      modify fun s => { s with tested := false }
      run (.commands [command])
    modify fun s => { s with lastJob := some status, status := 0 }
  | .subshell body => do
    setStatus (← inCopy run (run (.commands body)))
    checkStatus
  | .redirected line command redirections => do
    modify fun s => { s with line }
    keepingDescriptors do
      if ← redirectAll run redirections then run (.commands [command])
      else setStatus (← faultStatus)
  | .branch condition yes no => do
    testing (run (.commands condition))
    if (← get).status = 0 then run (.commands yes) else runBody run no
  | .loop untilTrue condition body => runRounds run untilTrue condition body mostRounds 0
  | .iterate line name words body => do
    modify fun s => { s with line }
    let values ← match words with
      | some words => expandWords (outputOf run) words
      | none => pure (← get).arguments
    setStatus 0
    runIteration run name body values
  | .choose line word cases => do
    modify fun s => { s with line }
    let text ← expandText (outputOf run) word
    runBody run (← chosen run text cases)
  | .define name body => do
    modify fun s => { s with
      functions := (name, body) :: s.functions.filter fun f => f.1 != name
      status := 0 }
  | .condition line words => do
    modify fun s => { s with line }
    setStatus (← runBrackets run words)
    checkStatus
  | .calculation line expression => do
    modify fun s => { s with line }
    let text := Glyph.text (← expandParts (outputOf run) expression)
    setStatus (if (← applyArithmetic text) = 0 then 1 else 0)
    checkStatus

/-! Tasks. -/

/-- Runs the lines of a script, each one before the next is read. -/
def runLines (run : Runner) : Nat → Source → ShellM Unit
  | 0, _ => return ()
  | fuel + 1, source => do
    match nextLine.run source with
    | .error fault => do
      modify fun s => { s with line := fault.line }
      fatal fault.message
    | .ok (none, _) => return ()
    | .ok (some commands, after) => do
      if ← hasFlag 'v' then
        put 2 (String.ofList (source.rest.take (source.rest.length - after.rest.length)))
      let source := after
      modify fun s => { s with
        documents := s.documents ++ source.documents, announced := source.announced }
      run (.commands commands)
      runLines run fuel { source with documents := [] }

def runTask (run : Runner) : Task → ShellM Unit
  | .commands commands => commands.forM fun command => do
    if !(← hasFlag 'n') then runCommand run command
  | .script text => do
    let s ← get
    runLines run (text.length + 1) (sourceOf s.extended s.announced text)
  | .words functions words => do
    setStatus (← runWords run functions ⟨[], fun _ => return ()⟩ words)
  | .program complaint words => do
    match ← runProgram run words with
    | .ok status => setStatus status
    | .error fault => do
      put 2 (complaint fault)
      setStatus fault.status

/-- Runs tasks that give each other tasks down to a depth. -/
def runTo : Nat → Runner
  | 0 => fun _ => throw (.exit 2)
  | depth + 1 => fun task => runTask (runTo depth) task

end SchemaDecl.Shell
