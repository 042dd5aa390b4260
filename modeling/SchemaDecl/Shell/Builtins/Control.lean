import SchemaDecl.Shell.Programs.Table

/-! Commands of the shell that direct what it does: leaving loops, functions and
scripts, running other texts and words, signals, and the place where it works. -/

namespace SchemaDecl.Shell

open Files

/-! Leaving. -/

def levelsOf (words : List String) : ShellM Nat := do
  match words with
  | [] => return 1
  | word :: _ =>
    let n ← numberArgument word
    if n = 0 then fatal ("Illegal number: " ++ word)
    return n

def breakLoop : Builtin := fun _ words => do
  let n ← levelsOf words
  let loops := (← get).loops
  if loops != 0 then throw (.stopLoop (min n loops))
  return 0

def continueLoop : Builtin := fun _ words => do
  let n ← levelsOf words
  let loops := (← get).loops
  if loops != 0 then throw (.nextRound (min n loops))
  return 0

def statusArgument (words : List String) : ShellM Nat := do
  match words with
  | [] => return (← get).status
  | word :: _ => numberArgument word

def returnStatus : Builtin := fun _ words => do throw (.leave (← statusArgument words))

def exitShell : Builtin := fun _ words => do throw (.exit ((← statusArgument words) % 256))

/-! Running. -/

def eval : Builtin := fun run words => do
  let words := if words.head? = some "--" then words.drop 1 else words
  setStatus 0
  taskStatus run (.script (String.intercalate " " words))

/-- The path of a script that is named by a word without a slash. -/
def findScript (word : String) : ShellM (Option String) := do
  if word.toList.contains '/' then return some word
  let directories := (← valueOf "PATH").splitOn ":" ++ if (← get).extended then ["."] else []
  let paths ← directories.filterM fun directory => do
    match ← nodeAt (directory ++ "/" ++ word) with
    | .ok (.file _) => return true
    | _ => return false
  return paths.head?.map fun directory =>
    if directory = "." then word else directory ++ "/" ++ word

/-- Runs a file as if its text stood here. -/
def dot : Builtin := fun run words => do
  match words with
  | [] => return 0
  | word :: arguments => match ← findScript word with
    | none => fatal (word ++ ": not found")
    | some path => match ← readFile path with
      | .error _ =>
        if (← get).extended then fatal (path ++ ": No such file or directory")
        else fatal ("cannot open " ++ path ++ ": No such file")
      | .ok text =>
        let own := (← get).extended && !arguments.isEmpty
        setStatus 0
        let result ← outcome (restoring
          (fun s t => { t with
            running := s.running, arguments := if own then s.arguments else t.arguments })
          do
            modify fun s => { s with
              running := some path, arguments := if own then arguments else s.arguments }
            run (.script text))
        match result with
        | .ok () => return (← get).status
        | .error (.leave n) => return n
        | .error escape => throw escape

/-- Replaces the shell by a program; without words only the redirections stay. -/
def exec : Builtin := fun run words => do
  let words := if words.head? = some "--" then words.drop 1 else words
  match words with
  | [] => return 0
  | word :: _ =>
    match ← runProgram run words with
    | .ok status =>
      modify fun s => { s with traps := [] }
      throw (.exit status)
    | .error fault =>
      if (← get).extended then complain (word ++ ": " ++ fault.text)
      else complain (word ++ ": " ++ if fault.status = 127 then "not found" else fault.text)
      throw (.exit fault.status)

/-! Signals. -/

/-- Names of the signals by their numbers; number zero is the end of the script. -/
def signals : List String :=
  ["EXIT", "HUP", "INT", "QUIT", "ILL", "TRAP", "ABRT", "BUS", "FPE", "KILL", "USR1", "SEGV",
    "USR2", "PIPE", "ALRM", "TERM", "16", "CHLD", "CONT", "STOP", "TSTP", "TTIN", "TTOU", "URG",
    "XCPU", "XFSZ", "VTALRM", "PROF", "WINCH", "IO", "PWR", "SYS"]

def signalNumber? (word : String) : Option Nat :=
  match natural? word with
  | some n => if n < signals.length then some n else none
  | none =>
    let name := Format.upperText word
    let name := if name.startsWith "SIG" then String.ofList (name.toList.drop 3) else name
    signals.idxOf? name

def trap : Builtin := fun _ words => do
  let words := if words.head? = some "--" then words.drop 1 else words
  let isReset : Bool := match words with
    | [_] => true
    | word :: _ => (natural? word).isSome
    | [] => false
  match words with
  | [] =>
    let traps := (← get).traps
    out (unlines (signals.filterMap fun name => (traps.lookup name).map fun text =>
      "trap -- " ++ singleQuotedText text ++ " " ++ name))
    return 0
  | first :: rest => do
    let names := if isReset then words else rest
    let action := if isReset || first = "-" then none else some first
    for word in names do
      match signalNumber? word with
      | none =>
        put 2 ("trap: " ++ word ++ ": bad trap\n")
        return 1
      | some n =>
        let name := signals.getD n ""
        modify fun s =>
          let others := s.traps.filter fun t => t.1 != name
          { s with traps := (action.map fun text => (name, text)).toList ++ others }
    return 0

def isIgnoredSignal (n : Nat) : Bool := [0, 17, 18, 23, 28].contains n

def sendSignal (run : Runner) (n : Nat) (target : String) : ShellM Nat := do
  if target = backgroundProcess then return 0
  match integer? target with
  | none => fatal ("Illegal number: " ++ target)
  | some _ =>
    if target != ownProcess then
      complain "No such process\n"
      return 1
    let name := signals.getD n ""
    match (← get).traps.lookup name with
    | some text =>
      if n != 0 && n != 9 then
        let status := (← get).status
        run (.script text)
        setStatus status
      else if n = 9 then throw (.killed n)
      return 0
    | none =>
      if !isIgnoredSignal n then throw (.killed n)
      return 0

def kill : Builtin := fun run words => do
  let send := fun (signal : String) (targets : List String) => do
    match signalNumber? signal with
    | none => fatal ("invalid signal number or name: " ++ signal)
    | some n =>
      if targets.isEmpty then
        fatal ("Usage: kill [-s sigspec | -signum | -sigspec] [pid | job]... or\n" ++
          "kill -l [exitstatus]")
      let results ← targets.mapM (sendSignal run n)
      return results.foldl max 0
  match words with
  | ["-l"] =>
    out (unlines ("0" :: signals.drop 1))
    return 0
  | "-l" :: word :: _ =>
    let n ← numberArgument word
    out (signals.getD (n % 128) "" ++ "\n")
    return 0
  | "-s" :: signal :: targets => send signal targets
  | word :: targets =>
    match word.toList with
    | '-' :: c :: cs =>
      if word = "--" then send "TERM" targets
      else
        let name := String.ofList (c :: cs)
        if (signalNumber? name).isNone then fatal ("Illegal option -" ++ String.singleton c)
        let targets := if targets.head? = some "--" then targets.drop 1 else targets
        send name targets
    | _ => send "TERM" words
  | [] => send "TERM" []

def wait : Builtin := fun _ words => do
  match words with
  | [] => return 0
  | word :: _ =>
    let last := (← get).lastJob.getD 127
    return if word = backgroundProcess then last else 127

/-! The place where the shell works. -/

def currentPath : ShellM String := return encode (Location.text (← get).directory)

def pwd : Builtin := fun _ _ => do
  out ((← currentPath) ++ "\n")
  return 0

def changeDirectory (path : String) : ShellM Unit := do
  let report := fun (text : String) => do
    if (← get).extended then fatal (path ++ ": " ++ text) else fatal ("can't cd to " ++ path)
  match ← nodeAt path, ← locate path with
  | .ok .directory, .ok l => do
    let old ← currentPath
    modify fun s => { s with directory := l }
    assign "OLDPWD" old
    assign "PWD" (← currentPath)
  | .ok (.file _), _ => report FileFault.notADirectory.text
  | .error fault, _ | _, .error fault => report fault.text

def cd : Builtin := fun _ words => do
  let (_, words) ← shellOptions "LPe" words
  match words with
  | [] =>
    let home ← valueOf "HOME"
    if home.isEmpty then return 0
    changeDirectory home
    return 0
  | "-" :: _ =>
    let old ← valueOf "OLDPWD"
    changeDirectory (if old.isEmpty then "." else old)
    out ((← currentPath) ++ "\n")
    return 0
  | path :: _ =>
    if !path.isEmpty then changeDirectory path
    return 0

def maskText (n : Nat) : String :=
  let digits := String.ofList (Nat.toDigits 8 n)
  repeated (4 - digits.length) '0' ++ digits

def maskLetters (n : Nat) : String :=
  let group := fun (name : String) (shift : Nat) =>
    let bits := n / shift % 8
    name ++ "=" ++ (if bits / 4 % 2 = 0 then "r" else "") ++
      (if bits / 2 % 2 = 0 then "w" else "") ++ (if bits % 2 = 0 then "x" else "")
  String.intercalate "," [group "u" 64, group "g" 8, group "o" 1]

def umask : Builtin := fun _ words => do
  let (given, words) ← shellOptions "S" words
  let mask := (← get).mask
  match words with
  | [] =>
    out ((if hasLetter given 'S' then maskLetters mask else maskText mask) ++ "\n")
    return 0
  | word :: _ =>
    let digits := word.toList
    if digits.all Char.isDigit then
      match octal? digits with
      | some n => modify fun s => { s with mask := n }
      | none => fatal ("Illegal number: " ++ word)
    else
      match (word.splitOn ",").foldlM (fun old clause =>
          changeMode? 0 false old clause.toList) (withoutBits 0o777 mask) with
      | some n => modify fun s => { s with mask := withoutBits 0o777 (n &&& 0o777) }
      | none => fatal ("Illegal mode: " ++ word)
    return 0

/-! Printing and asking. -/

def echo : Builtin := fun _ words => do
  out (if (← get).extended then Format.extendedEcho words else Format.echo words)
  return 0

def printf : Builtin := fun _ words => do
  let extended := (← get).extended
  let (given, words) ← shellOptions (if extended then "v:" else "") words
  match words with
  | [] => fatal "usage: printf format [arg ...]"
  | format :: arguments =>
    let w := Format.printf extended format arguments
    match given.find? fun g => g.1 = 'v' with
    | some (_, name) => assign name w.text
    | none => out w.text
    w.warnings.forM fun (warning : String) =>
      if extended then
        match warning.splitOn ": " with
        | [word, _] => complain (word ++ ": invalid number")
        | _ => complain warning
      else complain warning
    return w.status

def test : Builtin := fun _ words => do
  let (words, closed) : List String × Bool :=
    if (← get).running = some "[" then (words.dropLast, words.getLast? = some "]")
    else (words, true)
  if !closed then fatal "missing ]"
  match Condition.holds (← conditionSetting) words with
  | .ok answer => return if answer then 0 else 1
  | .error fault =>
    complain fault.message
    return 2

end SchemaDecl.Shell
