import SchemaDecl.Shell.Condition
import SchemaDecl.Shell.Format
import SchemaDecl.Shell.Programs.Options

/-! Programs that do little: they succeed, fail, print their arguments, wait, or say
where and as whom they run. Most answer a question for their version if that is
their only argument. -/

namespace SchemaDecl.Shell

open Files

def asksVersion (arguments : List String) : Bool :=
  arguments = ["--version"] || arguments = ["--help"]

def answerVersion (name : String) : ShellM Nat := do
  out (name ++ "\n")
  return 0

def trueProgram : Program := fun name arguments => do
  if asksVersion arguments then answerVersion name else return 0

def falseProgram : Program := fun name arguments => do
  if asksVersion arguments then discard (answerVersion name)
  return 1

def echoProgram : Program := fun name arguments => do
  if asksVersion arguments then answerVersion name
  else
    out (Format.extendedEcho arguments)
    return 0

def printfProgram : Program := fun name arguments => do
  let arguments := if arguments.head? = some "--" then arguments.drop 1 else arguments
  match arguments with
  | [] => refuse name "missing operand" 1
  | format :: rest =>
    if asksVersion arguments then answerVersion name
    else
      let w := Format.printf true format rest
      out w.text
      w.warnings.forM fun (warning : String) =>
        match warning.splitOn ": " with
        | [word, "expected numeric value"] =>
          tell name (curlyName word ++ ": expected a numeric value")
        | [word, "not completely converted"] =>
          tell name (curlyName word ++ ": value not completely converted")
        | _ => tell name warning
      return if w.status = 0 then 0 else 1

/-! Questions about files. -/

def isNullDevice (path : String) : Bool := path = "/dev/null"

/-- The answer to a question about a path. -/
def fileAnswer (s : Shell) (question path : String) : Bool :=
  let l := Location.within s.directory (decode path)
  let node := if path.isEmpty then none else (s.machine.tree.find l).toOption
  let isThere := node.isSome
  match question with
  | "-e" | "-r" | "-w" | "-O" | "-G" => isThere
  | "-f" => node.any (· != .directory) && !isNullDevice path
  | "-d" => node = some .directory
  | "-c" => isNullDevice path
  | "-x" => isThere && match s.machine.tree.resolve l with
    | .ok place => s.machine.isExecutable place
    | .error _ => false
  | "-s" => match node with
    | some (.file content) => content.size != 0
    | some .directory => true
    | none => false
  | _ => false

def fileComparison (s : Shell) (comparison a b : String) : Bool :=
  let place := fun path =>
    (s.machine.tree.resolve (Location.within s.directory (decode path))).toOption
  comparison = "-ef" && (place a).isSome && place a = place b

def conditionSetting : ShellM Condition.Setting := do
  let s ← get
  return ⟨s.extended, fileAnswer s, fileComparison s⟩

def testProgram : Program := fun name arguments => do
  let (words, closed) : List String × Bool := if lastSegment name = "[" then
      (arguments.dropLast, arguments.getLast? = some "]")
    else (arguments, true)
  if !closed then
    tell name ("missing " ++ curlyName "]")
    return 2
  match Condition.holds (← conditionSetting) words with
  | .ok answer => return if answer then 0 else 1
  | .error fault =>
    match fault with
    | .unexpected _ => tell name (curlyName (words.getD 1 "") ++ ": binary operator expected")
    | .argumentMissing o => tell name ("missing argument after " ++ curlyName o)
    | .parenthesisMissing => tell name (curlyName ")" ++ " expected")
    | .illegalNumber w => tell name ("invalid integer " ++ curlyName w)
    return 2
where
  lastSegment (name : String) : String := (name.splitOn "/").getLastD ""

/-! Waiting. -/

/-- A length of time: a decimal number and perhaps a unit. -/
def isInterval (s : String) : Bool :=
  let cs := s.toList
  let body := match cs.getLast? with
    | some c => if ['s', 'm', 'h', 'd'].contains c then cs.dropLast else cs
    | none => cs
  body.any Char.isDigit && body.all (fun c => c.isDigit || c = '.') && body.count '.' ≤ 1

def sleep : Program := withOptions ⟨"", "", []⟩ 1 fun name o => do
  if o.words.isEmpty then return ← refuse name "missing operand" 1
  match o.words.find? fun w => !isInterval w with
  | some w => refuse name ("invalid time interval " ++ curlyName w) 1
  | none => return 0

/-- More lines than anybody asks for. -/
def yes : Program := fun name arguments => do
  if asksVersion arguments then answerVersion name
  else
    let words := if arguments.isEmpty then ["y"] else arguments
    out (unlines (List.replicate 10000 (String.intercalate " " words)))
    return 0

/-! The machine and its user. -/

/-- A program without operands that prints one line. -/
def fixedLine (line : String) : Program := withOptions ⟨"", "", []⟩ 1 fun name o => do
  match o.words with
  | [] =>
    out (line ++ "\n")
    return 0
  | w :: _ => refuse name ("extra operand " ++ curlyName w) 1

def whoami : Program := fixedLine "root"

def arch : Program := fixedLine "x86_64"

def uname : Program :=
  withOptions ⟨"asnrvmpio", "", [("all", 'a'), ("kernel-name", 's'), ("machine", 'm')]⟩ 1
    fun name o => do
  match o.words with
  | w :: _ => refuse name ("extra operand " ++ curlyName w) 1
  | [] =>
    let parts := (if o.given.isEmpty || o.has 's' then ["Linux"] else []) ++
      (if o.has 'm' then ["x86_64"] else []) ++ (if o.has 'o' then ["GNU/Linux"] else [])
    out (String.intercalate " " parts ++ "\n")
    return 0

def idProgram : Program :=
  withOptions ⟨"ugnGr", "", [("user", 'u'), ("group", 'g'), ("name", 'n'), ("groups", 'G')]⟩ 1
    fun _ o => do
  let one := o.has 'u' || o.has 'g' || o.has 'G'
  out (if !one then "uid=0(root) gid=0(root) groups=0(root)\n"
    else if o.has 'n' then "root\n" else "0\n")
  return 0

def tty : Program := withOptions ⟨"s", "", [("silent", 's'), ("quiet", 's')]⟩ 2 fun _ o => do
  if !o.has 's' then out "not a tty\n"
  return 1

def pwdProgram : Program := withOptions ⟨"LP", "", []⟩ 1 fun _ _ => do
  out (encode (Location.text (← get).directory) ++ "\n")
  return 0

/-- The variables that programs get to see, as they are written down. -/
def environment : ShellM (List (String × String)) := do
  return (← get).bindings.filterMap fun (name, v) =>
    if v.exported then v.value.map fun x => (name, x) else none

def printEnvironment : ShellM Unit := do
  out (unlines ((← environment).map fun (name, value) => name ++ "=" ++ value))

def printenv : Program := withOptions ⟨"0", "", []⟩ 2 fun _ o => do
  if o.words.isEmpty then
    printEnvironment
    return 0
  let all ← environment
  let found := o.words.map fun w => all.lookup w
  out (unlines (found.filterMap id))
  return statusOf (found.any Option.isNone)

end SchemaDecl.Shell
