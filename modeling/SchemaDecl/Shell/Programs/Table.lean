import SchemaDecl.Shell.Programs.Awk
import SchemaDecl.Shell.Programs.Batches
import SchemaDecl.Shell.Programs.CharacterSets
import SchemaDecl.Shell.Programs.Counting
import SchemaDecl.Shell.Programs.Dump
import SchemaDecl.Shell.Programs.FileTools
import SchemaDecl.Shell.Programs.Grep
import SchemaDecl.Shell.Programs.Invoking
import SchemaDecl.Shell.Programs.Numbers
import SchemaDecl.Shell.Programs.Parts
import SchemaDecl.Shell.Programs.Sed
import SchemaDecl.Shell.Programs.Sorting

/-! The programs of the machine and how they are found and started. A file with
permission to be executed is started through the interpreter that its first line
names; the interpreter gets the words of that line, the path of the file and the
arguments. -/

namespace SchemaDecl.Shell

open Files

/-- Programs that run others. -/
def invokingPrograms : List (String × (Runner → Program)) :=
  [("sh", shellProgram false), ("dash", shellProgram false), ("bash", shellProgram true),
    ("awk", Awk.awk), ("mawk", Awk.awk), ("nawk", Awk.awk),
    ("env", env), ("xargs", xargs), ("timeout", timeout), ("nohup", plainly 0),
    ("nice", plainly 0), ("setsid", plainly 0), ("stdbuf", plainly 0)]

def otherPrograms : List (String × Program) :=
  [("[", testProgram), ("arch", arch), ("base64", base64), ("basename", basename), ("cat", cat),
    ("chmod", chmod), ("cmp", cmp), ("comm", comm), ("cp", cp), ("cut", cut), ("dirname", dirname),
    ("echo", echoProgram), ("egrep", Grep.grepWith ['E']), ("expand", expand), ("expr", expr),
    ("false", falseProgram), ("fgrep", Grep.grepWith ['F']), ("fold", fold),
    ("grep", Grep.grepWith []), ("head", head), ("id", idProgram), ("join", join), ("ls", ls),
    ("mkdir", mkdir), ("mktemp", mktemp), ("mv", mv), ("nl", nl), ("od", od), ("paste", paste),
    ("printenv", printenv), ("printf", printfProgram), ("pwd", pwdProgram),
    ("readlink", readlink), ("realpath", realpath), ("rev", rev), ("rm", rm), ("rmdir", rmdir),
    ("sed", Sed.sed), ("seq", seq), ("sleep", sleep), ("sort", sort), ("sync", trueProgram),
    ("tac", tac), ("tail", tail), ("tee", tee), ("test", testProgram), ("touch", touch),
    ("tr", tr), ("true", trueProgram), ("tty", tty), ("uname", uname), ("unexpand", unexpand),
    ("uniq", uniq), ("wc", wc), ("whoami", whoami), ("yes", yes)]

def programs : List (String × (Runner → Program)) :=
  invokingPrograms ++ otherPrograms.map fun (name, p) => (name, fun _ => p)

/-- The interpreter and its own argument that the first line of a file names. -/
def interpreter? (content : String) : Option (String × Option String) :=
  match content.toList with
  | '#' :: '!' :: rest =>
    let isBlank := fun (c : Char) => c = ' ' || c = '\t'
    let line := (rest.takeWhile (· != '\n')).dropWhile isBlank
    let line := (line.reverse.dropWhile isBlank).reverse
    let path := line.takeWhile fun c => !isBlank c && c != '\x00'
    let argument := (line.drop path.length).dropWhile isBlank
    if path.isEmpty then none
    else some (String.ofList path,
      if argument.isEmpty then none else some (String.ofList argument))
  | _ => none

/-- Starts the file at a path, which is told that it was called by the given name. -/
def launch (run : Runner) : Nat → String → String → List String →
    ShellM (Except LaunchFault Nat)
  | 0, _, _, _ => return .error .nested
  | fuel + 1, path, name, arguments => do
    match ← locate path with
    | .error .missing => return .error .missing
    | .error .notADirectory => return .error .notADirectory
    | .error _ => return .error .notAProgram
    | .ok l => do
      let machine := (← get).machine
      match machine.tree.node? l with
      | some .directory => return .error .notPermitted
      | some (.file content) =>
        if !machine.isExecutable l then return .error .notPermitted
        match (Tree.programName? content).bind fun n => programs.lookup n with
        | some program => return .ok (← program run name arguments)
        | none => match interpreter? (ofBytes content) with
          | none => return .error .notAProgram
          | some (interpreter, argument) =>
            launch run fuel interpreter interpreter (argument.toList ++ path :: arguments)
      | none => return .error .missing

/-- How many interpreters can be interpreted by others. -/
def launchDepth : Nat := 6

/-- The path of the program that a word names. -/
def findProgram (word : String) : ShellM (Option String) := do
  if word.toList.contains '/' then return some word
  let s ← get
  let paths := (((s.bindings.lookup "PATH").bind Variable.value).getD "/bin:/usr/bin").splitOn ":"
  let found := paths.find? fun directory =>
    let path := (if directory.isEmpty then "." else directory) ++ "/" ++ word
    match s.machine.tree.resolve (Location.within s.directory (decode path)) with
    | .error _ => false
    | .ok l => match s.machine.tree.node? l with
      | some (.file _) => s.machine.isExecutable l
      | some .directory | none => false
  return found.map fun directory =>
    if directory.isEmpty then word else directory ++ "/" ++ word

/-- Runs a program by its words; a file without an interpreter is a script of the plain shell. -/
def runProgram (run : Runner) (words : List String) : ShellM (Except LaunchFault Nat) := do
  match words with
  | [] => return .ok 0
  | word :: arguments => match ← findProgram word with
    | none => return .error .missing
    | some path => match ← launch run launchDepth path word arguments with
      | .error .notAProgram => return .ok (← shellProgram false run "sh" (path :: arguments))
      | result => return result

end SchemaDecl.Shell
