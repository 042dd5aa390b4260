import SchemaDecl.Shell.Builtins.Control

/-! The commands of the shell by their names. Special commands are found before
functions, assignments before them stay, and a fault in them ends a script of the
plain shell; the others are found after functions. -/

namespace SchemaDecl.Shell

def nothing : Builtin := fun _ _ => return 0

def failure : Builtin := fun _ _ => return 1

def times : Builtin := fun _ _ => do
  out "0m0.000000s 0m0.000000s\n0m0.000000s 0m0.000000s\n"
  return 0

def ulimit : Builtin := fun _ words => do
  if words.length < 2 then out "unlimited\n"
  return 0

def calculate : Builtin := fun _ words => do
  let results ← words.mapM applyArithmetic
  return if results.getLast?.any (· != 0) then 0 else 1

/-- Runs words without regard to functions. -/
def builtinWords : Builtin := fun run words => taskStatus run (.words false words)

def specialBuiltins : List (String × Builtin) :=
  [(":", nothing), (".", dot), ("break", breakLoop), ("continue", continueLoop), ("eval", eval),
    ("exec", exec), ("exit", exitShell), ("export", exportVariables), ("local", localVariables),
    ("readonly", readonly), ("return", returnStatus), ("set", setShell), ("shift", shift),
    ("times", times), ("trap", trap), ("unset", unset)]

def ordinaryBuiltins : List (String × Builtin) :=
  [("[", test), ("alias", nothing), ("bg", nothing), ("cd", cd), ("echo", echo),
    ("false", failure), ("fg", nothing), ("getopts", getopts), ("jobs", nothing), ("kill", kill),
    ("printf", printf), ("pwd", pwd), ("read", read), ("test", test), ("true", nothing),
    ("ulimit", ulimit), ("umask", umask), ("unalias", nothing), ("wait", wait)]

def extendedBuiltins : List (String × Builtin) :=
  [("source", dot), ("declare", declareVariables), ("typeset", declareVariables),
    ("let", calculate), ("shopt", nothing), ("builtin", builtinWords), ("enable", nothing)]

/-- Names of the commands that are defined in terms of the others. -/
def describingNames : List String := ["command", "hash", "type"]

/-- What a word means as a command. -/
inductive Meaning
  | keyword
  | function
  | special
  | builtin
  | program (path : String)

def meaningOf (word : String) : ShellM (Option Meaning) := do
  let s ← get
  let own := ordinaryBuiltins ++ if s.extended then extendedBuiltins else []
  if keywords.contains word then return some .keyword
  if (specialBuiltins.lookup word).isSome && !s.extended then return some .special
  if (s.functions.lookup word).isSome then return some .function
  if (own.lookup word).isSome || describingNames.contains word ||
      (specialBuiltins.lookup word).isSome then
    return some .builtin
  match ← findProgram word with
  | none => return none
  | some path => match ← locate path with
    | .error _ => return none
    | .ok l => return if ((← tree).node? l).isSome then some (.program path) else none

def Meaning.text : Meaning → String
  | .keyword => " is a shell keyword"
  | .function => " is a shell function"
  | .special => " is a special shell builtin"
  | .builtin => " is a shell builtin"
  | .program path => " is " ++ path

def Meaning.kind : Meaning → String
  | .keyword => "keyword"
  | .function => "function"
  | .special | .builtin => "builtin"
  | .program _ => "file"

def describe (word : String) : ShellM Nat := do
  match ← meaningOf word with
  | some meaning =>
    out (word ++ meaning.text ++ "\n")
    return 0
  | none =>
    if (← get).extended then complain (word ++ ": not found") else out (word ++ ": not found\n")
    return if (← get).extended then 1 else 127

def typeOf : Builtin := fun _ words => do
  match words with
  | "-t" :: words =>
    if !(← get).extended then return ← describe "-t"
    let results ← words.mapM fun word => do
      match ← meaningOf word with
      | some meaning =>
        out (meaning.kind ++ "\n")
        return 0
      | none => return 1
    return results.foldl max 0
  | words => return (← words.mapM describe).foldl max 0

/-- The words that are a command of their own after words that only pass functions over. -/
def withoutPrefix : List String → List String
  | "command" :: "-v" :: rest => "command" :: "-v" :: rest
  | "command" :: "-V" :: rest => "command" :: "-V" :: rest
  | "command" :: "-p" :: rest | "command" :: "--" :: rest => withoutPrefix ("command" :: rest)
  | "command" :: word :: rest => withoutPrefix (word :: rest)
  | words => words

def describingCommand : Builtin := fun _ words => do
  match words with
  | "-V" :: word :: _ => describe word
  | "-v" :: word :: _ => match ← meaningOf word with
    | some (.program path) =>
      out (path ++ "\n")
      return 0
    | some _ =>
      out (word ++ "\n")
      return 0
    | none => return if (← get).extended then 1 else 127
  | _ => return 0

def hash : Builtin := fun _ words => do
  let results ← words.mapM fun word => do
    if word.toList.head? = some '-' then return 0
    match ← meaningOf word with
    | some _ => return 0
    | none =>
      complain (word ++ ": not found")
      return 1
  return results.foldl max 0

def findSpecial (word : String) : ShellM (Option Builtin) := do
  return if (← get).extended then none else specialBuiltins.lookup word

def findOrdinary (word : String) : ShellM (Option Builtin) := do
  let all := ordinaryBuiltins ++
    [("command", describingCommand), ("hash", hash), ("type", typeOf)] ++
    if (← get).extended then specialBuiltins ++ extendedBuiltins else []
  return all.lookup word

end SchemaDecl.Shell
