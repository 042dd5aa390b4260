import SchemaDecl.Shell.Builtins.Variables
import SchemaDecl.Shell.Programs.Plain

/-! Programs that run other programs: in another environment, on words from their
input, for a limited time, or as a script for a shell of its own. -/

namespace SchemaDecl.Shell

open Files

/-- Ends an environment's options at the first word that is a command. -/
def splitCommand (valued : List String) : List String → List String × List String
  | [] => ([], [])
  | "--" :: rest => ([], rest)
  | word :: rest =>
    match word.toList with
    | '-' :: _ :: _ =>
      if valued.contains word then
        match rest with
        | value :: rest =>
          let (options, command) := splitCommand valued rest
          (word :: value :: options, command)
        | [] => ([word], [])
      else
        let (options, command) := splitCommand valued rest
        (word :: options, command)
    | _ => ([], word :: rest)

def invoke (run : Runner) (name lead : String) (words : List String) : ShellM Nat :=
  taskStatus run (.program
    (fun fault =>
      let word := words.headD ""
      name ++ ": " ++ lead ++ curlyName word ++ ": " ++ fault.text ++ "\n" ++
        if fault = .missing && lead.isEmpty && word.toList.contains ' ' then
          name ++ ": use -[v]S to pass options in shebang lines\n"
        else "")
    words)

/-- Runs a program with other exported variables; afterwards all are as before. -/
def env (run : Runner) : Program := fun name arguments => do
  if asksVersion arguments then return ← answerVersion name
  let arguments := match arguments with
    | "-S" :: text :: rest => ((text.splitOn " ").filter (· != "")) ++ rest
    | words => words
  let arguments := match arguments with
    | first :: rest =>
      match first.toList with
      | '-' :: 'S' :: text => (((String.ofList text).splitOn " ").filter (· != "")) ++ rest
      | _ => arguments
    | [] => []
  let arguments := if arguments.head? = some "-" then "-i" :: arguments.drop 1 else arguments
  let (options, command) := splitCommand ["-u", "-C"] arguments
  match readOptions ⟨"i0v", "uC", [("ignore-environment", 'i'), ("unset", 'u')]⟩ options with
  | .error fault => refuse name (optionMessage fault) 125
  | .ok o =>
    restoring (fun s t => { t with bindings := s.bindings }) do
      if o.has 'i' then modify fun s => { s with bindings := [] }
      (o.values 'u').forM fun v => putVariable v none
      let isAssignment := fun (w : String) => (nameAndValue w).2.isSome
      (command.takeWhile isAssignment).forM fun w => do
        let (key, value) := nameAndValue w
        putVariable key (some ⟨value, true, false⟩)
      match command.dropWhile isAssignment with
      | [] =>
        printEnvironment
        return 0
      | words => invoke run name "" words

/-- Runs a program as it is, perhaps with a word in front that does not matter here. -/
def plainly (operands : Nat) : Runner → Program := fun run name arguments => do
  if asksVersion arguments then return ← answerVersion name
  let (_, command) := splitCommand ["-n", "-k", "-s"] arguments
  match command.drop operands with
  | [] => refuse name "missing operand" 125
  | words => invoke run name "failed to run command " words

def timeout (run : Runner) : Program := fun name arguments => do
  if asksVersion arguments then return ← answerVersion name
  let (_, command) := splitCommand ["-k", "-s"] arguments
  match command with
  | [] | [_] =>
    adviseHelp name
    return 125
  | time :: words =>
    if !isInterval time then refuse name ("invalid time interval " ++ curlyName time) 125
    else invoke run name "failed to run command " words

/-! Shells. -/

structure ShellCall where
  flags : List Char
  /-- Whether the script is the first word itself. -/
  fromWord : Bool
  fromInput : Bool
  words : List String

inductive ShellCallFault
  | illegal (option : String)
  | scriptMissing

def shellCallFault : ShellCallFault → String
  | .illegal option => "Illegal option " ++ option
  | .scriptMissing => "-c requires an argument"

def readShellCall (extended : Bool) : List String → Except ShellCallFault ShellCall
  | [] => .ok ⟨[], false, false, []⟩
  | word :: rest =>
    match word.toList with
    | ['-'] | ['-', '-'] => .ok ⟨[], false, false, rest⟩
    | sign :: c :: cs => do
      if sign != '-' && sign != '+' then return ⟨[], false, false, word :: rest⟩
      if extended && c = '-' then return ← readShellCall extended rest
      let letters := (c :: cs).filter fun c => c != 'c' && c != 's' && c != 'o' && c != 'l'
      match letters.find? fun c => c.toNat < 32 || !(shellFlags.any fun f => f.1 = c) with
      | some c => throw (.illegal (String.ofList [sign, c]))
      | none => pure ()
      let named := (c :: cs).contains 'o'
      let flags ← match named, rest with
        | true, name :: _ => match shellFlags.find? fun f => f.2 = name with
          | some (c, _) => pure (c :: letters)
          | none => if extended then pure letters else throw (.illegal ("-o " ++ name))
        | _, _ => pure letters
      let call ← readShellCall extended (if named then rest.drop 1 else rest)
      return { call with
        flags := if sign = '-' then flags ++ call.flags else call.flags
        fromWord := call.fromWord || (c :: cs).contains 'c'
        fromInput := call.fromInput || (c :: cs).contains 's' }
    | _ => .ok ⟨[], false, false, word :: rest⟩
termination_by words => words.length
decreasing_by
  · simp
  · simp only [List.length_cons]
    split
    · rw [List.length_drop]
      omega
    · omega

/-- Runs a script in a shell of its own, which knows what was exported. -/
def runShell (run : Runner) (extended : Bool) (flags : List Char) (name : String)
    (arguments : List String) (script : String) : ShellM Nat :=
  restoring (fun s t => { s with machine := t.machine }) do
    modify fun s => { s with
      name, arguments, extended
      flags := orderedFlags flags
      bindings := s.bindings.filter (fun v => v.2.exported) |>.map fun v =>
        (v.1, { v.2 with constant := false })
      saved := [], functions := [], documents := [], status := 0, substituted := 0
      lastJob := none, tested := false, line := 1, running := none, traps := [], loops := 0
      cluster := 0 }
    putVariable "OPTIND" (some ⟨some "1", false, false⟩)
    putVariable "PS4" (some ⟨some "+ ", false, false⟩)
    putVariable "IFS" (some ⟨some " \t\n", false, false⟩)
    putVariable "PWD" (some ⟨some (encode (Location.text (← get).directory)), true, false⟩)
    wholeScript run (run (.script script))

def shellProgram (extended : Bool) (run : Runner) : Program := fun name arguments => do
  let report := fun (message : String) =>
    put 2 (name ++ ": " ++ (if extended then "" else "0: ") ++ message ++ "\n")
  if extended && asksVersion arguments then return ← answerVersion name
  match readShellCall extended arguments with
  | .error fault =>
    report (shellCallFault fault)
    return 2
  | .ok call =>
    let run := runShell run extended call.flags
    if call.fromWord then
      match call.words with
      | [] =>
        report (shellCallFault .scriptMissing)
        return 2
      | script :: words => run (words.headD name) (words.drop 1) script
    else match call.words with
      | [] => run name [] (← readAll 0)
      | path :: words =>
        if call.fromInput then run name call.words (← readAll 0)
        else match ← readFile path with
          | .ok script => run path words script
          | .error .isADirectory => return 0
          | .error fault =>
            if extended then report (path ++ ": " ++ fault.text)
            else report ("cannot open " ++ path ++ ": No such file")
            return if extended then 127 else 2

end SchemaDecl.Shell
