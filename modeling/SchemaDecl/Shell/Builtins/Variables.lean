import SchemaDecl.Shell.Task

/-! Commands of the shell that deal with its variables, its arguments and its
options. -/

namespace SchemaDecl.Shell

/-- Option letters at the beginning of the words; a letter with a colon takes a value. -/
def shellOptions (allowed : String) : List String → ShellM (List (Char × String) × List String)
  | [] => return ([], [])
  | "--" :: rest => return ([], rest)
  | word :: rest =>
    match word.toList with
    | '-' :: c :: cs => do
      let valued := ((allowed.splitOn ":").dropLast.filterMap fun part => part.toList.getLast?)
      let mut given : List (Char × String) := []
      let mut waiting : Option Char := none
      for (c, i) in (c :: cs).zipIdx do
        if c = ':' || !allowed.toList.contains c then
          fatal ("Illegal option -" ++ String.singleton c)
        if valued.contains c then
          let value := String.ofList (cs.drop i)
          if value.isEmpty then waiting := some c else given := given ++ [(c, value)]
          break
        given := given ++ [(c, "")]
      match waiting, rest with
      | none, rest =>
        let (more, words) ← shellOptions allowed rest
        return (given ++ more, words)
      | some c, value :: rest =>
        let (more, words) ← shellOptions allowed rest
        return (given ++ (c, value) :: more, words)
      | some c, [] => fatal ("No arg for -" ++ String.singleton c ++ " option")
    | _ => return ([], word :: rest)

def hasLetter (given : List (Char × String)) (c : Char) : Bool := given.any fun g => g.1 = c

/-- A number that is asked for as an argument. -/
def numberArgument (word : String) : ShellM Nat := do
  match natural? word with
  | some n => return n
  | none => fatal ("Illegal number: " ++ word)

/-- A name with the value behind its equals sign, if it has one. -/
def nameAndValue (word : String) : String × Option String :=
  let name := word.toList.takeWhile (· != '=')
  (String.ofList name,
    if name.length < word.length then some (String.ofList (word.toList.drop (name.length + 1)))
    else none)

def checkName (name : String) : ShellM Unit := do
  if !isName name then fatal (name ++ ": bad variable name")

def singleQuotedText (s : String) : String :=
  "'" ++ String.intercalate "'\"'\"'" (s.splitOn "'") ++ "'"

/-! Marks of variables. -/

def listMarked (verb : String) (isMarked : Variable → Bool) : ShellM Unit := do
  let marked := (← get).bindings.filter fun v => isMarked v.2
  let rows := marked.map fun (name, v) =>
    verb ++ " " ++ name ++ ((v.value.map fun x => "=" ++ singleQuotedText x).getD "")
  out (unlines (sortedTexts rows))

def markAll (mark : Variable → Variable) (words : List String) : ShellM Nat := do
  words.forM fun word => do
    let (name, value) := nameAndValue word
    checkName name
    match value with
    | some value => assign name value
    | none => pure ()
    let v ← variableOf name
    putVariable name (some (mark (v.getD ⟨none, false, false⟩)))
  return 0

def exportVariables : Builtin := fun _ words => do
  let (given, names) ← shellOptions "pn" words
  if names.isEmpty || hasLetter given 'p' then
    listMarked "export" Variable.exported
    return 0
  markAll (fun v => { v with exported := !hasLetter given 'n' }) names

def readonly : Builtin := fun _ words => do
  let (given, names) ← shellOptions "p" words
  if names.isEmpty || hasLetter given 'p' then
    listMarked "readonly" Variable.constant
    return 0
  markAll (fun v => { v with constant := true }) names

def unset : Builtin := fun _ words => do
  let (given, names) ← shellOptions "vf" words
  names.forM fun name => do
    if hasLetter given 'f' then
      modify fun s => { s with functions := s.functions.filter fun f => f.1 != name }
    else
      checkName name
      match ← variableOf name with
      | some v =>
        if v.constant then fatal (name ++ ": is read only")
        putVariable name none
      | none =>
        if (← get).extended then
          modify fun s => { s with functions := s.functions.filter fun f => f.1 != name }
  return 0

/-- Remembers what a variable was, so that it is so again after the function. -/
def saveVariable (name : String) : ShellM Unit := do
  let before ← variableOf name
  modify fun s => { s with
    saved := match s.saved with
      | frame :: frames =>
        (if frame.any fun e => e.1 = name then frame else (name, before) :: frame) :: frames
      | [] => [] }

def restoreVariables (frame : List (String × Option Variable)) : ShellM Unit :=
  frame.forM fun (name, before) => putVariable name before

def localVariables : Builtin := fun _ words => do
  if (← get).saved.isEmpty then fatal "not in a function"
  words.forM fun word => do
    if word = "-" then return ()
    let (name, value) := nameAndValue word
    checkName name
    saveVariable name
    match value with
    | some value => assign name value
    | none =>
      if (← get).extended then putVariable name (some ⟨none, false, false⟩)
  return 0

/-- Variables of the larger language, whose kind makes no difference here. -/
def declareVariables : Builtin := fun run words => do
  let letters := words.filter fun w => w.toList.head? = some '-'
  let names := words.filter fun w => w.toList.head? != some '-'
  let asks := fun (c : Char) => letters.any fun w => w.toList.contains c
  if !(← get).saved.isEmpty && !asks 'g' then discard (localVariables run names)
  markAll (fun v => { v with
    exported := v.exported || asks 'x', constant := v.constant || asks 'r' }) names

/-! Arguments and options of the shell. -/

def shift : Builtin := fun _ words => do
  let n ← match words with
    | [] => pure 1
    | word :: _ => numberArgument word
  let arguments := (← get).arguments
  if arguments.length < n then
    if (← get).extended then return 1
    fatal "can't shift that many"
  modify fun s => { s with arguments := arguments.drop n, cluster := 0 }
  return 0

/-- Options of the shell in the order in which they are listed. -/
def shellFlags : List (Char × String) :=
  [('e', "errexit"), ('f', "noglob"), ('I', "ignoreeof"), ('i', "interactive"), ('m', "monitor"),
    ('n', "noexec"), ('s', "stdin"), ('x', "xtrace"), ('v', "verbose"), ('V', "vi"), ('E', "emacs"),
    ('C', "noclobber"), ('a', "allexport"), ('b', "notify"), ('u', "nounset"), ('p', "privileged"),
    ('\x01', "nolog"), ('\x02', "debug"), ('\x03', "pipefail")]

def orderedFlags (flags : List Char) : List Char :=
  (shellFlags.map Prod.fst).reverse.filter flags.contains

def setFlag (flag : Char) (on : Bool) : ShellM Unit :=
  modify fun s =>
    let others := s.flags.filter (· != flag)
    { s with flags := if on then orderedFlags (flag :: others) else others }

/-- Status of a pipeline from any of its stages, an option of the larger language. -/
def anyStage : Char := '\x03'

def flagTable : ShellM (List (Char × String)) :=
  return if (← get).extended then shellFlags else shellFlags.filter fun f => f.1 != anyStage

def listFlags (asCommands : Bool) : ShellM Unit := do
  let flags := (← get).flags
  let table ← flagTable
  if asCommands then
    out (unlines (table.map fun (c, name) =>
      "set " ++ (if flags.contains c then "-" else "+") ++ "o " ++ name))
  else
    out (unlines ("Current option settings" :: table.map fun (c, name) =>
      pad 16 true name ++ (if flags.contains c then "on" else "off")))

def setNamedFlag (on : Bool) (name : String) : ShellM Unit := do
  match (← flagTable).find? fun f => f.2 = name with
  | some (c, _) => setFlag c on
  | none => fatal ("Illegal option " ++ (if on then "-" else "+") ++ "o " ++ name)

/-- Takes options off the words; what is left become the arguments, if anything says so. -/
def setOptions : List String → ShellM (Option (List String))
  | [] => return none
  | "--" :: rest => return some rest
  | word :: rest =>
    match word.toList with
    | ['-'] => do
      setFlag 'x' false
      setFlag 'v' false
      return if rest.isEmpty then none else some rest
    | sign :: c :: cs =>
      if sign = '-' || sign = '+' then do
        let on := sign = '-'
        (c :: cs).forM fun c => do
          if c = 'o' then return ()
          if c.toNat < 32 || !(shellFlags.any fun f => f.1 = c) then
            fatal ("Illegal option " ++ String.ofList [sign, c])
          setFlag c on
        if (c :: cs).contains 'o' then
          match rest with
          | [] => do
            listFlags (!on)
            return none
          | name :: rest => do
            setNamedFlag on name
            setOptions rest
        else setOptions rest
      else return some (word :: rest)
    | _ => return some (word :: rest)

def setShell : Builtin := fun _ words => do
  if words.isEmpty then
    let rows := (← get).bindings.filterMap fun (name, v) =>
      v.value.map fun x => name ++ "=" ++ singleQuotedText x
    out (unlines (sortedTexts rows))
    return 0
  match ← setOptions words with
  | some arguments => modify fun s => { s with arguments, cluster := 0 }
  | none => pure ()
  return 0

/-- Takes one option off the arguments at a time. -/
def getopts : Builtin := fun _ words => do
  match words with
  | spec :: name :: given => do
    let shell ← get
    let arguments := if given.isEmpty then shell.arguments else given
    let silent := spec.toList.head? = some ':'
    let index := (natural? (← valueOf "OPTIND")).getD 1
    let cluster := shell.cluster
    let word := arguments.getD (index - 1) ""
    let cs := word.toList
    let starts := cluster = 0
    if starts && (cs.length < 2 || cs.head? != some '-' || word = "--") then
      let index := if word = "--" then index + 1 else index
      assign "OPTIND" (toString index)
      assign name "?"
      return 1
    let position := if starts then 1 else cluster
    let letter := cs.getD position '?'
    let isLast := cs.length ≤ position + 1
    let goOn (index cluster : Nat) : ShellM Unit := do
      assign "OPTIND" (toString index)
      modify fun s => { s with cluster }
    let after : ShellM Unit :=
      if isLast then goOn (index + 1) 0 else goOn index (position + 1)
    match spec.toList.idxOf? letter with
    | none => do
      after
      assign name "?"
      if silent then assign "OPTARG" (String.singleton letter)
      else
        putVariable "OPTARG" none
        put 2 ("Illegal option -" ++ String.singleton letter ++ "\n")
      return 0
    | some i =>
      if spec.toList[i + 1]? = some ':' then
        let attached := String.ofList (cs.drop (position + 1))
        if !attached.isEmpty then
          goOn (index + 1) 0
          assign name (String.singleton letter)
          assign "OPTARG" attached
          return 0
        match arguments[index]? with
        | some value => do
          goOn (index + 2) 0
          assign name (String.singleton letter)
          assign "OPTARG" value
          return 0
        | none => do
          goOn (index + 1) 0
          if silent then
            assign name ":"
            assign "OPTARG" (String.singleton letter)
          else
            assign name "?"
            putVariable "OPTARG" none
            put 2 ("No arg for -" ++ String.singleton letter ++ " option\n")
          return 0
      else do
        after
        assign name (String.singleton letter)
        assign "OPTARG" ""
        return 0
  | _ => fatal "Usage: getopts optstring var [arg...]"

/-! Reading a line. -/

/-- A line with its backslashes resolved, each character with whether it was protected, how much
of the input it took, and whether it was ended. -/
def readLine (raw : Bool) (delimiter : Char) : List Char → List (Char × Bool) × Nat × Bool
  | [] => ([], 0, false)
  | '\\' :: c :: rest =>
    if raw then
      let (line, n, ended) :=
        if c = delimiter then ([], 1, true) else
          let (line, n, ended) := readLine raw delimiter rest
          ((c, false) :: line, n + 1, ended)
      (('\\', false) :: line, n + 1, ended)
    else
      let (line, n, ended) := readLine raw delimiter rest
      (if c = '\n' then line else (c, true) :: line, n + 2, ended)
  | c :: rest =>
    if c = delimiter then ([], 1, true)
    else
      let (line, n, ended) := readLine raw delimiter rest
      ((c, false) :: line, n + 1, ended)

/-- Separators of a line: the ones that are blank and the others. -/
structure Separation where
  blanks : List Char
  others : List Char

def Separation.isBlank (s : Separation) (m : Char × Bool) : Bool := !m.2 && s.blanks.contains m.1

def Separation.isOther (s : Separation) (m : Char × Bool) : Bool := !m.2 && s.others.contains m.1

def plainLine (line : List (Char × Bool)) : String := String.ofList (line.map Prod.fst)

/-- Passes over one separator with the blanks around it. -/
def Separation.skip (s : Separation) (line : List (Char × Bool)) : List (Char × Bool) :=
  let line := line.dropWhile s.isBlank
  match line with
  | m :: rest => if s.isOther m then rest.dropWhile s.isBlank else line
  | [] => []

/-- The last field takes the rest, without blanks at its end and without a single separator. -/
def Separation.lastField (s : Separation) (line : List (Char × Bool)) : String :=
  let isSeparator := fun m => s.isBlank m || s.isOther m
  let first := line.takeWhile fun m => !isSeparator m
  let after := line.drop first.length
  let trimmed := (line.reverse.dropWhile s.isBlank).reverse
  if (s.skip after).isEmpty then plainLine first else plainLine trimmed

/-- Splits a line into a number of fields. -/
def Separation.fields (s : Separation) : Nat → List (Char × Bool) → List String
  | 0, _ => []
  | 1, line => [s.lastField line]
  | n + 1, line =>
    let field := line.takeWhile fun m => !(s.isBlank m || s.isOther m)
    plainLine field :: s.fields n (s.skip (line.drop field.length))

def read : Builtin := fun _ words => do
  let extended := (← get).extended
  let (given, names) ← shellOptions (if extended then "rp:d:n:N:a:u:t:s" else "rp:") words
  if names.isEmpty && !extended then fatal "arg count"
  let names := if names.isEmpty then ["REPLY"] else names
  names.forM checkName
  let source := ((given.find? fun g => g.1 = 'u').bind fun g => natural? g.2).getD 0
  let delimiter := ((given.find? fun g => g.1 = 'd').map fun g => g.2.toList.headD '\x00').getD '\n'
  let input ← lookAhead source
  let limit := (given.find? fun g => g.1 = 'n' || g.1 = 'N').bind fun g => natural? g.2
  let (line, n, ended) ← match limit with
    | some limit =>
      let part := (readLine (hasLetter given 'r') delimiter (input.take limit))
      pure (part.1, part.2.1, part.2.2 || limit ≤ input.length)
    | none => pure (readLine (hasLetter given 'r') delimiter input)
  take source n
  let line := line.filter fun m => m.1 != '\x00'
  let separators := (← separators).toList
  let s : Separation := ⟨separators.filter isSpace, separators.filter fun c => !isSpace c⟩
  let whole := extended && names = ["REPLY"]
  let fields := if whole then [plainLine line]
    else s.fields names.length (line.dropWhile s.isBlank)
  (names.zip fields).forM fun (name, value) => assign name value
  return if ended then 0 else 1

end SchemaDecl.Shell
