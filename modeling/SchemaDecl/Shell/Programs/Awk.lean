import SchemaDecl.Shell.Awk.Evaluation
import SchemaDecl.Shell.Awk.Parser
import SchemaDecl.Shell.Programs.Options

/-! The program that runs a script of patterns and actions: what stands on its command
line, and the order in which the rules run. After an early end of the first rules or
of the input the last rules still run. -/

namespace SchemaDecl.Shell.Awk

open Files

structure Call where
  separator : Option String
  assignments : List String
  files : List String
  words : List String

/-- Resolves the escapes in an argument. -/
def resolved (s : String) : String := Token.unescaped (s.length + 1) s.toList

/-- Reads the options, which end at the first word that is none. -/
def readCall : List String → Except String Call
  | [] => .ok ⟨none, [], [], []⟩
  | "--" :: rest => .ok ⟨none, [], [], rest⟩
  | word :: rest =>
    match word.toList, rest with
    | '-' :: 'F' :: [], value :: rest => do
      let c ← readCall rest
      return { c with separator := c.separator.orElse fun _ => some value }
    | '-' :: 'v' :: [], value :: rest => do
      let c ← readCall rest
      return { c with assignments := value :: c.assignments }
    | '-' :: 'f' :: [], value :: rest => do
      let c ← readCall rest
      return { c with files := value :: c.files }
    | '-' :: 'W' :: [], _ :: rest => readCall rest
    | '-' :: c :: [], [] =>
      .error (if "Fvf".toList.contains c then "option " ++ word ++ " lacks argument"
        else "not an option: " ++ word)
    | '-' :: 'F' :: value, rest => do
      let c ← readCall rest
      return { c with separator := c.separator.orElse fun _ => some (String.ofList value) }
    | '-' :: 'v' :: value, rest => do
      let c ← readCall rest
      return { c with assignments := String.ofList value :: c.assignments }
    | '-' :: 'f' :: value, rest => do
      let c ← readCall rest
      return { c with files := String.ofList value :: c.files }
    | '-' :: 'W' :: _, rest => readCall rest
    | '-' :: _ :: _, _ => .error ("not an option: " ++ word)
    | _, _ => .ok ⟨none, [], [], word :: rest⟩

/-- Catches what ends a rule early; whether the script ends. -/
def ruleEnds (m : AwkM Unit) : AwkM Bool := do
  match ← ending m with
  | .ok () | .error .next => return false
  | .error .exit => return true
  | .error .nextFile =>
    modify fun s => { s with input := none }
    return false
  | .error other => throw other

def runUntilExit (setting : Setting) (fuel : Nat) : List Statement → AwkM Bool
  | [] => return false
  | s :: rest => do
    if ← ruleEnds (execute setting fuel s) then return true
    else runUntilExit setting fuel rest

/-- Runs the rules on the record at hand. -/
def runRules (setting : Setting) (fuel : Nat) : List (Nat × Rule) → AwkM Unit
  | [] => return ()
  | (i, rule) :: rest => do
    match rule with
    | .start _ | .finish _ => pure ()
    | .records none body => execute setting fuel body
    | .records (some condition) body =>
      if (← value setting fuel condition).isTrue then execute setting fuel body
    | .range first last body =>
      let isOpen := (← get).openRanges.contains i
      let applies ← if isOpen then pure true else do pure (← value setting fuel first).isTrue
      if applies then
        let ends := (← value setting fuel last).isTrue
        modify fun s => { s with
          openRanges := if ends then s.openRanges.filter (· != i)
            else if isOpen then s.openRanges else i :: s.openRanges }
        execute setting fuel body
    runRules setting fuel rest

/-- Goes through the records; whether the script was ended. -/
def runRecords (setting : Setting) (fuel : Nat) (rules : List (Nat × Rule)) : Nat → AwkM Bool
  | 0 => return false
  | rounds + 1 => do
    match ← mainRecord setting.unescape fuel with
    | none => return false
    | some record =>
      let ended ← ruleEnds do
        setRecord record
        runRules setting fuel rules
      if ended then return true else runRecords setting fuel rules rounds

/-- How deep a script can go and how many rounds its loops can make. -/
def depth : Nat := 20000000

def runScript (setting : Setting) (s : Script) (assignments : List String) : AwkM Unit := do
  assignments.forM fun word => match assignment? word with
    | some (name, text) => setName name (.ofInput (resolved text))
    | none => throw (.fault ("improper assignment: -v " ++ word) false)
  let starts := s.rules.filterMap fun
    | .start body => some body
    | _ => none
  let finishes := s.rules.filterMap fun
    | .finish body => some body
    | _ => none
  let others := s.rules.zipIdx.filterMap fun (rule, i) => match rule with
    | .records .. | .range .. => some (i, rule)
    | _ => none
  let ended ← runUntilExit setting depth starts
  let reads := !others.isEmpty || !finishes.isEmpty
  if !ended && reads then
    discard (runRecords setting depth others depth)
  discard (runUntilExit setting depth finishes)

def initial (name : String) (s : Script) (words : List String)
    (environment : List (String × String)) : State :=
  let put := fun (m : Std.HashMap String Slot) (name : String) (v : Value) =>
    m.insert name (.value v)
  let globals := [("FS", " "), ("OFS", " "), ("ORS", "\n"), ("RS", "\n"), ("SUBSEP", "\x1c"),
    ("CONVFMT", "%.6g"), ("OFMT", "%.6g"), ("FILENAME", "")].foldl
      (fun m (name, text) => put m name (.text text)) {}
  let globals := ["NF", "NR", "FNR", "RSTART"].foldl (fun m name => put m name (.number 0)) globals
  let globals := put globals "RLENGTH" (.number (-1))
  let globals := put globals "ARGC" (.ofNat (words.length + 1))
  let arguments := ((name :: words).zipIdx).foldl
    (fun (t : Table) (w, i) => t.set (.number i) (.ofInput w)) .empty
  let bindings := environment.foldl
    (fun (t : Table) (name, text) => t.set (.name name) (.ofInput text)) .empty
  { program := name
    globals := (globals.insert "ARGV" (.table 0)).insert "ENVIRON" (.table 1)
    locals := none
    tables := #[arguments, bindings]
    functions := s.functions.map fun f => (f.name, f)
    record := ""
    fields := #[]
    input := none
    position := 1
    hadFile := false
    openRanges := []
    pending := ""
    outputs := []
    readers := []
    seed := 1
    status := 0 }

/-- Where in the input the script was. -/
def placeText : AwkM String := do
  let text := fun (name : String) => do asText (← plainValue name)
  return "\tFILENAME=\"" ++ (← text "FILENAME") ++ "\" FNR=" ++ (← text "FNR") ++ " NR=" ++
    (← text "NR") ++ "\n"

/-- Runs a script to its end, and closes what it opened. -/
def wholeRun (setting : Setting) (s : Script) (assignments : List String) : AwkM Nat := do
  let status ← match ← ending (runScript setting s assignments) with
    | .error (.fault message located) => do
      flush
      let place ← if located then placeText else pure ""
      lifted (put 2 ((← get).program ++ ": " ++ message ++ "\n" ++ place))
      pure 2
    | _ => pure (← get).status
  closeAll setting.run ((← get).outputs.length + 1)
  return status

/-- The text of a script out of files. -/
def sourceOf (name : String) : List String → ShellM (Option String)
  | [] => return some ""
  | file :: rest => do
    let text ← if file = "-" then pure (.ok (← readAll 0)) else readFile file
    match text with
    | .error fault =>
      tell name (openFailure file fault "")
      return none
    | .ok text => match ← sourceOf name rest with
      | none => return none
      | some others => return some (text ++ (if rest.isEmpty then "" else "\n") ++ others)

def awk (run : Runner) : Program := fun name arguments => do
  if arguments.head? = some "--version" then
    out (name ++ "\n")
    return 0
  match readCall arguments with
  | .error message =>
    tell name message
    return 2
  | .ok c =>
    let found ← match c.files, c.words with
      | [], [] => do
        put 2 "Usage: mawk [Options] [Program] [file ...]\n"
        pure none
      | [], source :: words => pure (some (source, words))
      | files, words => do pure ((← sourceOf name files).map fun s => (s, words))
    match found with
    | none => return 2
    | some (source, words) => match Reading.readScript source with
      | .error messages =>
        messages.forM (tell name)
        return 2
      | .ok script =>
        let environment := (← get).bindings.filterMap fun (name, v) =>
          if v.exported then v.value.map fun text => (name, text) else none
        let state := initial name script words environment
        let state := match c.separator with
          | some s =>
            { state with globals := state.globals.insert "FS" (.value (.text (resolved s))) }
          | none => state
        let (result, _) ← (wholeRun ⟨run, resolved⟩ script c.assignments).run.run state
        match result with
        | .ok status => return status
        | .error _ => return 2

end SchemaDecl.Shell.Awk
