import SchemaDecl.CommandLine.Arguments
import SchemaDecl.CommandLine.Echo
import SchemaDecl.Files.Writer
import SchemaDecl.Interface

/-! One run of the command on a file tree. The configuration is read first, then
the entries on the command line are laid over its type names, then the input is
read and its declarations are made, and at last they are printed or written.
What the user can mend ends the run with a message; a value of the wrong kind
ends it as a failure without one. What was reported before the end is shown in
any case, all of it on request and the warnings otherwise. -/

namespace SchemaDecl.CommandLine

open Files

inductive Stop
  | usage (fault : UsageFault)
  | message (text : String)
  | failure (failure : Failure)

structure State where
  tree : Tree
  events : List Event
  printed : String

abbrev Command := ExceptT Stop (StateM State)

structure Outcome where
  exitCode : Nat
  standardOutput : String
  standardError : String
  failure : Option Failure

def failing (result : Except Failure α) : Command α := result.mapError Stop.failure

/-- Failures that are told to the user in a message of their own. -/
def explained (path : Location) : Failure → Stop
  | .malformed error =>
    if error.fault.isMalformed then
      .message (path.text ++ " is not valid JSON: " ++ error.message)
    else .failure (.malformed error)
  | .reported message => .message message
  | .rejected fault => .message fault.message
  | .outputExists output => .message ((Failure.outputExists output).message?.getD "")
  | .file (.alreadyThere output) =>
    .message ("[Errno 17] File exists: " ++ Json.showText output)
  | failure => .failure failure

def readFile (path : Location) : Command String := do
  failing (((← get).tree.readText path).mapError Failure.file)

def readConfig (path : Option Location) : Command Config := do
  match path with
  | none => return {}
  | some path =>
    let text ← readFile path
    let value ← failing ((Json.read text).mapError Failure.malformed)
    failing ((Config.ofJson value).mapError Failure.config)

/-- Type names of the configuration, which have to be an object, under the given entries. -/
def mergeTypeNames (config : Config) (texts : List String) : Command Fields := do
  match config.typeMapping with
  | some (.obj fields) =>
    let entries ← (entries texts).mapError Stop.usage
    return Fields.update fields entries
  | some value => throw (.failure (.config (.notAnObject value)))
  | none => throw (.failure (.config (.missing "custom_type_mapping")))

/-- Whether the output may replace a file, and whether it is checked before. -/
structure Writing where
  overwrite : Bool
  check : Bool

def outputOf (config : Config) : Command OutputConfig :=
  match config.output with
  | some output => return output
  | none => throw (.failure (.config (.missing "output")))

def writing (config : Config) (force : Bool) : Command Writing := do
  let output ← outputOf config
  return ⟨force || output.mode.overwrites, output.validate.truthy⟩

def perform (path : Location) (run : Run α) : Command α := do
  let (outcome, trace) := run.outcome
  modify fun state => { state with events := state.events ++ trace.events }
  outcome.mapError (explained path)

def declarations (arguments : Arguments) (typeNames : Fields) (text : String) : Run String := do
  if arguments.interface then
    let payload ← (Json.read text).mapError Failure.malformed
    let interface ← Interface.load payload
    interface.declare standardBackend (.obj typeNames) (arguments.name.getD "")
  else
    let name := arguments.name.getD (Name.toPascal (Location.stem arguments.path.name))
    let schema ← (loadSchema (.obj typeNames) text : Except _ _)
    declare (standardBackend name) schema name

def optional (value : Option Json) : Json := value.getD .null

def parametersOf (a : Arguments) : Fields :=
  [("name", optional (a.name.map .str)), ("config", optional (a.config.map fun l => .str l.text)),
    ("type_mapping", .arr (a.typeMapping.map .str)), ("is_interface", .bool a.interface),
    ("force", .bool a.force), ("verbose", .bool a.verbose), ("path", .str a.path.text),
    ("output", optional (a.output.map fun l => .str l.text))]

def commented (directory : Location) (arguments : Arguments) (config : Config) (code : String) :
    Command String := do
  if config.comment.truthy then
    let line ← failing (echo (← get).tree directory (parametersOf arguments))
    return "// Generated by " ++ line ++ "\n\n" ++ code
  else return code

def writeOutput (config : Config) (force : Bool) (target : Location) (content : String) :
    Command Unit := do
  let mode ← writing config force
  let action := if mode.overwrite then write else writeNew
  let (result, tree) := (action standardCheck target content mode.check).run.run (← get).tree
  modify fun state => { state with tree }
  result.mapError (explained target)

def runWith (directory : Location) (arguments : Arguments) : Command Unit := do
  let config ← readConfig arguments.config
  let typeNames ← mergeTypeNames config arguments.typeMapping
  if arguments.force then discard (outputOf config)
  let text ← readFile arguments.path
  let code ← perform arguments.path (declarations arguments typeNames text)
  let content := (← commented directory arguments config code) ++ "\n"
  match arguments.output with
  | none => modify fun state => { state with printed := content }
  | some target => writeOutput config arguments.force target content

/-- Whether all events are shown: the option is looked for only in arguments that are in order. -/
def isVerbose : Except UsageFault Invocation → Bool
  | .ok (.run arguments) => arguments.verbose
  | _ => false

def shownEvents (verbose : Bool) (events : List Event) : String :=
  let lines := if verbose then events.map Event.line else Event.warnings events
  String.join (lines.map (· ++ "\n"))

def errorText (fault : String) : String := "Error: " ++ fault ++ "\n"

def run (tree : Tree) (directory : Location) (texts : List String) : Outcome × Tree :=
  let invocation := read tree directory texts
  let command : Command Unit := match invocation with
    | .error .impossiblePath => throw (.failure (.file .impossibleName))
    | .error fault => throw (.usage fault)
    | .ok .help => return ()
    | .ok (.run arguments) => runWith directory arguments
  let (result, state) := command.run.run ⟨tree, [], ""⟩
  let shown := shownEvents (isVerbose invocation) state.events
  let outcome : Outcome := match result with
    | .ok () => ⟨0, state.printed, shown, none⟩
    | .error (.usage fault) => ⟨2, "", shown ++ errorText fault.message, none⟩
    | .error (.message text) => ⟨1, "", shown ++ errorText text, none⟩
    | .error (.failure failure) => ⟨1, "", shown, some failure⟩
  (outcome, state.tree)

end SchemaDecl.CommandLine
