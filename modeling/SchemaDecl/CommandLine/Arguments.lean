import SchemaDecl.CommandLine.Suggestion
import SchemaDecl.Files.Tree
import SchemaDecl.Json.Display
import SchemaDecl.Json.Fields
import SchemaDecl.Text.Blank

/-! Arguments of the command. Options may stand anywhere before a `--`; a long
one takes its value after `=` or from the next argument, short ones may be run
together and take the rest of their argument, or the next one, as value. A value
is taken as it comes, also when it looks like an option. What is left are the
input and the output. The checks on values follow the order in which their
options are given; the input comes after them and superfluous arguments last. -/

namespace SchemaDecl.CommandLine

open Files

inductive Opt
  | name
  | config
  | typeMapping
  | interface
  | force
  | verbose
  | help
  deriving DecidableEq

def Opt.takesValue : Opt → Bool
  | .name | .config | .typeMapping => true
  | .interface | .force | .verbose | .help => false

def longOptions : List (String × Opt) :=
  [("--name", .name), ("--config", .config), ("--type-mapping", .typeMapping),
    ("--interface", .interface), ("--force", .force), ("--verbose", .verbose), ("--help", .help)]

def shortOptions : List (Char × Opt) :=
  [('n', .name), ('c', .config), ('m', .typeMapping), ('v', .verbose)]

inductive UsageFault
  | unknownOption (option : String) (similar : List String)
  | valueMissing (option : String)
  | valueNotTaken (option : String)
  | pathMissing
  | noSuchPath (parameter path : String)
  | extraArguments (arguments : List String)
  | malformedEntry (entry : String)
  /-- A path that no file can have, which is not told to the user. -/
  | impossiblePath
  deriving DecidableEq

def UsageFault.message : UsageFault → String
  | .impossiblePath => ""
  | .unknownOption option [] => "No such option: " ++ option
  | .unknownOption option [word] =>
    "No such option: " ++ option ++ " Did you mean " ++ word ++ "?"
  | .unknownOption option words =>
    "No such option: " ++ option ++ " (Possible options: " ++ String.intercalate ", " words ++ ")"
  | .valueMissing option => "Option " ++ Json.showText option ++ " requires an argument."
  | .valueNotTaken option => "Option " ++ Json.showText option ++ " does not take a value."
  | .pathMissing => "Missing argument 'PATH'."
  | .noSuchPath parameter path =>
    "Invalid value for " ++ parameter ++ ": Path " ++ Json.showText path ++ " does not exist."
  | .extraArguments [argument] => "Got unexpected extra argument (" ++ argument ++ ")"
  | .extraArguments arguments =>
    "Got unexpected extra arguments (" ++ String.intercalate " " arguments ++ ")"
  | .malformedEntry entry =>
    "Invalid value for --type-mapping: Expected SOURCE=TARGET, got " ++ Json.showText entry

/-! Splitting the arguments. -/

/-- An option and its value; options without a value have an empty one. -/
abbrev Given := Opt × String

/-- Options found in one argument, and one that waits for the next argument as its value. -/
structure Found where
  given : List Given
  waiting : Option (Opt × String)

def longOption (long : String) (attached : Option String) (option : Opt) :
    Except UsageFault Found :=
  match option.takesValue, attached with
  | true, some value => .ok ⟨[(option, value)], none⟩
  | true, none => .ok ⟨[], some (option, long)⟩
  | false, some _ => .error (.valueNotTaken long)
  | false, none => .ok ⟨[(option, "")], none⟩

def shortCluster : List Char → Except UsageFault Found
  | [] => .ok ⟨[], none⟩
  | c :: rest =>
    let written := "-" ++ String.singleton c
    match shortOptions.lookup c with
    | none => .error (.unknownOption written [])
    | some option =>
      if option.takesValue then
        if rest.isEmpty then .ok ⟨[], some (option, written)⟩
        else .ok ⟨[(option, String.ofList rest)], none⟩
      else do
        let found ← shortCluster rest
        return { found with given := (option, "") :: found.given }

/-- An argument is looked up as a long option first, also with a single dash. -/
def optionArgument (argument : String) : Except UsageFault Found :=
  let (before, after) := Text.cutAt '=' argument.toList
  let long := String.ofList before
  match longOptions.lookup long, argument.toList with
  | some option, _ => longOption long (after.map String.ofList) option
  | none, '-' :: '-' :: _ =>
    .error (.unknownOption long (suggestions long (longOptions.map Prod.fst)))
  | none, cs => shortCluster (cs.drop 1)

def isOptionArgument (argument : String) : Bool :=
  match argument.toList with
  | '-' :: _ :: _ => true
  | _ => false

/-- Options and the remaining arguments, both in order. -/
def split : List String → Except UsageFault (List Given × List String)
  | [] => .ok ([], [])
  | argument :: rest =>
    if argument = "--" then .ok ([], rest)
    else if isOptionArgument argument then do
      let found ← optionArgument argument
      match found.waiting, rest with
      | none, rest =>
        let (given, others) ← split rest
        return (found.given ++ given, others)
      | some (option, _), value :: rest =>
        let (given, others) ← split rest
        return (found.given ++ (option, value) :: given, others)
      | some (_, written), [] => throw (.valueMissing written)
    else do
      let (given, others) ← split rest
      return (given, argument :: others)

/-! What the arguments ask for. -/

structure Arguments where
  name : Option String
  config : Option Location
  typeMapping : List String
  interface : Bool
  force : Bool
  verbose : Bool
  path : Location
  output : Option Location
  deriving DecidableEq

inductive Invocation
  | help
  | run (arguments : Arguments)

def place (directory : Location) (path : String) : Except UsageFault Location :=
  let l := Location.within directory path
  if l.isPossible then .ok l.collapse else .error .impossiblePath

def existingPlace (tree : Tree) (directory : Location) (parameter path : String) :
    Except UsageFault Location := do
  let l ← place directory path
  match tree.find l with
  | .ok _ => return l
  | .error _ => throw (.noSuchPath parameter path)

def lastValue (given : List Given) (option : Opt) : Option String :=
  (given.reverse.find? fun g => g.1 = option).map Prod.snd

def read (tree : Tree) (directory : Location) (arguments : List String) :
    Except UsageFault Invocation := do
  let (given, others) ← split arguments
  let has := fun option => given.any fun g => g.1 = option
  if has .help then return .help
  let config ← (lastValue given .config).mapM (existingPlace tree directory "'--config' / '-c'")
  let path ← match others with
    | [] => throw .pathMissing
    | path :: _ => existingPlace tree directory "'PATH'" path
  let output ← others[1]?.mapM (place directory)
  if 2 < others.length then throw (.extraArguments (others.drop 2))
  return .run {
    name := lastValue given .name
    config
    typeMapping := (given.filter fun g => g.1 = .typeMapping).map Prod.snd
    interface := has .interface
    force := has .force
    verbose := has .verbose
    path
    output }

/-! Entries of the form `SOURCE=TARGET`. -/

/-- The two sides without the blanks around them; neither may be blank. -/
def entryOf? (entry : String) : Option (String × String) :=
  match Text.cutAt '=' entry.toList with
  | (_, none) => none
  | (source, some target) =>
    let source := Text.trim source
    let target := Text.trim target
    if source.isEmpty || target.isEmpty then none
    else some (String.ofList source, String.ofList target)

/-- Names of types and what they stand for; a later entry for the same name counts. -/
def entries (texts : List String) : Except UsageFault Fields := do
  let entries ← texts.mapM fun text => match entryOf? text with
    | some (source, target) => .ok (Key.str source, Json.str target)
    | none => .error (.malformedEntry text)
  return Fields.ofList entries

end SchemaDecl.CommandLine
