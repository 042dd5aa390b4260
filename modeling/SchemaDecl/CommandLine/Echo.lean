import SchemaDecl.Failure

/-! The command line as a comment shows it: the name of the program, the input
and the output, then the options in their fixed order. A value that names
something that exists is cut down to its last component. Parameters that are
missing, null, false or empty are left out. -/

namespace SchemaDecl.CommandLine

open Files

def programName : String := "json_schema_to_ts"

def echoValue (tree : Tree) (directory : Location) : Json → Except Failure String
  | .str s => do
    if ← (tree.isThere (Location.within directory s)).mapError Failure.file then
      return Location.name (Location.segmentsOf s)
    else return s
  | value => .ok value.display

inductive EchoKind
  | argument
  | value
  | flag
  | repeated
  deriving DecidableEq

structure EchoParameter where
  key : String
  kind : EchoKind
  option : String

def echoOptions : List EchoParameter :=
  [⟨"name", .value, "--name"⟩, ⟨"config", .value, "--config"⟩,
    ⟨"type_mapping", .repeated, "--type-mapping"⟩, ⟨"is_interface", .flag, "--interface"⟩,
    ⟨"force", .flag, "--force"⟩, ⟨"verbose", .flag, "--verbose"⟩]

def echoArguments : List EchoParameter := [⟨"path", .argument, ""⟩, ⟨"output", .argument, ""⟩]

/-- The entries of a value that stands for several. -/
def several : Json → Except Failure (List Json)
  | .arr items => .ok items
  | .str s => .ok (s.toList.map fun c => .str (String.singleton c))
  | .obj fields => .ok (fields.map fun f => f.1.toJson)
  | value => .error (.notText value)

def echoParameter (tree : Tree) (directory : Location) (parameters : Fields)
    (p : EchoParameter) : Except Failure (List String) := do
  let value := Fields.value parameters p.key
  if !value.truthy then return []
  match p.kind with
  | .argument => return [← echoValue tree directory value]
  | .value => return [p.option, ← echoValue tree directory value]
  | .flag => return [p.option]
  | .repeated =>
    let words ← (← several value).mapM (echoValue tree directory)
    return words.flatMap fun word => [p.option, word]

/-- Outside a running command there are no parameters. -/
def echo (tree : Tree) (directory : Location) (parameters : Fields) : Except Failure String := do
  let options ← echoOptions.mapM (echoParameter tree directory parameters)
  let arguments ← echoArguments.mapM (echoParameter tree directory parameters)
  return String.intercalate " " (programName :: arguments.flatten ++ options.flatten)

end SchemaDecl.CommandLine
