import SchemaDecl.Config
import SchemaDecl.Files.Tree
import SchemaDecl.Json.Reader
import SchemaDecl.Schema.Walk
import SchemaDecl.TypeScript.Compile
import SchemaDecl.TypeScript.OutputCheck

/-! Everything that can go wrong between an input and its declarations, one
constructor for each cause. Causes that are the user's to mend carry a message;
the others say that a value was of the wrong kind. -/

namespace SchemaDecl

open TypeScript

inductive Failure
  /-- A text is no JSON. -/
  | malformed (error : Json.ReadError)
  /-- The service answered with an error of its own. -/
  | reported (message : String)
  | rejected (fault : OutputCheck.Fault)
  /-- A value whose fields are asked for is no object. -/
  | notAnObject (value : Json)
  /-- A value that is to be read as text is none. -/
  | notText (value : Json)
  | fold (fault : Schema.FoldFault)
  | type (fault : TypeFault)
  | formatter (fault : FormatterFault)
  /-- A compiler or check supplied from outside refused with this message. -/
  | refused (message : String)
  | config (fault : ConfigFault)
  | file (fault : Files.FileFault)
  /-- The output file is there and must not be overwritten. -/
  | outputExists (path : String)
  deriving DecidableEq

namespace Failure

def ofCompileFault : CompileFault → Failure
  | .type fault => .type fault
  | .formatter fault => .formatter fault

def message? : Failure → Option String
  | .malformed error => some error.message
  | .reported message => some message
  | .rejected fault => some fault.message
  | .refused message => some message
  | .config (.unknownMode value) => some (value.shown ++ " is not a valid OutputMode")
  | .file .impossibleName => some "embedded null byte"
  | .outputExists path =>
    some ("Output file already exists: " ++ path ++ ". Use force mode to overwrite.")
  | .notAnObject _ | .notText _ | .fold _ | .type _ | .formatter _ | .config _ | .file _ => none

end Failure

end SchemaDecl
