import SchemaDecl.Shell.Session
import SchemaDecl.TypeScript.FormatterTool

/-! A formatter's tool that is a program of a machine. Whatever is executable at the path
of the tool is started, so it may be a script that stands in for a formatter: what the
tool makes of a text is what the machine makes of that script, with the commands it is
written in and the programs it calls. -/

namespace SchemaDecl.Shell

open Files TypeScript

def launchOf : Except LaunchFault Finished → Launch
  | .ok f => .finished (f.status = some 0) f.output f.error
  | .error .missing => .missing
  | .error .notADirectory => .unreachable
  | .error .notPermitted => .notPermitted
  | .error .notAProgram | .error .nested => .notAProgram

def toolAt (directory : Location) (path : String) : Tool Machine := fun arguments input m =>
  let (result, m) := m.start directory path arguments input.toUTF8
  (launchOf result, m)

end SchemaDecl.Shell
