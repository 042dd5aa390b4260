import SchemaDecl.Event
import SchemaDecl.TypeScript.Options

/-! Formatters of generated code. A formatter is a function of the code and the
options; besides the formatted code it may report events, and it may fail where
its tool cannot be started or answers with something that is no text. -/

namespace SchemaDecl.TypeScript

inductive FormatterFault
  /-- The tool was there before and is gone. -/
  | missing
  | notPermitted
  | notAProgram
  | unreachable
  | notText
  deriving DecidableEq

abbrev Formatter := String → Options → Except FormatterFault (String × List Event)

/-- With no tool installed the code stays as it is. -/
def Formatter.absent : Formatter := fun code _ => .ok (code, [.formatterMissing])

end SchemaDecl.TypeScript
