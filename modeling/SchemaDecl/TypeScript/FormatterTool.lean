import SchemaDecl.Text.Blank
import SchemaDecl.Text.Lines
import SchemaDecl.TypeScript.Formatter

/-! A formatter that is a command line tool. The tool counts as installed when it
can be started and answers the question for its version with success; once the
answer is known it is not asked for again. The tool reads the code from its
standard input and is told how to indent: with tabs when the indentation is one
tab, otherwise with as many blanks as the indentation is long. If it fails, the
code stays as it is and what the tool said is reported. -/

namespace SchemaDecl.TypeScript

inductive Launch
  | missing
  | notPermitted
  | notAProgram
  /-- Something on the way to the tool is no directory. -/
  | unreachable
  | finished (success : Bool) (output error : ByteArray)

/-- What a tool does with its arguments and its standard input, in a world that it may change. -/
abbrev Tool (σ : Type) := List String → String → StateM σ Launch

structure ToolState (σ : Type) where
  world : σ
  /-- Whether the tool is installed, once that is known. -/
  installed : Option Bool

abbrev ToolM (σ : Type) := ExceptT FormatterFault (StateM (ToolState σ))

namespace Tool

def decode (bytes : ByteArray) : Except FormatterFault String :=
  match String.fromUTF8? bytes with
  | some text => .ok (Text.unifyLineEnds text)
  | none => .error .notText

structure Answer where
  success : Bool
  output : String
  error : String

/-- A tool that is missing gives no answer. -/
def answerOf : Launch → Except FormatterFault (Option Answer)
  | .missing => .ok none
  | .notPermitted => .error .notPermitted
  | .notAProgram => .error .notAProgram
  | .unreachable => .error .unreachable
  | .finished success output error => do
    return some ⟨success, ← decode output, ← decode error⟩

def ask (tool : Tool σ) (arguments : List String) (input : String) : ToolM σ (Option Answer) :=
  ExceptT.mk fun s =>
    let (launch, world) := tool arguments input s.world
    (answerOf launch, { s with world })

def isInstalled (tool : Tool σ) : ToolM σ Bool := do
  match (← get).installed with
  | some installed => return installed
  | none => do
    let answer ← tool.ask ["--version"] ""
    let installed := (answer.map Answer.success).getD false
    modify fun s => { s with installed := some installed }
    return installed

def formatArguments (options : Options) : List String :=
  ["--parser", "typescript", "--stdin-filepath", "types.ts"] ++
    if options.indent = "\t" then ["--use-tabs"]
    else ["--tab-width", toString options.indent.length]

def format (tool : Tool σ) (code : String) (options : Options) : ToolM σ (String × List Event) := do
  if ← tool.isInstalled then
    match ← tool.ask (formatArguments options) code with
    | some ⟨true, output, _⟩ => return (output, [])
    | some ⟨false, _, error⟩ => return (code, [.formatterFailed (Text.strip error)])
    | none => throw .missing
  else return (code, [.formatterMissing])

end Tool

end SchemaDecl.TypeScript
