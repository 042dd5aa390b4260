import SchemaDecl.TypeScript.Formatter
import SchemaDecl.TypeScript.Render

/-! Compilation of a prepared schema into a source file that declares one root
type. A compiler is made once and may be run many times: it keeps its formatter
and the names no enum may take, and a run starts from these alone, whatever an
earlier run has left behind. -/

namespace SchemaDecl.TypeScript

inductive CompileFault
  | type (fault : TypeFault)
  | formatter (fault : FormatterFault)
  deriving DecidableEq

structure Compiler where
  formatter : Formatter
  reserved : List String
  options : Options
  enums : List EnumDeclaration
  taken : List String

/-- Outcome of a run, and what it reported on the way. -/
structure Compiled where
  result : Except CompileFault String
  events : List Event

namespace Compiler

def new (formatter : Formatter) (reserved : List String) : Compiler :=
  ⟨formatter, reserved, {}, [], []⟩

def startState (c : Compiler) (name : String) : RenderState :=
  ⟨[], Name.toIdentifier name :: c.reserved, []⟩

def sourceFile (options : Options) (root : RootDeclaration) (state : RenderState) : SourceFile :=
  ⟨root, if options.declareReferenced then state.enums else []⟩

def formatted (c : Compiler) (options : Options) (code : String) :
    Except FormatterFault (String × List Event) :=
  if options.format then c.formatter code options else .ok (code, [])

def rendered (c : Compiler) (schema : Json) (name : String) (options : Options) :
    Except TypeFault RootDeclaration × RenderState :=
  (renderRoot options schema (Name.toIdentifier name)).run.run (c.startState name)

def finished (c : Compiler) (options : Options) (state : RenderState) :
    Except TypeFault RootDeclaration → Compiled
  | .error fault => ⟨.error (.type fault), state.events⟩
  | .ok root => match c.formatted options ((sourceFile options root state).text options) with
    | .error fault => ⟨.error (.formatter fault), state.events⟩
    | .ok (code, events) => ⟨.ok code, state.events ++ events⟩

/-- The outcome of a run and the compiler after it. -/
def compile (c : Compiler) (schema : Json) (name : String) (options : Options) :
    Compiled × Compiler :=
  let (outcome, state) := c.rendered schema name options
  (c.finished options state outcome,
    { c with options := options, enums := state.enums, taken := state.taken })

theorem compile_keeps (c : Compiler) (schema : Json) (name : String) (options : Options) :
    (c.compile schema name options).2.formatter = c.formatter ∧
      (c.compile schema name options).2.reserved = c.reserved := ⟨rfl, rfl⟩

/-- The code of a run, or its first fault: that of the rendering, or that of the formatter. -/
theorem result_compile (c : Compiler) (schema : Json) (name : String) (options : Options) :
    (c.compile schema name options).1.result = match c.rendered schema name options with
      | (.error fault, _) => .error (.type fault)
      | (.ok root, state) =>
        ((c.formatted options ((sourceFile options root state).text options)).map
          Prod.fst).mapError .formatter := by
  unfold compile
  rcases c.rendered schema name options with ⟨fault | root, state⟩
  · rfl
  · simp only [finished]
    cases c.formatted options ((sourceFile options root state).text options) <;> rfl

end Compiler

end SchemaDecl.TypeScript
