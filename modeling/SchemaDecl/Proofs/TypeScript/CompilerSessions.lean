import Mathlib.Data.List.Induction
import SchemaDecl.TypeScript.Compile

/-! Sessions of a compiler: several runs, one after the other. A compiler keeps the
options, enums and names of its latest run, also of one that broke off halfway,
and the next run puts its own in their place before it reads any. So the outcome
of a run depends on the formatter and the reserved names alone, and these never
change. -/

namespace SchemaDecl.TypeScript

/-- A run that is asked for. Without options it has the default ones. -/
structure Task where
  schema : Json
  name : String
  options : Option Options

namespace Compiler

def perform (c : Compiler) (task : Task) : Compiled × Compiler :=
  c.compile task.schema task.name (task.options.getD {})

/-- The outcomes of several runs, and the compiler after them. -/
def session (c : Compiler) : List Task → List Compiled × Compiler
  | [] => ([], c)
  | task :: tasks =>
    let run := c.perform task
    let later := run.2.session tasks
    (run.1 :: later.1, later.2)

/-! A run as a sequence of changes to the compiler. -/

/-- The compiler with everything set for a run. -/
def readied (c : Compiler) (task : Task) : Compiler :=
  { c with
    options := task.options.getD {}
    enums := []
    taken := Name.toIdentifier task.name :: c.reserved }

/-- The state of a renderer that starts from what the compiler keeps. -/
def renderState (c : Compiler) : RenderState := ⟨c.enums, c.taken, []⟩

def keeping (c : Compiler) (state : RenderState) : Compiler :=
  { c with enums := state.enums, taken := state.taken }

/-- A compiler that is ready renders with its own options, enums and names, and keeps what the
rendering leaves, also when it ends in a fault. -/
def advanced (c : Compiler) (schema : Json) (name : String) : Compiled × Compiler :=
  let run := (renderRoot c.options schema (Name.toIdentifier name)).run.run c.renderState
  (c.finished c.options run.2 run.1, c.keeping run.2)

theorem perform_eq (c : Compiler) (task : Task) :
    c.perform task = (c.readied task).advanced task.schema task.name := rfl

/-! Compilers that cannot be told apart. -/

/-- The compilers differ at most in what they keep of an earlier run. -/
structure Interchangeable (c c' : Compiler) : Prop where
  formatter : c.formatter = c'.formatter
  reserved : c.reserved = c'.reserved

namespace Interchangeable
variable {c c' c'' : Compiler}

theorem refl (c : Compiler) : c.Interchangeable c := ⟨rfl, rfl⟩

theorem trans (h : c.Interchangeable c') (h' : c'.Interchangeable c'') : c.Interchangeable c'' :=
  ⟨h.formatter.trans h'.formatter, h.reserved.trans h'.reserved⟩

/-- Nothing of an earlier run is left when a compiler is ready for the next. -/
theorem readied_eq (h : c.Interchangeable c') (task : Task) : c.readied task = c'.readied task := by
  rw [readied, readied, h.formatter, h.reserved]

theorem perform_eq (h : c.Interchangeable c') (task : Task) : c.perform task = c'.perform task := by
  rw [Compiler.perform_eq, Compiler.perform_eq, h.readied_eq task]

theorem of_perform (c : Compiler) (task : Task) : (c.perform task).2.Interchangeable c :=
  have hkeeps := c.compile_keeps task.schema task.name (task.options.getD {})
  ⟨hkeeps.1, hkeeps.2⟩

theorem of_session (c : Compiler) (tasks : List Task) : (c.session tasks).2.Interchangeable c := by
  induction tasks generalizing c with
  | nil => exact .refl c
  | cons task tasks ih => exact (ih (c.perform task).2).trans (.of_perform c task)
end Interchangeable

theorem session_append (c : Compiler) (earlier later : List Task) :
    (c.session (earlier ++ later)).1 =
      (c.session earlier).1 ++ ((c.session earlier).2.session later).1 := by
  induction earlier generalizing c with
  | nil => rfl
  | cons task earlier ih =>
    simp only [List.cons_append, session, ih]

/-- Every run of a session ends as it does on a compiler that was just made, whatever came before
it. -/
theorem session_outcomes (formatter : Formatter) (reserved : List String) (tasks : List Task) :
    ((new formatter reserved).session tasks).1 =
      tasks.map fun task => ((new formatter reserved).perform task).1 := by
  induction tasks using List.reverseRecOn with
  | nil => rfl
  | append_singleton earlier task ih =>
    have hsame := Interchangeable.of_session (new formatter reserved) earlier
    rw [session_append, ih, List.map_append]
    simp only [session, List.map_cons, List.map_nil, hsame.perform_eq task]

/-- An enum that was declared before a fault is still there after it. -/
example : ((new Formatter.absent []).perform
    ⟨.obj [("oneOf", .arr [.obj [("enum", .arr [.int 1]), ("tsEnumNames", .arr [.str "A"])],
      .obj [("tsType", .arr [])]])], "T", none⟩).2.taken = ["T2", "T"] := by decide +kernel

end Compiler

end SchemaDecl.TypeScript
