import SchemaDecl.Shell.Run

/-! Programs started from outside: with arguments and a text as input, in a
directory of a machine. What comes back is what the program wrote and how it
ended, or why it could not be started, and the machine as the program left it. -/

namespace SchemaDecl.Shell

open Files

structure Finished where
  /-- The status, unless a signal ended the program. -/
  status : Option Nat
  output : ByteArray
  error : ByteArray

/-- Variables that every program is started with. -/
def startVariables (directory : Location) : List (String × Variable) :=
  let exported := fun (name value : String) => (name, Variable.mk (some value) true false)
  [exported "PATH" "/usr/local/sbin:/usr/local/bin:/usr/sbin:/usr/bin:/sbin:/bin",
    exported "HOME" "/root", exported "LANG" "C.UTF-8",
    exported "PWD" (encode (Location.text directory))]

/-- The shell through which a program is started, with three streams. -/
def startShell (m : Machine) (directory : Location) (input : ByteArray) : Shell :=
  let streams := #[.source (ofBytes input).toList, .sink "", .sink ""]
  { machine := { m with streams }
    directory
    name := "sh"
    arguments := []
    bindings := startVariables directory
    saved := []
    functions := []
    documents := []
    announced := 0
    descriptors := [(0, 0), (1, 1), (2, 2)]
    flags := []
    status := 0
    substituted := 0
    lastJob := none
    tested := false
    mask := 0o022
    line := 1
    running := none
    extended := false
    traps := []
    loops := 0
    cluster := 0
    lost := false }

def taskDepth : Nat := 2000

/-- Starts the program at a path. -/
def Machine.start (m : Machine) (directory : Location) (path : String) (arguments : List String)
    (input : ByteArray) : Except LaunchFault Finished × Machine :=
  let path := encode path
  let program := launch (runTo taskDepth) launchDepth path path (arguments.map encode)
  let (result, s) := program.run (startShell m directory input)
  let finished := fun (status : Option Nat) =>
    Finished.mk status (toBytes (s.machine.written 1)) (toBytes (s.machine.written 2))
  let machine := { s.machine with streams := #[] }
  match result with
  | .ok (.error fault) => (.error fault, machine)
  | .ok (.ok status) => (.ok (finished (some status)), machine)
  | .error (.killed _) => (.ok (finished none), machine)
  | .error (.exit n) | .error (.fault n) | .error (.leave n) =>
    (.ok (finished (some n)), machine)
  | .error _ => (.ok (finished (some 0)), machine)

end SchemaDecl.Shell
